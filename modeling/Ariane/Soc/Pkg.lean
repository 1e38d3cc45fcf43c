/-
# The SoC

`tb/ariane_soc_pkg.sv`: the ports of the crossbar and the address map.
-/
import Mathlib.Data.BitVec
import Ariane.Lib.Sizes

namespace Ariane
namespace Soc

/-- `NrSlaves`: the masters of the bus, which are slaves on the crossbar. -/
abbrev nrSlaves : ℕ := 3

/-- `NB_PERIPHERALS`. -/
abbrev nbPeripherals : ℕ := 17

/-- `axi_slaves_t`: the ports of the crossbar to the peripherals. -/
inductive Periph
  | dram | gpio | ethernet | spi | timer | hmac | reglk | dma | acct | pkt | sha256 | aes
  | uart | plic | clint | rom | debug
deriving DecidableEq, Repr

namespace Periph

def id : Periph → ℕ
  | dram => 0 | gpio => 1 | ethernet => 2 | spi => 3 | timer => 4 | hmac => 5
  | reglk => 6 | dma => 7 | acct => 8 | pkt => 9 | sha256 => 10 | aes => 11
  | uart => 12 | plic => 13 | clint => 14 | rom => 15 | debug => 16

theorem id_lt (j : Periph) : j.id < nbPeripherals := by
  cases j <;> decide

/-- The first address of a peripheral. -/
def base : Periph → BitVec 64
  | debug => 0x00000000
  | rom => 0x00010000
  | clint => 0x02000000
  | plic => 0x0C000000
  | uart => 0x10000000
  | aes => 0x10100000
  | sha256 => 0x10200000
  | pkt => 0x10300000
  | acct => 0x10400000
  | dma => 0x10500000
  | reglk => 0x10600000
  | hmac => 0x10700000
  | timer => 0x18000000
  | spi => 0x20000000
  | ethernet => 0x30000000
  | gpio => 0x40000000
  | dram => 0x80000000

/-- The length of its region. -/
def length : Periph → BitVec 64
  | debug => 0x1000
  | rom => 0x10000
  | clint => 0xC0000
  | plic => 0x3FFFFFF
  | uart => 0x1000
  | aes => 0x1000
  | sha256 => 0x1000
  | pkt => 0x1000
  | acct => 0x1000
  | dma => 0x1000
  | reglk => 0x1000
  | hmac => 0x1000
  | timer => 0x10000000
  | spi => 0x800000
  | ethernet => 0x10000
  | gpio => 0x1000
  | dram => 0x40000000

/-- The peripherals, in the order of the enumeration. -/
def all : List Periph :=
  [dram, gpio, ethernet, spi, timer, hmac, reglk, dma, acct, pkt, sha256, aes, uart, plic, clint,
    rom, debug]

end Periph

end Soc
end Ariane
