/-
# The crossbar

The address decoders of the crossbar (`axi_address_decoder_AW.sv`,
`axi_address_decoder_AR.sv`) compare an address with the region of each peripheral
and mask the matches with the connectivity of the cycle.
-/
import Ariane.Soc.AccessCtrl

namespace Ariane
namespace Soc

open Riscv

/-- `match_region`: `end_addr` is `Base + Length - 1`, in 64 bits. -/
def matchRegion (addr : BitVec 64) (j : Periph) : Bool :=
  decide (j.base ≤ addr) && decide (addr ≤ j.base + j.length - 1)

/-- `match_region_masked`: the request of master `i` goes out on port `j`. -/
def matchRegionMasked (mem : AcctMem) (p : PrivLvl) (i : Fin nrSlaves) (addr : BitVec 64) (j : Periph) :
    Bool := matchRegion addr j && connectivity mem p i j

/-- The request is answered with an error: no port takes it. -/
def errorDetected (mem : AcctMem) (p : PrivLvl) (i : Fin nrSlaves) (addr : BitVec 64) : Bool :=
  !Periph.all.any (matchRegionMasked mem p i addr)

theorem not_masked_of_denied {mem : AcctMem} {p : PrivLvl} {i : Fin nrSlaves} {j : Periph}
    (h : connectivity mem p i j = false) (addr : BitVec 64) :
    matchRegionMasked mem p i addr j = false := by
  rw [matchRegionMasked, h, Bool.and_false]

end Soc
end Ariane
