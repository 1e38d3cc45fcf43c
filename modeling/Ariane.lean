import Ariane.Csr.Isolation
import Ariane.Decode.Decoder
import Ariane.Csr.Privilege
import Ariane.Core.SingleStep
import Ariane.Soc.AccessCtrl
import Ariane.Debug.DmiJtag
import Ariane.Soc.Reglk
import Ariane.Soc.Attribution
import Ariane.Decode.IdStage
import Ariane.Core.Flush
import Ariane.Core.Precise
import Ariane.Issue.Scoreboard
import Ariane.Issue.ReadOperands
import Ariane.Issue.Operands
import Ariane.Mmu.Ptw
import Ariane.Isa.Instr
import Ariane.Decode.Encoded
import Ariane.Decode.Language
import Ariane.Execute.Flu
import Ariane.Isa.Semantics
import Ariane.Execute.Single
import Ariane.Dcache.Pkg
import Ariane.Mmu.Mmu
import Ariane.Mmu.Stale
import Ariane.Mmu.Hit
import Ariane.Lsu.Lsu
import Ariane.Lsu.Ordering
import Ariane.Dcache.Wbuffer
import Ariane.Dcache.Bookkeeping
import Ariane.Axi.Adapter
import Ariane.Axi.Slave
import Ariane.Axi.Matching
import Ariane.Axi.Atomics
import Ariane.Dcache.Cache
import Ariane.Dcache.Lines
import Ariane.Csr.Vector
import Ariane.Soc.Decoders
import Ariane.Soc.Transfer
import Ariane.Frontend.Realign
import Ariane.Frontend.Queue
import Ariane.Csr.WriteRead
import Ariane.Soc.Hmac
import Ariane.Soc.Response
import Ariane.Frontend.Scan
import Ariane.Frontend.Speculation
import Ariane.Core.Interrupt
import Ariane.Csr.Summary
import Ariane.Core.Fault
import Ariane.Csr.Supervisor
import Ariane.Core.Counters
import Ariane.Decode.Compressed
import Ariane.Mmu.Overlap
import Ariane.Execute.Serdiv
import Ariane.Execute.Mult
import Ariane.Execute.Port
import Ariane.Frontend.Faults
import Ariane.Lib.Lanes
import Ariane.Lsu.Lanes
import Ariane.Dcache.Inflight
import Ariane.Soc.Clint
import Ariane.Lsu.Queue
import Ariane.Axi.WriteBurst
import Ariane.Lsu.Completion
import Ariane.Nbdcache.MissHandler
import Ariane.Nbdcache.Flush
import Ariane.Nbdcache.Amo
import Ariane.Lib.Level
import Ariane.Soc.OneHash
import Ariane.Lib.Descent
import Ariane.Mmu.Plru
import Ariane.Soc.Aes
import Ariane.Soc.Erasure
import Ariane.Icache.WtIcache
import Ariane.Icache.Fresh
import Ariane.Common.RrArbTree
import Ariane.Common.Cdc2Phase
import Ariane.Debug.AbstractCmd
import Ariane.Debug.DmCsrs
import Ariane.Debug.Park
import Ariane.Debug.Commands
import Ariane.Axi.Lrsc
import Ariane.Soc.Sha256Core
import Ariane.Soc.Plic
import Ariane.Debug.DmiCdc
import Ariane.Common.Lzc
import Ariane.Common.FifoV3
import Ariane.Soc.RequestBlock
