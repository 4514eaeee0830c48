import Rvntt.CsrAccess
import Rvntt.MuldivRuns
import Rvntt.Rvfi
import Rvntt.Counters
import Rvntt.Refinement
import Rvntt.Redirects
import Rvntt.RefDecode
import Rvntt.RefBpred
import Rvntt.BpredRuns
import Rvntt.Learnt
import Rvntt.Zkt
import Rvntt.Span
import Rvntt.Mmio
import Rvntt.Entropy
import Rvntt.Conformance
import Rvntt.SeedRuns
import Rvntt.Forwarding
import Rvntt.ByteMemory
import Rvntt.UartLink
import Rvntt.SocHealthy
import Rvntt.PrintfCorrect
import Rvntt.ProgSafe
import Rvntt.IsaRefinement
import Rvntt.CommitDiff
import Rvntt.Cosimulation
import Rvntt.Assertions
import Rvntt.Throughput
import Rvntt.SocImage
