import LteUlp.Basic.Sweep
import LteUlp.Config.Startup
import LteUlp.Dci.Format0
import LteUlp.Dpe.LoginAnalysis
import LteUlp.Dpe.Pruning
import LteUlp.Dpe.Target
import LteUlp.Dpe.Timing
import LteUlp.Dpe.Wire
import LteUlp.Event.Model
import LteUlp.List.Refinement
import LteUlp.Logger.BlockBounds
import LteUlp.Logger.Deferred
import LteUlp.Logger.Timestamp
import LteUlp.Mac.Bounds
import LteUlp.Mac.EmptyRings
import LteUlp.Mac.Encoding
import LteUlp.Mac.Frames
import LteUlp.Mac.RoundTrip
import LteUlp.Mempool.Conservation
import LteUlp.Mempool.Join
import LteUlp.Mempool.Recorded
import LteUlp.Nas.AttachDecoding
import LteUlp.Nas.Header
import LteUlp.Rlc.Failures
import LteUlp.Rlc.Idle
import LteUlp.Rlc.LengthIndicators
import LteUlp.Rlc.RawSdu
import LteUlp.Rlc.Reassembly
import LteUlp.Rlc.Reports
import LteUlp.Rlc.Sending
import LteUlp.Rrc.Growth
import LteUlp.Rrc.Histograms
import LteUlp.Rrc.Isolation
import LteUlp.Rrc.MessageType
import LteUlp.Rrc.NasDecoding
import LteUlp.Rrc.RoundTrip
import LteUlp.Rrc.Truncation
import LteUlp.Worker.Collection
import LteUlp.Worker.Eviction
import LteUlp.Worker.Expiry
import LteUlp.Worker.Failures
import LteUlp.Worker.Isolation
import LteUlp.Worker.Leaks
import LteUlp.Worker.PhyBounds
import LteUlp.Worker.PhyQueue
import LteUlp.Worker.ReportInd
import LteUlp.Worker.Runs
import LteUlp.Worker.Sweeping
import LteUlp.Worker.Ticks
import LteUlp.Worker.Touches
