import Ost.Iscsi.LossyCodec
import Ost.Session.Window
import Ost.Session.Framing
import Ost.Session.Status
import Ost.Session.LoginPhase
import Ost.Session.Coverage
import Ost.Initiator.Lifetime
import Ost.Initiator.R2tService
import Ost.Osd.Transport
import Ost.Osd.Objects
import Ost.Osd.Parsing
import Ost.Osd.Agreement
import Ost.Disk.Tiling
import Ost.Initiator.R2tData
import Ost.Initiator.UnsolicitedData
import Ost.Fitness.Counters
import Ost.Fitness.Sampling
import Ost.Fitness.Workload
import Ost.Fitness.Interleaved
import Ost.Fitness.Replay
import Ost.Driver.Interleaving
import Ost.Osdfs.Contents
import Ost.Osdfs.LinkRuns
import Ost.Param.Frame
import Ost.Param.Chap
import Ost.Param.Numerical
import Ost.Param.Tokens
import Ost.Initiator.ReadData
import Ost.Target.ReadData
import Ost.Initiator.Abort
import Ost.Initiator.Timeout
import Ost.Initiator.Ping
import Ost.Disk.Locks
import Ost.Target.Immediate
import Ost.Param.HexText
import Ost.Util.Restore
import Ost.Stats.Jumps
import Ost.Stats.Balance
import Ost.Config.Targets
import Ost.Tests.Async
import Ost.Disk.Conservation
import Ost.Osdfs.Rename
import Ost.Md5.Chap
import Ost.Session.Slots
import Ost.Session.Consistency
import Ost.Session.Handshake
import Ost.Initiator.Away
import Ost.Initiator.Receiving
import Ost.Session.Reading
