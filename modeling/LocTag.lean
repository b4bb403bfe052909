import LocTag.Lib.Receive
import LocTag.Lib.Runs
import LocTag.Lib.Shell
import LocTag.Dot11.Bounds
import LocTag.CsiUtil.GotPacket
import LocTag.Fragment.Receive
import LocTag.Fragment.StopMessage
import LocTag.Params.Chanspec
import LocTag.Params.ChanspecText
import LocTag.Params.Frequency
import LocTag.Lib.Base64
import LocTag.Params.CsiConf
import LocTag.Params.Form
import LocTag.Params.Makecsiparams
import LocTag.Radiotap.Iterator
import LocTag.Radiotap.Safety
import LocTag.Inject.Injectutil
import LocTag.Root.Lines
import LocTag.Fragment.Session
import LocTag.CsiUtil.Agreement
import LocTag.CsiUtil.Main
import LocTag.Csi.Encode
import LocTag.Radiotap.Overlay
import LocTag.Lib.Records
import LocTag.Fragment.CaptureLog
import LocTag.Fragment.CsiLog
import LocTag.Fragment.Pipeline
import LocTag.Files.FileHandler
import LocTag.Files.Invariant
import LocTag.Files.Names
import LocTag.Inject.Frame
import LocTag.Inject.MacConf
import LocTag.Inject.Countdown
import LocTag.Inject.Timers
import LocTag.Mcutils.HexDump
import LocTag.Mcutils.WriteFile
import LocTag.Files.Store
import LocTag.Inject.Rate
import LocTag.Inject.Form
import LocTag.Fragment.Recording
import LocTag.Lib.Machine
import LocTag.Pcap.Filter
import LocTag.Pcap.Fix
import LocTag.Pcap.Setfilter
