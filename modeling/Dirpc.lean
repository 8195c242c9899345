import Dirpc.Base.Runs
import Dirpc.Base.Replay
import Dirpc.Server.Message
import Dirpc.Bridge.CatchUp
import Dirpc.System.Ghosts
import Dirpc.System.Leaks
import Dirpc.System.Correlation
import Dirpc.Base.LittleEndian
import Dirpc.Transports.Frame
import Dirpc.Transports.Ipc
import Dirpc.Base.Str
import Dirpc.Process.Paths
import Dirpc.Base.KeySet
import Dirpc.Process.Detectable
import Dirpc.Process.Files
import Dirpc.Process.StaleFst
import Dirpc.Process.Matching
import Dirpc.Base.KeyedSearch
import Dirpc.Process.Order
import Dirpc.Process.Cache
import Dirpc.Process.Recovery
import Dirpc.Process.Reopen
import Dirpc.Process.Scan
import Dirpc.Process.Difference
import Dirpc.Process.Snapshot
import Dirpc.Base.Text
import Dirpc.Transports.Decode
import Dirpc.Transports.Upgrade
import Dirpc.Transports.Session
import Dirpc.Transports.Protocol
import Dirpc.Transports.Agreement
import Dirpc.Transports.Turns
import Dirpc.Base.Positions
import Dirpc.Server.Buttons
import Dirpc.Process.Variants
import Dirpc.Server.Timestamps
import Dirpc.Server.Activity
import Dirpc.Base.JsonSearch
import Dirpc.Process.Payload
import Dirpc.Process.Preview
import Dirpc.Transports.Scanning
import Dirpc.Base.Joiner
import Dirpc.Bridge.Task
import Dirpc.Bridge.Following
import Dirpc.System.Pipeline
import Dirpc.System.Settling
import Dirpc.Process.Recognition
import Dirpc.Process.Loop
import Dirpc.Transports.Addresses
import Dirpc.System.Desktop
import Dirpc.Base.Gather
import Dirpc.Transports.Handshake
import Dirpc.Transports.Refusal
import Dirpc.Transports.Serving
