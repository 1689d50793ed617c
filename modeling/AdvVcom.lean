import AdvVcom.Lib.Bytes
import AdvVcom.Lib.Proc
import AdvVcom.Lib.Progress
import AdvVcom.Lib.Lower
import AdvVcom.Lib.Ring
import AdvVcom.Lib.Frames
import AdvVcom.Lib.CStr
import AdvVcom.Lib.Getopt
import AdvVcom.Lib.Preorder
import AdvVcom.Lib.Snprintf
import AdvVcom.Lib.Block
import AdvVcom.Lib.Dlist
import AdvVcom.Lib.Lockstep
import AdvVcom.Shared
import AdvVcom.Driver.Vcom
import AdvVcom.Driver.Flow
import AdvVcom.Driver.Range
import AdvVcom.Driver.Moves
import AdvVcom.Driver.Handoff
import AdvVcom.Driver.Legacy
import AdvVcom.Driver.Faults
import AdvVcom.Driver.Wakeup
import AdvVcom.Proto.Packet
import AdvVcom.Proto.Determined
import AdvVcom.Daemon.Port
import AdvVcom.Daemon.Handlers
import AdvVcom.Daemon.Main
import AdvVcom.Daemon.Rules
import AdvVcom.Daemon.Keeps
import AdvVcom.Daemon.Walk
import AdvVcom.Daemon.Rounds
import AdvVcom.Daemon.Effects
import AdvVcom.Daemon.Receive
import AdvVcom.Daemon.Aloof
import AdvVcom.Daemon.Speech
import AdvVcom.Daemon.Records
import AdvVcom.Daemon.Stack
import AdvVcom.Daemon.TlsLife
import AdvVcom.Daemon.SslSelect
import AdvVcom.Daemon.Order
import AdvVcom.Daemon.QueueFree
import AdvVcom.Daemon.Tids
import AdvVcom.Daemon.Magic
import AdvVcom.Daemon.Subscription
import AdvVcom.Daemon.Timeout
import AdvVcom.Daemon.Silence
import AdvVcom.Daemon.Settings
import AdvVcom.Daemon.Mirror
import AdvVcom.Daemon.OwnBytes
import AdvVcom.Daemon.Stream
import AdvVcom.Daemon.Framing
import AdvVcom.Daemon.Transports
import AdvVcom.Daemon.Connect
import AdvVcom.Daemon.Usable
import AdvVcom.Daemon.Redundant
import AdvVcom.Daemon.Race
import AdvVcom.Daemon.Monitor
import AdvVcom.System.World
import AdvVcom.System.Flow
import AdvVcom.System.Core
import AdvVcom.System.Requests
import AdvVcom.System.Walks
import AdvVcom.System.Runs
import AdvVcom.System.Isolation
import AdvVcom.System.Pages
import AdvVcom.System.Prompt
import AdvVcom.System.Progress
import AdvVcom.Initd.Config
import AdvVcom.Initd.Lines
import AdvVcom.Initd.Command
import AdvVcom.Initd.Sync
import AdvVcom.Initd.Startup
import AdvVcom.Initd.Service
import AdvVcom.Json.Jsmn
import AdvVcom.Json.Strings
import AdvVcom.Json.Tree
import AdvVcom.Json.Print
import AdvVcom.Json.Grammar
import AdvVcom.Json.Listing
import AdvVcom.Json.RoundTrip
import AdvVcom.Json.Grow
import AdvVcom.Json.Read
import AdvVcom.Json.Validate
import AdvVcom.Json.Codec
