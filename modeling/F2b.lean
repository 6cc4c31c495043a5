import F2b.Backends.Blocklist
import F2b.Backends.Cmd
import F2b.Backends.Exec
import F2b.Backends.Redis
import F2b.Backends.Runner
import F2b.Backends.Theorems.Argv
import F2b.Backends.Theorems.Exec
import F2b.Backends.Theorems.Fork
import F2b.Backends.Theorems.Redis
import F2b.Backends.Theorems.Runner
import F2b.Backends.Traced
import F2b.Csocket.Buf
import F2b.Csocket.Client
import F2b.Csocket.Commands
import F2b.Csocket.Conn
import F2b.Csocket.Md5
import F2b.Csocket.Memory
import F2b.Csocket.Poll
import F2b.Csocket.Slots
import F2b.Csocket.Sock
import F2b.Csocket.Theorems.Auth
import F2b.Csocket.Theorems.Chunks
import F2b.Csocket.Theorems.Client
import F2b.Csocket.Theorems.Clients
import F2b.Csocket.Theorems.Conn
import F2b.Csocket.Theorems.Grammar
import F2b.Csocket.Theorems.Intake
import F2b.Csocket.Theorems.Md5
import F2b.Csocket.Theorems.Memory
import F2b.Csocket.Theorems.Outgoing
import F2b.Csocket.Theorems.Password
import F2b.Csocket.Theorems.Slots
import F2b.Csocket.Theorems.Sock
import F2b.Daemon.Appconfig
import F2b.Daemon.Control
import F2b.Daemon.Jails
import F2b.Daemon.Live
import F2b.Daemon.Main
import F2b.Daemon.Theorems.Control
import F2b.Daemon.Theorems.Jails
import F2b.Daemon.Theorems.Live
import F2b.Daemon.Theorems.Main
import F2b.Daemon.Theorems.Parts
import F2b.Daemon.Theorems.Redefined
import F2b.Daemon.Theorems.Startup
import F2b.Filters.Filter
import F2b.Filters.Match
import F2b.Filters.Theorems.Load
import F2b.Filters.Theorems.Patterns
import F2b.Filters.Theorems.Reload
import F2b.Filters.Theorems.Scores
import F2b.Jail.Basic
import F2b.Jail.Control
import F2b.Jail.Modules
import F2b.Jail.Moves
import F2b.Jail.Network
import F2b.Jail.Process
import F2b.Jail.Settings
import F2b.Jail.System
import F2b.Jail.Theorems.Attribution
import F2b.Jail.Theorems.Balance
import F2b.Jail.Theorems.Blocking
import F2b.Jail.Theorems.Calls
import F2b.Jail.Theorems.Compound
import F2b.Jail.Theorems.Delivery
import F2b.Jail.Theorems.Enabled
import F2b.Jail.Theorems.Expiry
import F2b.Jail.Theorems.Length
import F2b.Jail.Theorems.Lines
import F2b.Jail.Theorems.Modules
import F2b.Jail.Theorems.Network
import F2b.Jail.Theorems.Options
import F2b.Jail.Theorems.Pass
import F2b.Jail.Theorems.Restart
import F2b.Jail.Theorems.Saving
import F2b.Jail.Theorems.Score
import F2b.Jail.Theorems.Settings
import F2b.Jail.Theorems.Shared
import F2b.Jail.Theorems.Simulation
import F2b.Jail.Theorems.System
import F2b.Jail.Theorems.Tags
import F2b.Jail.Theorems.Unique
import F2b.Jail.Theorems.Walk
import F2b.Jail.Walk
import F2b.Lib.Access
import F2b.Lib.Blocks
import F2b.Lib.Broadcast
import F2b.Lib.CString
import F2b.Lib.Cells
import F2b.Lib.Decimal
import F2b.Lib.Deref
import F2b.Lib.Digest
import F2b.Lib.Lines
import F2b.Lib.Linked
import F2b.Lib.Marks
import F2b.Lib.Origins
import F2b.Lib.Outbox
import F2b.Lib.Overwrite
import F2b.Lib.Place
import F2b.Lib.Registry
import F2b.Lib.Stdio
import F2b.Lib.Transition
import F2b.Lib.Trim
import F2b.Lib.Words
import F2b.Objects.Config
import F2b.Objects.ConfigFile
import F2b.Objects.Handlers
import F2b.Objects.Ipaddr
import F2b.Objects.Matches
import F2b.Objects.Module
import F2b.Objects.ParamBuffer
import F2b.Objects.Statefile
import F2b.Objects.Strlcpy
import F2b.Objects.Theorems.Definitions
import F2b.Objects.Theorems.Distinct
import F2b.Objects.Theorems.Handlers
import F2b.Objects.Theorems.Headers
import F2b.Objects.Theorems.Loader
import F2b.Objects.Theorems.LongLines
import F2b.Objects.Theorems.Matches
import F2b.Objects.Theorems.Module
import F2b.Objects.Theorems.ParamBuffer
import F2b.Objects.Theorems.Params
import F2b.Objects.Theorems.Restore
import F2b.Objects.Theorems.Save
import F2b.Objects.Theorems.Statefile
import F2b.Objects.Theorems.Strlcpy
import F2b.Objects.Theorems.Values
import F2b.Sources.Files
import F2b.Sources.Portknock
import F2b.Sources.Redis
import F2b.Sources.Theorems.Append
import F2b.Sources.Theorems.Files
import F2b.Sources.Theorems.Node
import F2b.Sources.Theorems.Portknock
import F2b.Sources.Theorems.Rotate
import F2b.Sources.Theorems.Tags
import F2b.Sources.Theorems.Watch
