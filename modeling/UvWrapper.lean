import UvWrapper.Lib.System
import UvWrapper.Lib.Memory
import UvWrapper.Lib.Pool
import UvWrapper.Lib.OrderedMap
import UvWrapper.Lib.Ownership
import UvWrapper.Lib.Scan
import UvWrapper.Lib.Update
import UvWrapper.Lib.Peak
import UvWrapper.Lib.Arrivals
import UvWrapper.Lib.Simulation
import UvWrapper.Lib.Fifo
import UvWrapper.Lib.Tally
import UvWrapper.Libuv
import UvWrapper.Util.SafeBuffer
import UvWrapper.Util.Objects
import UvWrapper.Util.Refinement
import UvWrapper.Util.Swap
import UvWrapper.Util.Capacity
import UvWrapper.Util.Failure
import UvWrapper.Util.Copies
import UvWrapper.Util.Cursor
import UvWrapper.Util.Queue
import UvWrapper.Loop.Basic
import UvWrapper.Loop.Invariant
import UvWrapper.Loop.Threads
import UvWrapper.Loop.Map
import UvWrapper.Loop.Statements
import UvWrapper.Loop.Atomic
import UvWrapper.Loop.Races
import UvWrapper.Loop.Answers
import UvWrapper.Loop.Passes
import UvWrapper.Loop.Waiting
import UvWrapper.Loop.Shutdown
import UvWrapper.Loop.Destroy
import UvWrapper.Timer.Basic
import UvWrapper.Timer.Steps
import UvWrapper.Timer.Flag
import UvWrapper.Timer.Answers
import UvWrapper.Timer.Reinit
import UvWrapper.Timer.Requests
import UvWrapper.Timer.Outcome
import UvWrapper.Timer.Commands
import UvWrapper.Timer.Accounts
import UvWrapper.Connect.Basic
import UvWrapper.Connect.Steps
import UvWrapper.Connect.Calls
import UvWrapper.Connect.Moves
import UvWrapper.Connect.Route
import UvWrapper.Connect.Records
import UvWrapper.Connect.Payloads
import UvWrapper.Connect.Order
import UvWrapper.Connect.Transfers
import UvWrapper.Connect.Storing
import UvWrapper.Connect.Leak
import UvWrapper.Connect.Completion
import UvWrapper.Connect.Streams
import UvWrapper.Connect.Reconnect
import UvWrapper.Connect.Server
import UvWrapper.Connect.Client
import UvWrapper.Connect.Handles
import UvWrapper.Connect.Closing
import UvWrapper.Host.Basic
import UvWrapper.Host.Steps
import UvWrapper.Host.Views
import UvWrapper.Host.Unused
import UvWrapper.Service.Basic
import UvWrapper.Service.Steps
import UvWrapper.Service.Connections
import UvWrapper.Service.Accepted
import UvWrapper.Service.Server
import UvWrapper.Client.Basic
import UvWrapper.Client.Dials
import UvWrapper.Client.Events
import UvWrapper.Server.Basic
import UvWrapper.Server.Answers
import UvWrapper.Server.Steps
import UvWrapper.Server.Listening
import UvWrapper.Uvcpp.Basic
import UvWrapper.Uvcpp.Steps
import UvWrapper.Uvcpp.SendBuffer
import UvWrapper.Uvcpp.Growth
import UvWrapper.Uvcpp.Stream
import UvWrapper.Uvcpp.Works
import UvWrapper.Uvcpp.Link
import UvWrapper.Uvcpp.Reconnect
import UvWrapper.Uvcpp.Closing
import UvWrapper.Uvcpp.Stranding
import UvWrapper.Uvcpp.Wakeup
import UvWrapper.Uvcpp.Callbacks
import UvWrapper.Netlib.Basic
import UvWrapper.Netlib.Steps
import UvWrapper.Netlib.Async
import UvWrapper.Netlib.Records
import UvWrapper.Netlib.Writes
import UvWrapper.Netlib.Storing
import UvWrapper.Netlib.Count
import UvWrapper.Netlib.Delivery
import UvWrapper.Netlib.Reconnect
import UvWrapper.Reports
