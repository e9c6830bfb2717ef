import WhirlMatrix.Semantics.Brute
import WhirlMatrix.History.Recorder
import WhirlMatrix.Network.EventsInStep
import WhirlMatrix.World.VirtualTime
import WhirlMatrix.World.Connections
import WhirlMatrix.World.Replies
import WhirlMatrix.World.Callbacks
import WhirlMatrix.Memory.Contract
import WhirlMatrix.Db.Isolation
import WhirlMatrix.Network.Exchange
import WhirlMatrix.Network.FrameLog
import WhirlMatrix.Semantics.Check
import WhirlMatrix.Semantics.KVStore
import WhirlMatrix.Helpers.SortedQueue
import WhirlMatrix.History.Complete
import WhirlMatrix.History.Channel
import WhirlMatrix.History.Verdict
import WhirlMatrix.Process.ResumeOrder
import WhirlMatrix.Fs.FileSystem
import WhirlMatrix.Fs.Readers
import WhirlMatrix.Process.Relabel
import WhirlMatrix.World.Alive
import WhirlMatrix.World.Ports
import WhirlMatrix.World.Ledger
import WhirlMatrix.Network.Delivered
import WhirlMatrix.World.KeepAlive
import WhirlMatrix.Library.Lockstep
import WhirlMatrix.Memory.Pool
import WhirlMatrix.Memory.Represents
import WhirlMatrix.Memory.Twins
import WhirlMatrix.Db.Reopen
import WhirlMatrix.Db.Iterator
import WhirlMatrix.Fs.ListFiles
import WhirlMatrix.Helpers.AnyHeap
import WhirlMatrix.Clocks.Timers
import WhirlMatrix.Clocks.Drift
import WhirlMatrix.Memory.Headers
import WhirlMatrix.Memory.Accounting
import WhirlMatrix.Memory.Footprint
import WhirlMatrix.Memory.Heaps
import WhirlMatrix.Fault.PauseLinks
import WhirlMatrix.Fault.Star
import WhirlMatrix.Library.StableQueue
import WhirlMatrix.Library.Cursor
import WhirlMatrix.Library.Separators
import WhirlMatrix.Strings
import WhirlMatrix.Fs.Paths
import WhirlMatrix.Network.Addresses
import WhirlMatrix.World.Setup
import WhirlMatrix.World.ReturnPaths
import WhirlMatrix.Library.Draws
import WhirlMatrix.Fault.Split
import WhirlMatrix.Semantics.Print
import WhirlMatrix.Library.LastWriter
import WhirlMatrix.Clocks.Wall
import WhirlMatrix.Db.Logs
import WhirlMatrix.Kv.Durable
import WhirlMatrix.Kv.Staleness
import WhirlMatrix.Kv.Converge
import WhirlMatrix.Kv.Available
import WhirlMatrix.Kv.Survival
import WhirlMatrix.Network.Conservation
import WhirlMatrix.New.Tracker
import WhirlMatrix.TimeModel.Crazy
import WhirlMatrix.World.Latency
import WhirlMatrix.World.Detection
import WhirlMatrix.Guids
