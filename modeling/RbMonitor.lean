import RbMonitor.Lib.CString
import RbMonitor.Lib.Binary64
import RbMonitor.Lib.Strtod
import RbMonitor.Lib.StrtodReach
import RbMonitor.Lib.DecimalText
import RbMonitor.Lib.JsonText
import RbMonitor.Lib.Fields
import RbMonitor.Lib.LinkHash
import RbMonitor.Lib.RefHeap
import RbMonitor.Lib.Overlay
import RbMonitor.Lib.Simulates
import RbMonitor.Value.Basic
import RbMonitor.Monitor.Basic
import RbMonitor.External.Impl
import RbMonitor.Op.Impl
import RbMonitor.Op.Lemmas
import RbMonitor.Op.Buffer
import RbMonitor.External.Lemmas
import RbMonitor.External.Shape
import RbMonitor.Op.ElementWise
import RbMonitor.Message.Impl
import RbMonitor.Message.Lemmas
import RbMonitor.Monitor.Parse
import RbMonitor.Json.Heap
import RbMonitor.Json.Lemmas
import RbMonitor.Json.Load
import RbMonitor.Json.Reads
import RbMonitor.Monitor.Heap
import RbMonitor.Monitor.Enrichment
import RbMonitor.External.Split
import RbMonitor.External.Locality
import RbMonitor.External.Blank
import RbMonitor.External.Integer
import RbMonitor.External.Truncate
import RbMonitor.Message.Decode
import RbMonitor.Message.Decodable
import RbMonitor.Lib.RunLog
import RbMonitor.Lib.Machine
import RbMonitor.Worker.Impl
import RbMonitor.Worker.Lifetime
import RbMonitor.Worker.Queue
import RbMonitor.Sensor.Impl
import RbMonitor.Sensor.Store
import RbMonitor.Sensor.Lemmas
import RbMonitor.Sensor.Total
import RbMonitor.Sensor.Binding
import RbMonitor.Sensor.Freshness
import RbMonitor.Sensor.Response
import RbMonitor.Sensor.Change
import RbMonitor.Sensor.Cache
import RbMonitor.Sensor.SplitResult
import RbMonitor.Sensor.Isolation
import RbMonitor.Sensor.Tags
import RbMonitor.Sensor.Send
import RbMonitor.Sensor.Circular
import RbMonitor.Main.Config
import RbMonitor.Sensor.Heap
import RbMonitor.Sensor.Loaded
import RbMonitor.Sensor.Parse
import RbMonitor.Sensor.Enrichment
import RbMonitor.Sensor.Balance
import RbMonitor.Main.Period
import RbMonitor.Main.Forward
import RbMonitor.Zk.Impl
import RbMonitor.Zk.Step
import RbMonitor.Zk.Pending
import RbMonitor.Zk.Nodes
import RbMonitor.Zk.Orphan
import RbMonitor.Zk.Placed
import RbMonitor.Zk.Leader
import RbMonitor.Zk.Carried
import RbMonitor.Zk.Queue.Impl
import RbMonitor.Zk.Queue.Step
import RbMonitor.Zk.Queue.Chain
import RbMonitor.Zk.Queue.Ends
import RbMonitor.Zk.Queue.Held
import RbMonitor.Zk.Queue.Run
import RbMonitor.Zk.Calm
import RbMonitor.Zk.Queue.Ended
import RbMonitor.Zk.Queue.Live
import RbMonitor.Zk.Rooted
import RbMonitor.Zk.Queue.Order
import RbMonitor.Zk.Queue.Exact
import RbMonitor.Lib.Trace
import RbMonitor.Worker.Step
import RbMonitor.Worker.Order
import RbMonitor.Worker.Shutdown
import RbMonitor.Worker.Cluster
import RbMonitor.Lib.Serial
import RbMonitor.Worker.Concurrent
import RbMonitor.Worker.Serial
import RbMonitor.Worker.Session
import RbMonitor.Lib.Strcmp
import RbMonitor.Zk.Acted
import RbMonitor.Zk.Settled
import RbMonitor.Zk.Master
import RbMonitor.Zk.Handover
import RbMonitor.Zk.Names
import RbMonitor.Lib.OwnHeap
import RbMonitor.Memory.Pass
