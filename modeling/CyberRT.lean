import CyberRT.Lib.Machine
import CyberRT.Lib.Text
import CyberRT.Lib.Threads
import CyberRT.Base.BoundedQueue
import CyberRT.Base.BoundedQueueFifo
import CyberRT.Base.BoundedQueueRefusal
import CyberRT.Lib.LinkedList
import CyberRT.Base.ObjectPool
import CyberRT.Base.ObjectPoolFree
import CyberRT.Base.ObjectPoolPartition
import CyberRT.Base.ObjectPoolRuns
import CyberRT.Lib.Table
import CyberRT.ServiceDiscovery.Graph
import CyberRT.ServiceDiscovery.GraphEdges
import CyberRT.ServiceDiscovery.GraphExact
import CyberRT.ServiceDiscovery.GraphAgrees
import CyberRT.ServiceDiscovery.GraphTraverse
import CyberRT.Common.Proto
import CyberRT.Common.GlobalData
import CyberRT.ServiceDiscovery.Warehouse
import CyberRT.ServiceDiscovery.ChannelManager
import CyberRT.ServiceDiscovery.NodeQueries
import CyberRT.ServiceDiscovery.ChannelRegistry
import CyberRT.ServiceDiscovery.ChannelManagerGraph
import CyberRT.ServiceDiscovery.ChannelManagerRuns
import CyberRT.Base.Signal
import CyberRT.Transport.ListenerHandler
import CyberRT.Transport.IntraDispatcher
import CyberRT.Transport.IntraDelivery
import CyberRT.Transport.IntraDeliveryRuns
import CyberRT.Transport.HybridTransmitter
import CyberRT.Node.WriterReaders
import CyberRT.Data.ChannelBuffer
import CyberRT.Croutine.CRoutine
import CyberRT.Scheduler.NotifyProcessor
import CyberRT.Croutine.DataWakeup
import CyberRT.Scheduler.ClassicContext
import CyberRT.Scheduler.ClassicWakeup
import CyberRT.Transport.ShmConf
import CyberRT.Transport.Segment
import CyberRT.Transport.SegmentCapacity
import CyberRT.Transport.SegmentCapacityRuns
import CyberRT.Lib.Count
import CyberRT.Base.AtomicRWLock
import CyberRT.Base.ReentrantRWLock
import CyberRT.Base.ReentrantRWLockPhase
import CyberRT.Base.ReentrantRWLockRuns
import CyberRT.Io.Poller
import CyberRT.Scheduler.Processor
import CyberRT.Io.PollHandler
import CyberRT.Croutine.ReaderStart
import CyberRT.Base.BlockWait
import CyberRT.Base.BlockWaitRuns
import CyberRT.Task.TaskQueue
import CyberRT.Task.TaskQueueRuns
import CyberRT.Task.TaskManager
import CyberRT.Task.TaskManagerRuns
import CyberRT.Lib.Flags
import CyberRT.Scheduler.Policy
import CyberRT.Scheduler.Scheduler
import CyberRT.Scheduler.Registry
import CyberRT.Scheduler.RegistryAgrees
import CyberRT.Scheduler.Exclusion
import CyberRT.Scheduler.Removal
import CyberRT.Scheduler.PinThread
import CyberRT.Scheduler.CpusetGrammar
import CyberRT.Data.ChannelDelivery
import CyberRT.Data.AllLatest
import CyberRT.Timer.TimingWheel
import CyberRT.Timer.WheelClock
import CyberRT.Timer.TimingWheelExact
import CyberRT.Timer.TimingWheelRuns
import CyberRT.Transport.SegmentNames
import CyberRT.Transport.Block
import CyberRT.Transport.ShmDelivery
import CyberRT.Transport.ShmDeliveryRuns
import CyberRT.Timer.Timer
import CyberRT.Timer.TimerStop
import CyberRT.Base.UnboundedQueue
import CyberRT.Base.UnboundedQueueRuns
import CyberRT.Lib.SortedChain
import CyberRT.Base.AtomicHashMap
import CyberRT.Base.AtomicHashMapInv
import CyberRT.Base.AtomicHashMapRuns
import CyberRT.Transport.ConditionNotifier
import CyberRT.Transport.ConditionNotifierSteps
import CyberRT.ServiceDiscovery.ChannelIndexes
import CyberRT.ServiceDiscovery.NodeDuality
import CyberRT.Lib.Loop
import CyberRT.Lib.Fd
import CyberRT.Lib.Sweep
import CyberRT.Record.Proto
import CyberRT.Record.Format
import CyberRT.Record.FileReader
import CyberRT.Record.Sections
import CyberRT.Record.Reader
import CyberRT.Record.Viewer
import CyberRT.Record.Spliter
import CyberRT.Record.Recoverer
import CyberRT.Record.Wire
import CyberRT.Record.ReaderEnds
import CyberRT.Record.FileWriter
import CyberRT.Record.FileWriterRuns
import CyberRT.Record.Layout
import CyberRT.Record.IndexRuns
import CyberRT.Record.Summary
import CyberRT.Record.RecovererRuns
import CyberRT.Record.SpliterRuns
import CyberRT.Record.ReaderRuns
import CyberRT.Record.Writer
import CyberRT.Record.WriterRuns
import CyberRT.Record.ViewerRuns
import CyberRT.Record.ViewerOrder
import CyberRT.Record.ViewerWindows
import CyberRT.Transport.MessageInfo
import CyberRT.Message.MessageTraits
import CyberRT.Message.HeaderContent
import CyberRT.Message.TransportsAgree
import CyberRT.Message.ProtobufFactory
import CyberRT.Transport.ListenerRegistration
import CyberRT.Player.PlayTaskBuffer
import CyberRT.Player.PlayOrder
import CyberRT.Player.PlayTimes
import CyberRT.Player.PlayTaskProducer
import CyberRT.Player.MessageCount
import CyberRT.Record.Recorder
import CyberRT.Record.RecorderRuns
import CyberRT.ServiceDiscovery.Manager
import CyberRT.ServiceDiscovery.NodeManager
import CyberRT.ServiceDiscovery.DuplicateNodes
import CyberRT.ServiceDiscovery.ServiceManager
import CyberRT.ServiceDiscovery.Registration
import CyberRT.Common.NameIds
import CyberRT.ServiceDiscovery.Ownership
import CyberRT.ServiceDiscovery.TopologyManager
import CyberRT.Blocker.Blocker
import CyberRT.Blocker.ObservedViews
import CyberRT.Common.NameTables
import CyberRT.Common.NameRegistration
import CyberRT.Common.NameAgreement
import CyberRT.Service.Client
import CyberRT.Service.Matching
import CyberRT.Logger.AsyncLogger
import CyberRT.Logger.AsyncLoggerRuns
import CyberRT.Logger.LogFileObject
import CyberRT.ServiceDiscovery.GraphDirection
import CyberRT.Timer.TimerTask
import CyberRT.Timer.Lifecycle
import CyberRT.Timer.PeriodicTimer
import CyberRT.Timer.Rearm
import CyberRT.Io.PollTimeouts
import CyberRT.Transport.SegmentAccess
import CyberRT.Transport.ConcurrentListeners
import CyberRT.Record.Discovery
import CyberRT.Record.DiscoveryRuns
import CyberRT.Transport.HybridReceiver
import CyberRT.Node.ReaderTopology
import CyberRT.Node.ReaderTopologyRuns
import CyberRT.ClassLoader.ClassLoaderUtility
import CyberRT.ClassLoader.LibraryLifetime
import CyberRT.Lib.Crc
import CyberRT.Livox.FastCRC
import CyberRT.Livox.Protocol
import CyberRT.Livox.PacketChecks
import CyberRT.Livox.Frames
import CyberRT.Lib.Ram
import CyberRT.Lib.X86
import CyberRT.Croutine.SwapContext
import CyberRT.Croutine.Contexts
import CyberRT.Croutine.ContextRuns
import CyberRT.Service.SharedObject
import CyberRT.Parameter.ParameterServer
import CyberRT.Transport.History
import CyberRT.ServiceDiscovery.Replicas
import CyberRT.Component.Modes
