import DatastorQos.Lib.Keyed
import DatastorQos.Lib.Interleave
import DatastorQos.App.QuotaOffer
import DatastorQos.App.ReqgrpConcurrent
import DatastorQos.App.GrantCharge
import DatastorQos.App.NodeWakeup
import DatastorQos.App.Drain
import DatastorQos.Dispatcher.Shares
import DatastorQos.Dispatcher.Conservation
import DatastorQos.App.NodeWakeupConcurrent
import DatastorQos.App.Pressure
import DatastorQos.App.QuotaTarget
import DatastorQos.App.Stock
import DatastorQos.App.FailedGet
import DatastorQos.App.UnknownNode
import DatastorQos.App.Admission
import DatastorQos.App.PumpPrefix
import DatastorQos.Dispatcher.Announcements
import DatastorQos.Dispatcher.UseAccounts
import DatastorQos.Dispatcher.Slots
import DatastorQos.Dispatcher.Reserve
import DatastorQos.Dispatcher.Messages
import DatastorQos.Dispatcher.Serving
import DatastorQos.Table.ForEach
import DatastorQos.Table.ChainLinks
import DatastorQos.App.NodereqLinks
import DatastorQos.App.RingLinks
import DatastorQos.App.FailureReport
import DatastorQos.App.NodeLives
import DatastorQos.App.NestedVerdicts
import DatastorQos.App.NestedReturns
import DatastorQos.Dispatcher.Fence
import DatastorQos.Dispatcher.Counter
import DatastorQos.Dispatcher.Offline
import DatastorQos.Dispatcher.Wiring
import DatastorQos.Dispatcher.WaitLinks
import DatastorQos.Dispatcher.Caps
import DatastorQos.Dispatcher.AnyLoad
import DatastorQos.Protocol.InOrder
import DatastorQos.Protocol.Deployment
import DatastorQos.Protocol.Locks
