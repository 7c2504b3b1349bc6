import Kaas.Storage.Sequences
import Kaas.Storage.Stems
import Kaas.Storage.Marks
import Kaas.Storage.Takeover
import Kaas.Storage.GroupCommit
import Kaas.Storage.SizeRetention
import Kaas.Storage.IndexBound
import Kaas.Storage.Equivalence
import Kaas.Broker.Serving
import Kaas.Broker.TakeoverDriver
import Kaas.Controller.Election
import Kaas.Controller.Growth
import Kaas.Controller.Groups
import Kaas.Txn.Incarnations
import Kaas.Txn.Reconcile
import Kaas.Codec.Fetch
import Kaas.Codec.Messages
import Kaas.Broker.MarkerQueue
import Kaas.Broker.Redelivery
import Kaas.Broker.ProducerId
import Kaas.Group.OffsetRequests
import Kaas.Group.PendingOffsets
import Kaas.Group.OffsetWrites
import Kaas.Group.OffsetHandoff
import Kaas.Broker.Fence
import Kaas.Storage.OpenRace
import Kaas.Operator.TopicId
import Kaas.Operator.Placement
import Kaas.Broker.TopicCr
import Kaas.Group.GroupFiles
import Kaas.Group.Protocols
import Kaas.Group.Shutdown
import Kaas.Auth.AclCache
import Kaas.Auth.Sasl
import Kaas.Auth.Quota
import Kaas.Auth.Scram
import Kaas.Broker.ClientPayloads
import Kaas.Codec.RecordCount
import Kaas.Protocol.Connection
