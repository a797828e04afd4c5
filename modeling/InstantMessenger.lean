import InstantMessenger.Foundations.Transition
import InstantMessenger.Foundations.Refinement
import InstantMessenger.Foundations.Broadcast
import InstantMessenger.Foundations.Template
import InstantMessenger.Foundations.EraseLoop
import InstantMessenger.Foundations.Overtaking
import InstantMessenger.Util.Definitions
import InstantMessenger.Util.User
import InstantMessenger.Server.Group
import InstantMessenger.Server.Server
import InstantMessenger.Server.Replica
import InstantMessenger.Server.Replication
import InstantMessenger.Server.Independence
import InstantMessenger.Server.Interleaving
import InstantMessenger.Foundations.Ledger
import InstantMessenger.Server.Sessions
import InstantMessenger.Server.Accounting
import InstantMessenger.Foundations.Cyclic
import InstantMessenger.Foundations.Text
import InstantMessenger.Server.Election
import InstantMessenger.Server.ElectionRing
import InstantMessenger.Server.ReplicationLink
import InstantMessenger.Server.Confirmation
import InstantMessenger.Foundations.Recent
import InstantMessenger.Util.FileSystemManager
import InstantMessenger.Util.HistoryFile
import InstantMessenger.Server.Joining
import InstantMessenger.ProxyFe.FrontEnd
import InstantMessenger.ProxyFe.Balance
import InstantMessenger.ProxyFe.Failover
import InstantMessenger.Foundations.Between
import InstantMessenger.Server.ServersRing
import InstantMessenger.Server.OnePrimary
import InstantMessenger.Server.NextPrimary
import InstantMessenger.Server.RingShape
import InstantMessenger.Server.RingSimulation
import InstantMessenger.Server.SplitBrain
import InstantMessenger.Server.Leaderless
import InstantMessenger.Server.MessageQueue
import InstantMessenger.Util.ReleaseSession
import InstantMessenger.Server.DisconnectCall
import InstantMessenger.Server.DisconnectSweep
import InstantMessenger.Server.ExactDisconnect
import InstantMessenger.Foundations.Lines
import InstantMessenger.Util.GroupFile
import InstantMessenger.Util.HistoryWindow
import InstantMessenger.Util.RoundTrip
import InstantMessenger.Server.LiveOrder
import InstantMessenger.Server.ConcurrentElection
import InstantMessenger.Server.RivalStarters
import InstantMessenger.Server.LateStarter
import InstantMessenger.Foundations.Descriptors
import InstantMessenger.ProxyFe.Threads
import InstantMessenger.ProxyFe.Ownership
import InstantMessenger.ProxyFe.ServerBound
import InstantMessenger.ProxyFe.UserMaps
import InstantMessenger.ProxyFe.Delivery
import InstantMessenger.ProxyFe.ClientOrder
import InstantMessenger.ProxyFe.KeepAlive
import InstantMessenger.ProxyFe.Timeouts
import InstantMessenger.Server.Notices
import InstantMessenger.Client.BuildPacket
import InstantMessenger.Client.GenerateUuid
import InstantMessenger.Foundations.LockOrder
import InstantMessenger.Server.Semaphores
import InstantMessenger.Util.Semaphore
import InstantMessenger.Foundations.Framing
import InstantMessenger.Util.Socket
import InstantMessenger.Foundations.Paths
import InstantMessenger.Util.HistoryPaths
import InstantMessenger.Server.HistoryLimit
import InstantMessenger.Server.ReplicationLoop
import InstantMessenger.Server.FrontEndLoss
import InstantMessenger.Server.FrontEndClosing
import InstantMessenger.Foundations.InverseMaps
import InstantMessenger.ProxyFe.RoutingTables
import InstantMessenger.ProxyFe.ClientListener
import InstantMessenger.ProxyFe.HandOff
import InstantMessenger.ProxyFe.Reconnect
import InstantMessenger.Client.StopAndWait
import InstantMessenger.Server.RingFormation
import InstantMessenger.Util.ReadPacket
import InstantMessenger.Client.RegisterToServer
import InstantMessenger.Server.MessageHops
import InstantMessenger.Server.StartUp
import InstantMessenger.Client.AddressesFile
import InstantMessenger.Server.EraseRange
import InstantMessenger.Server.ReplicationMesh
import InstantMessenger.Server.AtomicSections
import InstantMessenger.Server.BackupAgreement
import InstantMessenger.EndToEnd.Conversation
import InstantMessenger.EndToEnd.Carriage
import InstantMessenger.EndToEnd.Replies
import InstantMessenger.EndToEnd.OneOrder
import InstantMessenger.EndToEnd.AtRest
import InstantMessenger.EndToEnd.Settling
import InstantMessenger.Server.SleepingThreads
