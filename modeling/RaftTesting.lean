import RaftTesting.App.Agreement
import RaftTesting.App.Apply
import RaftTesting.App.Loop
import RaftTesting.App.Processes
import RaftTesting.App.Replica
import RaftTesting.App.Restart
import RaftTesting.App.Service
import RaftTesting.App.Terms
import RaftTesting.Cluster.Acks
import RaftTesting.Cluster.AutoLeave
import RaftTesting.Cluster.Boot
import RaftTesting.Cluster.Fixed
import RaftTesting.Cluster.HostInv
import RaftTesting.Cluster.Leadership
import RaftTesting.Cluster.Ledger
import RaftTesting.Cluster.Linear
import RaftTesting.Cluster.Network
import RaftTesting.Cluster.Placed
import RaftTesting.Cluster.Reads
import RaftTesting.Cluster.Realm
import RaftTesting.Cluster.Reconfig
import RaftTesting.Cluster.Safety
import RaftTesting.Cluster.Sends
import RaftTesting.Cluster.Serving
import RaftTesting.Cluster.Simulation
import RaftTesting.Cluster.Start
import RaftTesting.Cluster.Succession
import RaftTesting.Cluster.Validity
import RaftTesting.Cluster.View
import RaftTesting.ConfChange.Agreement
import RaftTesting.ConfChange.Alike
import RaftTesting.ConfChange.Changer
import RaftTesting.ConfChange.Determined
import RaftTesting.ConfChange.Formed
import RaftTesting.ConfChange.Overlap
import RaftTesting.ConfChange.Progress
import RaftTesting.ConfChange.Representation
import RaftTesting.ConfChange.Restore
import RaftTesting.ConfChange.Role
import RaftTesting.ConfChange.RoundTrip
import RaftTesting.Consensus.History
import RaftTesting.Consensus.Log
import RaftTesting.Consensus.Machine
import RaftTesting.Consensus.Reads
import RaftTesting.Consensus.Safety
import RaftTesting.Consensus.Succession
import RaftTesting.Framework.Ledger
import RaftTesting.Framework.Majority
import RaftTesting.Framework.Outcome
import RaftTesting.Framework.Ring
import RaftTesting.Framework.SortedMap
import RaftTesting.Log.Conflict
import RaftTesting.Log.Cursors
import RaftTesting.Log.Held
import RaftTesting.Log.Memory
import RaftTesting.Log.Pieces
import RaftTesting.Log.RaftLog
import RaftTesting.Log.Session
import RaftTesting.Log.Storage
import RaftTesting.Log.Tidy
import RaftTesting.Log.Unstable
import RaftTesting.Log.View
import RaftTesting.Log.WellFormed
import RaftTesting.Log.Whole
import RaftTesting.Node.Accepted
import RaftTesting.Node.Ahead
import RaftTesting.Node.Backtrack
import RaftTesting.Node.Campaign
import RaftTesting.Node.CheckQuorum
import RaftTesting.Node.Contract
import RaftTesting.Node.Delivery
import RaftTesting.Node.Election
import RaftTesting.Node.EventLoop
import RaftTesting.Node.Firm
import RaftTesting.Node.Follower
import RaftTesting.Node.Fresh
import RaftTesting.Node.Gate
import RaftTesting.Node.HardState
import RaftTesting.Node.Host
import RaftTesting.Node.Members
import RaftTesting.Node.Pending
import RaftTesting.Node.Pipeline
import RaftTesting.Node.Proposal
import RaftTesting.Node.Quota
import RaftTesting.Node.Restart
import RaftTesting.Node.Session
import RaftTesting.Node.Start
import RaftTesting.Node.Status
import RaftTesting.Node.Timeout
import RaftTesting.Node.Touch
import RaftTesting.Node.Transfer
import RaftTesting.Node.Tuned
import RaftTesting.Node.Windows
import RaftTesting.Oracle.Ballots
import RaftTesting.Oracle.Heartbeats
import RaftTesting.Oracle.LeaderChanges
import RaftTesting.Oracle.Netrix
import RaftTesting.Oracle.Partition
import RaftTesting.Protocol.Membership
import RaftTesting.Protocol.Raft
import RaftTesting.Protocol.Raftpb
import RaftTesting.Protocol.RawNode
import RaftTesting.Protocol.ReadOnly
import RaftTesting.Protocol.ReadQueue
import RaftTesting.Protocol.ReadWait
import RaftTesting.Protocol.Step
import RaftTesting.Protocol.Wire
import RaftTesting.Quorum.Committed
import RaftTesting.Quorum.Joint
import RaftTesting.Quorum.Majority
import RaftTesting.Tracker.Progress
import RaftTesting.Tracker.Queue
import RaftTesting.Tracker.Tracker
import RaftTesting.Tracker.Votes
import RaftTesting.Tracker.Window
import RaftTesting.Transition.Campaign
import RaftTesting.Transition.Core
import RaftTesting.Transition.Faults
import RaftTesting.Transition.Host
import RaftTesting.Transition.Leader
import RaftTesting.Transition.Log
import RaftTesting.Transition.Reads
import RaftTesting.Transition.Send
import RaftTesting.Transition.Step
import RaftTesting.Transition.Touch
import RaftTesting.Transition.Turn
