import QuorumLab.Cluster.Control
import QuorumLab.Engine.Solo
import QuorumLab.Shared
import QuorumLab.Store.LockedLog
import QuorumLab.Proofs.Store.Indexed
import QuorumLab.Proofs.Store.History
import QuorumLab.Proofs.Store.Edits
import QuorumLab.Proofs.Store.Paging
import QuorumLab.Proofs.Store.Votes
import QuorumLab.Proofs.Store.Offers
import QuorumLab.Proofs.Network.Links
import QuorumLab.Proofs.Network.Topology
import QuorumLab.Proofs.Network.Loops
import QuorumLab.Proofs.Network.Poisoning
import QuorumLab.Proofs.Network.Traffic
import QuorumLab.Proofs.Engine.Timing
import QuorumLab.Proofs.Engine.Events
import QuorumLab.Proofs.Engine.Work
import QuorumLab.Proofs.Engine.Steps
import QuorumLab.Proofs.Engine.Cycles
import QuorumLab.Proofs.Engine.Upholds
import QuorumLab.Proofs.Engine.Chain
import QuorumLab.Proofs.Engine.Trimming
import QuorumLab.Proofs.Engine.Persistence
import QuorumLab.Proofs.Engine.Laggards
import QuorumLab.Proofs.Engine.Replay
import QuorumLab.Proofs.Engine.Starting
import QuorumLab.Proofs.Engine.Restart
import QuorumLab.Proofs.Engine.Tickets
import QuorumLab.Proofs.Engine.Restoring
import QuorumLab.Proofs.Engine.Proposals
import QuorumLab.Proofs.Engine.Committed
import QuorumLab.Proofs.Engine.Answers
import QuorumLab.Proofs.Engine.Promises
import QuorumLab.Proofs.Engine.Visibility
import QuorumLab.Proofs.Engine.Chronicle
import QuorumLab.Proofs.Engine.Pace
import QuorumLab.Proofs.Engine.Spacing
import QuorumLab.Proofs.Cluster.Agreement
import QuorumLab.Proofs.Cluster.Restriction
import QuorumLab.Proofs.Cluster.Composition
import QuorumLab.Proofs.Cluster.Membership
import QuorumLab.Proofs.Cluster.Closing
import QuorumLab.Proofs.Cluster.Turns
import QuorumLab.Proofs.Cluster.Moves
import QuorumLab.Proofs.Cluster.Dismissal
import QuorumLab.Proofs.Cluster.Founders
import QuorumLab.Proofs.Cluster.Founding
import QuorumLab.Proofs.Cluster.Alignment
import QuorumLab.Proofs.Cluster.Waiting
