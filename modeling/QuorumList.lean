import QuorumList.Formats
import QuorumList.Http.Service
import QuorumList.Main
import QuorumList.Network
import QuorumList.Proofs.Adoption
import QuorumList.Proofs.CommonHistory
import QuorumList.Proofs.Comparison
import QuorumList.Proofs.Ensemble
import QuorumList.Proofs.Handover
import QuorumList.Proofs.History
import QuorumList.Proofs.Lawful
import QuorumList.Proofs.Phases
import QuorumList.Proofs.Provenance
import QuorumList.Proofs.Reigns
import QuorumList.Proofs.SingleView
import QuorumList.Settings.Wire
import QuorumList.Proofs.OwnRecord
import QuorumList.Proofs.Stances
import QuorumList.Proofs.Council
import QuorumList.Proofs.Restart
import QuorumList.Proofs.Stability
import QuorumList.Proofs.Steps
import QuorumList.Proofs.LockStep
import QuorumList.Proofs.ViewChange
import QuorumList.Proofs.Changes
import QuorumList.Proofs.Repetition
import QuorumList.Proofs.Votes
import QuorumList.Proofs.Intersection
import QuorumList.Proofs.Corruption
import QuorumList.Proofs.Legality
import QuorumList.Proofs.Standstill
import QuorumList.Proofs.Lures
import QuorumList.Proofs.Invariants
import QuorumList.Proofs.Holes
import QuorumList.Proofs.Vigil
import QuorumList.Proofs.Stages
import QuorumList.Proofs.Certificates
import QuorumList.Proofs.Strangers
import QuorumList.Proofs.Lineage
import QuorumList.Proofs.Acknowledgement
import QuorumList.Proofs.Accusations
import QuorumList.Proofs.RoundTrip
import QuorumList.Proofs.Delivery
import QuorumList.Proofs.Revival
import QuorumList.Proofs.Peeling
import QuorumList.Proofs.SharedHistory
import QuorumList.Proofs.Ordering
import QuorumList.Proofs.Slots
import QuorumList.Proofs.Support
import QuorumList.Proofs.Heartbeats
import QuorumList.Proofs.Sequencing
import QuorumList.Proofs.Spreading
import QuorumList.Proofs.Addresses
import QuorumList.Proofs.Execution
import QuorumList.Proofs.Renewal
import QuorumList.Proofs.Responsiveness
import QuorumList.Proofs.Service
