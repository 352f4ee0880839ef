import MarkerBus.Proofs.Pending
import MarkerBus.Proofs.Refinement
import MarkerBus.Proofs.Backlog
import MarkerBus.Proofs.Occupancy
import MarkerBus.Proofs.Isolation
import MarkerBus.Proofs.Snapshot
import MarkerBus.Proofs.Visibility
import MarkerBus.Proofs.Interchange
import MarkerBus.Proofs.MarkerName
import MarkerBus.Proofs.Log.Outlet
import MarkerBus.Proofs.Log.Account
import MarkerBus.Proofs.MessageOrder
import MarkerBus.Proofs.Listing
import MarkerBus.Proofs.Convergence
import MarkerBus.Proofs.Statistics
import MarkerBus.Proofs.Deletion
import MarkerBus.Proofs.Cleanup
import MarkerBus.Proofs.Recall
import MarkerBus.Proofs.Refusal
import MarkerBus.Proofs.Log.Conservation
import MarkerBus.Proofs.Log.Delivery
import MarkerBus.Proofs.Log.Sinks
import MarkerBus.Proofs.Log.Limits
import MarkerBus.Proofs.RetentionLimit
import MarkerBus.Proofs.Log.Settings
import MarkerBus.Proofs.Log.Target
import MarkerBus.Proofs.Storage.Address
import MarkerBus.Proofs.Storage.Overlap
