import Muster.Event
import Muster.Config
import Muster.Store.Url
import Muster.Listeners
import Muster.Membership
import Muster.Counters
import Muster.Subscription.Status
import Muster.Store.Memory
import Muster.Schedule
import Muster.Fleet
import Muster.Config.Flat
import Muster.Remote
import Muster.CommandLine
import Muster.Main
import Muster.CommandLine.Folder
import Muster.Proofs.Synchronised
import Muster.Proofs.Lifecycle
import Muster.Proofs.Agreement
import Muster.Proofs.Freshness
import Muster.Proofs.Updaters
import Muster.Proofs.Handover
import Muster.Proofs.Joins
import Muster.Proofs.Budgets
import Muster.Proofs.StableMembers
import Muster.Proofs.Cancellation
import Muster.Proofs.SingleFlight
import Muster.Proofs.CacheAhead
import Muster.Proofs.Changes
import Muster.Proofs.Clusters
import Muster.Proofs.Following
import Muster.Proofs.Permits
import Muster.Proofs.Idling
import Muster.Proofs.Seniority
import Muster.Proofs.ConnectionPlaces
import Muster.Proofs.Wakening
import Muster.Proofs.Breaches
import Muster.Proofs.Callers
import Muster.Proofs.Disconnects
import Muster.Proofs.Registrations
import Muster.Proofs.Decoding
import Muster.Proofs.Fields
import Muster.Proofs.Acceptance
import Muster.Proofs.Launching
import Muster.Proofs.Flattening
import Muster.Proofs.Pacing
import Muster.Proofs.Counting
import Muster.Proofs.Scheduling
