import Timeshift.Booking
import Timeshift.Proofs.Admission.Capacity
import Timeshift.Proofs.Conflict.Ranking
import Timeshift.Proofs.Conflict.Survivors
import Timeshift.Proofs.Docket.Agreement
import Timeshift.Station.Service
import Timeshift.Wire.Summary
import Timeshift.Proofs.Admission.Changes
import Timeshift.Proofs.Conflict.Reasons
import Timeshift.Proofs.Admission.Account
import Timeshift.Proofs.Admission.Identity
import Timeshift.Proofs.Admission.Holding
import Timeshift.Proofs.Broadcast
import Timeshift.Proofs.Station.Acts
import Timeshift.Proofs.Station.Words
import Timeshift.Proofs.Station.Flow
import Timeshift.Proofs.Station.Hearing
import Timeshift.Proofs.Station.Delivery
import Timeshift.Proofs.Station.Turns
import Timeshift.Proofs.Station.Loops
import Timeshift.Proofs.Station.Service
import Timeshift.Proofs.Station.Tracking
import Timeshift.Proofs.Admission.Due
import Timeshift.Proofs.Admission.Room
import Timeshift.Proofs.Store.Refusal
import Timeshift.Proofs.Admission.Asking
import Timeshift.Proofs.Store.Kept
import Timeshift.Proofs.Store.Restart
import Timeshift.Proofs.Conflict.Order
import Timeshift.Proofs.Conflict.Tuners
import Timeshift.Proofs.Admission.Timer
import Timeshift.Proofs.Dispatch
import Timeshift.Proofs.Station.Offers
import Timeshift.Proofs.Station.Round
import Timeshift.Proofs.Store.Replica
import Timeshift.Proofs.Docket.Deltas
import Timeshift.Proofs.Docket.Gate
import Timeshift.Proofs.Admission.Resumed
import Timeshift.Proofs.Admission.Arbitration
import Timeshift.Proofs.Expansion.Coverage
import Timeshift.Proofs.Expansion.Matching
import Timeshift.Proofs.Expansion.Duplicates
import Timeshift.Proofs.Expansion.Repeated
import Timeshift.Proofs.Expansion.Searching
import Timeshift.Proofs.Station.Updating
import Timeshift.Proofs.Booking.Added
import Timeshift.Proofs.Conflict.Best
import Timeshift.Proofs.Booking.Overriding
import Timeshift.Proofs.Store.Counting
import Timeshift.Proofs.Store.FreshIds
import Timeshift.Proofs.Booking.Manual
import Timeshift.Proofs.Store.LastWord
import Timeshift.Proofs.Station.LifeCycle
import Timeshift.Proofs.Station.Retaining
import Timeshift.Proofs.Station.Removing
import Timeshift.Proofs.Store.Failing
import Timeshift.Proofs.Station.Stopping
import Timeshift.Proofs.Station.Canceling
import Timeshift.Proofs.Admission.Reconciling
import Timeshift.Proofs.Store.Loading
import Timeshift.Proofs.Store.Parting
import Timeshift.Proofs.Booking.Filling
import Timeshift.Proofs.Conflict.Watching
import Timeshift.Proofs.Priority
import Timeshift.Proofs.Admission.Governing
import Timeshift.Proofs.Expansion.Airings
