import Timeshift.Admission.Basic
import Timeshift.Store.Writing

/-!
# Dispatch

Which desk hears of a schedule, and when. Every schedule goes to the input of its channel, as
the catalog has it at that moment. A schedule is offered to a desk once it starts soon, and the
alarm is set for the first one that does not. What the desks report back is written to the
store, unless the schedule has ended already.
-/

namespace Timeshift

/-- Something that a desk has to hear of. -/
inductive Parcel where
  /-- The schedule is offered if it waits and starts soon. -/
  | offer (s : Schedule)
  | update (s : Schedule)
  | remove (s : Schedule)
  /-- These schedules, and no others, want a tuner of the input. -/
  | align (id : InputId) (pending : List Schedule)

namespace Dispatch

/-! ## Where and when -/

/-- The input that records a schedule: that of its channel, or else the one that the schedule
names. -/
def route (catalog : Catalog) (s : Schedule) : InputId :=
  ((catalog.inputOf? s.channelId).map (·.id)).getD s.inputId

/-- The schedule starts `delta` from now, or earlier. -/
def startsWithin (now : Instant) (delta : Int64) (s : Schedule) : Bool :=
  boundedSub s.starts delta ≤ now

/-- The schedule waits and starts within the time that the machine needs to wake up. -/
def isSoon (now : Instant) (wake : Int64) (s : Schedule) : Bool :=
  s.isNotStarted && startsWithin now wake s

end Dispatch

/-! ## Parcels -/

def Parcel.message : Parcel → Admission.Message
  | .offer s => .add s
  | .update s => .update s
  | .remove s => .remove s.id
  | .align _ pending => .reconcile pending

def Parcel.input (catalog : Catalog) : Parcel → InputId
  | .offer s | .update s | .remove s => Dispatch.route catalog s
  | .align id _ => id

/-- The recording that is lost if the parcel does not arrive. -/
def Parcel.atStake : Parcel → Option Schedule
  | .update s => if s.isInProgress then some s else none
  | _ => none

namespace Dispatch

/-! ## Rounds -/

/-- The schedules to offer in a round. Each of them is looked at again when its turn comes. -/
def offers (store : Store) (now : Instant) : List Parcel :=
  ((store.available now).filter (·.isNotStarted)).map .offer

/-- When the machine has to wake up after a round at `now`. What starts up to `wake` later has
been offered in the round. -/
def alarmAfter (store : Store) (now : Instant) (wake : Int64) : Option Instant :=
  (store.nextStart? (boundedAdd now wake)).map (· - wake)

/-! ## Following the store -/

/-- What the desks hear of a changed schedule. -/
def parcelsOf (s : Schedule) : List Parcel :=
  if s.isPending then [.update s, .offer s] else [.remove s]

/-- What the desks hear after an event of the store, before the next round. After an event
about rules there is no round. -/
def parcelsFor : StoreEvent → Option (List Parcel)
  | .loaded => some []
  | .added l => some (l.map .offer)
  | .removed l => some (l.map .remove)
  | .changed l => some (l.flatMap parcelsOf)
  | .rulesAdded _ | .rulesRemoved _ | .rulesChanged _ => none

/-- What the desks of some inputs hear after events have been missed. -/
def alignments (catalog : Catalog) (store : Store) (inputs : List InputId) : List Parcel :=
  let pending := store.withState [.notStarted, .inProgress]
  inputs.map fun id => .align id (pending.filter fun s => route catalog s == id)

/-! ## Reports -/

/-- Writes the state that a desk reports. A report about a schedule that is unknown or has
ended is ignored. -/
def applyReport (r : Report) : Store.Op Unit := do
  if let some current := (← get).schedule? r.scheduleId then
    unless current.state.isTerminal do
      Store.changeState r.scheduleId r.state

/-- The report about a recording whose desk is gone. -/
def lostReport (id : InputId) (s : Schedule) : Report where
  inputId := id
  scheduleId := s.id
  state := .failed
  reason := some "input scheduler stopped"

end Dispatch

end Timeshift
