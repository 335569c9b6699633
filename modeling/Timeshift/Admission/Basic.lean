import Std.Data.TreeMap
import Timeshift.Catalog
import Timeshift.Recording.Basic

/-!
# Admission to the tuners of one input

Every input has one admission desk. Schedules wait there until their time comes, and the desk
keeps the recordings that run. It only asks a recording to stop. The recording stays on the
books until it says that it has ended, so a schedule may wait again while its old recording is
still winding down.

Every step answers with the desk after it and the effects that others have to carry out.
-/

namespace Timeshift

/-- A recording on the books of a desk. -/
structure Running where
  /-- The latest copy of the schedule. -/
  schedule : Schedule
  /-- Tells apart the recordings of one desk. Counted in 64 bits, which do not run out here. -/
  seq : Nat
  isStopping : Bool
  deriving DecidableEq, Repr

structure Admission where
  inputId : InputId
  /-- How long before its start a schedule may take a tuner. -/
  lead : Int64
  waiting : Std.TreeMap ScheduleId Schedule := ∅
  active : Std.TreeMap ScheduleId Running := ∅
  /-- When the next pass has something to do, as far as the last pass could tell. -/
  nextPassAt : Option Instant := none
  /-- Something has changed since the last pass. -/
  passDue : Bool := false
  /-- The number of the recording that was begun last. -/
  lastSeq : Nat := 0

namespace Admission

/-! ## Messages and effects -/

/-- What a desk looks like from outside. All lists are by id. -/
structure View where
  waiting : List ScheduleId
  active : List ScheduleId
  stopping : List ScheduleId
  nextPassAt : Option Instant
  deriving DecidableEq, Repr

inductive Message where
  | add (s : Schedule)
  | remove (id : ScheduleId)
  | update (s : Schedule)
  /-- These schedules, and no others, want a tuner of this input. -/
  | reconcile (pending : List Schedule)
  | rebuild
  | finished (id : ScheduleId) (seq : Nat) (outcome : Outcome)
  | stopTask (id : ScheduleId)
  | askView (asker : Nat)
  | stop
  deriving DecidableEq

inductive Effect where
  | start (seq : Nat) (s : Schedule) (channel : Channel)
  | tell (seq : Nat) (order : Order)
  | report (r : Report)
  | reply (asker : Nat) (view : View)
  deriving DecidableEq

/-- A desk after a step, and the effects of the step. -/
abbrev Turn := Admission × List Effect

/-! ## Parts of a step -/

/-- The schedule waits or has a recording on the books. -/
def isTracked (a : Admission) (id : ScheduleId) : Bool :=
  a.waiting.contains id || a.active.contains id

/-- Lets a schedule wait, in place of an older copy. -/
def enqueue (a : Admission) (s : Schedule) : Admission :=
  { a with waiting := a.waiting.insert s.id s }

/-- The schedule waits no longer. -/
def dismiss (a : Admission) (id : ScheduleId) : Admission :=
  { a with waiting := a.waiting.erase id }

def wantPass (a : Admission) : Admission := { a with passDue := true }

/-- Tells a recording to stop or to cancel. -/
def tellEnd (a : Admission) (t : Running) (order : Order) : Turn :=
  ({ a with active := a.active.insert t.schedule.id { t with isStopping := true } },
    [.tell t.seq order])

def report (a : Admission) (id : ScheduleId) (state : RecordingState) (reason : Option String) :
    Effect :=
  .report { inputId := a.inputId, scheduleId := id, state, reason }

/-- Tells that a schedule will not be recorded. -/
def failure (a : Admission) (s : Schedule) (reason : String) : Effect :=
  a.report s.id .failed (some reason)

def view (a : Admission) : View where
  waiting := a.waiting.keys
  active := a.active.keys
  stopping := (a.active.filter fun _ t => t.isStopping).keys
  nextPassAt := a.nextPassAt

/-! ## Handling one message -/

/-- A schedule that is tracked already is not added again. -/
def handleAdd (a : Admission) (s : Schedule) : Turn :=
  if a.isTracked s.id then (a, []) else ((a.enqueue s).wantPass, [])

/-- Forgets a schedule. Its recording is told to cancel. -/
def handleRemove (a : Admission) (id : ScheduleId) : Turn :=
  let rest := a.dismiss id
  match a.active[id]? with
  | some t => rest.tellEnd t .cancel
  | none => (if a.waiting.contains id then rest.wantPass else rest, [])

/-- The recording runs, and the new copy starts later and still in the future. -/
def movesLater (now : Instant) (t : Running) (s : Schedule) : Bool :=
  now < s.starts && t.schedule.starts < s.starts

/-- Takes over a new copy of a tracked schedule. The copy that waits is replaced. A recording
goes on with the new copy, unless the start has moved later: then it is cancelled, and the
schedule waits again. -/
def handleUpdate (a : Admission) (now : Instant) (s : Schedule) : Turn :=
  if a.waiting.contains s.id then ((a.enqueue s).wantPass, [])
  else
    match a.active[s.id]? with
    | none => (a, [])
    | some t =>
      if movesLater now t s then (a.enqueue s).tellEnd t .cancel
      else
        ({ a with active := a.active.insert s.id { t with schedule := s } },
          [.tell t.seq (.update s)])

/-- The new copy differs from the tracked one in something that counts. -/
def differs (a : Admission) (s : Schedule) : Bool :=
  match a.waiting[s.id]?, a.active[s.id]? with
  | some old, _ => old ≠ s
  | none, some t =>
    t.schedule.starts ≠ s.starts || t.schedule.ends ≠ s.ends || t.schedule.priority ≠ s.priority
  | none, none => false

/-- Brings one tracked schedule in line with the ones that are wanted. -/
def reconcileOne (now : Instant) (pending : Std.TreeMap ScheduleId Schedule) (a : Admission)
    (id : ScheduleId) : Turn :=
  match pending[id]? with
  | none => a.handleRemove id
  | some s => if a.differs s then a.handleUpdate now s else (a, [])

/-- The ids that are tracked: those that wait, and then those that only run. -/
def trackedIds (a : Admission) : List ScheduleId :=
  a.waiting.keys ++ a.active.keys.filter fun id => !a.waiting.contains id

/-- Runs a step for every id, and collects the effects. -/
def forEach (step : Admission → ScheduleId → Turn) : List ScheduleId → Admission → Turn
  | [], a => (a, [])
  | id :: rest, a =>
    let (a, effects) := step a id
    let (a, more) := forEach step rest a
    (a, effects ++ more)

/-- Brings the tracked schedules in line with the ones that are wanted. New ones are not
added. Of two copies with one id the later one counts. -/
def handleReconcile (a : Admission) (now : Instant) (pending : List Schedule) : Turn :=
  let wanted := pending.foldl (fun m s => m.insert s.id s) ∅
  forEach (reconcileOne now wanted) a.trackedIds a

/-- A recording has ended. A message about any other than the one on the books is old. The end
is reported unless the schedule waits again. -/
def handleFinished (a : Admission) (id : ScheduleId) (seq : Nat) (outcome : Outcome) : Turn :=
  match a.active[id]? with
  | none => (a, [])
  | some t =>
    if t.seq = seq then
      ({ a with active := a.active.erase id, passDue := true },
        if a.waiting.contains id then [] else [a.report id outcome.state outcome.reason?])
    else (a, [])

def handleStopTask (a : Admission) (id : ScheduleId) : Turn :=
  match a.active[id]? with
  | none => (a, [])
  | some t => a.tellEnd t .stop

/-- Gives up everything: all recordings are told to stop, and nothing waits any more. -/
def shutdown (a : Admission) : Turn :=
  forEach handleStopTask a.active.keys { a with waiting := ∅, nextPassAt := none }

end Admission

end Timeshift
