import Timeshift.Admission.Basic
import Timeshift.Sort

/-!
# The admission pass

A pass looks at the schedules whose time has come, by start. Each of them gets a free tuner, or
the tuner of a weaker recording once that has ended, or fails. While a running recording will
end before a schedule starts, the schedule and all later ones wait for it.
-/

namespace Timeshift

namespace Admission

/-! ## Which schedules a pass looks at -/

def isExpired (now : Instant) (s : Schedule) : Bool := s.ends ≤ now

/-- The first instant at which a schedule may take a tuner. -/
def admitsAt (a : Admission) (s : Schedule) : Instant := boundedSub s.starts a.lead

/-- The schedule may take a tuner now, and no earlier recording of it is on the books. -/
def isDue (a : Admission) (now : Instant) (s : Schedule) : Bool :=
  !s.isCanceled && a.admitsAt s ≤ now && now < s.ends && !a.active.contains s.id

/-- The schedules that may take a tuner now, by start. -/
def dueNow (a : Admission) (now : Instant) : List Schedule :=
  sortBy Schedule.startLE (a.waiting.values.filter (a.isDue now))

/-- When a waiting schedule needs the next pass: as soon as it may take a tuner, or at its end
if it may already. -/
def needsPassAt (a : Admission) (now : Instant) (s : Schedule) : Instant :=
  if now < a.admitsAt s then a.admitsAt s else s.ends

/-! ## Tuners -/

/-- A recording on the books ends no later than `t`. -/
def someEndsBy (a : Admission) (t : Instant) : Bool :=
  a.active.values.any fun r => r.schedule.ends ≤ t

/-- The recording on the books that ranks lowest, of those with a priority below `p`. -/
def weakestBelow (a : Admission) (p : Priority) : Option Running :=
  (sortBy (fun x y => x.schedule.rankLE y.schedule)
    (a.active.values.filter fun r => r.schedule.priority < p)).head?

/-- Puts a new recording on the books. -/
def begin (a : Admission) (s : Schedule) (channel : Channel) : Turn :=
  let seq := a.lastSeq + 1
  let s := { s with state := .inProgress }
  ({ a with
      lastSeq := seq
      active := a.active.insert s.id { schedule := s, seq, isStopping := false } },
    [.start seq s channel, a.report s.id .inProgress none])

/-- Gives a free tuner to a schedule. -/
def seat (catalog : Catalog) (a : Admission) (s : Schedule) : Turn :=
  let rest := a.dismiss s.id
  match catalog.channel? s.channelId with
  | some channel => rest.begin s channel
  | none => (rest, [rest.failure s "channel is no longer available"])

/-- Decides on the schedules whose time has come, in order. -/
def seatDue (catalog : Catalog) (tuners : Nat) : List Schedule → Admission → Turn
  | [], a => (a, [])
  | s :: later, a =>
    if a.someEndsBy s.starts then (a, [])
    else if a.active.size < tuners then
      let (a, effects) := a.seat catalog s
      let (a, more) := seatDue catalog tuners later a
      (a, effects ++ more)
    else
      match a.weakestBelow s.priority with
      | some victim => if victim.isStopping then (a, []) else a.tellEnd victim .stop
      | none =>
        let (a, more) := seatDue catalog tuners later (a.dismiss s.id)
        (a, a.failure s "no tuner available" :: more)

/-! ## The pass -/

/-- Fails the schedules that have ended before they got a tuner. -/
def dropExpired (a : Admission) (now : Instant) : Turn :=
  let expired := a.waiting.values.filter (isExpired now)
  (expired.foldl (fun a s => a.dismiss s.id) a,
    expired.map (a.failure · "ended before a tuner was available"))

def setNextPass (a : Admission) (now : Instant) : Admission :=
  { a with nextPassAt := (a.waiting.values.map (a.needsPassAt now)).min? }

/-- Decides on everything whose time has come. The tuners are counted anew in every pass. -/
def pass (catalog : Catalog) (now : Instant) (a : Admission) : Turn :=
  let (a, expired) := { a with passDue := false, nextPassAt := none }.dropExpired now
  let (a, effects) := seatDue catalog (catalog.recordingTuners a.inputId) (a.dueNow now) a
  (a.setNextPass now, expired ++ effects)

def passIfDue (catalog : Catalog) (now : Instant) (a : Admission) : Turn :=
  if a.passDue then a.pass catalog now else (a, [])

/-! ## Messages -/

/-- Handles one message. The view is shown after the pass that is due. A desk that is asked to
stop changes nothing: whoever runs it ends it. -/
def handle (catalog : Catalog) (now : Instant) (a : Admission) : Message → Turn
  | .add s => a.handleAdd s
  | .remove id => a.handleRemove id
  | .update s => a.handleUpdate now s
  | .reconcile pending => a.handleReconcile now pending
  | .rebuild => (a.wantPass, [])
  | .finished id seq outcome => a.handleFinished id seq outcome
  | .stopTask id => a.handleStopTask id
  | .askView asker =>
    let (a, effects) := a.passIfDue catalog now
    (a, effects ++ [.reply asker a.view])
  | .stop => (a, [])

end Admission

end Timeshift
