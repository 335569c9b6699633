import Timeshift.Station.Desk

/-!
# Turns of a take

A take begins in its first turn, and tells its desk when it has ended. A take that was told to
stop and has not ended after a while is given up.
-/

namespace Timeshift

namespace Station

/-- The take has told its desk, or cannot. -/
def closeTake (n : Nat) : Act Unit := do
  modifyTake n fun t => { t with hasEnded := true }
  rouse (.take n)

def deliverOutcome (n : Nat) (run : TakeRun) (outcome : Outcome) : Act Unit := do
  rouse (.take n)
  modifyTake n fun t => { t with outcome := some outcome }
  match ← postOrJoin run.desk (.take n) (.finished run.take.schedule.id run.seq outcome) with
  | .full => return
  | .done | .closed => closeTake n

/-- Looks whether the desk can hear now how a take has ended. -/
def redeliverOutcome (n : Nat) (run : TakeRun) (outcome : Outcome) : Act Unit := do
  let s ← get
  if s.isGranted run.desk (.take n) then
    postGranted run.desk (.take n) (.finished run.take.schedule.id run.seq outcome)
    closeTake n
  else if s.isClosed run.desk then closeTake n

/-- When a take is given up that was told to stop. -/
def deadlineOf (s : Station) (run : TakeRun) : Option Nat :=
  if run.take.stopSignal then
    run.deadline <|> s.settings.stopTimeout.map (s.elapsed + ·)
  else none

/-- Lets a take react, and then waits for what may happen next. -/
def advanceTake (n : Nat) (run : TakeRun) : Act Unit := do
  let s ← get
  let (notes, take, outcome) := run.take.advance s.now
  let id := run.take.schedule.id
  let deadline := s.deadlineOf { run with take }
  modify fun s => { s with takeNotes := s.takeNotes ++ notes.map (id, ·) }
  modifyTake n fun t => { t with take, deadline }
  match outcome with
  | some outcome => deliverOutcome n run outcome
  | none =>
    if deadline.any (· ≤ s.elapsed) then
      deliverOutcome n run (.failed "task did not acknowledge stop")
    else
      deadline.forM (sleepUntil (.take n))
      if let some t := take.looksAt then
        sleepUntil (.take n) (s.elapsed + s.untilInstant t)

def beginTake (n : Nat) (run : TakeRun) : Act TakeRun := do
  let s ← get
  let schedule := run.take.schedule
  let manner := s.around.mannerOf schedule.id
  let run := { run with isStarted := true, take := { run.take with manner } }
  modify fun s =>
    { s with
      takes := s.takes.insert n run
      takeNotes := s.takeNotes ++ [(schedule.id, .started run.take.channel.id schedule)] }
  return run

def runTake (n : Nat) : Act Unit := do
  if let some run := (← get).takes[n]? then
    if run.hasEnded then return
    match run.outcome with
    | some outcome => redeliverOutcome n run outcome
    | none =>
      let run ← if run.isStarted then pure run else beginTake n run
      advanceTake n run

/-- Calls off the take of a schedule that was begun last. Tells whether there was one. -/
def callOff (id : ScheduleId) (outcome : Outcome) : Act Bool := do
  let running := (← get).takes.toList.filter fun (_, run) =>
    run.take.schedule.id == id && run.isStarted && !run.hasEnded && run.outcome.isNone &&
      run.take.called.isNone
  match running.getLast? with
  | none => return false
  | some (n, _) =>
    modifyTake n fun t => { t with take := { t.take with called := some outcome } }
    wake (.take n)
    return true

end Station

end Timeshift
