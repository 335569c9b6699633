import Timeshift.Station.Courier
import Timeshift.Station.Listening
import Timeshift.Station.Take

/-!
# Running a station

The client of a station does its work in one go. Where it has to wait, all workers run until
nobody can run any more, and only then time goes on to the next timer.
-/

namespace Timeshift

namespace Station

/-- One turn of a worker. The client takes no turns. -/
def turn : Worker → Act Unit
  | .desk n => runDesk n
  | .take n => runTake n
  | .control => runControl
  | .watcher => runWatcher
  | .follower n => runFollower n
  | .listener n => runEngineListener n
  | .job n => runJob n
  | .sleeper n => runSleeper n
  | .client => return

/-- Lets the workers run that can run, until nobody is left. -/
def drain : Nat → Act Unit
  | 0 => return
  | bound + 1 => do
    let s ← get
    match s.agenda.ready with
    | [] => return
    | w :: rest =>
      set { s with agenda := { s.agenda with ready := rest } }
      turn w
      drain bound

def comeBack : Act Bool := do
  modify fun s => { s with agenda := s.agenda.comeBack }
  return !(← get).agenda.ready.isEmpty

/-- Lets time go on to an instant, and wakes all workers whose time has come. -/
def passTime (elapsed : Nat) : Act Unit :=
  modify fun s => { s with elapsed, agenda := s.agenda.wakeDue elapsed }

def settleWithin : Nat → Act Unit
  | 0 => return
  | bound + 1 => do
    drain patience
    if (← comeBack) then settleWithin bound

/-- Runs until nobody can run any more at this instant. -/
def settle : Act Unit := settleWithin patience

def waitWithin (isOver : Station → Bool) : Nat → Act Unit
  | 0 => return
  | bound + 1 => do
    unless isOver (← get) do
      drain patience
      let more ← comeBack
      let s ← get
      if isOver s then return
      else if more then waitWithin isOver bound
      else
        match s.agenda.nextDue? with
        | none => return
        | some due =>
          passTime due
          waitWithin isOver bound

/-- The client waits. Time only goes on when nobody can run. -/
def waitUntil (isOver : Station → Bool) : Act Unit := do
  waitWithin isOver patience
  rouse .client

/-- The client waits until something has happened or some time has passed. -/
def waitAtMost (limit : Nat) (isOver : Station → Bool) : Act Unit := do
  let deadline := (← get).elapsed + limit
  sleepUntil .client deadline
  waitUntil fun s => isOver s || deadline ≤ s.elapsed

def advanceWithin (target : Nat) : Nat → Act Unit
  | 0 => return
  | bound + 1 => do
    settle
    match (← get).agenda.nextDue? with
    | none => return
    | some due =>
      if due ≤ target then
        passTime due
        advanceWithin target bound

/-- Lets some time pass. Every timer on the way goes off at its own instant. -/
def advance (span : Nat) : Act Unit := do
  let target := (← get).elapsed + span
  advanceWithin target patience
  passTime target
  settle

/-- Sets the clock forward or back, without any time passing. -/
def jump (delta : Int64) : Act Unit := modify fun s => { s with epoch := s.epoch + delta }

/-! ## The client and the desks -/

/-- Posts a message, and waits a while for a slot if there is none. -/
def post (n : Nat) (message : Admission.Message) : Act (Except PostFault Unit) := do
  match ← postOrJoin n .client message with
  | .done => return .ok ()
  | .closed => return .error .stopped
  | .full =>
    waitAtMost (← get).settings.sendTimeout fun s => s.isGranted n .client || s.isClosed n
    let s ← get
    if s.isGranted n .client then
      postGranted n .client message
      return .ok ()
    else if s.isClosed n then return .error .stopped
    else
      withdraw n .client
      return .error .timedOut

def postPatiently (n : Nat) (message : Admission.Message) : Act (Except PostFault Unit) := do
  match ← postOrJoin n .client message with
  | .done => return .ok ()
  | .closed => return .error .stopped
  | .full =>
    waitUntil fun s => s.isGranted n .client || s.isClosed n
    if (← get).isGranted n .client then
      postGranted n .client message
      return .ok ()
    else return .error .stopped

def postNow (n : Nat) (message : Admission.Message) : Act (Except PostFault Unit) := do
  match ← tryPost n message with
  | .done => return .ok ()
  | .closed => return .error .stopped
  | .full => return .error .full

def askView (n : Nat) : Act (Except PostFault Admission.View) := do
  let asker := (← get).nextAsker
  modify fun s => { s with nextAsker := asker + 1 }
  match ← post n (.askView asker) with
  | .error fault => return .error fault
  | .ok () =>
    waitUntil fun s => s.replies.contains asker || s.isClosed n
    match (← get).replies[asker]? with
    | some view =>
      modify fun s => { s with replies := s.replies.erase asker }
      return .ok view
    | none => return .error .stopped

/-! ## The client as a courier -/

def carryWithin (c : Courier) : Nat → Act Unit
  | 0 => return
  | bound + 1 => do
    let c ← resume .client c
    match c.heldAt with
    | none => return
    | some n =>
      waitUntil fun s => s.isGranted n .client || s.isClosed n
      carryWithin c bound

/-- Makes a round: offers what starts soon, and sets the alarm. -/
def makeRound : Act Unit := carryWithin { roundDue := true } patience

end Station

end Timeshift
