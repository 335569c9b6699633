import Timeshift.Booking
import Timeshift.Station.Run

/-!
# What a client can ask of a station

Starting and stopping, and the bookings that have to reach a recording that runs.
-/

namespace Timeshift

namespace Station

/-- A station where nothing has happened yet. -/
def opening (settings : Settings) (around : Surroundings) (archive : Archive) (now : Instant)
    (alarm : Alarm) : Station where
  settings
  epoch := now
  around
  store := { archive, listings := around.listings }
  storeEvents := .empty settings.eventCapacity
  docketEvents := .empty settings.eventCapacity
  alarm

/-! ## Changes around a station -/

def changeAround (f : Surroundings → Surroundings) : Act Unit :=
  modify fun s => { s with around := f s.around }

def changeCatalog (f : Catalog → Catalog) : Act Unit :=
  changeAround fun a => { a with catalog := f a.catalog }

/-- Sets how recordings that begin from now on react: those of one schedule, or all others. -/
def setManner (id : Option ScheduleId) (m : Manner) : Act Unit :=
  changeAround fun a =>
    match id with
    | some id => { a with manners := a.manners.insert id m }
    | none => { a with manner := m }

def refuseWrites (on : Bool) : Act Unit :=
  modify fun s => { s with store := { s.store with archive := s.store.archive.refuseAll on } }

/-- Something that a client does, and that can be refused. -/
abbrev Deed := ExceptT Fault Act

def onStore {α : Type} (op : Store.Op α) : Deed α := ExceptT.mk (withStore op)

/-! ## The recording scheduler -/

def stopTask (x : Schedule) : Deed Unit := do
  let s ← get
  let id := Dispatch.route s.around.catalog x
  match s.control.desks[id]? with
  | none => throw (.notFound "input scheduler" id)
  | some n =>
    match ← (post n (.stopTask x.id) : Act _) with
    | .ok () => return ()
    | .error cause => throw (.unreachable cause)

/-- The desk of an input as it looks from outside, if there is one. -/
def viewOf (id : InputId) : Deed (Option Admission.View) := do
  match (← get).control.desks[id]? with
  | none => return none
  | some n =>
    match ← (askView n : Act _) with
    | .ok view => return some view
    | .error cause => throw (.unreachable cause)

def startControl : Act Unit := do
  let listener ← subscribe
  modifyControl fun c => { c with state := .running, listener, isStarted := true }
  wake .control

/-- Starts the control loop, and makes a first round. A second start does nothing. -/
def startScheduler : Act Unit := do
  if (← get).control.state = .waiting then
    startControl
    makeRound

/-- Makes a round whenever the alarm goes off. -/
def watchAlarm : Act Unit := do
  let s ← get
  if s.alarm.ticks && !s.alarm.isWatched then
    modifyAlarm fun a => { a with isWatched := true }
    wake .watcher

/-- The control loop, the watcher and all desks have ended. -/
def hasWoundDown (s : Station) : Bool :=
  s.control.state ≠ .running && (!s.alarm.isWatched || s.alarm.watcherEnded) &&
    s.desks.values.all (·.hasEnded)

/-- Tells the control loop, the watcher and all desks to end. -/
def beginStop : Act Unit := do
  let s ← get
  modifyControl fun c => { c with isStarted := false, isStopped := true, desks := ∅ }
  s.control.desks.values.forM fun n => discard (tryPost n .stop)
  s.desks.keys.forM cancelDesk
  wakeAll [.control, .watcher]

/-- Stops everything that records, and waits until it has ended. -/
def stopScheduler : Act Unit := do
  unless (← get).control.isStopped do
    beginStop
    waitUntil hasWoundDown

/-! ## The whole station -/

/-- Reads the archive, and counts the schedules. -/
def loadStore : Deed Nat := do onStore (Store.load (← get).now)

def start : Deed Unit := do
  discard (addFollower true : Act Nat)
  discard loadStore
  (startScheduler : Act Unit)
  (watchAlarm : Act Unit)
  ExceptT.mk (startEngine 0)

/-- The default of how long a shutdown waits, in milliseconds. -/
def shutdownLimit : Nat := 30000

/-- Stops all parts, and waits for them, but not for too long. -/
def shutdown (limit : Nat) : Act Unit := do
  let s ← get
  modify fun s => { s with isShuttingDown := true }
  wakeAll (s.followers.toList.filterMap fun (n, f) => if f.isOwned then some (.follower n) else none)
  stopEngine 0
  let isFirst := !(← get).control.isStopped
  if isFirst then beginStop
  waitAtMost limit fun s =>
    (!isFirst || s.hasWoundDown) && s.followers.values.all fun f => !f.isOwned || f.hasEnded

/-! ## Bookings that reach running recordings -/

/-- Removes schedules. A recording that runs is stopped instead. -/
def removeSchedules (schedules : List Schedule) : Deed Unit := do
  onStore Booking.requireLoaded
  let (running, idle) := schedules.partition (·.isInProgress)
  running.forM stopTask
  unless idle.isEmpty do onStore (Store.remove idle false)

def stopRecording (s : Schedule) : Deed Unit := do
  onStore Booking.requireLoaded
  stopTask s

def cancelMembers (rule : SeriesRule) : Deed Unit := do
  let s ← get
  let (running, canceled) := Booking.canceledWith s.store rule s.now
  running.forM stopTask
  onStore (Booking.updateAll canceled)

def updateRule (rule : SeriesRule) : Deed Unit := do
  onStore Booking.requireLoaded
  let old := (← get).store.rule? rule.id
  let wasCanceled := old.any (·.isCanceled)
  onStore (Store.updateRule rule)
  if !wasCanceled && rule.isCanceled then cancelMembers rule
  else if wasCanceled && !rule.isCanceled then
    let s ← get
    onStore (Booking.updateAll (Booking.resumedWith s.store rule s.now))
  if old.map (·.priority) ≠ some rule.priority then
    let s ← get
    onStore (Booking.updateAll (Booking.rerankedWith s.store rule s.now))

/-- Removes a rule. A recording of it that runs is stopped, as far as it can be reached. -/
def removeRule (id : RuleId) : Deed Unit := do
  onStore Booking.requireLoaded
  let s ← get
  if (s.store.rule? id).isSome then
    if let some running := (s.store.membersOf id).find? (·.isInProgress) then
      tryCatch (stopTask running) fun _ => return ()
    onStore (Store.removeRule id)

/-! ## Series -/

/-- A debug assertion. A release build would go on with the search. -/
def triedTooEarly : Fault := .misuse "series programs queried before the store loaded"

/-- The programs that a rule would schedule if it were stored. -/
def tryRule (e : Nat) (rule : SeriesRule) : Deed (List Program) := do
  let s ← get
  unless s.store.isLoaded do throw triedTooEarly
  let found ← (search (Expansion.trialFilter s.store rule s.now) : Act Found)
  ExceptT.mk (finishTrial e rule found)

/-- The programs that a rule for the show of a program would schedule. -/
def trySeries (p : Program) : Deed (List Program) := do
  let s ← get
  let rule ← onStore (Booking.newRule s.around.catalog s.docket p)
  tryRule 0 rule

/-- Updates rules at once. An update that has been called off only searches. -/
def updateNow (rules : List SeriesRule) (isCanceled : Bool) : Deed Nat := do
  let s ← get
  let found ← (search (.ofStore s.store rules [] s.now) : Act Found)
  if isCanceled then
    match found.programs with
    | .error fault => throw fault
    | .ok _ => return 0
  else ExceptT.mk (finishSearch found)

/-! ## Numbers -/

structure Stats where
  schedules : Nat
  rules : Nat
  conflicts : Nat
  activeInputs : Nat
  updates : Nat
  deriving DecidableEq, Repr

def stats (s : Station) : Stats where
  schedules := s.store.live.size
  rules := s.store.rules.size
  conflicts := s.docket.allConflicts.length
  activeInputs := s.control.desks.size
  updates := (s.engine 0).updates.length

end Station

end Timeshift
