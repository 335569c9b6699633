import Timeshift.Station.Desk

/-!
# Couriers

A courier brings parcels to the desks, opens desks where there are none, and sets the alarm. It
waits where a mailbox is full, and goes on with the same parcel when a slot is kept for it. The
control loop is a courier that follows the store, and the watcher is one that follows the alarm.
-/

namespace Timeshift

namespace Station

def modifyControl (f : Control → Control) : Act Unit :=
  modify fun s => { s with control := f s.control }

def modifyAlarm (f : Alarm → Alarm) : Act Unit :=
  modify fun s => { s with alarm := f s.alarm }

/-! ## Desks of inputs -/

def openDesk? (s : Station) (id : InputId) : Option Nat :=
  if s.control.isStopped then none
  else (s.control.desks[id]?).filter fun n => !s.isClosed n

/-- The desk of an input. It is opened if need be, unless everything has been stopped. -/
def deskFor (id : InputId) : Act (Option Nat) := do
  let s ← get
  match s.openDesk? id with
  | some n => return some n
  | none =>
    if s.control.isStopped then return none
    else
      let n ← openDesk id true
      modifyControl fun c => { c with desks := c.desks.insert id n }
      return some n

def forgetDesk (id : InputId) : Act Unit := do
  let s ← get
  if (s.control.desks[id]?).any s.isClosed then
    modifyControl fun c => { c with desks := c.desks.erase id }

/-! ## Parcels -/

/-- Reports that a recording is lost, if the parcel puts one at stake. -/
def reportLost (id : InputId) (p : Parcel) : Act Unit :=
  p.atStake.forM fun s => fileReport (Dispatch.lostReport id s)

/-- The desk is closed, and the parcel cannot arrive. -/
def giveUp (p : Parcel) : Act Unit := do
  let id := p.input (← get).around.catalog
  forgetDesk id
  reportLost id p

/-- The desk that a parcel goes to. Only an offer opens one. -/
def addressee (p : Parcel) : Act (Option Nat) := do
  let s ← get
  let id := p.input s.around.catalog
  match p with
  | .offer x =>
    if Dispatch.isSoon s.now s.settings.wakeBefore x then deskFor id else return none
  | .align .. => return s.control.desks[id]?
  | .update _ | .remove _ =>
    let desk := s.openDesk? id
    if desk.isNone && !s.control.isStopped then reportLost id p
    return desk

/-- Brings a parcel to its desk. Tells at which desk it has to wait, if it has to. -/
def deliver (w : Worker) (p : Parcel) : Act (Option Nat) := do
  match ← addressee p with
  | none => return none
  | some n =>
    match ← postOrJoin n w p.message with
    | .done => return none
    | .full => return some n
    | .closed =>
      giveUp p
      return none

/-- Brings parcels to their desks in order, up to one that has to wait. -/
def deliverAll (w : Worker) : List Parcel → Act (List Parcel × Option Nat)
  | [] => return ([], none)
  | p :: rest => do
    match ← deliver w p with
    | some n => return (p :: rest, some n)
    | none => deliverAll w rest

/-- Looks whether the first parcel can be handed over where it waits. -/
def redeliver (w : Worker) (n : Nat) (p : Parcel) : Act Bool := do
  let s ← get
  if s.isGranted n w then
    postGranted n w p.message
    return true
  else if s.isClosed n then
    giveUp p
    return true
  else return false

/-! ## The alarm -/

/-- Sets the alarm in place of an earlier one. -/
def setAlarm (t : Instant) : Act Unit := do
  let s ← get
  if s.alarm.isLogged then
    modify fun s => { s with alarmNotes := s.alarmNotes ++ [t] }
  if s.alarm.ticks then
    let n := fresh s.sleepers
    let sleepers := (s.sleepers.insert n { delay := s.untilInstant t })
    let sleepers := s.alarm.pending.elim sleepers fun old =>
      sleepers.modify old fun x => { x with isAborted := true }
    modify ({ · with sleepers })
    modifyAlarm fun a => { a with pending := some n }
    wake (.sleeper n)

def clearAlarm : Act Unit := do
  let s ← get
  if let some old := s.alarm.pending then
    modify fun s =>
      { s with sleepers := s.sleepers.modify old fun x => { x with isAborted := true } }
    rouse (.sleeper old)
    modifyAlarm fun a => { a with pending := none }

def tick (n : Nat) : Act Unit := do
  modify fun s => { s with sleepers := s.sleepers.modify n fun x => { x with hasFired := true } }
  modifyAlarm fun a => { a with unheard := a.unheard + 1 }
  wake .watcher

def runSleeper (n : Nat) : Act Unit := do
  let s ← get
  if let some x := s.sleepers[n]? then
    if x.isAborted || x.hasFired then rouse (.sleeper n)
    else
      match x.due with
      | some due => if due ≤ s.elapsed then tick n
      | none =>
        if x.delay = 0 then tick n
        else
          let due := s.elapsed + x.delay
          modify fun s =>
            { s with sleepers := s.sleepers.modify n fun x => { x with due := some due } }
          sleepUntil (.sleeper n) due

/-! ## Rounds -/

/-- Delivers what there is to deliver, and sets the alarm at the end of a round. A courier that
has to wait keeps the rest. -/
def carry (w : Worker) (c : Courier) : Act Courier := do
  let (parcels, heldAt) ← deliverAll w c.parcels
  if heldAt.isSome then return { c with parcels, heldAt }
  else
    let s ← get
    match c.alarmSince with
    | some since =>
      (Dispatch.alarmAfter s.store since s.settings.wakeBefore).forM setAlarm
      return {}
    | none =>
      if c.roundDue then
        let (parcels, heldAt) ← deliverAll w (Dispatch.offers s.store s.now)
        if heldAt.isSome then return { parcels, heldAt, alarmSince := some s.now }
        else
          let st ← get
          (Dispatch.alarmAfter st.store s.now st.settings.wakeBefore).forM setAlarm
          return {}
      else return {}

/-- Goes on where the courier had to wait. -/
def resume (w : Worker) (c : Courier) : Act Courier := do
  match c.heldAt, c.parcels with
  | some n, p :: rest =>
    if (← redeliver w n p) then carry w { c with parcels := rest, heldAt := none } else return c
  | _, _ => carry w c

/-! ## The control loop -/

/-- What the control loop has to deliver after an event. -/
def courierFor (event : StoreEvent) : Courier :=
  match Dispatch.parcelsFor event with
  | some parcels => { parcels, roundDue := true }
  | none => {}

/-- What the control loop has to deliver after events have been missed. -/
def courierAfterMiss (s : Station) : Courier where
  parcels := Dispatch.alignments s.around.catalog s.store s.control.desks.keys
  roundDue := true

def endControl : Act Unit := do
  let s ← get
  modifyControl fun c => { c with state := .ended, reports := [], courier := {} }
  leave s.control.listener
  wake .client

/-- Lets the control loop go on with what it has to deliver. Tells whether it is done. -/
def carryControl (c : Courier) : Act Bool := do
  let c ← resume .control c
  modifyControl fun x => { x with courier := c }
  return c.isIdle

/-- Writes reports and follows events until there are no more. Reports go first. -/
def controlLoop : Nat → Act Unit
  | 0 => return
  | bound + 1 => do
    let s ← get
    if s.control.isStopped then endControl
    else
      match s.control.reports with
      | r :: rest =>
        modifyControl fun c => { c with reports := rest }
        discard (withStore (Dispatch.applyReport r))
        controlLoop bound
      | [] =>
        match ← receive s.control.listener with
        | .event e => if (← carryControl (courierFor e)) then controlLoop bound
        | .missed _ => if (← carryControl (courierAfterMiss s)) then controlLoop bound
        | .nothing => listen .control
        | .gone => endControl

def runControl : Act Unit := do
  let s ← get
  if s.control.state = .running then
    stopListening .control
    if (← carryControl s.control.courier) then controlLoop patience

/-! ## The watcher -/

/-- Makes a round for every time that the alarm has gone off. -/
def watchLoop : Nat → Act Unit
  | 0 => return
  | bound + 1 => do
    let s ← get
    if s.control.isStopped then
      modifyAlarm fun a => { a with watcherEnded := true }
      wake .client
    else if 0 < s.alarm.unheard then
      modifyAlarm fun a => { a with unheard := a.unheard - 1 }
      let c ← resume .watcher { roundDue := true }
      modifyAlarm fun a => { a with courier := c }
      if c.isIdle then watchLoop bound

def runWatcher : Act Unit := do
  let s ← get
  if s.alarm.isWatched && !s.alarm.watcherEnded then
    let c ← resume .watcher s.alarm.courier
    modifyAlarm fun a => { a with courier := c }
    if c.isIdle then watchLoop patience

end Station

end Timeshift
