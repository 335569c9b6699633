import Timeshift.Station.Basic

/-!
# Desks and their mailboxes

A desk handles all messages in its mailbox one after the other, and only then makes one pass
for all of them. Without messages it waits until a pass is due. When it ends, its mailbox is
closed, and its recordings are told to stop and hear nothing more.
-/

namespace Timeshift

namespace Station

def modifyDesk (n : Nat) (f : Desk → Desk) : Act Unit :=
  modify fun s => { s with desks := s.desks.modify n f }

def modifyTake (n : Nat) (f : TakeRun → TakeRun) : Act Unit :=
  modify fun s => { s with takes := s.takes.modify n f }

/-! ## Posting -/

inductive Posted where
  | done
  | full
  | closed
  deriving DecidableEq

/-- The mailbox of a desk cannot be reached any more. -/
def isClosed (s : Station) (n : Nat) : Bool := (s.desks[n]?).all (·.mailbox.isClosed)

/-- A slot in the mailbox of a desk is kept for the worker. -/
def isGranted (s : Station) (n : Nat) (w : Worker) : Bool :=
  (s.desks[n]?).any (·.mailbox.isGranted w)

def tryPost (n : Nat) (message : Admission.Message) : Act Posted := do
  match (← get).desks[n]? with
  | none => return .closed
  | some desk =>
    if desk.mailbox.isClosed then return .closed
    else if desk.mailbox.isFull then return .full
    else
      modifyDesk n fun d => { d with mailbox := d.mailbox.put message }
      wake (.desk n)
      return .done

def postOrJoin (n : Nat) (w : Worker) (message : Admission.Message) : Act Posted := do
  let posted ← tryPost n message
  if posted = .full then
    modifyDesk n fun d => { d with mailbox := d.mailbox.join w }
  return posted

/-- Posts a message into the slot that is kept for the worker. -/
def postGranted (n : Nat) (w : Worker) (message : Admission.Message) : Act Unit := do
  modifyDesk n fun d => { d with mailbox := d.mailbox.putGranted w message }
  wake (.desk n)

def withdraw (n : Nat) (w : Worker) : Act Unit := do
  if let some desk := (← get).desks[n]? then
    let (next, mailbox) := desk.mailbox.withdraw w
    modifyDesk n fun d => { d with mailbox }
    next.forM wake

/-! ## Effects -/

/-- The loop that follows the store hears of a report, unless it has ended. -/
def fileReport (r : Report) : Act Unit := do
  let s ← get
  unless s.control.state = .ended do
    set { s with control := { s.control with reports := s.control.reports ++ [r] } }
    if s.control.state = .running then wake .control

def abandonTake (take : Nat) : Act Unit := do
  modifyTake take fun t => { t with take := { t.take with isAbandoned := true } }
  wake (.take take)

def perform (n : Nat) : Admission.Effect → Act Unit
  | .start seq s channel => do
    let take := fresh (← get).takes
    let run : TakeRun := { desk := n, seq, take := { schedule := s, channel, manner := .manual } }
    modify fun st => { st with takes := st.takes.insert take run }
    modifyDesk n fun d => { d with takes := d.takes.insert seq take }
    wake (.take take)
  | .tell seq order => do
    if let some take := ((← get).desks[n]?).bind (·.takes[seq]?) then
      modifyTake take fun t => { t with take := t.take.tell order }
      wake (.take take)
  | .report r => fileReport r
  | .reply asker view => do
    modify fun s => { s with replies := s.replies.insert asker view }
    wake .client

/-- The recordings that the desk has taken off its books hear nothing more. -/
def abandonGone (n : Nat) : Act Unit := do
  if let some desk := (← get).desks[n]? then
    let onBooks := desk.admission.active.values.map (·.seq)
    let gone := desk.takes.toList.filter fun (seq, _) => !onBooks.contains seq
    modifyDesk n fun d => { d with takes := gone.foldl (fun m (seq, _) => m.erase seq) d.takes }
    gone.forM fun (_, take) => abandonTake take

/-- Takes over a step of the admission, and carries out its effects. -/
def withAdmission (n : Nat) (step : Catalog → Instant → Admission → Admission.Turn) :
    Act Unit := do
  let s ← get
  if let some desk := s.desks[n]? then
    let (admission, effects) := step s.around.catalog s.now desk.admission
    modifyDesk n fun d => { d with admission }
    effects.forM (perform n)
    abandonGone n

/-! ## Turns of a desk -/

/-- Takes the oldest message out of the mailbox. The sender that gets its slot is woken. -/
def takeMessage (n : Nat) : Act Unit := do
  if let some (_, next, mailbox) := ((← get).desks[n]?).bind (·.mailbox.take?) then
    modifyDesk n fun d => { d with mailbox }
    next.forM wake

/-- Handles messages up to one that asks to stop. Tells whether there was one. -/
def handleMessages (n : Nat) : List Admission.Message → Act Bool
  | [] => return false
  | message :: rest => do
    takeMessage n
    if message = .stop then return true
    withAdmission n fun catalog now a => a.handle catalog now message
    handleMessages n rest

def endDesk (n : Nat) : Act Unit := do
  withAdmission n fun _ _ a => a.shutdown
  if let some desk := (← get).desks[n]? then
    modifyDesk n fun d =>
      { d with mailbox := d.mailbox.close, takes := ∅, rest := .nothing, hasEnded := true }
    rouse (.desk n)
    wakeAll (desk.mailbox.granted ++ desk.mailbox.line)
    desk.takes.values.forM abandonTake
    wake .client

/-- Makes the pass that is due, and waits for the next one. -/
def settleDesk (n : Nat) : Act Unit := do
  withAdmission n fun catalog now a => a.passIfDue catalog now
  rouse (.desk n)
  let s ← get
  if let some desk := s.desks[n]? then
    match desk.admission.nextPassAt with
    | none => modifyDesk n fun d => { d with rest := .nothing }
    | some t =>
      let delay := s.untilInstant t
      if delay = 0 then
        modifyDesk n fun d => { d with rest := .aside }
        stepAside (.desk n)
      else
        modifyDesk n fun d => { d with rest := .sleeping (s.elapsed + delay) }
        sleepUntil (.desk n) (s.elapsed + delay)

def runDesk (n : Nat) : Act Unit := do
  let s ← get
  if let some desk := s.desks[n]? then
    if desk.hasEnded || !desk.isSpawned then return
    if desk.isCancelled then endDesk n
    else if desk.mailbox.queue.isEmpty then
      if desk.rest.isOver s.elapsed then
        withAdmission n fun _ _ a => (a.wantPass, [])
        settleDesk n
    else if (← handleMessages n desk.mailbox.queue) then endDesk n
    else settleDesk n

def openDesk (input : InputId) (isSpawned : Bool) : Act Nat := do
  let s ← get
  let n := fresh s.desks
  let desk : Desk :=
    { admission := { inputId := input, lead := s.settings.earlyStart }
      mailbox := .empty s.settings.mailboxCapacity
      isSpawned }
  set { s with desks := s.desks.insert n desk }
  if isSpawned then wake (.desk n)
  return n

/-- Lets a desk take its first turn, unless it is closed. -/
def spawnDesk (n : Nat) : Act Unit := do
  unless (← get).isClosed n do
    modifyDesk n fun d => { d with isSpawned := true }
    wake (.desk n)

def discardDesk (n : Nat) : Act Unit := do
  if let some desk := (← get).desks[n]? then
    unless desk.isSpawned do modifyDesk n fun d => { d with mailbox := d.mailbox.close }

def cancelDesk (n : Nat) : Act Unit := do
  modifyDesk n fun d => { d with isCancelled := true }
  wake (.desk n)

end Station

end Timeshift
