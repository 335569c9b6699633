import Timeshift.Store.Basic

/-!
# Writing to the store

An operation hands its rows to the archive first. Only when the archive has taken all of them
do the store and its journal change, so an operation that fails leaves what can be read as it
was. An id that was given out is used up even so.
-/

namespace Timeshift

namespace Store

/-- An operation on the store. What was done before a fault is kept. -/
abbrev Op := ExceptT Fault (StateM Store)

def run {α : Type} (s : Store) (op : Op α) : Except Fault α × Store := (op.run).run s

/-! ## Steps -/

def persist (edit : Archive → Archive) : Op Unit := do
  let (taken, archive) := (← get).archive.write edit
  modify ({ · with archive })
  unless taken do throw .writeRefused

def publish (e : StoreEvent) : Op Unit :=
  modify fun s => { s with journal := s.journal ++ [e] }

def hold (s : Store) (schedules : List Schedule) : Store :=
  { s with live := schedules.foldl (fun m x => m.insert x.id x) s.live }

def release (s : Store) (ids : List ScheduleId) : Store :=
  { s with live := ids.foldl (·.erase ·) s.live }

/-- The store with a mark for every one of these schedules that has a program. -/
def mark (s : Store) (deleted : List Schedule) : Store :=
  { s with
    marks := deleted.foldl (fun m x => x.programId.elim m (m.insert · x)) s.marks }

/-- The store without the marks of these schedules' programs. -/
def unmark (s : Store) (marks : List Schedule) : Store :=
  { s with marks := marks.foldl (fun m x => x.programId.elim m m.erase) s.marks }

/-- The marks of the programs that these schedules record. -/
def marksOf (s : Store) (schedules : List Schedule) : List Schedule :=
  schedules.filterMap fun x => x.programId.bind (s.marks[·]?)

/-! ## Loading -/

/-- The state of a schedule after a restart at `now`. Nothing is being recorded yet, and what
has ended can no longer be recorded. -/
def stateAfterRestart (now : Instant) (s : Schedule) : RecordingState :=
  match s.state with
  | .inProgress => if s.ends ≤ now then .failed else .notStarted
  | .notStarted => if s.ends ≤ now then .failed else .notStarted
  | state => state

/-- A row as it is after a restart at `now`. -/
def restarted (now : Instant) (s : Schedule) : Schedule :=
  { s with state := stateAfterRestart now s }

/-- The store as the archive has it, with the rows as they are after a restart. -/
def adopt (s : Store) (rows : List Schedule) (rest : Snapshot) : Store :=
  let (deleted, live) := rows.partition (·.state == .deleted)
  let fresh := { s with live := ∅, marks := ∅, rules := ∅ }
  { (fresh.hold live).mark deleted with
    rules := rest.rules.foldl (fun m r => m.insert r.id r) ∅
    recorded := rest.recorded
    scheduleIds := s.scheduleIds.skipAll (rows.map (·.id))
    ruleIds := s.ruleIds.skipAll (rest.rules.map (·.id))
    recordedIds := s.recordedIds.skipAll (rest.recorded.map (·.id))
    isLoaded := true }

/-- Reads the archive and counts the schedules. Rows that a restart changes are written back
first. -/
def load (now : Instant) : Op Nat := do
  match (← get).archive.read with
  | .error fault => throw fault
  | .ok snapshot =>
    let rows := snapshot.schedules.map (restarted now)
    let changed := (rows.zip snapshot.schedules).filterMap fun (row, old) =>
      if row.state = old.state then none else some row
    unless changed.isEmpty do persist (·.putSchedules changed)
    modify (·.adopt rows snapshot)
    publish .loaded
    return (← get).live.size

/-! ## Schedules -/

/-- What is said of a schedule that has no length. -/
def noLength (s : Schedule) : Fault :=
  .invalid s!"schedule on channel {s.channelId} has an empty time range [{s.starts}, {s.ends})"

/-- What is said of an update that moves a schedule to another channel. -/
def channelMoved (old new : Schedule) : Fault :=
  .misuse s!"Channel of schedule {new.id} changed from {old.channelId} to {new.channelId}"

/-- Gives every schedule an id, in order. -/
def number : IdCounter → List Schedule → List Schedule × IdCounter
  | c, [] => ([], c)
  | c, s :: rest =>
    let (id, c) := c.take
    let (numbered, c) := number c rest
    ({ s with id } :: numbered, c)

/-- Takes copies into use and lifts the marks of their programs. -/
def keep (schedules : List Schedule) : Op Unit := do
  let lifted := (← get).marksOf schedules
  persist (·.putSchedules schedules)
  unless lifted.isEmpty do persist (·.dropSchedules (lifted.map (·.id)))
  modify fun s => (s.unmark lifted).hold schedules

def add (schedules : List Schedule) : Op (List Schedule) := do
  if schedules.isEmpty then return []
  if let some bad := schedules.find? fun s => s.ends ≤ s.starts then
    throw (noLength bad)
  let (added, ids) := number (← get).scheduleIds schedules
  modify ({ · with scheduleIds := ids })
  keep added
  publish (.added added)
  return added

/-- The updates of known schedules, unless one of them moves to another channel. A debug assertion
checks this, so a release build takes that update too. -/
def knownUpdates (s : Store) : List Schedule → Except Fault (List Schedule)
  | [] => .ok []
  | x :: rest =>
    match s.schedule? x.id with
    | none => s.knownUpdates rest
    | some old =>
      if old.channelId = x.channelId then (s.knownUpdates rest).map (x :: ·)
      else .error (channelMoved old x)

/-- Replaces schedules. Unknown ones are left out. -/
def update (schedules : List Schedule) : Op Unit := do
  match (← get).knownUpdates schedules with
  | .error fault => throw fault
  | .ok updates =>
    unless updates.isEmpty do
      keep updates
      publish (.changed updates)

def changeState (id : ScheduleId) (state : RecordingState) : Op Unit := do
  if let some old := (← get).schedule? id then
    unless old.state = state do update [{ old with state }]

/-- Removing the schedule leaves a mark: it waits, and a rule would schedule it again. -/
def leavesMark (s : Schedule) : Bool :=
  s.isNotStarted && s.ruleId.isSome && s.programId.isSome

/-- Removes schedules. Those that leave a mark do so, unless they are removed by force. -/
def remove (schedules : List Schedule) (force : Bool) : Op Unit := do
  let s ← get
  let known := schedules.filterMap fun x => s.schedule? x.id
  let (marked, dropped) := known.partition fun x => !force && leavesMark x
  let marked := marked.map ({ · with state := .deleted })
  unless known.isEmpty do
    unless dropped.isEmpty do persist (·.dropSchedules (dropped.map (·.id)))
    unless marked.isEmpty do persist (·.putSchedules marked)
    let gone := dropped ++ marked
    modify fun s => (s.release (gone.map (·.id))).mark marked
    publish (.removed gone)

/-! ## Series rules -/

def addRule (rule : SeriesRule) : Op SeriesRule := do
  if rule.seriesKey.isEmpty then throw (.invalid "series recording needs a series id")
  let (id, ids) := (← get).ruleIds.take
  modify ({ · with ruleIds := ids })
  let rule := { rule with id }
  persist (·.putRule rule)
  modify fun s => { s with rules := s.rules.insert rule.id rule }
  publish (.rulesAdded [rule])
  return rule

def updateRule (rule : SeriesRule) : Op Unit := do
  if (← get).rules.contains rule.id then
    persist (·.putRule rule)
    modify fun s => { s with rules := s.rules.insert rule.id rule }
    publish (.rulesChanged [rule])

/-- Removes a rule with its waiting schedules and its marks. The other schedules made for it
stay without it. -/
def removeRule (id : RuleId) : Op Unit := do
  let s ← get
  if let some rule := s.rule? id then
    let (dropped, kept) := (s.membersOf id).partition (·.isNotStarted)
    let detached := kept.map ({ · with ruleId := none })
    let marks := s.markList.filter (·.ruleId == some id)
    let ids := dropped.map (·.id) ++ marks.map (·.id)
    unless ids.isEmpty do persist (·.dropSchedules ids)
    unless detached.isEmpty do persist (·.putSchedules detached)
    persist (·.dropRule id)
    modify fun s =>
      let s := ((s.release (dropped.map (·.id))).unmark marks).hold detached
      { s with rules := s.rules.erase id }
    unless dropped.isEmpty do publish (.removed dropped)
    unless detached.isEmpty do publish (.changed detached)
    publish (.rulesRemoved [rule])

/-! ## Recordings -/

/-- Adds a recording that has been made. It keeps its id if it has one. -/
def addRecorded (r : RecordedProgram) : Op RecordedProgram := do
  let s ← get
  let (id, ids) :=
    if r.id ≠ unassigned then (r.id, s.recordedIds.skip r.id) else s.recordedIds.take
  modify ({ · with recordedIds := ids })
  let r := { r with id }
  persist (·.putRecorded r)
  modify fun s => { s with recorded := s.recorded ++ [r] }
  return r

end Store

end Timeshift
