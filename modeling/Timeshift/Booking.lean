import Timeshift.Docket.Query
import Timeshift.Expansion.Update

/-!
# Booking recordings

What a user asks for, as far as the store alone can do it. A single recording gets a priority
above all others, unless it is an episode of a show that is being recorded, or is booked
against certain schedules. A new rule gets a priority above all other rules.
-/

namespace Timeshift

namespace Booking

def requireLoaded : Store.Op Unit := do
  unless (← get).isLoaded do throw .notLoaded

def inputFor (catalog : Catalog) (id : ChannelId) : Store.Op Input :=
  match catalog.inputOf? id with
  | some input => return input
  | none => throw (.notFound "input for channel" (toString id))

/-- The rule for the show that a program belongs to. -/
def ruleFor? (store : Store) (p : Program) : Option SeriesRule :=
  p.seriesKey.bind store.ruleOf?

/-! ## Single recordings -/

def addOne (s : Schedule) : Store.Op Schedule := do
  match (← Store.add [s]).getLast? with
  | some added => return added
  | none => throw (.storage "store returned no schedule")

/-- Books a program. An episode of a show that is being recorded joins the rule. -/
def addProgram (catalog : Catalog) (docket : Docket) (p : Program) : Store.Op Schedule := do
  requireLoaded
  let input ← inputFor catalog p.channelId
  let store ← get
  let s := Schedule.ofProgram input.id p
  match ruleFor? store p with
  | some rule => addOne { s with priority := rule.priority.value, ruleId := some rule.id }
  | none => addOne { s with priority := (docket.newPriority store.schedules).value }

/-- The priority that a booking against some schedules gets. -/
def overridingPriority (overrides : List Schedule) : Priority :=
  (((overrides.map (·.priority)).min?).map Priority.next).getD Priority.highest

def addOverriding (catalog : Catalog) (p : Program) (overrides : List Schedule) :
    Store.Op Schedule := do
  requireLoaded
  let input ← inputFor catalog p.channelId
  addOne { Schedule.ofProgram input.id p with priority := overridingPriority overrides }

/-- Books a channel over a stretch of time. -/
def addRange (catalog : Catalog) (docket : Docket) (id : ChannelId) (range : TimeRange) :
    Store.Op Schedule := do
  requireLoaded
  let input ← inputFor catalog id
  let priority := (docket.newPriority (← get).schedules).value
  addOne { Schedule.ofRange input.id id range with priority }

def updateSchedule (s : Schedule) : Store.Op Unit := do
  requireLoaded
  Store.update [s]

/-! ## Rules -/

def newRule (catalog : Catalog) (docket : Docket) (p : Program) : Store.Op SeriesRule := do
  requireLoaded
  let input ← inputFor catalog p.channelId
  match SeriesRule.ofProgram? input.id p with
  | some rule =>
    return { rule with priority := docket.newRulePriority (← get).ruleList }
  | none => throw (.invalid s!"program {p.id} has no series id")

/-- The recordings that stand for an episode of the rule: whole ones, with some length. -/
def standsForEpisode (rule : SeriesRule) (r : RecordedProgram) : Bool :=
  r.seriesKey == some rule.seriesKey && !r.clipped && r.starts < r.ends

/-- Adds a rule for the show of a program, and schedules programs for it. What has been
recorded already is attached to the rule first. -/
def addRule (catalog : Catalog) (docket : Docket) (p : Program) (programs : List Program) :
    Store.Op SeriesRule := do
  let rule ← Store.addRule (← newRule catalog docket p)
  let recorded := ((← get).recorded.filter (standsForEpisode rule)).map fun r =>
    Expansion.takenOver rule (.ofRecorded r)
  unless recorded.isEmpty do discard (Store.add recorded)
  Expansion.attach rule programs
  return rule

/-! ## Changes of a rule -/

/-- The schedules that a cancelled rule takes along: those that it has to stop, and those that
it cancels. -/
def canceledWith (store : Store) (rule : SeriesRule) (now : Instant) :
    List Schedule × List Schedule :=
  let members := (store.available now).filter (·.ruleId == some rule.id)
  let (running, waiting) := members.partition (·.isInProgress)
  (running, waiting.map ({ · with state := .canceled }))

/-- The cancelled schedules that wait again with their rule. -/
def resumedWith (store : Store) (rule : SeriesRule) (now : Instant) : List Schedule :=
  ((store.membersOf rule.id).filter fun s => s.isCanceled && now < s.ends).map
    ({ · with state := .notStarted })

/-- The schedules that change their priority with their rule. -/
def rerankedWith (store : Store) (rule : SeriesRule) (now : Instant) : List Schedule :=
  ((store.membersOf rule.id).filter fun s =>
    !s.isInProgress && now < s.starts && s.priority ≠ rule.priority.value).map
    ({ · with priority := rule.priority.value })

def updateAll (changed : List Schedule) : Store.Op Unit :=
  unless changed.isEmpty do Store.update changed

/-! ## Questions -/

/-- The end of the recording on an input that ends first. -/
def earliestEnd? (catalog : Catalog) (store : Store) (id : InputId) (now : Instant) :
    Option Instant :=
  (((store.started now).filter fun s =>
    (catalog.inputOf? s.channelId).any (·.id == id)).map (·.ends)).min?

def runningOn? (store : Store) (id : ChannelId) (now : Instant) : Option Schedule :=
  if store.isLoaded then (store.started now).find? (·.channelId == id) else none

/-- What is on a channel now may be recorded. -/
def isChannelRecordable (catalog : Catalog) (store : Store) (id : ChannelId) (now : Instant) :
    Bool :=
  store.isLoaded && (catalog.inputOf? id).any (·.canRecord) &&
    (catalog.onAir? id now).all (!·.prohibited)

def isProgramRecordable (catalog : Catalog) (store : Store) (p : Program) : Bool :=
  store.isLoaded && (catalog.inputOf? p.channelId).any fun input =>
    input.canRecord && !p.prohibited

end Booking

end Timeshift
