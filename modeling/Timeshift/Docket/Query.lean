import Timeshift.Docket.Basic

/-!
# Questions to the docket

What is planned for an input, what would have to give way to a new recording or to live
viewing, and which priority a new recording should get. Before the lists have been made, all
answers are empty and the priorities are the least ones.
-/

namespace Timeshift

namespace Docket

/-! ## Lists -/

def schedulesOf (d : Docket) (id : InputId) : List Schedule := (d.tracked[id]?).getD []

/-- The schedules that have a tuner of an input. -/
def startedOf (d : Docket) (id : InputId) : List Schedule :=
  (d.schedulesOf id).filter (·.isInProgress)

/-- The schedules that will get no tuner of an input, the lowest rank first. -/
def conflictsOf (d : Docket) (id : InputId) : List Schedule := (d.conflicts[id]?).getD []

/-- The schedules that will not be recorded, by id. -/
def allConflicts (d : Docket) : List Schedule := sortOn Schedule.id d.conflicts.values.flatten

def isConflicting (d : Docket) (id : ScheduleId) : Bool :=
  d.conflicts.values.flatten.any (·.id == id)

def inputs (d : Docket) : List InputId := d.tracked.keys

/-! ## Priorities -/

/-- A priority above every schedule in use. -/
def newPriority (d : Docket) (stored : List Schedule) : EpisodePriority :=
  if d.isInitialized then .above ((stored.map (·.priority)).max?) else default

/-- A priority above every rule in use. -/
def newRulePriority (d : Docket) (rules : List SeriesRule) : SeriesPriority :=
  if d.isInitialized then .above ((rules.map (·.priority)).max?) else default

/-! ## What would have to give way -/

def recordableInput? (catalog : Catalog) (id : ChannelId) : Option Input :=
  (catalog.inputOf? id).filter fun input => input.canRecord && 0 < input.tunerCount

/-- What a new recording on `input` would disturb. -/
def disturbedBy (d : Docket) (stored : List Schedule) (input : Input) (s : Schedule) :
    List Schedule :=
  let new := { s with priority := (d.newPriority stored).value }
  Conflict.ifAdded [new] (d.schedulesOf input.id) input.tunerCount

def conflictsForProgram (d : Docket) (catalog : Catalog) (stored : List Schedule) (p : Program) :
    List Schedule :=
  match recordableInput? catalog p.channelId with
  | some input =>
    if d.isInitialized && p.isValid then
      d.disturbedBy stored input (.ofProgram input.id p)
    else []
  | none => []

def conflictsForRange (d : Docket) (catalog : Catalog) (stored : List Schedule) (id : ChannelId)
    (range : TimeRange) : List Schedule :=
  match recordableInput? catalog id with
  | some input =>
    if d.isInitialized && !range.isEmpty then
      d.disturbedBy stored input (.ofRange input.id id range)
    else []
  | none => []

/-- The running recordings that tuning to the channel would end. -/
def conflictsForTuning (d : Docket) (catalog : Catalog) (stored : List Schedule) (id : ChannelId)
    (now : Instant) : List Schedule :=
  match recordableInput? catalog id with
  | some input =>
    if d.isInitialized then
      Conflict.ifTuned input.id id now (d.newPriority stored).value (d.startedOf input.id)
        input.tunerCount
    else []
  | none => []

/-- The schedules that watching the channel without end would prevent. -/
def conflictsForWatching (d : Docket) (catalog : Catalog) (stored : List Schedule)
    (id : ChannelId) (now : Instant) : List Schedule :=
  match recordableInput? catalog id with
  | some input =>
    if d.isInitialized && !(d.schedulesOf input.id).isEmpty then
      Conflict.ifWatching input.id id now (d.newPriority stored).value (d.schedulesOf input.id)
        input.tunerCount
    else []
  | none => []

end Docket

end Timeshift
