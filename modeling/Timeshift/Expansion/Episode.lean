import Timeshift.Series

/-!
# Episodes

An episode of a rule is known by its season and its number. Only where both are given can two
programs be told to be the same episode.
-/

namespace Timeshift

def isPresent (text : Option String) : Bool := text.any (· ≠ "")

/-- One episode of the show that a rule records. -/
structure Episode where
  ruleId : RuleId
  season : Option String
  number : Option String
  deriving DecidableEq, Repr

namespace Episode

def ofProgram (id : RuleId) (p : Program) : Episode := ⟨id, p.season, p.episode⟩

def ofRecorded (id : RuleId) (r : RecordedProgram) : Episode := ⟨id, r.season, r.episode⟩

/-- The episode that a schedule records, if it was made for a rule. -/
def ofSchedule? (s : Schedule) : Option Episode := s.ruleId.map (⟨·, s.season, s.episode⟩)

def isComplete (e : Episode) : Bool := isPresent e.season && isPresent e.number

/-- The episode is one of those that are covered. An incomplete one is never covered. -/
def isCoveredBy (e : Episode) (covered : List Episode) : Bool :=
  e.isComplete && covered.contains e

/-- The episodes of a rule's show that have been recorded, whether for this rule or not. -/
def recordedFor (rule : SeriesRule) (recorded : List RecordedProgram) : List Episode :=
  (recorded.filter (·.seriesKey == some rule.seriesKey)).map (ofRecorded rule.id)

/-- The episodes that schedules of some rules cover. A failed or a clipped one covers nothing. -/
def scheduledFor (ids : List RuleId) (schedules : List Schedule) : List Episode :=
  let sound := schedules.filter fun s => s.state ≠ .failed && s.state ≠ .clipped
  (sound.filterMap ofSchedule?).filter (ids.contains ·.ruleId)

end Episode

end Timeshift
