import Timeshift.Expansion.Candidate
import Timeshift.Store.Writing

/-!
# Updates of series rules

An update searches the guide for some rules and makes schedules for what it picks. The filter
is set up before the search, and the picking and writing follow the store as it is when the
search has come back.
-/

namespace Timeshift

namespace Expansion

/-! ## Attaching programs to a rule -/

/-- The schedule that a rule makes for a program. A cancelled rule makes a cancelled one. -/
def newSchedule (rule : SeriesRule) (p : Program) : Schedule :=
  { Schedule.ofProgram rule.inputId p with
    priority := rule.priority.value
    ruleId := some rule.id
    state := if rule.isCanceled then .canceled else .notStarted }

def takenOver (rule : SeriesRule) (s : Schedule) : Schedule :=
  { s with priority := rule.priority.value, ruleId := some rule.id }

def canTakeOver (s : Schedule) : Bool := s.isNotStarted || s.isCanceled

def unscheduled (store : Store) (programs : List Program) : List Program :=
  programs.filter fun p => (store.scheduleOf? p.id).isNone

/-- The schedules of the programs that the rule takes over and that this changes. -/
def takeovers (store : Store) (rule : SeriesRule) (programs : List Program) : List Schedule :=
  programs.filterMap fun p =>
    (store.scheduleOf? p.id).bind fun s =>
      if canTakeOver s && takenOver rule s ≠ s then some (takenOver rule s) else none

/-- Schedules programs for a rule. -/
def attach (rule : SeriesRule) (programs : List Program) : Store.Op Unit := do
  let store ← get
  let added := (unscheduled store programs).map (newSchedule rule)
  let changed := takeovers store rule programs
  unless added.isEmpty do discard (Store.add added)
  unless changed.isEmpty do Store.update changed

/-! ## One update -/

/-- Schedules the programs picked for rules, and counts them. A rule that is gone by now is
left out. -/
def attachAll : List (SeriesRule × List Program) → Store.Op Nat
  | [] => return 0
  | (rule, programs) :: rest => do
    let current := (← get).rule? rule.id
    match current with
    | some current =>
      if programs.isEmpty then attachAll rest
      else
        attach current programs
        return programs.length + (← attachAll rest)
    | none => attachAll rest

def distinctRules : List SeriesRule → List SeriesRule
  | [] => []
  | rule :: rest => rule :: (distinctRules rest).filter (·.id ≠ rule.id)

/-- Schedules what a search has found. -/
def apply (filter : CandidateFilter) (found : List Program) : Store.Op Nat := do
  let store ← get
  let candidates := found.filter filter.accepts
  attachAll ((distinctRules filter.rules).map fun rule =>
    (rule, Candidate.pickFor store filter.rules candidates rule.id))

/-- A whole update: searches the guide and schedules what it finds. -/
def run (catalog : Catalog) (rules : List SeriesRule) (now : Instant) : Store.Op Nat := do
  let filter := CandidateFilter.ofStore (← get) rules [] now
  apply filter (catalog.search (.forRules rules now))

/-! ## A rule that is not stored yet -/

/-- The filter for a rule that is not stored. What has been recorded counts as covered. -/
def trialFilter (store : Store) (rule : SeriesRule) (now : Instant) : CandidateFilter :=
  .ofStore store [rule] (Episode.recordedFor rule store.recorded) now

def trialPick (store : Store) (filter : CandidateFilter) (rule : SeriesRule)
    (found : List Program) : List Program :=
  Candidate.pickFor store [rule] (found.filter filter.accepts) rule.id

end Expansion

end Timeshift
