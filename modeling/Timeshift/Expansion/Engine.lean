import Std.Data.TreeSet
import Timeshift.Expansion.Update

/-!
# The series engine

The engine keeps a list of the updates that are under way. A new update of some rules takes
the place of every update that shares a rule with it, and covers the rules of those as well.
So no rule is updated twice at the same time. The engine decides which updates begin and which
are called off, and others carry that out.
-/

namespace Timeshift

structure RuleUpdate where
  /-- Counted in 64 bits, which do not run out here. -/
  id : Nat
  rules : List SeriesRule
  deriving Inhabited

def RuleUpdate.covers (u : RuleUpdate) (id : RuleId) : Bool := u.rules.any (·.id == id)

structure Engine where
  updates : List RuleUpdate := []
  nextUpdate : Nat := 1
  /-- The shows whose description has been fetched. -/
  fetched : Std.TreeSet String := ∅
  isStarted : Bool := false
  era : Nat := 0
  /-- The current era is over, and what is begun in it is called off at once. -/
  isOver : Bool := false

namespace Engine

instance : Inhabited Engine := ⟨{}⟩

inductive Task where
  | callOff (update : Nat)
  | update (id : Nat) (rules : List SeriesRule)
  | fetchInfo (rule : SeriesRule)

/-- An engine after a step, and what the step wants to be carried out. -/
abbrev Step := Engine × List Task

/-! ## Restarting updates -/

/-- Takes out the updates that share a rule with `rules`, one after the other. Each of them
adds its own rules. -/
def absorb : List RuleUpdate → List SeriesRule → List RuleUpdate × List Nat × List SeriesRule
  | [], rules => ([], [], rules)
  | u :: rest, rules =>
    if rules.any fun r => u.covers r.id then
      let new := u.rules.filter fun r => !rules.any (·.id == r.id)
      let (kept, ended, rules) := absorb rest (rules ++ new)
      (kept, u.id :: ended, rules)
    else
      let (kept, ended, rules) := absorb rest rules
      (u :: kept, ended, rules)

def begin (e : Engine) (rules : List SeriesRule) : Step :=
  ({ e with
      updates := e.updates ++ [⟨e.nextUpdate, rules⟩]
      nextUpdate := e.nextUpdate + 1 },
    [.update e.nextUpdate rules])

def beginAll : List (List SeriesRule) → Engine → Step
  | [], e => (e, [])
  | rules :: rest, e =>
    let (e, tasks) := e.begin rules
    let (e, more) := beginAll rest e
    (e, tasks ++ more)

/-- How rules are spread over updates. A rule for all channels brings the others with it. -/
def spread (rules : List SeriesRule) : List (List SeriesRule) :=
  if rules.isEmpty then []
  else if rules.any (·.takesAllChannels) then [rules]
  else rules.map fun r => [r]

/-- The stored copies of some rules, by id. -/
def storedCopies (store : Store) (rules : List SeriesRule) : List SeriesRule :=
  (sortOn id ((rules.map (·.id)).eraseDups)).filterMap store.rule?

/-- Updates rules, together with the rules of all updates that share one with them. Taking these out
and beginning the new ones is one step here, as if the list stayed locked. It does not, so on
several threads another call may come in between. -/
def refresh (store : Store) (rules : List SeriesRule) (e : Engine) : Step :=
  let (kept, ended, rules) := absorb e.updates rules
  let e := { e with updates := kept }
  let groups := if store.isLoaded then spread (storedCopies store rules) else []
  let (e, tasks) := beginAll groups e
  (e, ended.map .callOff ++ tasks)

/-- Updates every rule, if the engine runs. -/
def refreshAll (store : Store) (e : Engine) : Step :=
  if e.isStarted then e.refresh store store.ruleList else (e, [])

/-- Begins all updates under way again. -/
def restartAll (store : Store) (e : Engine) : Step :=
  let ended := e.updates.map (Task.callOff ·.id)
  let rules := e.updates.flatMap (·.rules)
  let e := { e with updates := [] }
  if rules.isEmpty then (e, ended)
  else
    let (e, tasks) := e.refresh store rules
    (e, ended ++ tasks)

def complete (e : Engine) (id : Nat) : Engine :=
  { e with updates := e.updates.filter (·.id ≠ id) }

/-! ## Events of the store -/

/-- Calls off the updates of which every rule has been removed. -/
def dropRemoved (removed : List SeriesRule) (e : Engine) : Step :=
  let (ended, kept) := e.updates.partition fun u =>
    u.rules.all fun r => removed.any (·.id == r.id)
  ({ e with updates := kept }, ended.map (Task.callOff ·.id))

/-- Updates the rules that lose one of these schedules. A finished one is no loss. -/
def onLoss (store : Store) (lost : List Schedule) (e : Engine) : Step :=
  let ids := (lost.filter (·.state ≠ .finished)).filterMap (·.ruleId)
  let rules := ids.filterMap store.rule?
  if rules.isEmpty then (e, []) else e.refresh store rules

/-- The change loses an episode that can be told from others. -/
def losesEpisode (s : Schedule) : Bool :=
  (s.state == .failed || s.state == .clipped) &&
    (Episode.ofSchedule? s).any (·.isComplete)

def handle (store : Store) (event : StoreEvent) (e : Engine) : Step :=
  match event with
  | .loaded => e.refreshAll store
  | .rulesAdded rules => (e, rules.map .fetchInfo)
  | .rulesRemoved rules => e.dropRemoved rules
  | .rulesChanged rules => e.refresh store rules
  | .added _ => (e, [])
  | .removed l => e.onLoss store l
  | .changed l => e.onLoss store (l.filter losesEpisode)

/-! ## Start and stop -/

/-- A debug assertion. A release build would go on with the start. -/
def startedTooEarly : Fault := .misuse "series scheduler started before the store loaded"

/-- Starts a new era: fetches the descriptions that are missing, and updates every rule. -/
def enterEra (store : Store) (e : Engine) : Step :=
  let e := { e with era := e.era + 1, isOver := false }
  let missing := store.ruleList.filter fun r => !e.fetched.contains r.seriesKey
  let (e, tasks) := e.refreshAll store
  (e, missing.map .fetchInfo ++ tasks)

def stop (e : Engine) : Step :=
  if e.isStarted then
    ({ e with isStarted := false, isOver := true, updates := [] },
      e.updates.map (Task.callOff ·.id))
  else (e, [])

def noteFetched (e : Engine) (seriesKey : String) : Engine :=
  { e with fetched := e.fetched.insert seriesKey }

end Engine

end Timeshift
