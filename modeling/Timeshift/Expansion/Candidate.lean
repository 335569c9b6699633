import Timeshift.Catalog
import Timeshift.Expansion.Episode
import Timeshift.Store.Basic

/-!
# Candidates

Which programs of the guide some rules may schedule, and which of them they do schedule. A
candidate has a season or a number, starts in the future, may be recorded, is wanted, and is
an episode of one of the rules that is not covered yet. Of the candidates for one complete
episode only one is picked, unless several of them are scheduled already.
-/

namespace Timeshift

/-- What is known when candidates are looked for. -/
structure CandidateFilter where
  rules : List SeriesRule
  unwanted : List ProgramId
  covered : List Episode
  now : Instant

namespace CandidateFilter

/-- The filter for some rules. The episodes in `extra` count as covered, and so do the
scheduled ones. -/
def ofStore (store : Store) (rules : List SeriesRule) (extra : List Episode) (now : Instant) :
    CandidateFilter where
  rules
  unwanted := store.unwanted
  covered := extra ++ Episode.scheduledFor (rules.map (·.id)) store.schedules
  now

def takes (f : CandidateFilter) (p : Program) (rule : SeriesRule) : Bool :=
  rule.matchesProgram p && !(Episode.ofProgram rule.id p).isCoveredBy f.covered

def accepts (f : CandidateFilter) (p : Program) : Bool :=
  f.now < p.starts && !p.prohibited && !f.unwanted.contains p.id &&
    (isPresent p.season || isPresent p.episode) && f.rules.any (f.takes p)

end CandidateFilter

/-- The search in the guide for some rules. It asks for one channel only where a single rule
does. -/
def GuideQuery.forRules (rules : List SeriesRule) (now : Instant) : GuideQuery where
  seriesKeys := rules.map (·.seriesKey)
  startsAfter := now
  channelId :=
    match rules with
    | [rule] => if rule.takesAllChannels then none else some rule.channelId
    | _ => none

/-! ## Picking -/

namespace Candidate

/-- The rule that a program goes to. Of several rules for one show it is the last. -/
def ruleIdFor (rules : List SeriesRule) (p : Program) : Option RuleId :=
  p.seriesKey.bind fun key => (rules.reverse.find? (·.seriesKey == key)).map (·.id)

/-- A schedule for the program waits already. -/
def isScheduled (store : Store) (p : Program) : Bool :=
  (store.scheduleOf? p.id).any (·.isNotStarted)

/-- What is kept of the programs of one episode: those that are scheduled already, or else the
one that airs first. -/
def keepOne (store : Store) (airings : List Program) : List Program :=
  let scheduled := airings.filter (isScheduled store)
  if scheduled.isEmpty then (sortBy Program.airsBy airings).take 1 else scheduled

/-- The programs picked for one rule, in the order of airing. -/
def pickFor (store : Store) (rules : List SeriesRule) (programs : List Program) (id : RuleId) :
    List Program :=
  let own := programs.filter fun p => ruleIdFor rules p == some id
  let (numbered, loose) := own.partition fun p => (Episode.ofProgram id p).isComplete
  let episodes := (numbered.map (Episode.ofProgram id)).eraseDups
  let picked := episodes.flatMap fun e =>
    keepOne store (numbered.filter fun p => Episode.ofProgram id p == e)
  sortBy Program.airsBy (loose ++ picked)

/-- The programs picked for every rule, by rule id. -/
def pick (store : Store) (rules : List SeriesRule) (programs : List Program) :
    List (RuleId × List Program) :=
  (sortOn id ((rules.map (·.id)).eraseDups)).map fun id => (id, pickFor store rules programs id)

end Candidate

end Timeshift
