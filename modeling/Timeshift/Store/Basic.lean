import Timeshift.Store.Archive
import Timeshift.Store.Counter
import Timeshift.Store.Event

/-!
# The store and what can be read from it

The store holds the schedules and series rules in use. A schedule that a user has deleted
leaves a mark for its program, so that no series rule schedules the program again.
-/

namespace Timeshift

/-- The order in which a search comes to the schedules and to the rules. Nobody chooses it. -/
structure Listing where
  schedules : List Schedule → List Schedule
  rules : List SeriesRule → List SeriesRule
  schedules_perm : ∀ l, (schedules l).Perm l
  rules_perm : ∀ l, (rules l).Perm l

namespace Listing

/-- A search comes to the oldest ones first. -/
def byAge : Listing := ⟨id, id, .refl, .refl⟩

instance : Inhabited Listing := ⟨byAge⟩

end Listing

structure Store where
  live : Std.TreeMap ScheduleId Schedule := ∅
  marks : Std.TreeMap ProgramId Schedule := ∅
  rules : Std.TreeMap RuleId SeriesRule := ∅
  recorded : List RecordedProgram := []
  scheduleIds : IdCounter := {}
  ruleIds : IdCounter := {}
  recordedIds : IdCounter := {}
  isLoaded : Bool := false
  archive : Archive := {}
  /-- The events published so far, the oldest first. -/
  journal : List StoreEvent := []
  /-- The order of a search while the journal has this many events. Every event may bring another
  one. -/
  listings : Nat → Listing := fun _ => .byAge

namespace Store

instance : Inhabited Store := ⟨{}⟩

def listing (s : Store) : Listing := s.listings s.journal.length

/-- The store once the events of its journal have been passed on. -/
def passOn (s : Store) : Store :=
  { s with journal := [], listings := fun n => s.listings (s.journal.length + n) }

theorem passOn_eq_self {s : Store} (h : s.journal = []) : s.passOn = s := by
  simp only [passOn, h, List.length_nil, Nat.zero_add]
  rw [← h]

/-! ## Schedules -/

def schedule? (s : Store) (id : ScheduleId) : Option Schedule := s.live[id]?

def schedules (s : Store) : List Schedule := s.live.values

/-- The schedule of a program. If there are several it is the one that a search comes to first. -/
def scheduleOf? (s : Store) (id : ProgramId) : Option Schedule :=
  (s.listing.schedules s.schedules).find? (·.programId == some id)

def withState (s : Store) (states : List RecordingState) : List Schedule :=
  s.schedules.filter (states.contains ·.state)

/-- The schedules that still want a tuner and have not ended. -/
def available (s : Store) (now : Instant) : List Schedule :=
  s.schedules.filter fun x => x.isPending && now < x.ends

/-- The schedules that are being recorded and have not ended. -/
def started (s : Store) (now : Instant) : List Schedule :=
  s.schedules.filter fun x => x.isInProgress && now < x.ends

/-- The schedules that wait and have not ended. -/
def notStarted (s : Store) (now : Instant) : List Schedule :=
  s.schedules.filter fun x => x.isNotStarted && now < x.ends

def membersOf (s : Store) (id : RuleId) : List Schedule :=
  s.schedules.filter (·.ruleId == some id)

/-- The first start after `now` among the schedules that wait. -/
def nextStart? (s : Store) (now : Instant) : Option Instant :=
  ((s.schedules.filter fun x => x.isNotStarted && now < x.starts).map (·.starts)).min?

/-! ## Marks, rules and recordings -/

def markList (s : Store) : List Schedule := s.marks.values

/-- The programs that no rule may schedule. -/
def unwanted (s : Store) : List ProgramId := s.marks.keys

def rule? (s : Store) (id : RuleId) : Option SeriesRule := s.rules[id]?

def ruleList (s : Store) : List SeriesRule := s.rules.values

/-- The rule for a show. If there are several it is the one that a search comes to first. -/
def ruleOf? (s : Store) (seriesKey : String) : Option SeriesRule :=
  (s.listing.rules s.ruleList).find? (·.seriesKey == seriesKey)

end Store

end Timeshift
