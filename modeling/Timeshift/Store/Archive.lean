import Std.Data.TreeMap
import Timeshift.Fault
import Timeshift.Series

/-!
# The archive

The rows that outlive the program. An archive may refuse a write. A refused write leaves the
rows alone.
-/

namespace Timeshift

structure Snapshot where
  /-- The schedules, together with the marks that deleted ones leave. -/
  schedules : List Schedule := []
  rules : List SeriesRule := []
  recorded : List RecordedProgram := []
  deriving Inhabited

structure Archive where
  schedules : Std.TreeMap ScheduleId Schedule := ∅
  rules : Std.TreeMap RuleId SeriesRule := ∅
  recorded : Std.TreeMap RecordedId RecordedProgram := ∅
  /-- How many writes have been asked for so far. -/
  writes : Nat := 0
  /-- Whether the write of this number is refused. -/
  refuses : Nat → Bool := fun _ => false
  unreadable : Option Fault := none

namespace Archive

instance : Inhabited Archive := ⟨{}⟩

/-! ## Rows -/

def putSchedules (a : Archive) (rows : List Schedule) : Archive :=
  { a with schedules := rows.foldl (fun m s => m.insert s.id s) a.schedules }

def dropSchedules (a : Archive) (ids : List ScheduleId) : Archive :=
  { a with schedules := ids.foldl (·.erase ·) a.schedules }

def putRule (a : Archive) (rule : SeriesRule) : Archive :=
  { a with rules := a.rules.insert rule.id rule }

def dropRule (a : Archive) (id : RuleId) : Archive :=
  { a with rules := a.rules.erase id }

def putRecorded (a : Archive) (row : RecordedProgram) : Archive :=
  { a with recorded := a.recorded.insert row.id row }

/-- An archive with the rows of a snapshot. Of two rows with one id the later one counts. -/
def ofSnapshot (s : Snapshot) : Archive :=
  let a := s.rules.foldl putRule (putSchedules {} s.schedules)
  s.recorded.foldl putRecorded a

def snapshot (a : Archive) : Snapshot where
  schedules := a.schedules.values
  rules := a.rules.values
  recorded := a.recorded.values

/-! ## Access -/

def read (a : Archive) : Except Fault Snapshot :=
  match a.unreadable with
  | some fault => .error fault
  | none => .ok a.snapshot

/-- Writes to the rows, unless this write is refused. Tells whether it was taken. -/
def write (a : Archive) (edit : Archive → Archive) : Bool × Archive :=
  let counted := { a with writes := a.writes + 1 }
  if a.refuses a.writes then (false, counted) else (true, edit counted)

/-- From now on all writes are refused, or none. -/
def refuseAll (a : Archive) (on : Bool) : Archive := { a with refuses := fun _ => on }

end Archive

end Timeshift
