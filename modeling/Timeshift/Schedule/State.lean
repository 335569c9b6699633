import Timeshift.Text.Capital

/-!
# The life of a schedule

A schedule waits, then it is recorded, and then it has ended in one of four ways. A deleted
schedule stays behind as a mark that its program is not wanted.
-/

namespace Timeshift

inductive RecordingState where
  | notStarted
  | inProgress
  | finished
  | failed
  | clipped
  | canceled
  | deleted
  deriving DecidableEq, Repr, Inhabited

namespace RecordingState

def all : List RecordingState :=
  [notStarted, inProgress, finished, failed, clipped, canceled, deleted]

def name : RecordingState → String
  | notStarted => "NOT_STARTED"
  | inProgress => "IN_PROGRESS"
  | finished => "FINISHED"
  | failed => "FAILED"
  | clipped => "CLIPPED"
  | canceled => "CANCELED"
  | deleted => "DELETED"

/-- The state with exactly this name. -/
def ofName? (text : String) : Option RecordingState := all.find? (·.name == text)

/-- The state with this name, in capital or small letters. -/
def ofText? (text : String) : Option RecordingState := all.find? (Text.isCapitalsOf ·.name text)

/-- The schedule still wants a tuner. -/
def isPending : RecordingState → Bool
  | notStarted | inProgress => true
  | _ => false

/-- Nothing will happen to the schedule any more. -/
def isTerminal (s : RecordingState) : Bool := !s.isPending

theorem ofName?_name (s : RecordingState) : ofName? s.name = some s := by
  cases s <;> decide

end RecordingState

end Timeshift
