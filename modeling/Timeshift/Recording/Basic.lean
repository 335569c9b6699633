import Timeshift.Schedule.Basic

/-! # What is said to a running recording, and what it answers -/

namespace Timeshift

inductive Outcome where
  | finished
  /-- Part of the program is missing. -/
  | clipped
  | failed (reason : String)
  | canceled
  deriving DecidableEq, Repr

/-- The state of a schedule whose recording ended like this. -/
def Outcome.state : Outcome → RecordingState
  | finished => .finished
  | clipped => .clipped
  | failed _ => .failed
  | canceled => .canceled

def Outcome.reason? : Outcome → Option String
  | failed reason => some reason
  | _ => none

/-- What a running recording is told. -/
inductive Order where
  /-- The schedule has changed in a way that the recording can follow. -/
  | update (s : Schedule)
  /-- End now and keep what has been recorded. -/
  | stop
  /-- End now and drop what has been recorded. -/
  | cancel
  deriving DecidableEq, Repr

/-- The new state of a schedule, as an input tells it. -/
structure Report where
  inputId : InputId
  scheduleId : ScheduleId
  state : RecordingState
  reason : Option String
  deriving DecidableEq, Repr

def Report.isFinal (r : Report) : Bool := r.state.isTerminal

theorem Outcome.isTerminal_state (o : Outcome) : o.state.isTerminal = true := by
  cases o <;> rfl

end Timeshift
