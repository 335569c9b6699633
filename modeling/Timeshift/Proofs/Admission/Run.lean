import Timeshift.Proofs.Admission.Books

/-!
# Runs of a desk

A desk may get any message at any time, and make a pass at any time. The clock and the catalog
may be different at every move.
-/

namespace Timeshift

namespace Admission

variable {a : Admission}

inductive Move where
  | message (m : Message)
  | pass
  | shutdown

/-- One move, and what the desk reads while it makes it. -/
structure Occasion where
  catalog : Catalog
  now : Instant
  move : Move

namespace Occasion

def step (m : Occasion) (a : Admission) : Turn :=
  match m.move with
  | .message message => a.handle m.catalog m.now message
  | .pass => a.pass m.catalog m.now
  | .shutdown => a.shutdown

/-- The tuners of an input that may record at this moment. -/
def tuners (inputId : InputId) (m : Occasion) : Nat := m.catalog.recordingTuners inputId

end Occasion

/-- The desk after some moves, one after the other. -/
def run (a : Admission) (course : List Occasion) : Admission :=
  course.foldl (fun a m => (m.step a).1) a

theorem run_append (a : Admission) (course more : List Occasion) :
    run a (course ++ more) = run (run a course) more := List.foldl_append

/-- What holds at first and goes on to hold with every move holds after all of them. -/
theorem run_induct {P : Admission → Prop}
    (hstep : ∀ (a : Admission) (m : Occasion), P a → P (m.step a).1) (h : P a)
    (course : List Occasion) : P (run a course) := by
  induction course generalizing a with
  | nil => exact h
  | cons m rest ih => exact ih (hstep a m h)

end Admission

end Timeshift
