import Timeshift.Time.Instant

/-! # Half-open stretches of time -/

namespace Timeshift

/-- From `starts` up to, and without, `ends`. -/
structure TimeRange where
  starts : Instant
  ends : Instant
  deriving DecidableEq, Repr, Inhabited

namespace TimeRange

/-- The range that overlaps every range with an instant in it. -/
def all : TimeRange := ⟨Instant.first, Instant.last⟩

def isEmpty (r : TimeRange) : Bool := r.ends ≤ r.starts

/-- The length, kept inside 64 bits. -/
def duration (r : TimeRange) : Int64 := boundedSub r.ends r.starts

def contains (r : TimeRange) (t : Instant) : Bool := r.starts ≤ t && t < r.ends

/-- Each range starts before the other one ends. -/
def overlaps (a b : TimeRange) : Bool := a.starts < b.ends && b.starts < a.ends

theorem overlaps_comm (a b : TimeRange) : a.overlaps b = b.overlaps a := by
  simp only [overlaps, Bool.and_comm]

theorem contains_iff {r : TimeRange} {t : Instant} :
    r.contains t = true ↔ r.starts ≤ t ∧ t < r.ends := by
  simp [contains]

/-- A range that is not empty overlaps the range of everything. -/
theorem overlaps_all {r : TimeRange} (h : r.starts < r.ends) : r.overlaps all = true := by
  have lo : Int64.minValue < r.ends := by
    have := r.starts.le_toInt
    have hlo : Int64.minValue.toInt = -2 ^ 63 := by decide
    rw [Int64.lt_iff_toInt_lt] at h ⊢
    omega
  have hi : r.starts < Int64.maxValue := by
    have := r.ends.toInt_lt
    have hhi : Int64.maxValue.toInt = 2 ^ 63 - 1 := by decide
    rw [Int64.lt_iff_toInt_lt] at h ⊢
    omega
  simp [overlaps, all, Instant.first, Instant.last, lo, hi]

end TimeRange

end Timeshift
