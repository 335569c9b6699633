import Timeshift.Time.Instant

/-!
# Priorities

A priority is a 64-bit number, and the higher one wins. Two bands keep the priorities of
single recordings and of series rules apart: those of single recordings start at
`episodeFloor`, and those of series rules end just below it. Suggestions go up in steps, so
that there is room between two of them.
-/

namespace Timeshift

/-- How strongly a recording is wanted. The higher priority wins. -/
abbrev Priority := Int64

namespace Priority

def lowest : Priority := Int64.minValue

def highest : Priority := Int64.maxValue

def step : Int64 := 1024

/-- The least priority of the band for single recordings, half of the largest number. -/
def episodeFloor : Priority := 4611686018427387903

/-- The highest priority of the band for series rules. -/
def seriesCeiling : Priority := 4611686018427387902

/-- The middle of the band for series rules, where the suggestions start. -/
def seriesMiddle : Priority := 2305843009213693951

/-- One more, but never past the highest. -/
def next (p : Priority) : Priority := boundedAdd p 1

/-- The priority belongs to the band for single recordings. -/
def isEpisodeBand (p : Priority) : Bool := episodeFloor ≤ p

end Priority

open Priority

/-! ## Single recordings -/

/-- A priority in the band for single recordings. -/
structure EpisodePriority where
  value : Priority
  floor_le : episodeFloor ≤ value
  deriving DecidableEq

namespace EpisodePriority

instance : Inhabited EpisodePriority := ⟨⟨episodeFloor, by decide⟩⟩

/-- The priority as a member of the band, if it is one. -/
def ofPriority? (p : Priority) : Option EpisodePriority :=
  if h : episodeFloor ≤ p then some ⟨p, h⟩ else none

/-- What is said of a number that is too low for the band. -/
def complaint (p : Priority) : String := s!"{p.toInt} is below the episode priority band"

/-- A step above the highest priority in use, and never below the band. -/
def above (inUse : Option Priority) : EpisodePriority where
  value := boundedAdd (max (inUse.getD lowest) (episodeFloor - step)) step
  floor_le := by
    have h : (episodeFloor - step).toInt ≤
        (max (inUse.getD lowest) (episodeFloor - step)).toInt := by
      rw [← Int64.le_iff_toInt_le]
      simp only [max]
      split
      · exact Int64.le_refl _
      · grind
    have hf : (episodeFloor - step).toInt = 4611686018427386879 := by decide
    have hs : step.toInt = 1024 := by decide
    have he : episodeFloor.toInt = 4611686018427387903 := by decide
    rw [Int64.le_iff_toInt_le, toInt_boundedAdd]
    omega

end EpisodePriority

/-! ## Series rules -/

/-- A priority in the band for series rules. -/
structure SeriesPriority where
  value : Priority
  le_ceiling : value ≤ seriesCeiling
  deriving DecidableEq

namespace SeriesPriority

/-- The priority of a rule that is given none. -/
def middle : SeriesPriority := ⟨seriesMiddle, by decide⟩

instance : Inhabited SeriesPriority := ⟨middle⟩

instance : Max SeriesPriority := ⟨fun a b => if a.value ≤ b.value then b else a⟩

/-- The priority as a member of the band, if it is one. -/
def ofPriority? (p : Priority) : Option SeriesPriority :=
  if h : p ≤ seriesCeiling then some ⟨p, h⟩ else none

/-- What is said of a number that is too high for the band. -/
def complaint (p : Priority) : String := s!"{p.toInt} is above the series priority band"

/-- A step above the highest rule in use, inside the band and never below its middle. -/
def above (inUse : Option SeriesPriority) : SeriesPriority where
  value := min (boundedAdd (max ((inUse.map value).getD lowest) (seriesMiddle - step)) step)
    seriesCeiling
  le_ceiling := Std.min_le_right

/-- The priority of the rule at place `place` of a ranking made by the user. -/
def forOrder (place : Int64) : SeriesPriority where
  value := min (boundedAdd (boundedMul place step) seriesMiddle) seriesCeiling
  le_ceiling := Std.min_le_right

end SeriesPriority

/-- The two bands do not meet. -/
theorem SeriesPriority.lt_episode (s : SeriesPriority) (e : EpisodePriority) :
    s.value < e.value := by
  have hs := Int64.le_iff_toInt_le.1 s.le_ceiling
  have he := Int64.le_iff_toInt_le.1 e.floor_le
  have hc : seriesCeiling.toInt = 4611686018427387902 := by decide
  have hf : episodeFloor.toInt = 4611686018427387903 := by decide
  rw [Int64.lt_iff_toInt_lt]
  omega

end Timeshift
