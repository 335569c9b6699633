import Timeshift.Priority

/-!
# Suggested priorities

A suggestion is a step above what is in use, from the start of its band on. In whole numbers it is
one sum that stops at the end of the numbers or at the top of the band. So it rises with what is in
use, goes past it wherever there is room, and never leaves the band.
-/

namespace Timeshift

open Priority

/-! ## Whole numbers -/

theorem toInt_max (a b : Int64) : (max a b).toInt = max a.toInt b.toInt := by
  show (if a ≤ b then b else a).toInt = max a.toInt b.toInt
  split
  · next h => exact (Int.max_eq_right (Int64.le_iff_toInt_le.mp h)).symm
  · next h => exact (Int.max_eq_left (Int.le_of_not_le (mt Int64.le_iff_toInt_le.mpr h))).symm

theorem toInt_min (a b : Int64) : (min a b).toInt = min a.toInt b.toInt := by
  show (if a ≤ b then a else b).toInt = min a.toInt b.toInt
  split
  · next h => exact (Int.min_eq_left (Int64.le_iff_toInt_le.mp h)).symm
  · next h => exact (Int.min_eq_right (Int.le_of_not_le (mt Int64.le_iff_toInt_le.mpr h))).symm

namespace Priority

theorem toInt_lowest : lowest.toInt = -9223372036854775808 := by decide

theorem toInt_highest : highest.toInt = 9223372036854775807 := by decide

theorem toInt_step : step.toInt = 1024 := by decide

theorem toInt_episodeFloor : episodeFloor.toInt = 4611686018427387903 := by decide

theorem toInt_seriesCeiling : seriesCeiling.toInt = 4611686018427387902 := by decide

theorem toInt_seriesMiddle : seriesMiddle.toInt = 2305843009213693951 := by decide

/-- There is room for a step below both bands. -/
theorem toInt_episodeFloor_sub : (episodeFloor - step).toInt = episodeFloor.toInt - step.toInt := by
  decide

theorem toInt_seriesMiddle_sub : (seriesMiddle - step).toInt = seriesMiddle.toInt - step.toInt := by
  decide

end Priority

/-! ## Single recordings -/

namespace EpisodePriority

variable {inUse inUse' : Option Priority} {p : Priority}

theorem toInt_above (inUse : Option Priority) :
    (above inUse).value.toInt = min highest.toInt
      (max (inUse.getD lowest).toInt (episodeFloor.toInt - step.toInt) + step.toInt) := by
  have hfloor := toInt_episodeFloor
  have hstep := toInt_step
  rw [above, toInt_boundedAdd, toInt_max, toInt_episodeFloor_sub, toInt_highest]
  omega

theorem lt_above (hp : p ∈ inUse) (hroom : p ≠ highest) : p < (above inUse).value := by
  obtain rfl := Option.mem_def.mp hp
  have hle : p.toInt ≤ highest.toInt := Int64.le_iff_toInt_le.mp p.le_maxValue
  have hne : p.toInt ≠ highest.toInt := fun heq => hroom (Int64.toInt.inj heq)
  have hstep := toInt_step
  rw [Int64.lt_iff_toInt_lt, toInt_above, Option.getD_some]
  omega

theorem above_mono (h : inUse.getD lowest ≤ inUse'.getD lowest) :
    (above inUse).value ≤ (above inUse').value := by
  rw [Int64.le_iff_toInt_le] at h ⊢
  rw [toInt_above, toInt_above]
  omega

end EpisodePriority

/-! ## Series rules -/

namespace SeriesPriority

variable {inUse inUse' : Option SeriesPriority} {p : SeriesPriority} {m n : Int64}

theorem eq_of_toInt {s t : SeriesPriority} (h : s.value.toInt = t.value.toInt) : s = t := by
  cases s
  cases t
  congr
  exact Int64.toInt.inj h

theorem toInt_above (inUse : Option SeriesPriority) :
    (above inUse).value.toInt = min seriesCeiling.toInt
      (max ((inUse.map value).getD lowest).toInt (seriesMiddle.toInt - step.toInt) +
        step.toInt) := by
  have hceiling := toInt_seriesCeiling
  have hmiddle := toInt_seriesMiddle
  have hstep := toInt_step
  rw [above, toInt_min, toInt_boundedAdd, toInt_max, toInt_seriesMiddle_sub]
  omega

theorem lt_above (hp : p ∈ inUse) (hroom : p.value ≠ seriesCeiling) :
    p.value < (above inUse).value := by
  obtain rfl := Option.mem_def.mp hp
  have hle := Int64.le_iff_toInt_le.mp p.le_ceiling
  have hne : p.value.toInt ≠ seriesCeiling.toInt := fun heq => hroom (Int64.toInt.inj heq)
  have hstep := toInt_step
  rw [Int64.lt_iff_toInt_lt, toInt_above, Option.map_some, Option.getD_some]
  omega

theorem above_mono (h : (inUse.map value).getD lowest ≤ (inUse'.map value).getD lowest) :
    (above inUse).value ≤ (above inUse').value := by
  rw [Int64.le_iff_toInt_le] at h ⊢
  rw [toInt_above, toInt_above]
  omega

/-! ## Places of a ranking -/

theorem toInt_forOrder (n : Int64) :
    (forOrder n).value.toInt = min seriesCeiling.toInt
      (max lowest.toInt (n.toInt * step.toInt) + seriesMiddle.toInt) := by
  have hceiling := toInt_seriesCeiling
  have hmiddle := toInt_seriesMiddle
  rw [forOrder, toInt_min, toInt_boundedAdd, toInt_boundedMul, toInt_lowest]
  omega

theorem forOrder_mono (h : m ≤ n) : (forOrder m).value ≤ (forOrder n).value := by
  have hstep := toInt_step
  rw [Int64.le_iff_toInt_le] at h ⊢
  rw [toInt_forOrder, toInt_forOrder, hstep]
  omega

/-- On the way to the priority of the place neither the product nor the sum leaves the 64 bits, and
the band does not end before it. -/
structure IsExactAt (n : Int64) : Prop where
  product : (boundedMul n step).toInt = n.toInt * step.toInt
  sum : (boundedAdd (boundedMul n step) seriesMiddle).toInt =
    (boundedMul n step).toInt + seriesMiddle.toInt
  below : (forOrder n).value < seriesCeiling

theorem IsExactAt.toInt_forOrder (h : IsExactAt n) :
    (forOrder n).value.toInt = n.toInt * step.toInt + seriesMiddle.toInt := by
  have hbelow := Int64.lt_iff_toInt_lt.mp h.below
  have hsum := h.sum
  rw [h.product] at hsum
  rw [forOrder, toInt_min] at hbelow ⊢
  omega

theorem forOrder_lt (h : m < n) (hm : IsExactAt m) (hn : IsExactAt n) :
    (forOrder m).value < (forOrder n).value := by
  have hstep := toInt_step
  rw [Int64.lt_iff_toInt_lt] at h ⊢
  rw [hm.toInt_forOrder, hn.toInt_forOrder, hstep]
  omega

/-- The step above a place is the next place. -/
theorem above_forOrder (hlow : -1 ≤ n) (hhigh : n < Int64.maxValue) :
    above (some (forOrder n)) = forOrder (n + 1) := by
  have hceiling := toInt_seriesCeiling
  have hmiddle := toInt_seriesMiddle
  have hstep := toInt_step
  have hlowest := toInt_lowest
  have hone : (-1 : Int64).toInt = -1 := by decide
  have hmax : Int64.maxValue.toInt = 9223372036854775807 := by decide
  rw [Int64.le_iff_toInt_le, hone] at hlow
  rw [Int64.lt_iff_toInt_lt, hmax] at hhigh
  have hnext : (n + 1).toInt = n.toInt + 1 := by
    rw [Int64.toInt_add, Int64.toInt_one, Int.bmod_eq_of_le] <;> omega
  refine eq_of_toInt ?_
  rw [toInt_above, Option.map_some, Option.getD_some, toInt_forOrder, toInt_forOrder, hnext, hstep]
  omega

end SeriesPriority

/-! ## Both bands -/

/-- A suggestion stays in its band, goes past what is in use wherever there is room, and rises with
it. Ranked rules stay in theirs and rise with their places, a step from each place to the next one.
So no rule comes up to a single recording. All steps are those of the whole numbers, up to the end
of the numbers or of the band. -/
theorem suggestions_rise_in_bands :
    (∀ inUse : Option Priority, episodeFloor ≤ (EpisodePriority.above inUse).value ∧
      ∀ p ∈ inUse, p ≠ highest → p < (EpisodePriority.above inUse).value) ∧
    (∀ inUse inUse' : Option Priority, inUse.getD lowest ≤ inUse'.getD lowest →
      (EpisodePriority.above inUse).value ≤ (EpisodePriority.above inUse').value) ∧
    (∀ inUse : Option SeriesPriority, (SeriesPriority.above inUse).value ≤ seriesCeiling ∧
      ∀ p ∈ inUse, p.value ≠ seriesCeiling → p.value < (SeriesPriority.above inUse).value) ∧
    (∀ inUse inUse' : Option SeriesPriority,
      (inUse.map (·.value)).getD lowest ≤ (inUse'.map (·.value)).getD lowest →
      (SeriesPriority.above inUse).value ≤ (SeriesPriority.above inUse').value) ∧
    (∀ m n : Int64, (SeriesPriority.forOrder n).value ≤ seriesCeiling ∧
      (m ≤ n → (SeriesPriority.forOrder m).value ≤ (SeriesPriority.forOrder n).value) ∧
      (m < n → SeriesPriority.IsExactAt m → SeriesPriority.IsExactAt n →
        (SeriesPriority.forOrder m).value < (SeriesPriority.forOrder n).value)) ∧
    (∀ n : Int64, -1 ≤ n → n < Int64.maxValue →
      SeriesPriority.above (some (.forOrder n)) = .forOrder (n + 1)) ∧
    (∀ (inUse : Option Priority) (ranked : Option SeriesPriority) (n : Int64),
      (SeriesPriority.above ranked).value < (EpisodePriority.above inUse).value ∧
      (SeriesPriority.forOrder n).value < (EpisodePriority.above inUse).value) ∧
    (∀ inUse : Option Priority, (EpisodePriority.above inUse).value.toInt =
      min highest.toInt
        (max (inUse.getD lowest).toInt (episodeFloor.toInt - step.toInt) + step.toInt)) ∧
    (∀ inUse : Option SeriesPriority, (SeriesPriority.above inUse).value.toInt =
      min seriesCeiling.toInt (max ((inUse.map (·.value)).getD lowest).toInt
        (seriesMiddle.toInt - step.toInt) + step.toInt)) ∧
    ∀ n : Int64, (SeriesPriority.forOrder n).value.toInt =
      min seriesCeiling.toInt (max lowest.toInt (n.toInt * step.toInt) + seriesMiddle.toInt) := by
  refine ⟨fun inUse => ⟨(EpisodePriority.above inUse).floor_le, fun p => ?_⟩,
    fun inUse inUse' => EpisodePriority.above_mono,
    fun inUse => ⟨(SeriesPriority.above inUse).le_ceiling, fun p => ?_⟩,
    fun inUse inUse' => SeriesPriority.above_mono,
    fun m n => ⟨(SeriesPriority.forOrder n).le_ceiling, SeriesPriority.forOrder_mono,
      SeriesPriority.forOrder_lt⟩,
    fun n => SeriesPriority.above_forOrder,
    fun inUse ranked n => ⟨SeriesPriority.lt_episode _ _, SeriesPriority.lt_episode _ _⟩,
    EpisodePriority.toInt_above, SeriesPriority.toInt_above, SeriesPriority.toInt_forOrder⟩
  · exact EpisodePriority.lt_above
  · exact SeriesPriority.lt_above

/-- A recording and a rule one below the end of the numbers and of the band, and the last place
that is a full step below the top. -/
theorem suggestions_rise_in_bands_at_the_top :
    let top : SeriesPriority := ⟨seriesCeiling - 1, by decide⟩
    let last : Int64 := 2251799813685247
    highest - 1 ≠ highest ∧ highest - 1 < (EpisodePriority.above (some (highest - 1))).value ∧
      (some (highest - 1)).getD lowest ≤ (some highest).getD lowest ∧
      (EpisodePriority.above (some (highest - 1))).value ≤
        (EpisodePriority.above (some highest)).value ∧
      top.value ≠ seriesCeiling ∧ top.value < (SeriesPriority.above (some top)).value ∧
      (SeriesPriority.above none).value ≤ (SeriesPriority.above (some top)).value ∧
      (-2 : Int64) < last ∧ SeriesPriority.IsExactAt (-2) ∧ SeriesPriority.IsExactAt last ∧
      (SeriesPriority.forOrder (-2)).value < (SeriesPriority.forOrder last).value ∧
      (SeriesPriority.forOrder last).value ≤ (SeriesPriority.forOrder (last + 1)).value ∧
      -1 ≤ last ∧ last < Int64.maxValue ∧
      SeriesPriority.above (some (.forOrder last)) = .forOrder (last + 1) ∧
      (SeriesPriority.forOrder (last + 1)).value = seriesCeiling := by
  intro top last
  obtain ⟨hepisode, hrises, hrule, hfollows, hplaces, hnext, -⟩ := suggestions_rise_in_bands
  have hlow : SeriesPriority.IsExactAt (-2) := ⟨by decide, by decide, by decide⟩
  have hlast : SeriesPriority.IsExactAt last := ⟨by decide, by decide, by decide⟩
  exact ⟨by decide, (hepisode _).2 _ rfl (by decide), by decide, hrises _ _ (by decide),
    by decide, (hrule _).2 top rfl (by decide), hfollows _ _ (by decide), by decide, hlow, hlast,
    (hplaces (-2) last).2.2 (by decide) hlow hlast, (hplaces last _).2.1 (by decide),
    by decide, by decide,
    hnext last (by decide) (by decide), by decide⟩

end Timeshift
