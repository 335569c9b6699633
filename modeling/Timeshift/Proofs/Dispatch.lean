import Timeshift.Dispatch
import Timeshift.Proofs.Tables

/-!
# Hand-over and alarm

A round asks of every start whether it is more than the lead to wake up away, once to hand over
and once for the alarm. The bounded sums do not show: both tests are exact, and so is the instant
that the alarm is set to.
-/

namespace Timeshift

namespace Dispatch

variable {now wake t : Int64} {x : Schedule} {store : Store}

/-! ## Now plus the lead -/

theorem zero_le_toInt (hwake : 0 ≤ wake) : 0 ≤ wake.toInt := by
  rw [Int64.le_iff_toInt_le] at hwake
  simpa using hwake

theorem startsWithin_iff (hwake : 0 ≤ wake) :
    startsWithin now wake x = true ↔ x.starts.toInt ≤ now.toInt + wake.toInt := by
  unfold startsWithin
  rw [decide_eq_true_eq, Int64.le_iff_toInt_le, toInt_boundedSub]
  have := zero_le_toInt hwake
  have := now.le_toInt
  have := now.toInt_lt
  have := x.starts.le_toInt
  have := x.starts.toInt_lt
  omega

theorem isSoon_mono {now' : Instant} (hle : now ≤ now') (h : isSoon now wake x = true) :
    isSoon now' wake x = true := by
  unfold isSoon startsWithin at h ⊢
  rw [Bool.and_eq_true, decide_eq_true_eq] at h ⊢
  exact ⟨h.1, Int64.le_trans h.2 hle⟩

theorem boundedAdd_lt_iff (hwake : 0 ≤ wake) :
    boundedAdd now wake < x.starts ↔ now.toInt + wake.toInt < x.starts.toInt := by
  rw [Int64.lt_iff_toInt_lt, toInt_boundedAdd]
  have := zero_le_toInt hwake
  have := now.le_toInt
  have := x.starts.le_toInt
  have := x.starts.toInt_lt
  omega

/-- The difference is more than `now`, so it does not leave the 64 bits. -/
theorem toInt_sub_wake (hwake : 0 ≤ wake) (h : now.toInt + wake.toInt < x.starts.toInt) :
    (x.starts - wake).toInt = x.starts.toInt - wake.toInt := by
  have := zero_le_toInt hwake
  have := now.le_toInt
  have := x.starts.toInt_lt
  rw [Int64.toInt_sub, Int.bmod_eq_of_le] <;> omega

/-! ## What the alarm is for -/

/-- The schedule waits, and starts too late to be handed over in a round at `now`. -/
def StartsLater (now : Instant) (wake : Int64) (x : Schedule) : Prop :=
  x.isNotStarted = true ∧ now.toInt + wake.toInt < x.starts.toInt

instance : DecidablePred (StartsLater now wake) := fun x =>
  inferInstanceAs (Decidable (x.isNotStarted = true ∧ now.toInt + wake.toInt < x.starts.toInt))

/-- A schedule that waits is handed over or left to the alarm, and never both. -/
theorem startsLater_iff (hwake : 0 ≤ wake) (hwaits : x.isNotStarted = true) :
    StartsLater now wake x ↔ isSoon now wake x = false := by
  unfold StartsLater isSoon
  rw [← Bool.not_eq_true, Bool.and_eq_true, startsWithin_iff hwake]
  simp only [hwaits, true_and, Int.not_le]

theorem nextStart?_eq_none_iff (hwake : 0 ≤ wake) :
    store.nextStart? (boundedAdd now wake) = none ↔
      ∀ x ∈ store.schedules, ¬ StartsLater now wake x := by
  unfold Store.nextStart? StartsLater
  rw [List.min?_eq_none_iff, List.map_eq_nil_iff, List.filter_eq_nil_iff]
  simp only [Bool.and_eq_true, decide_eq_true_eq, boundedAdd_lt_iff hwake]

theorem nextStart?_eq_some_iff (hwake : 0 ≤ wake) :
    store.nextStart? (boundedAdd now wake) = some t ↔
      (∃ x ∈ store.schedules, StartsLater now wake x ∧ x.starts = t) ∧
        ∀ x ∈ store.schedules, StartsLater now wake x → t ≤ x.starts := by
  unfold Store.nextStart? StartsLater
  rw [List.min?_eq_some_iff]
  simp only [List.mem_map, List.mem_filter, Bool.and_eq_true, decide_eq_true_eq,
    boundedAdd_lt_iff hwake, and_assoc, forall_exists_index, and_imp]
  refine and_congr_right fun _ => ⟨fun h x hx hw hl => h _ x hx hw hl rfl, ?_⟩
  rintro h _ x hx hw hl rfl
  exact h x hx hw hl

/-- What the alarm is set to: the first start among those that are too late for the round, less
the lead, without a step that leaves the 64 bits. -/
def AlarmIsFor (store : Store) (now : Instant) (wake : Int64) (t : Instant) (x : Schedule) :
    Prop :=
  StartsLater now wake x ∧ t.toInt = x.starts.toInt - wake.toInt ∧
    ∀ y ∈ store.schedules, StartsLater now wake y → x.starts ≤ y.starts

theorem alarmAfter_eq_none (hwake : 0 ≤ wake)
    (h : ∀ x ∈ store.schedules, ¬ StartsLater now wake x) : alarmAfter store now wake = none := by
  unfold alarmAfter
  rw [(nextStart?_eq_none_iff hwake).mpr h]
  rfl

theorem exists_alarmAfter (hwake : 0 ≤ wake) (hx : x ∈ store.schedules)
    (hlater : StartsLater now wake x) :
    ∃ t, alarmAfter store now wake = some t ∧
      ∃ y ∈ store.schedules, AlarmIsFor store now wake t y := by
  unfold alarmAfter
  cases hnext : store.nextStart? (boundedAdd now wake) with
  | none => exact absurd hlater ((nextStart?_eq_none_iff hwake).mp hnext x hx)
  | some start =>
    obtain ⟨⟨y, hy, hlate, rfl⟩, hleast⟩ := (nextStart?_eq_some_iff hwake).mp hnext
    exact ⟨_, rfl, y, hy, hlate, toInt_sub_wake hwake hlate.2, hleast⟩

theorem AlarmIsFor.lt (h : AlarmIsFor store now wake t x) : now < t := by
  obtain ⟨⟨-, hlate⟩, ht, -⟩ := h
  rw [Int64.lt_iff_toInt_lt]
  omega

/-- The alarm goes off in time for every schedule that was too late for the round. -/
theorem AlarmIsFor.le {y : Schedule} (h : AlarmIsFor store now wake t x)
    (hy : y ∈ store.schedules) (hlater : StartsLater now wake y) :
    t.toInt ≤ y.starts.toInt - wake.toInt := by
  obtain ⟨-, ht, hleast⟩ := h
  have := Int64.le_iff_toInt_le.mp (hleast y hy hlater)
  omega

end Dispatch

end Timeshift
