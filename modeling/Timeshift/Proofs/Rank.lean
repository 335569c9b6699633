import Timeshift.Schedule.Basic
import Timeshift.Sort
import Mathlib.Data.List.Nodup

/-!
# The order by rank

Rank compares priorities first and ids second, so among schedules with different ids it is a
strict total order.
-/

namespace Timeshift

namespace Schedule

/-- A schedule for a stretch of time on a channel. -/
def timed (id channelId : Int64) (starts ends : Instant) (priority : Priority) : Schedule :=
  { ofRange "tuner" channelId ⟨starts, ends⟩ with id, priority }

/-- `a` has the higher priority, or the same one and the higher id. -/
def RanksAbove (a b : Schedule) : Prop :=
  b.priority < a.priority ∨ b.priority = a.priority ∧ b.id < a.id

instance : DecidableRel RanksAbove := fun a b =>
  inferInstanceAs (Decidable (b.priority < a.priority ∨ b.priority = a.priority ∧ b.id < a.id))

theorem RanksAbove.irrefl (a : Schedule) : ¬ a.RanksAbove a := by
  unfold RanksAbove
  grind

theorem RanksAbove.trans {a b c : Schedule} (hab : a.RanksAbove b) (hbc : b.RanksAbove c) :
    a.RanksAbove c := by
  unfold RanksAbove at *
  grind

theorem RanksAbove.asymm {a b : Schedule} (h : a.RanksAbove b) : ¬ b.RanksAbove a :=
  fun h' => RanksAbove.irrefl a (h.trans h')

theorem ranksAbove_total {a b : Schedule} (h : a.id ≠ b.id) : a.RanksAbove b ∨ b.RanksAbove a := by
  unfold RanksAbove
  grind

theorem rankLE_iff (a b : Schedule) : a.rankLE b = true ↔ ¬ a.RanksAbove b := by
  unfold rankLE compareRank RanksAbove
  rw [Ordering.isLE_then_iff_or, Std.compare_eq_lt, Std.LawfulEqOrd.compare_eq_iff_eq,
    Std.isLE_compare]
  grind

theorem rankLE_total (a b : Schedule) : (a.rankLE b || b.rankLE a) = true := by
  rw [Bool.or_eq_true, rankLE_iff, rankLE_iff]
  by_cases h : a.RanksAbove b
  · exact Or.inr h.asymm
  · exact Or.inl h

theorem rankLE_trans (a b c : Schedule) (hab : a.rankLE b = true) (hbc : b.rankLE c = true) :
    a.rankLE c = true := by
  rw [rankLE_iff] at *
  unfold RanksAbove at *
  grind

end Schedule

end Timeshift
