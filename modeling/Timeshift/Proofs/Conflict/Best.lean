import Timeshift.Proofs.Conflict.Reasons
import Timeshift.Proofs.Conflict.Survivors

/-!
# The best schedule, and two for one tuner

The best schedule of a plan is recorded if there is a tuner at all. So of two schedules that overlap
and have one tuner between them, the better one is recorded and the other one is not.
-/

namespace Timeshift

namespace Conflict

variable {tuners : Nat} {windows : List TimeRange} {plan : List Schedule} {a b s : Schedule}

theorem mem_kept_of_best (hs : s ∈ competing plan windows)
    (hbest : ∀ r ∈ plan, ¬ r.RanksAbove s) (htuners : 0 < tuners) :
    s ∈ kept windows tuners plan := by
  by_contra hgone
  obtain ⟨t, -, -, hbeaten⟩ := exists_beaten_of_gone (mem_sortBy.mpr hs) hgone
  refine not_beaten_of_best (fun r hr => hbest r ?_) htuners hbeaten
  exact (mem_competing.mp (mem_sortBy.mp (mem_runningUpTo.mp hr).1)).1

theorem not_mem_within_of_best (hids : (plan.map (·.id)).Nodup)
    (hbest : ∀ r ∈ plan, ¬ r.RanksAbove s) (htuners : 0 < tuners) :
    s ∉ within windows tuners plan := by
  intro hlost
  obtain ⟨hcompetes, hgone, -⟩ := (mem_within hids).mp hlost
  exact hgone (mem_kept_of_best hcompetes hbest htuners)

/-! ## Two schedules -/

/-- Both schedules have some length, and there is an instant at which both run. -/
structure Clash (a b : Schedule) : Prop where
  ids : a.id ≠ b.id
  left : a.starts < a.ends
  right : b.starts < b.ends
  overlap : a.overlaps b.range = true

namespace Clash

theorem nodup_ids (h : Clash a b) : ([a, b].map (·.id)).Nodup := by simpa using h.ids

theorem exists_instant (h : Clash a b) :
    ∃ t, a.range.contains t = true ∧ b.range.contains t = true := by
  obtain ⟨-, ha, hb, hover⟩ := h
  have hmeet : a.starts < b.ends ∧ b.starts < a.ends := by
    rw [Schedule.overlaps, TimeRange.overlaps, Bool.and_eq_true] at hover
    exact ⟨of_decide_eq_true hover.1, of_decide_eq_true hover.2⟩
  rcases Int64.le_total a.starts b.starts with hle | hle
  · exact ⟨b.starts, TimeRange.contains_iff.mpr ⟨hle, hmeet.2⟩,
      TimeRange.contains_iff.mpr ⟨Int64.le_refl _, hb⟩⟩
  · exact ⟨a.starts, TimeRange.contains_iff.mpr ⟨Int64.le_refl _, ha⟩,
      TimeRange.contains_iff.mpr ⟨hle, hmeet.1⟩⟩

theorem competing_pair (h : Clash a b) : competing [a, b] [TimeRange.all] = [a, b] := by
  refine List.filter_eq_self.mpr fun s hs => ?_
  have hlong : s.starts < s.ends := by
    rcases List.mem_pair.mp hs with rfl | rfl
    · exact h.left
    · exact h.right
  simpa [Schedule.overlaps] using
    And.intro hlong (TimeRange.overlaps_all (r := s.range) hlong)

end Clash

theorem best_of_pair (habove : b.RanksAbove a) : ∀ r ∈ [a, b], ¬ r.RanksAbove b := by
  intro r hr
  rcases List.mem_pair.mp hr with rfl | rfl
  · exact habove.asymm
  · exact Schedule.RanksAbove.irrefl r

/-- The better one takes the tuner, so the other one goes. -/
theorem not_mem_kept_pair (h : Clash a b) (habove : b.RanksAbove a) :
    a ∉ kept [TimeRange.all] 1 [a, b] := by
  intro hstays
  have hbest : b ∈ kept [TimeRange.all] 1 [a, b] := by
    refine mem_kept_of_best ?_ (best_of_pair habove) Nat.one_pos
    rw [h.competing_pair]
    exact List.mem_pair.mpr (Or.inr rfl)
  obtain ⟨t, hat, hbt⟩ := h.exists_instant
  refine unbeaten_at t a (List.mem_filter.mpr ⟨hstays, hat⟩) (Or.inr ?_)
  exact Finset.card_pos.mpr
    ⟨b.channelId, mem_channelsAbove.mpr ⟨b, List.mem_filter.mpr ⟨hbest, hbt⟩, habove, rfl⟩⟩

/-- Just the lower one of two schedules that clash is listed, if it may be listed at all. -/
theorem among_pair (h : Clash a b) (habove : b.RanksAbove a) (hlisted : a.id ≠ reservedId) :
    among 1 [a, b] = [a] := by
  refine List.perm_singleton.mp ?_
  refine (List.perm_ext_iff_of_nodup (ids_within h.nodup_ids).of_map
    (List.nodup_singleton a)).mpr fun s => ?_
  rw [List.mem_singleton]
  constructor
  · intro hs
    have hmem := (mem_competing.mp ((mem_within h.nodup_ids).mp hs).1).1
    refine (List.mem_pair.mp hmem).resolve_right ?_
    rintro rfl
    exact not_mem_within_of_best h.nodup_ids (best_of_pair habove) Nat.one_pos hs
  · rintro rfl
    refine (mem_within h.nodup_ids).mpr ⟨?_, not_mem_kept_pair h habove, hlisted⟩
    rw [h.competing_pair]
    exact List.mem_pair.mpr (Or.inl rfl)

/-- The first of two schedules that clash is listed alone exactly if the second one ranks above
it. -/
theorem among_pair_iff (h : Clash a b) (hlisted : a.id ≠ reservedId) :
    among 1 [a, b] = [a] ↔ b.RanksAbove a := by
  refine ⟨fun heq => ?_, fun habove => among_pair h habove hlisted⟩
  refine (Schedule.ranksAbove_total h.ids).resolve_left fun hlower => ?_
  have hbest : ∀ r ∈ [a, b], ¬ r.RanksAbove a := by
    intro r hr
    exact best_of_pair hlower r (by rwa [List.mem_pair, or_comm, ← List.mem_pair])
  have hlost : a ∈ among 1 [a, b] := by
    rw [heq]
    exact List.mem_singleton_self a
  exact not_mem_within_of_best h.nodup_ids hbest Nat.one_pos hlost

end Conflict

end Timeshift
