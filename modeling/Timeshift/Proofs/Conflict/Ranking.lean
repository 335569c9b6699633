import Timeshift.Proofs.Conflict.Scan

/-! # Whether a schedule is recorded depends on the higher ranks alone -/

namespace Timeshift

namespace Conflict

variable {tuners : Nat} {windows : List TimeRange} {schedules : List Schedule} {s x : Schedule}

/-- The upper part of what is kept, from the upper part of the field and any way through the
ends of it. -/
theorem above_kept {instants : List Instant} (hsorted : instants.Pairwise (· ≤ ·))
    (hends : ∀ s ∈ competing schedules windows, s.RanksAbove x → s.ends ∈ instants) :
    (above x (kept windows tuners schedules)).Perm
      (contests tuners instants (above x (competing schedules windows))) := by
  have hperm := perm_sortBy Schedule.endLE (competing schedules windows)
  rw [kept, above_contests]
  rw [contests_congr (sorted_ends _) hsorted]
  · exact contests_perm _ (hperm.filter _)
  · exact fun s hs => List.mem_map_of_mem (mem_above.mp hs).1
  · exact fun s hs => hends s (mem_sortBy.mp (mem_above.mp hs).1) (mem_above.mp hs).2

theorem above_competing_append :
    above x (competing (schedules ++ [x]) windows) = above x (competing schedules windows) := by
  have hx : above x (competing [x] windows) = [] := by
    refine List.filter_eq_nil_iff.mpr fun r hr => ?_
    rw [List.mem_singleton.mp (mem_competing.mp hr).1]
    simpa using Schedule.RanksAbove.irrefl x
  unfold above at hx ⊢
  rw [competing, List.filter_append, ← competing, List.filter_append, ← competing, hx,
    List.append_nil]

theorem mem_kept_append (h : s.RanksAbove x) :
    s ∈ kept windows tuners (schedules ++ [x]) ↔ s ∈ kept windows tuners schedules := by
  have hsub : competing schedules windows ⊆ competing (schedules ++ [x]) windows := fun r hr =>
    mem_competing.mpr ⟨List.mem_append_left _ (mem_competing.mp hr).1, (mem_competing.mp hr).2⟩
  have hall := sorted_ends (competing (schedules ++ [x]) windows)
  have hmore := @above_kept tuners windows (schedules ++ [x]) x _ hall
    fun r hr _ => List.mem_map_of_mem (mem_sortBy.mpr hr)
  have hless := @above_kept tuners windows schedules x _ hall
    fun r hr _ => List.mem_map_of_mem (mem_sortBy.mpr (hsub hr))
  rw [above_competing_append] at hmore
  have hmem := (hmore.trans hless.symm).mem_iff (a := s)
  simpa only [mem_above, h, and_true] using hmem

/-- A schedule that ranks below `s` makes no difference to whether `s` is recorded. -/
theorem mem_within_append_iff (windows : List TimeRange) (tuners : Nat)
    (schedules : List Schedule) (x : Schedule)
    (hids : ((schedules ++ [x]).map (·.id)).Nodup) (s : Schedule) (hs : s ∈ schedules)
    (habove : s.RanksAbove x) :
    s ∈ within windows tuners (schedules ++ [x]) ↔ s ∈ within windows tuners schedules := by
  have hids' : (schedules.map (·.id)).Nodup :=
    hids.sublist ((List.sublist_append_left _ _).map _)
  rw [mem_within hids, mem_within hids', mem_kept_append habove, mem_competing, mem_competing]
  simp [hs]

/-- A weak schedule that ends first brings a scan point of its own, and changes nothing above. -/
theorem mem_within_append_iff_early :
    let plan : List Schedule := [.timed 1 1 0 100 5, .timed 2 2 10 110 4, .timed 3 2 20 120 6]
    let x : Schedule := .timed 4 3 5 30 3
    ((plan ++ [x]).map (·.id)).Nodup ∧ .timed 2 2 10 110 4 ∈ plan ∧
      (Schedule.timed 2 2 10 110 4).RanksAbove x ∧
      (within [TimeRange.all] 2 plan).map (·.id) = [2] ∧
      (within [TimeRange.all] 2 (plan ++ [x])).map (·.id) = [4, 2] ∧
      (.timed 2 2 10 110 4 ∈ within [TimeRange.all] 2 (plan ++ [x]) ↔
        .timed 2 2 10 110 4 ∈ within [TimeRange.all] 2 plan) :=
  ⟨by decide, by decide, by decide, by decide, by decide,
    mem_within_append_iff _ 2 _ _ (by decide) _ (by decide) (by decide)⟩

end Conflict

end Timeshift
