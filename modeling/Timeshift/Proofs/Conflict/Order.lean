import Timeshift.Proofs.Conflict.Scan

/-! # The order of a plan does not matter -/

namespace Timeshift

namespace Conflict

variable {tuners : Nat} {windows windows' : List TimeRange} {plan plan' : List Schedule}

/-! ## The plan -/

theorem kept_perm (hperm : plan.Perm plan') :
    (kept windows tuners plan).Perm (kept windows tuners plan') := by
  have hfields : (sortBy Schedule.endLE (competing plan windows)).Perm
      (sortBy Schedule.endLE (competing plan' windows)) :=
    (perm_sortBy _ _).trans ((hperm.filter _).trans (perm_sortBy _ _).symm)
  have hends : ∀ s ∈ sortBy Schedule.endLE (competing plan windows),
      s.ends ∈ (sortBy Schedule.endLE (competing plan' windows)).map (·.ends) :=
    fun s hs => List.mem_map_of_mem (hfields.subset hs)
  rw [kept, kept, contests_congr (sorted_ends _) (sorted_ends (competing plan' windows))
    (fun s hs => List.mem_map_of_mem hs) hends]
  exact contests_perm _ hfields

theorem ids_within (hids : (plan.map (·.id)).Nodup) :
    ((within windows tuners plan).map (·.id)).Nodup := by
  have hcompeting := ids_competing hids windows
  rw [← ((perm_sortBy Schedule.endLE _).map _).nodup_iff, ← schedulesOf_contenders] at hcompeting
  refine ((perm_sortBy _ _).map _).nodup_iff.mpr (hcompeting.sublist ?_)
  exact (List.filter_sublist.map _).map _

/-- The answer stands in the order of rank, which is strict for different ids. -/
theorem within_perm (hids : (plan.map (·.id)).Nodup) (hperm : plan.Perm plan') :
    within windows tuners plan = within windows tuners plan' := by
  have hids' : (plan'.map (·.id)).Nodup := (hperm.map _).nodup_iff.mp hids
  have hmem : ∀ s, s ∈ within windows tuners plan ↔ s ∈ within windows tuners plan' := by
    intro s
    rw [mem_within hids, mem_within hids', mem_competing, mem_competing, hperm.mem_iff,
      (kept_perm hperm).mem_iff]
  have hsorted : ∀ p, (within windows tuners p).Pairwise fun a b => a.rankLE b = true :=
    fun p => pairwise_sortBy Schedule.rankLE_total Schedule.rankLE_trans _
  have hsame : (within windows tuners plan).Perm (within windows tuners plan') :=
    (List.perm_ext_iff_of_nodup (ids_within hids).of_map (ids_within hids').of_map).mpr hmem
  refine hsame.eq_of_pairwise (fun a b ha hb hab hba => ?_) (hsorted plan) (hsorted plan')
  have hid : a.id = b.id := by
    by_contra hne
    rw [Schedule.rankLE_iff] at hab hba
    exact (Schedule.ranksAbove_total hne).elim hab hba
  exact List.inj_on_of_nodup_map (ids_within hids') ((hmem a).mp ha) hb hid

theorem among_perm (hids : (plan.map (·.id)).Nodup) (hperm : plan.Perm plan') :
    among tuners plan = among tuners plan' := within_perm hids hperm

/-! ## The windows -/

theorem competing_of_mem_iff (h : ∀ w, w ∈ windows ↔ w ∈ windows') (plan : List Schedule) :
    competing plan windows = competing plan windows' := by
  unfold competing
  apply List.filter_congr
  intro s _
  congr 1
  rw [Bool.eq_iff_iff]
  simp only [List.any_eq_true, h]

theorem within_of_mem_iff (h : ∀ w, w ∈ windows ↔ w ∈ windows') (tuners : Nat)
    (plan : List Schedule) : within windows tuners plan = within windows' tuners plan := by
  unfold within
  rw [competing_of_mem_iff h]

/-- Neither the order of the schedules nor that of the windows shows in the answer, and a window
may come twice. -/
theorem within_eq_of_same_members (tuners : Nat) (hids : (plan.map (·.id)).Nodup)
    (hperm : plan.Perm plan') (hwindows : ∀ w, w ∈ windows ↔ w ∈ windows') :
    within windows tuners plan = within windows' tuners plan' := by
  rw [within_perm hids hperm]
  exact within_of_mem_iff hwindows tuners plan'

/-- Three schedules end together, two of them with one priority, and one of the windows is in the
second list twice. -/
theorem within_eq_of_same_members_three :
    let plan : List Schedule :=
      [.timed 1 1 0 100 5, .timed 2 2 10 100 5, .timed 3 2 20 100 7, .timed 4 3 90 150 1]
    let plan' : List Schedule :=
      [.timed 3 2 20 100 7, .timed 4 3 90 150 1, .timed 2 2 10 100 5, .timed 1 1 0 100 5]
    let windows : List TimeRange := [⟨0, 30⟩, ⟨95, 120⟩]
    let windows' : List TimeRange := [⟨95, 120⟩, ⟨0, 30⟩, ⟨95, 120⟩]
    (plan.map (·.id)).Nodup ∧ plan.Perm plan' ∧ (∀ w, w ∈ windows ↔ w ∈ windows') ∧
      (within windows 1 plan).map (·.id) = [4, 1, 2] ∧
      within windows 1 plan = within windows' 1 plan' := by
  intro plan plan' windows windows'
  have hids : (plan.map (·.id)).Nodup := by decide
  have hperm : plan.Perm plan' := by decide
  have hwindows : ∀ w, w ∈ windows ↔ w ∈ windows' := by
    intro w
    simp [windows, windows']
    grind
  exact ⟨hids, hperm, hwindows, by decide, within_eq_of_same_members 1 hids hperm hwindows⟩

end Conflict

end Timeshift
