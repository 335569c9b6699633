import Timeshift.Proofs.Conflict.Scan

/-! # The survivors fit the tuners -/

namespace Timeshift

namespace Conflict

variable {tuners : Nat} {group : List Schedule}

/-! ## A group in which nobody is beaten -/

theorem pairwise_channels_of_unbeaten (hids : (group.map (·.id)).Nodup)
    (h : ∀ s ∈ group, ¬ Beaten tuners group s) :
    group.Pairwise fun a b => a.channelId ≠ b.channelId := by
  refine (List.pairwise_map.mp hids).imp_of_mem fun {a b} ha hb hab hch => ?_
  rcases Schedule.ranksAbove_total hab with hr | hr
  · exact h b hb (Or.inl (mem_channelsAbove.mpr ⟨a, ha, hr, hch⟩))
  · exact h a ha (Or.inl (mem_channelsAbove.mpr ⟨b, hb, hr, hch.symm⟩))

/-- The schedule of the lowest rank meets all others on channels of their own. -/
theorem length_le_of_unbeaten (hids : (group.map (·.id)).Nodup)
    (h : ∀ s ∈ group, ¬ Beaten tuners group s) : group.length ≤ tuners := by
  have hperm := perm_sortBy Schedule.rankLE group
  have hsorted : (sortBy Schedule.rankLE group).Pairwise fun a b => a.rankLE b = true :=
    pairwise_sortBy Schedule.rankLE_total Schedule.rankLE_trans group
  have hids' : ((sortBy Schedule.rankLE group).map (·.id)).Nodup :=
    (hperm.map _).nodup_iff.mpr hids
  rw [← length_sortBy Schedule.rankLE group]
  cases hl : sortBy Schedule.rankLE group with
  | nil => simp
  | cons s rest =>
    rw [hl] at hsorted hids' hperm
    have hs : s ∈ group := hperm.subset List.mem_cons_self
    have hchannels : (rest.map (·.channelId)).Nodup := by
      have hpair := pairwise_channels_of_unbeaten hids h
      exact List.pairwise_map.mpr
        ((hperm.pairwise_iff fun hab => hab.symm).mpr hpair).tail
    have hsub : (rest.map (·.channelId)).toFinset ⊆ channelsAbove group s := by
      intro c hc
      obtain ⟨r, hr, rfl⟩ := List.mem_map.mp (List.mem_toFinset.mp hc)
      have hne : r.id ≠ s.id := ((List.pairwise_cons.mp (List.pairwise_map.mp hids')).1 r hr).symm
      have hnot := (Schedule.rankLE_iff s r).mp ((List.pairwise_cons.mp hsorted).1 r hr)
      exact mem_channelsAbove.mpr ⟨r, hperm.subset (List.mem_cons_of_mem _ hr),
        (Schedule.ranksAbove_total hne).resolve_right hnot, rfl⟩
    have hcard := Finset.card_le_card hsub
    rw [List.toFinset_card_of_nodup hchannels, List.length_map] at hcard
    have hfew : (channelsAbove group s).card < tuners := by
      by_contra hmany
      exact h s hs (Or.inr (Nat.le_of_not_lt hmany))
    simp only [List.length_cons]
    omega

/-! ## The survivors at one instant -/

/-- The competing schedules that the answer does not list. -/
def survivors (windows : List TimeRange) (tuners : Nat) (schedules : List Schedule) :
    List Schedule :=
  (competing schedules windows).filter (· ∉ within windows tuners schedules)

variable {windows : List TimeRange} {schedules : List Schedule}

theorem ids_kept (hids : (schedules.map (·.id)).Nodup) :
    ((kept windows tuners schedules).map (·.id)).Nodup := by
  have hfield : ((sortBy Schedule.endLE (competing schedules windows)).map (·.id)).Nodup :=
    ((perm_sortBy _ _).map _).nodup_iff.mpr (ids_competing hids windows)
  exact hfield.sublist ((contests_sublist _).map _)

theorem kept_subset : kept windows tuners schedules ⊆ competing schedules windows :=
  fun _ hs => mem_sortBy.mp ((contests_sublist _).subset hs)

theorem isSettled_kept {s : Schedule} (hs : s ∈ kept windows tuners schedules) :
    IsSettled tuners s.ends (kept windows tuners schedules) :=
  isSettled_contests (List.mem_map_of_mem ((contests_sublist _).subset hs))

theorem sorted_kept : (kept windows tuners schedules).Pairwise fun a b => a.ends ≤ b.ends :=
  (List.pairwise_map.mp (sorted_ends (competing schedules windows))).sublist (contests_sublist _)

/-- Those that run at an instant all run up to the end of the first of them. -/
theorem unbeaten_at (t : Instant) :
    ∀ s ∈ (kept windows tuners schedules).filter (·.range.contains t),
      ¬ Beaten tuners ((kept windows tuners schedules).filter (·.range.contains t)) s := by
  have hsorted := (@sorted_kept tuners windows schedules).filter (·.range.contains t)
  have hmem : ∀ s, s ∈ (kept windows tuners schedules).filter (·.range.contains t) ↔
      s ∈ kept windows tuners schedules ∧ s.starts ≤ t ∧ t < s.ends := by
    simp [TimeRange.contains_iff, Schedule.range]
  cases hl : (kept windows tuners schedules).filter (·.range.contains t) with
  | nil => simp
  | cons first rest =>
    rw [hl] at hsorted hmem
    have hfirst := (hmem first).mp List.mem_cons_self
    have hrun : ∀ s ∈ first :: rest, s.RunsUpTo first.ends := by
      intro s hs
      refine ⟨Int64.lt_of_le_of_lt ((hmem s).mp hs).2.1 hfirst.2.2, ?_⟩
      rcases List.mem_cons.mp hs with rfl | hs
      · exact Int64.le_refl _
      · exact (List.pairwise_cons.mp hsorted).1 s hs
    intro s hs hb
    refine isSettled_kept hfirst.1 s ((hmem s).mp hs).1 (hrun s hs) (hb.mono fun r hr => ?_)
    exact mem_runningUpTo.mpr ⟨((hmem r).mp hr).1, hrun r hr⟩

theorem mem_survivors (hids : (schedules.map (·.id)).Nodup)
    (hreserved : ∀ s ∈ schedules, s.id ≠ reservedId) {s : Schedule} :
    s ∈ survivors windows tuners schedules ↔ s ∈ kept windows tuners schedules := by
  rw [survivors, List.mem_filter, decide_eq_true_eq, mem_within hids]
  constructor
  · rintro ⟨hc, hnot⟩
    by_contra hgone
    exact hnot ⟨hc, hgone, hreserved s (mem_competing.mp hc).1⟩
  · exact fun hk => ⟨kept_subset hk, fun hout => hout.2.1 hk⟩

theorem perm_survivors (hids : (schedules.map (·.id)).Nodup)
    (hreserved : ∀ s ∈ schedules, s.id ≠ reservedId) :
    (survivors windows tuners schedules).Perm (kept windows tuners schedules) := by
  rw [List.perm_ext_iff_of_nodup]
  · exact fun s => mem_survivors hids hreserved
  · exact ((ids_competing hids windows).sublist (List.filter_sublist.map _)).of_map
  · exact (ids_kept hids).of_map

/-- At every instant the survivors that run are no more than the tuners, each on a channel of
its own. -/
theorem survivors_fit (windows : List TimeRange) (tuners : Nat) (schedules : List Schedule)
    (hids : (schedules.map (·.id)).Nodup) (hreserved : ∀ s ∈ schedules, s.id ≠ reservedId)
    (t : Instant) :
    ((survivors windows tuners schedules).filter (·.range.contains t)).length ≤ tuners ∧
      ((survivors windows tuners schedules).filter (·.range.contains t)).Pairwise
        fun a b => a.channelId ≠ b.channelId := by
  have hperm := (@perm_survivors tuners windows schedules hids hreserved).filter
    (·.range.contains t)
  have hrunning : (((kept windows tuners schedules).filter (·.range.contains t)).map
      (·.id)).Nodup := (ids_kept hids).sublist (List.filter_sublist.map _)
  have hunbeaten := @unbeaten_at tuners windows schedules t
  constructor
  · rw [hperm.length_eq]
    exact length_le_of_unbeaten hrunning hunbeaten
  · rw [hperm.pairwise_iff fun h => h.symm]
    exact pairwise_channels_of_unbeaten hrunning hunbeaten

/-- Two tuners, a schedule inside two others, and a channel that is wanted twice. -/
theorem survivors_fit_nested :
    let plan : List Schedule :=
      [.timed 1 1 0 100 5, .timed 2 2 10 90 3, .timed 3 1 20 100 4, .timed 4 3 50 60 9]
    (plan.map (·.id)).Nodup ∧ (∀ s ∈ plan, s.id ≠ reservedId) ∧
      (survivors [TimeRange.all] 2 plan).map (·.id) = [1, 4] ∧
      ((survivors [TimeRange.all] 2 plan).filter (·.range.contains 55)).length ≤ 2 ∧
      ((survivors [TimeRange.all] 2 plan).filter (·.range.contains 55)).Pairwise
        fun a b => a.channelId ≠ b.channelId :=
  ⟨by decide, by decide, by decide, survivors_fit _ 2 _ (by decide) (by decide) 55⟩

/-! ## A plan without conflicts -/

theorem perm_kept_of_within_nil (hids : (schedules.map (·.id)).Nodup)
    (hreserved : ∀ s ∈ schedules, s.id ≠ reservedId)
    (hnone : within windows tuners schedules = []) :
    (kept windows tuners schedules).Perm (competing schedules windows) := by
  refine (List.perm_ext_iff_of_nodup (ids_kept hids).of_map (ids_competing hids windows).of_map).mpr
    fun s => ⟨fun hs => kept_subset hs, fun hs => ?_⟩
  by_contra hgone
  have hlost : s ∈ within windows tuners schedules :=
    (mem_within hids).mpr ⟨hs, hgone, hreserved s (mem_competing.mp hs).1⟩
  rw [hnone] at hlost
  exact List.not_mem_nil hlost

/-- Without conflicts, the schedules that run at an instant are no more than the tuners. -/
theorem running_le_of_among_nil (hids : (schedules.map (·.id)).Nodup)
    (hreserved : ∀ s ∈ schedules, s.id ≠ reservedId)
    (hlength : ∀ s ∈ schedules, s.starts < s.ends) (hnone : among tuners schedules = [])
    (t : Instant) : schedules.countP (·.range.contains t) ≤ tuners := by
  have hall : competing schedules [TimeRange.all] = schedules := by
    refine List.filter_eq_self.mpr fun s hs => ?_
    simpa [Schedule.overlaps] using
      And.intro (hlength s hs) (TimeRange.overlaps_all (r := s.range) (hlength s hs))
  have hperm := perm_kept_of_within_nil hids hreserved hnone
  rw [hall] at hperm
  rw [← hperm.countP_eq, List.countP_eq_length_filter]
  exact length_le_of_unbeaten ((ids_kept hids).sublist (List.filter_sublist.map _)) (unbeaten_at t)

end Conflict

end Timeshift
