import Timeshift.Proofs.Conflict.Survivors

/-!
# More tuners

With one schedule on each channel, a further tuner takes no recording away. What survives with
more tuners goes on to compete, so the two competitions meet different groups. But never do more
of these extra schedules run together than there are extra tuners.
-/

namespace Timeshift

namespace Conflict

variable {tuners spare : Nat} {s : Schedule} {group less : List Schedule}

/-! ## Groups with one schedule on each channel -/

theorem not_mem_channelsAbove (hchannels : (group.map (·.channelId)).Nodup) (hs : s ∈ group) :
    s.channelId ∉ channelsAbove group s := by
  intro hc
  obtain ⟨r, hr, hrs, heq⟩ := mem_channelsAbove.mp hc
  obtain rfl := List.inj_on_of_nodup_map hchannels hr hs heq
  exact Schedule.RanksAbove.irrefl r hrs

theorem card_channelsAbove (hchannels : (group.map (·.channelId)).Nodup) :
    (channelsAbove group s).card = (group.filter (·.RanksAbove s)).length := by
  unfold channelsAbove
  rw [List.toFinset_card_of_nodup (hchannels.sublist (List.filter_sublist.map _)),
    List.length_map]

theorem beaten_iff_length (hchannels : (group.map (·.channelId)).Nodup) (hs : s ∈ group) :
    Beaten tuners group s ↔ tuners ≤ (group.filter (·.RanksAbove s)).length := by
  unfold Beaten
  rw [card_channelsAbove hchannels]
  simp only [not_mem_channelsAbove hchannels hs, false_or]

theorem winners_sublist : (winners tuners group).Sublist group := List.filter_sublist

theorem mem_winners : s ∈ winners tuners group ↔ s ∈ group ∧ ¬ Beaten tuners group s := by
  simp [winners]

/-- If anybody is beaten, all tuners are taken. -/
theorem le_length_winners (hchannels : (group.map (·.channelId)).Nodup) (hs : s ∈ group)
    (h : Beaten tuners group s) : tuners ≤ (winners tuners group).length := by
  have hwin : ((winners tuners group).map (·.channelId)).Nodup :=
    hchannels.sublist (winners_sublist.map _)
  rcases h.by_winners with hc | hcard
  · exact absurd (channelsAbove_mono (fun r hr _ => winners_sublist.subset hr) hc)
      (not_mem_channelsAbove hchannels hs)
  · rw [card_channelsAbove hwin] at hcard
    exact hcard.trans (List.length_filter_le _ _)

theorem length_winners_le (hids : (group.map (·.id)).Nodup) :
    (winners tuners group).length ≤ tuners := by
  apply length_le_of_unbeaten (hids.sublist (winners_sublist.map _))
  intro s hs hb
  exact (mem_winners.mp hs).2 (hb.mono winners_sublist.subset)

/-! ## A group and a part of it -/

theorem length_le_add_rest (hgroup : group.Nodup) (less : List Schedule) :
    group.length ≤ less.length + (group.filter (· ∉ less)).length := by
  rw [← List.length_append]
  apply (hgroup.subperm _).length_le
  intro s hs
  by_cases hl : s ∈ less
  · simp [hl]
  · simp [hs, hl]

theorem add_rest_le_length (hgroup : group.Nodup) (hless : less.Nodup) (hsub : less ⊆ group) :
    less.length + (group.filter (· ∉ less)).length ≤ group.length := by
  rw [← List.length_append]
  have hdisjoint : less.Disjoint (group.filter (· ∉ less)) := by
    intro s hs hrest
    simp [hs] at hrest
  apply ((hless.append (hgroup.filter _) hdisjoint).subperm _).length_le
  exact List.append_subset.mpr ⟨hsub, List.filter_subset_self _⟩

/-- Whoever wins in a part wins in the whole, with a tuner more for each one that is added. -/
theorem winners_subset (hids : group.Nodup) (hchannels : (group.map (·.channelId)).Nodup)
    (hless : (less.map (·.channelId)).Nodup) (hsub : less ⊆ group)
    (hspare : (group.filter (· ∉ less)).length ≤ spare) :
    winners tuners less ⊆ winners (tuners + spare) group := by
  intro s hs
  obtain ⟨hs, hwins⟩ := mem_winners.mp hs
  rw [beaten_iff_length hless hs] at hwins
  rw [mem_winners, beaten_iff_length hchannels (hsub hs)]
  refine ⟨hsub hs, ?_⟩
  -- Whoever ranks above `s` in the whole does so in the part, or is among the rest.
  have hadd := length_le_add_rest (hids.filter (·.RanksAbove s)) (less.filter (·.RanksAbove s))
  have hrest : (group.filter (·.RanksAbove s)).filter (· ∉ less.filter (·.RanksAbove s)) ⊆
      group.filter (· ∉ less) := by
    intro r hr
    simp only [List.mem_filter, decide_eq_true_eq] at hr ⊢
    exact ⟨hr.1.1, fun hrl => hr.2 ⟨hrl, hr.1.2⟩⟩
  have hfew := (((hids.filter _).filter _).subperm hrest).length_le
  omega

/-- The extra winners are no more than the extra tuners. -/
theorem length_extra_winners (hids : (group.map (·.id)).Nodup) (hless : less.Nodup)
    (hchannels : (less.map (·.channelId)).Nodup)
    (hsub : winners tuners less ⊆ winners (tuners + spare) group)
    (hspare : (group.filter (· ∉ less)).length ≤ spare) :
    ((winners (tuners + spare) group).filter (· ∉ winners tuners less)).length ≤ spare := by
  by_cases hany : ∃ s ∈ less, Beaten tuners less s
  · -- All tuners of the part are taken, which leaves the spare ones for the others.
    obtain ⟨s, hs, hb⟩ := hany
    have hfull := le_length_winners hchannels hs hb
    have hfit := @length_winners_le (tuners + spare) group hids
    have hsum := add_rest_le_length (hids.of_map.sublist winners_sublist)
      (hless.sublist winners_sublist) hsub
    omega
  · push Not at hany
    have hall : winners tuners less = less :=
      List.filter_eq_self.mpr fun s hs => by simpa using hany s hs
    rw [hall]
    exact (winners_sublist.filter _).length_le.trans hspare

/-! ## Two competitions over one field -/

/-- What two competitions have left after the contests up to `t`, the second one with `spare`
more tuners. Whatever the first one lacks had its first contest by then. -/
structure Ahead (spare : Nat) (t : Instant) (fewer more : List Schedule) : Prop where
  subset : fewer ⊆ more
  begun : ∀ s ∈ more, s ∉ fewer → s.starts < t
  extra : ((runningUpTo t more).filter (· ∉ runningUpTo t fewer)).length ≤ spare

variable {t u : Instant} {field fewer more : List Schedule}

theorem Ahead.refl (spare : Nat) (t : Instant) (field : List Schedule) :
    Ahead spare t field field where
  subset := List.Subset.refl field
  begun s hs hnot := absurd hs hnot
  extra := by
    have hnone : (runningUpTo t field).filter (· ∉ runningUpTo t field) = [] := by simp
    rw [hnone]
    exact Nat.zero_le spare

theorem runningUpTo_contest :
    runningUpTo t (contest tuners t field) = winners tuners (runningUpTo t field) := by
  unfold runningUpTo contest winners
  rw [List.filter_filter, List.filter_filter]
  apply List.filter_congr
  intro s _
  rw [← Bool.decide_and, ← Bool.decide_and, decide_eq_decide]
  exact ⟨fun h => ⟨h.2 h.1, h.1⟩, fun h => ⟨h.2, fun _ => h.1⟩⟩

/-- An extra schedule that runs up to a later instant ran up to this one. -/
theorem Ahead.extra_later (h : Ahead spare t fewer more) (hmore : more.Nodup) (htu : t ≤ u) :
    ((runningUpTo u more).filter (· ∉ runningUpTo u fewer)).length ≤ spare := by
  refine le_trans ?_ h.extra
  apply (((hmore.filter _).filter _).subperm ?_).length_le
  intro s hs
  simp only [List.mem_filter, mem_runningUpTo, decide_eq_true_eq] at hs ⊢
  obtain ⟨⟨hm, hu⟩, hnot⟩ := hs
  have hgone : s ∉ fewer := fun hf => hnot ⟨hf, hu⟩
  exact ⟨⟨hm, h.begun s hm hgone, Int64.le_trans htu hu.2⟩, fun hf => hgone hf.1⟩

variable (hids : (field.map (·.id)).Nodup) (hchannels : (field.map (·.channelId)).Nodup)
include hids hchannels

theorem Ahead.contest (h : Ahead spare t fewer more) (hfewer : fewer.Sublist field)
    (hmore : more.Sublist field) (htu : t ≤ u) :
    Ahead spare u (contest tuners u fewer) (contest (tuners + spare) u more) := by
  have hmoreIds : ((runningUpTo u more).map (·.id)).Nodup :=
    hids.sublist ((List.filter_sublist.trans hmore).map _)
  have hmoreChannels : ((runningUpTo u more).map (·.channelId)).Nodup :=
    hchannels.sublist ((List.filter_sublist.trans hmore).map _)
  have hfewerChannels : ((runningUpTo u fewer).map (·.channelId)).Nodup :=
    hchannels.sublist ((List.filter_sublist.trans hfewer).map _)
  have hrunning : runningUpTo u fewer ⊆ runningUpTo u more := by
    intro s hs
    rw [mem_runningUpTo] at hs ⊢
    exact ⟨h.subset hs.1, hs.2⟩
  have hspare := h.extra_later (hids.sublist (hmore.map _)).of_map htu
  have hwin : winners tuners (runningUpTo u fewer) ⊆
      winners (tuners + spare) (runningUpTo u more) :=
    winners_subset hmoreIds.of_map hmoreChannels hfewerChannels hrunning hspare
  refine ⟨?_, ?_, ?_⟩
  · intro s hs
    obtain ⟨hf, hstays⟩ := mem_contest.mp hs
    refine mem_contest.mpr ⟨h.subset hf, fun hu => ?_⟩
    exact (mem_winners.mp (hwin (mem_winners.mpr ⟨mem_runningUpTo.mpr ⟨hf, hu⟩, hstays hu⟩))).2
  · intro s hs hnot
    have hm := (mem_contest.mp hs).1
    by_cases hf : s ∈ fewer
    · -- It leaves the first field now, so it is in this contest.
      by_contra hlate
      exact hnot (mem_contest.mpr ⟨hf, fun hu => absurd hu.1 hlate⟩)
    · exact Int64.lt_of_lt_of_le (h.begun s hm hf) htu
  · rw [runningUpTo_contest, runningUpTo_contest]
    exact length_extra_winners hmoreIds hfewerChannels.of_map hfewerChannels hwin hspare

theorem Ahead.contests {instants : List Instant} (h : Ahead spare t fewer more)
    (hfewer : fewer.Sublist field) (hmore : more.Sublist field)
    (hsorted : (t :: instants).Pairwise (· ≤ ·)) :
    contests tuners instants fewer ⊆ contests (tuners + spare) instants more := by
  induction instants generalizing t fewer more with
  | nil => exact h.subset
  | cons u rest ih =>
    have htu : t ≤ u := (List.pairwise_cons.mp hsorted).1 u List.mem_cons_self
    apply ih (h.contest hids hchannels hfewer hmore htu)
    · exact contest_sublist.trans hfewer
    · exact contest_sublist.trans hmore
    · exact hsorted.tail

theorem contests_subset {instants : List Instant} (hsorted : instants.Pairwise (· ≤ ·)) :
    contests tuners instants field ⊆ contests (tuners + spare) instants field := by
  cases instants with
  | nil => exact List.Subset.refl field
  | cons t rest =>
    apply (Ahead.refl spare t field).contests hids hchannels (.refl _) (.refl _)
    refine List.pairwise_cons.mpr ⟨fun u hu => ?_, hsorted⟩
    rcases List.mem_cons.mp hu with rfl | hu
    · exact Int64.le_refl _
    · exact (List.pairwise_cons.mp hsorted).1 u hu

omit hids hchannels

theorem kept_subset_of_le {windows : List TimeRange} {tuners' : Nat} {schedules : List Schedule}
    (hle : tuners ≤ tuners') (hids : (schedules.map (·.id)).Nodup)
    (hchannels : (schedules.map (·.channelId)).Nodup) :
    kept windows tuners schedules ⊆ kept windows tuners' schedules := by
  obtain ⟨spare, rfl⟩ := Nat.exists_eq_add_of_le hle
  have hperm := perm_sortBy Schedule.endLE (competing schedules windows)
  unfold kept
  apply contests_subset
  · exact (hperm.map _).nodup_iff.mpr (ids_competing hids windows)
  · exact (hperm.map _).nodup_iff.mpr (hchannels.sublist (List.filter_sublist.map _))
  · exact sorted_ends _

/-- With one schedule on each channel, whatever is lost with more tuners is lost with fewer. -/
theorem within_subset_of_tuners_le (windows : List TimeRange) {tuners tuners' : Nat}
    (schedules : List Schedule) (hle : tuners ≤ tuners') (hids : (schedules.map (·.id)).Nodup)
    (hchannels : (schedules.map (·.channelId)).Nodup) :
    ∀ s ∈ within windows tuners' schedules, s ∈ within windows tuners schedules := by
  intro s hs
  rw [mem_within hids] at hs ⊢
  obtain ⟨hc, hgone, hid⟩ := hs
  exact ⟨hc, fun hk => hgone (kept_subset_of_le hle hids hchannels hk), hid⟩

/-- With the second tuner schedule 2 survives its first contest and is in another one later. -/
theorem within_subset_of_tuners_le_two :
    let plan : List Schedule :=
      [.timed 1 1 0 50 5, .timed 2 2 10 90 3, .timed 3 3 60 100 7, .timed 4 4 70 120 4]
    1 ≤ 2 ∧ (plan.map (·.id)).Nodup ∧ (plan.map (·.channelId)).Nodup ∧
      (within [TimeRange.all] 1 plan).map (·.id) = [2, 4] ∧
      (within [TimeRange.all] 2 plan).map (·.id) = [2] ∧
      ∀ s ∈ within [TimeRange.all] 2 plan, s ∈ within [TimeRange.all] 1 plan :=
  ⟨by decide, by decide, by decide, by decide, by decide,
    within_subset_of_tuners_le _ _ (by decide) (by decide) (by decide)⟩

end Conflict

end Timeshift
