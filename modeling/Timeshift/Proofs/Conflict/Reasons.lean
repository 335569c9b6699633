import Timeshift.Proofs.Conflict.Order

/-!
# Every loser has a reason

A schedule that will not be recorded was beaten at some end of a schedule, so at the last instant
before that end better schedules run that leave it no tuner. So the best schedule is recorded if
there is a tuner, and nobody loses in a plan that fits.
-/

namespace Timeshift

/-- Who runs up to `t` runs at the instant before it. -/
theorem Schedule.RunsUpTo.contains_pred {t : Instant} {s : Schedule} (h : s.RunsUpTo t) :
    s.range.contains (t - 1) = true := by
  obtain ⟨hstarts, hends⟩ := h
  rw [Int64.lt_iff_toInt_lt] at hstarts
  rw [Int64.le_iff_toInt_le] at hends
  have hlo := s.starts.le_toInt
  have hhi := t.toInt_lt
  -- Something starts before `t`, so `t` is not the first instant of all.
  have hpred : (t - 1).toInt = t.toInt - 1 := by
    rw [Int64.toInt_sub, Int64.toInt_one, Int.bmod_eq_of_le] <;> omega
  rw [TimeRange.contains_iff, Int64.le_iff_toInt_le, Int64.lt_iff_toInt_lt, hpred]
  simp only [Schedule.range]
  omega

namespace Conflict

variable {tuners : Nat} {windows : List TimeRange} {schedules field : List Schedule}
  {c s : Schedule}

/-! ## Where a schedule is beaten -/

theorem exists_beaten_of_gone {instants : List Instant} (hs : s ∈ field)
    (hgone : s ∉ contests tuners instants field) :
    ∃ t ∈ instants, s.RunsUpTo t ∧ Beaten tuners (runningUpTo t field) s := by
  induction instants generalizing field with
  | nil => exact absurd hs hgone
  | cons t rest ih =>
    by_cases hstays : s ∈ contest tuners t field
    · obtain ⟨u, hu, hrun, hbeaten⟩ := ih hstays hgone
      refine ⟨u, List.mem_cons_of_mem t hu, hrun, hbeaten.mono ?_⟩
      exact (contest_sublist.filter _).subset
    · rw [mem_contest, not_and, Classical.not_imp, not_not] at hstays
      exact ⟨t, List.mem_cons_self, hstays hs⟩

/-- The competing schedules that run at an instant. -/
def running (windows : List TimeRange) (schedules : List Schedule) (t : Instant) :
    List Schedule :=
  (competing schedules windows).filter (·.range.contains t)

theorem running_sublist (t : Instant) :
    (running windows schedules t).Sublist (schedules.filter (·.range.contains t)) :=
  List.filter_sublist.filter _

theorem exists_beaten (hids : (schedules.map (·.id)).Nodup)
    (hc : c ∈ within windows tuners schedules) :
    ∃ t, c.range.contains t = true ∧ Beaten tuners (running windows schedules t) c := by
  obtain ⟨hcompetes, hgone, -⟩ := (mem_within hids).mp hc
  obtain ⟨t, -, hrun, hbeaten⟩ := exists_beaten_of_gone (mem_sortBy.mpr hcompetes) hgone
  refine ⟨t - 1, hrun.contains_pred, hbeaten.mono ?_⟩
  intro r hr
  rw [mem_runningUpTo, mem_sortBy] at hr
  exact List.mem_filter.mpr ⟨hr.1, hr.2.contains_pred⟩

/-! ## Who is never beaten -/

theorem not_beaten_of_best {group : List Schedule} (hbest : ∀ r ∈ group, ¬ r.RanksAbove c)
    (htuners : 0 < tuners) : ¬ Beaten tuners group c := by
  have hnobody : channelsAbove group c = ∅ := by
    refine Finset.eq_empty_of_forall_notMem fun channel hchannel => ?_
    obtain ⟨r, hr, habove, -⟩ := mem_channelsAbove.mp hchannel
    exact hbest r hr habove
  rintro (hsame | hfull)
  · simp [hnobody] at hsame
  · rw [hnobody, Finset.card_empty] at hfull
    omega

/-- There is a tuner for each schedule of the group, and no channel is wanted twice. -/
def Fits (tuners : Nat) (group : List Schedule) : Prop :=
  group.length ≤ tuners ∧ group.Pairwise fun a b => a.channelId ≠ b.channelId

theorem Fits.sublist {group group' : List Schedule} (h : Fits tuners group)
    (hsub : group'.Sublist group) : Fits tuners group' :=
  ⟨hsub.length_le.trans h.1, h.2.sublist hsub⟩

theorem Fits.not_beaten {group : List Schedule} (h : Fits tuners group) (hc : c ∈ group) :
    ¬ Beaten tuners group c := by
  rintro (hsame | hfull)
  · obtain ⟨r, hr, habove, hchannel⟩ := mem_channelsAbove.mp hsame
    have hne : r ≠ c := by
      rintro rfl
      exact Schedule.RanksAbove.irrefl r habove
    have : Std.Symm fun a b : Schedule => a.channelId ≠ b.channelId := ⟨fun _ _ hab => hab.symm⟩
    exact h.2.forall hr hc hne hchannel
  · -- `c` itself is one more than those above it.
    have hfew : (channelsAbove group c).card ≤ (group.filter (·.RanksAbove c)).length := by
      have hcard := List.toFinset_card_le ((group.filter (·.RanksAbove c)).map (·.channelId))
      rwa [List.length_map] at hcard
    have hless : (group.filter (·.RanksAbove c)).length < group.length := by
      rw [List.length_filter_lt_length_iff_exists]
      exact ⟨c, hc, by simpa using Schedule.RanksAbove.irrefl c⟩
    have hroom := h.1
    omega

/-! ## The answer -/

/-- By rank means by falling rank from the end, if all ids are different. -/
theorem pairwise_of_sorted {l : List Schedule} (hsorted : l.Pairwise fun a b => a.rankLE b = true)
    (hids : (l.map (·.id)).Nodup) : l.Pairwise fun a b => b.RanksAbove a := by
  refine (hsorted.and (List.pairwise_map.mp hids)).imp fun {a b} h => ?_
  exact (Schedule.ranksAbove_total h.2).resolve_left ((Schedule.rankLE_iff a b).mp h.1)

/-- The answer starts with the lowest rank. -/
theorem pairwise_within (hids : (schedules.map (·.id)).Nodup) :
    (within windows tuners schedules).Pairwise fun a b => b.RanksAbove a :=
  pairwise_of_sorted (pairwise_sortBy Schedule.rankLE_total Schedule.rankLE_trans _)
    (ids_within hids)

/-- The answer lists schedules of the plan, each once and by rank. To each of them there is an
instant at which it runs and is beaten by schedules that compete and run then. -/
theorem within_justified (windows : List TimeRange) (tuners : Nat) (schedules : List Schedule)
    (hids : (schedules.map (·.id)).Nodup) :
    (within windows tuners schedules).Nodup ∧
      within windows tuners schedules ⊆ schedules ∧
      (within windows tuners schedules).Pairwise (fun a b => b.RanksAbove a) ∧
      (∀ c ∈ within windows tuners schedules, ∃ t, c.range.contains t = true ∧
        Beaten tuners (running windows schedules t) c) ∧
      (0 < tuners → ∀ s ∈ schedules, (∀ r ∈ schedules, ¬ r.RanksAbove s) →
        s ∉ within windows tuners schedules) ∧
      ((∀ t, Fits tuners (schedules.filter (·.range.contains t))) →
        within windows tuners schedules = []) := by
  have hsub : within windows tuners schedules ⊆ schedules :=
    fun c hc => (mem_competing.mp ((mem_within hids).mp hc).1).1
  refine ⟨(ids_within hids).of_map, hsub, pairwise_within hids, fun c hc => exists_beaten hids hc,
    ?_, ?_⟩
  · intro htuners s _ hbest hlost
    obtain ⟨t, -, hbeaten⟩ := exists_beaten hids hlost
    refine not_beaten_of_best (fun r hr => hbest r ?_) htuners hbeaten
    exact (List.filter_sublist.trans List.filter_sublist).subset hr
  · intro hfits
    refine List.eq_nil_iff_forall_not_mem.mpr fun c hc => ?_
    obtain ⟨t, hrun, hbeaten⟩ := exists_beaten hids hc
    have hmem : c ∈ running windows schedules t :=
      List.mem_filter.mpr ⟨((mem_within hids).mp hc).1, hrun⟩
    exact ((hfits t).sublist (running_sublist t)).not_beaten hmem hbeaten

/-- One tuner: the short schedule costs the long one its tuner, which then costs the last one
nothing. A channel is wanted twice. -/
theorem within_justified_chain :
    let plan : List Schedule :=
      [.timed 1 1 0 50 6, .timed 2 2 40 100 5, .timed 3 1 45 60 6, .timed 4 3 90 120 4]
    (plan.map (·.id)).Nodup ∧ (within [TimeRange.all] 1 plan).map (·.id) = [2, 1] ∧
      (within [TimeRange.all] 1 plan).Pairwise (fun a b => b.RanksAbove a) ∧
      (∃ t, (Schedule.timed 2 2 40 100 5).range.contains t = true ∧
        Beaten 1 (running [TimeRange.all] plan t) (.timed 2 2 40 100 5)) ∧
      .timed 3 1 45 60 6 ∉ within [TimeRange.all] 1 plan := by
  intro plan
  obtain ⟨-, -, hsorted, hreason, hbest, -⟩ :=
    within_justified [TimeRange.all] 1 plan (by decide)
  exact ⟨by decide, by decide, hsorted, hreason _ (by decide),
    hbest (by decide) _ (by decide) (by decide)⟩

end Conflict

end Timeshift
