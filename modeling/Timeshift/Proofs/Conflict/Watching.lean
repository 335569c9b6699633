import Timeshift.Proofs.Conflict.Best

/-!
# Recordings beside a viewer

A viewer has one tuner from now on and never gives it up. The answer comes from two plans, one for
the channel of the viewer and one for all others, and what neither of them loses fits the tuners
together with the viewer.
-/

namespace Timeshift

namespace Conflict

variable {tuners : Nat} {windows : List TimeRange} {plan group schedules : List Schedule}
  {inputId : InputId} {channelId : ChannelId} {now t : Instant} {priority : Priority}
  {s : Schedule}

/-! ## Groups of schedules that are kept -/

/-- Kept schedules that run at one instant fit, any group of them. -/
theorem fits_of_kept (hids : (plan.map (·.id)).Nodup) (hgroup : group.Nodup)
    (hkept : ∀ s ∈ group, s ∈ kept windows tuners plan ∧ s.range.contains t = true) :
    Fits tuners group := by
  have hrunning : (((kept windows tuners plan).filter (·.range.contains t)).map (·.id)).Nodup :=
    (ids_kept hids).sublist (List.filter_sublist.map _)
  have hunbeaten := @unbeaten_at tuners windows plan t
  have hmem : group ⊆ (kept windows tuners plan).filter (·.range.contains t) :=
    fun s hs => List.mem_filter.mpr (hkept s hs)
  have hchannels := pairwise_channels_of_unbeaten hrunning hunbeaten
  have : Std.Symm fun a b : Schedule => a.channelId ≠ b.channelId := ⟨fun _ _ hab => hab.symm⟩
  constructor
  · exact (List.subperm_of_subset hgroup hmem).length_le.trans
      (length_le_of_unbeaten hrunning hunbeaten)
  · exact hgroup.pairwise_of_forall_ne fun a ha b hb hne =>
      hchannels.forall (hmem ha) (hmem hb) hne

/-- A schedule of some length that is not listed is kept. -/
theorem mem_kept_of_unlisted (hids : (plan.map (·.id)).Nodup) (hs : s ∈ plan)
    (hlong : s.starts < s.ends) (hlisted : s.id ≠ reservedId) (hout : s ∉ among tuners plan) :
    s ∈ kept [TimeRange.all] tuners plan := by
  by_contra hgone
  have hall : s.overlaps TimeRange.all = true := TimeRange.overlaps_all (r := s.range) hlong
  have hcompetes : s ∈ competing plan [TimeRange.all] :=
    mem_competing.mpr ⟨hs, hlong, _, List.mem_singleton_self _, hall⟩
  exact hout ((mem_within hids).mpr ⟨hcompetes, hgone, hlisted⟩)

/-! ## The two plans -/

/-- The schedules on other channels, and the viewer. -/
def rivals (inputId : InputId) (channelId : ChannelId) (now : Instant) (priority : Priority)
    (schedules : List Schedule) : List Schedule :=
  schedules.filter (·.channelId ≠ channelId) ++
    [liveEntry inputId channelId ⟨now, Instant.last⟩ priority]

theorem ifWatching_eq : ifWatching inputId channelId now priority schedules tuners =
    sortBy Schedule.rankLE (among 1 (schedules.filter (·.channelId = channelId)) ++
      among tuners (rivals inputId channelId now priority schedules)) := by
  have hothers : schedules.filter (not ∘ fun s => s.channelId == channelId) =
      schedules.filter (·.channelId ≠ channelId) := by
    refine List.filter_congr fun s _ => ?_
    rw [Function.comp_apply, decide_not]
    rfl
  rw [ifWatching, List.partition_eq_filter_filter, hothers]
  rfl

theorem mem_ifWatching : s ∈ ifWatching inputId channelId now priority schedules tuners ↔
    s ∈ among 1 (schedules.filter (·.channelId = channelId)) ∨
      s ∈ among tuners (rivals inputId channelId now priority schedules) := by
  rw [ifWatching_eq, mem_sortBy, List.mem_append]

/-- The schedules of some length that the answer does not list. -/
def besideViewer (inputId : InputId) (channelId : ChannelId) (now : Instant) (priority : Priority)
    (schedules : List Schedule) (tuners : Nat) : List Schedule :=
  schedules.filter fun s =>
    s.starts < s.ends ∧ s ∉ ifWatching inputId channelId now priority schedules tuners

theorem mem_besideViewer : s ∈ besideViewer inputId channelId now priority schedules tuners ↔
    s ∈ schedules ∧ s.starts < s.ends ∧
      s ∉ ifWatching inputId channelId now priority schedules tuners := by
  rw [besideViewer, List.mem_filter, decide_eq_true_eq]

section Watching

variable (hids : (schedules.map (·.id)).Nodup) (hreserved : ∀ s ∈ schedules, s.id ≠ reservedId)

include hids

theorem ids_same (channelId : ChannelId) :
    ((schedules.filter (·.channelId = channelId)).map (·.id)).Nodup :=
  hids.sublist (List.filter_sublist.map _)

theorem of_mem_among_same (hs : s ∈ among 1 (schedules.filter (·.channelId = channelId))) :
    s ∈ schedules ∧ s.channelId = channelId := by
  have hcompetes := ((mem_within (ids_same hids channelId)).mp hs).1
  simpa using (mem_competing.mp hcompetes).1

include hreserved

theorem ids_rivals : ((rivals inputId channelId now priority schedules).map (·.id)).Nodup := by
  rw [rivals, List.map_append, List.nodup_append]
  refine ⟨hids.sublist (List.filter_sublist.map _), List.nodup_singleton _, ?_⟩
  intro id hid reserved hviewer
  obtain ⟨s, hs, rfl⟩ := List.mem_map.mp hid
  rw [List.mem_singleton.mp hviewer]
  exact hreserved s (List.mem_of_mem_filter hs)

/-- The answer lists schedules of other channels from the second plan, and never the viewer. -/
theorem of_mem_among_rivals
    (hs : s ∈ among tuners (rivals inputId channelId now priority schedules)) :
    s ∈ schedules ∧ s.channelId ≠ channelId := by
  obtain ⟨hcompetes, -, hlisted⟩ := (mem_within (ids_rivals hids hreserved)).mp hs
  rcases List.mem_append.mp (mem_competing.mp hcompetes).1 with hother | hviewer
  · simpa using hother
  · rw [List.mem_singleton.mp hviewer] at hlisted
    exact absurd rfl hlisted

/-- Nobody is in both plans, so the answer lists nobody twice. -/
theorem ids_ifWatching :
    ((ifWatching inputId channelId now priority schedules tuners).map (·.id)).Nodup := by
  rw [ifWatching_eq, ((perm_sortBy _ _).map _).nodup_iff, List.map_append]
  refine (ids_within (ids_same hids channelId)).append
    (ids_within (ids_rivals hids hreserved)) fun id hsame hrival => ?_
  obtain ⟨a, ha, rfl⟩ := List.mem_map.mp hsame
  obtain ⟨b, hb, hba⟩ := List.mem_map.mp hrival
  obtain ⟨hmem, hon⟩ := of_mem_among_same hids ha
  obtain ⟨hmem', hoff⟩ := of_mem_among_rivals hids hreserved hb
  obtain rfl := List.inj_on_of_nodup_map hids hmem' hmem hba
  exact hoff hon

/-! ## What is left beside the viewer -/

theorem mem_kept_same (hs : s ∈ besideViewer inputId channelId now priority schedules tuners)
    (hon : s.channelId = channelId) :
    s ∈ kept [TimeRange.all] 1 (schedules.filter (·.channelId = channelId)) := by
  obtain ⟨hmem, hlong, hout⟩ := mem_besideViewer.mp hs
  refine mem_kept_of_unlisted (ids_same hids channelId) ?_ hlong (hreserved s hmem) ?_
  · exact List.mem_filter.mpr ⟨hmem, decide_eq_true hon⟩
  · exact fun hlost => hout (mem_ifWatching.mpr (Or.inl hlost))

theorem mem_kept_rivals (hs : s ∈ besideViewer inputId channelId now priority schedules tuners)
    (hoff : s.channelId ≠ channelId) :
    s ∈ kept [TimeRange.all] tuners (rivals inputId channelId now priority schedules) := by
  obtain ⟨hmem, hlong, hout⟩ := mem_besideViewer.mp hs
  refine mem_kept_of_unlisted (ids_rivals hids hreserved) ?_ hlong (hreserved s hmem) ?_
  · exact List.mem_append_left _ (List.mem_filter.mpr ⟨hmem, decide_eq_true hoff⟩)
  · exact fun hlost => hout (mem_ifWatching.mpr (Or.inr hlost))

/-- What is left on the channel of the viewer fits a single tuner. -/
theorem fits_same (t : Instant) :
    Fits 1 (((besideViewer inputId channelId now priority schedules tuners).filter
      (·.range.contains t)).filter (·.channelId = channelId)) := by
  have hkept : ∀ s ∈ ((besideViewer inputId channelId now priority schedules tuners).filter
      (·.range.contains t)).filter (·.channelId = channelId),
      s ∈ kept [TimeRange.all] 1 (schedules.filter (·.channelId = channelId)) ∧
        s.range.contains t = true := by
    intro s hs
    obtain ⟨hrunning, hon⟩ := List.mem_filter.mp hs
    obtain ⟨hleft, hruns⟩ := List.mem_filter.mp hrunning
    exact ⟨mem_kept_same hids hreserved hleft (of_decide_eq_true hon), hruns⟩
  exact fits_of_kept (ids_same hids channelId) (((hids.of_map.filter _).filter _).filter _) hkept

omit hids hreserved in
/-- The viewer ranks above everybody, so it never loses its tuner. -/
theorem viewer_mem_kept (habove : ∀ s ∈ schedules, s.priority < priority) (htuners : 0 < tuners)
    (hnow : now < Instant.last) :
    liveEntry inputId channelId ⟨now, Instant.last⟩ priority ∈
      kept [TimeRange.all] tuners (rivals inputId channelId now priority schedules) := by
  refine mem_kept_of_best (mem_competing.mpr ⟨?_, hnow, _, List.mem_singleton_self _, ?_⟩)
    (fun r hr => ?_) htuners
  · exact List.mem_append_right _ (List.mem_singleton_self _)
  · exact TimeRange.overlaps_all (r := ⟨now, Instant.last⟩) hnow
  · rcases List.mem_append.mp hr with hother | hviewer
    · have hlower := habove r (List.mem_of_mem_filter hother)
      exact Schedule.RanksAbove.asymm (Or.inl hlower)
    · rw [List.mem_singleton.mp hviewer]
      exact Schedule.RanksAbove.irrefl _

/-- What is left on other channels fits the tuners, together with the viewer while it is there. -/
theorem fits_rivals (t : Instant) :
    let group := ((besideViewer inputId channelId now priority schedules tuners).filter
      (·.range.contains t)).filter (·.channelId ≠ channelId)
    Fits tuners group ∧ ((∀ s ∈ schedules, s.priority < priority) → 0 < tuners → now ≤ t →
      t < Instant.last →
        Fits tuners (liveEntry inputId channelId ⟨now, Instant.last⟩ priority :: group)) := by
  intro group
  have hgroup : group.Nodup := ((hids.of_map.filter _).filter _).filter _
  have hkept : ∀ s ∈ group,
      s ∈ kept [TimeRange.all] tuners (rivals inputId channelId now priority schedules) ∧
        s.range.contains t = true := by
    intro s hs
    obtain ⟨hrunning, hoff⟩ := List.mem_filter.mp hs
    obtain ⟨hleft, hruns⟩ := List.mem_filter.mp hrunning
    exact ⟨mem_kept_rivals hids hreserved hleft (of_decide_eq_true hoff), hruns⟩
  refine ⟨fits_of_kept (ids_rivals hids hreserved) hgroup hkept,
    fun habove htuners hfrom hto => ?_⟩
  refine fits_of_kept (t := t) (ids_rivals hids hreserved)
    (List.nodup_cons.mpr ⟨fun hviewer => ?_, hgroup⟩) (List.forall_mem_cons.mpr ⟨⟨?_, ?_⟩, hkept⟩)
  · exact of_decide_eq_true (List.mem_filter.mp hviewer).2 rfl
  · exact viewer_mem_kept habove htuners (Int64.lt_of_le_of_lt hfrom hto)
  · exact TimeRange.contains_iff.mpr ⟨hfrom, hto⟩

end Watching

/-- Of the schedules that are left, one at most runs on the channel of the viewer at any instant.
Those that run on other channels leave a tuner to the viewer while it is there, and fit the tuners
at all other times; no two of them share a channel. The answer lists some of the schedules by rank,
and never the viewer. -/
theorem fit_beside_viewer (inputId : InputId) (channelId : ChannelId) (now : Instant)
    (priority : Priority) (schedules : List Schedule) (tuners : Nat)
    (hids : (schedules.map (·.id)).Nodup) (hreserved : ∀ s ∈ schedules, s.id ≠ reservedId)
    (htuners : 1 ≤ tuners) (habove : ∀ s ∈ schedules, s.priority < priority) :
    let running (t : Instant) :=
      (besideViewer inputId channelId now priority schedules tuners).filter (·.range.contains t)
    let answer := ifWatching inputId channelId now priority schedules tuners
    (∀ t, ((running t).filter (·.channelId = channelId)).length ≤ 1) ∧
    (∀ t, now ≤ t → t < Instant.last →
      ((running t).filter (·.channelId ≠ channelId)).length ≤ tuners - 1) ∧
    (∀ t, ((running t).filter (·.channelId ≠ channelId)).length ≤ tuners) ∧
    (∀ t, ((running t).filter (·.channelId ≠ channelId)).Pairwise
      fun a b => a.channelId ≠ b.channelId) ∧
    (∀ s ∈ answer, s ∈ schedules) ∧
    liveEntry inputId channelId ⟨now, Instant.last⟩ priority ∉ answer ∧
    answer.Pairwise fun a b => b.RanksAbove a := by
  intro running answer
  have hrivals := @fits_rivals tuners schedules inputId channelId now priority hids hreserved
  have hanswer : ∀ s ∈ answer, s ∈ schedules := by
    intro s hs
    rcases mem_ifWatching.mp hs with hsame | hrival
    · exact (of_mem_among_same hids hsame).1
    · exact (of_mem_among_rivals hids hreserved hrival).1
  refine ⟨fun t => (fits_same hids hreserved t).1, fun t hfrom hto => ?_,
    fun t => (hrivals t).1.1, fun t => (hrivals t).1.2, hanswer, fun hviewer => ?_, ?_⟩
  · exact Nat.le_sub_one_of_lt ((hrivals t).2 habove htuners hfrom hto).1
  · exact hreserved _ (hanswer _ hviewer) rfl
  · refine pairwise_of_sorted ?_ (ids_ifWatching hids hreserved)
    exact pairwise_sortBy Schedule.rankLE_total Schedule.rankLE_trans _

/-- Two schedules on the channel of the viewer, and three others for the one tuner that is left. -/
theorem fit_beside_viewer_five :
    let plan : List Schedule :=
      [.timed 1 7 0 100 5, .timed 2 7 50 150 6, .timed 3 8 10 90 4, .timed 4 9 20 120 5,
        .timed 5 10 0 30 3]
    let running (t : Instant) :=
      (besideViewer "tuner" 7 40 9 plan 2).filter (·.range.contains t)
    (plan.map (·.id)).Nodup ∧ (∀ s ∈ plan, s.id ≠ reservedId) ∧ 1 ≤ 2 ∧
      (∀ s ∈ plan, s.priority < 9) ∧ (ifWatching "tuner" 7 40 9 plan 2).map (·.id) = [5, 3, 1] ∧
      (running 60).map (·.id) = [2, 4] ∧
      ((running 60).filter (·.channelId = 7)).length ≤ 1 ∧
      ((running 60).filter (·.channelId ≠ 7)).length ≤ 2 - 1 ∧
      liveEntry "tuner" 7 ⟨40, Instant.last⟩ 9 ∉ ifWatching "tuner" 7 40 9 plan 2 := by
  intro plan running
  have hids : (plan.map (·.id)).Nodup := by decide
  have hreserved : ∀ s ∈ plan, s.id ≠ reservedId := by decide
  have habove : ∀ s ∈ plan, s.priority < 9 := by decide
  obtain ⟨hone, hroom, -, -, -, hviewer, -⟩ :=
    fit_beside_viewer "tuner" 7 40 9 plan 2 hids hreserved (by decide) habove
  exact ⟨hids, hreserved, by decide, habove, by decide, by decide, hone 60,
    hroom 60 (by decide) (by decide), hviewer⟩

end Conflict

end Timeshift
