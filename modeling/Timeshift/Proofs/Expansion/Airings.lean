import Mathlib.Data.List.Sort
import Timeshift.Proofs.Expansion.Coverage

/-!
# One airing of every episode

Of the airings of a complete episode those are kept that wait to be recorded, or else the one that
airs first. A program that has several schedules is judged by the one alone that a search comes to
first, so an airing that waits may go unseen behind a schedule that has come to its end.
-/

namespace Timeshift

/-! ## The order of airing -/

namespace Program

variable {p q : Program}

/-- `p` starts before `q`, or with it and has the lower id. -/
def AirsBefore (p q : Program) : Prop := p.starts < q.starts ∨ p.starts = q.starts ∧ p.id < q.id

instance : DecidableRel AirsBefore := fun p q =>
  inferInstanceAs (Decidable (p.starts < q.starts ∨ p.starts = q.starts ∧ p.id < q.id))

instance : Std.Asymm AirsBefore where
  asymm p q := by
    unfold AirsBefore
    grind

theorem airsBefore_total (h : p.id ≠ q.id) : p.AirsBefore q ∨ q.AirsBefore p := by
  unfold AirsBefore
  grind

theorem airsBy_iff : p.airsBy q = true ↔ ¬ q.AirsBefore p := by
  unfold airsBy AirsBefore
  rw [Ordering.isLE_then_iff_or, Std.compare_eq_lt, Std.LawfulEqOrd.compare_eq_iff_eq,
    Std.isLE_compare]
  grind

theorem airsBy_total (p q : Program) : (p.airsBy q || q.airsBy p) = true := by
  rw [Bool.or_eq_true, airsBy_iff, airsBy_iff]
  by_cases h : q.AirsBefore p
  · exact Or.inr (Std.Asymm.asymm q p h)
  · exact Or.inl h

theorem airsBy_trans (p q r : Program) (hpq : p.airsBy q = true) (hqr : q.airsBy r = true) :
    p.airsBy r = true := by
  rw [airsBy_iff] at *
  unfold AirsBefore at *
  grind

/-- Of programs with different ids one airs strictly before the other. -/
theorem airsBefore_of_airsBy (h : p.airsBy q = true) (hne : p.id ≠ q.id) : p.AirsBefore q :=
  (airsBefore_total hne).resolve_right (airsBy_iff.mp h)

/-- `p` is the one of some airings that airs before all others. -/
def IsFirst (airings : List Program) (p : Program) : Prop :=
  p ∈ airings ∧ ∀ q ∈ airings, q ≠ p → p.AirsBefore q

section IsFirst

variable {airings : List Program}

theorem IsFirst.unique (hp : IsFirst airings p) (hq : IsFirst airings q) : p = q := by
  by_contra hne
  exact Std.Asymm.asymm _ _ (hp.2 q hq.1 (Ne.symm hne)) (hq.2 p hp.1 hne)

theorem isFirst_iff_head? (hids : (airings.map (·.id)).Nodup) :
    IsFirst airings p ↔ (sortBy airsBy airings).head? = some p := by
  have hne : ∀ x ∈ airings, ∀ y ∈ airings, x ≠ y → x.id ≠ y.id :=
    fun x hx y hy => mt (List.inj_on_of_nodup_map hids hx hy)
  have hstrict : ∀ x ∈ airings, ∀ y ∈ airings, x.airsBy y = true → y.airsBy x = true → x = y := by
    intro x hx y hy hxy hyx
    by_contra hother
    exact airsBy_iff.mp hyx (airsBefore_of_airsBy hxy (hne x hx y hy hother))
  rw [head?_sortBy airsBy_total airsBy_trans hstrict, IsFirst]
  refine and_congr_right fun hp => forall₂_congr fun q hq => ⟨fun h => ?_, fun h hother => ?_⟩
  · by_cases hsame : q = p
    · rw [hsame, airsBy_iff]
      exact fun hbefore => Std.Asymm.asymm _ _ hbefore hbefore
    · exact airsBy_iff.mpr (Std.Asymm.asymm _ _ (h hsame))
  · exact airsBefore_of_airsBy h (hne p hp q hq (Ne.symm hother))

theorem exists_isFirst (hids : (airings.map (·.id)).Nodup) (hp : p ∈ airings) :
    ∃ first, IsFirst airings first := by
  cases hsort : sortBy airsBy airings with
  | nil =>
    have hmem : p ∈ sortBy airsBy airings := mem_sortBy.mpr hp
    rw [hsort] at hmem
    cases hmem
  | cons first rest =>
    refine ⟨first, (isFirst_iff_head? hids).mpr ?_⟩
    rw [hsort, List.head?_cons]

end IsFirst

end Program

namespace Candidate

open Program (IsFirst)
open Expansion (airing)

variable {s : Store} {rules : List SeriesRule} {rule : SeriesRule}
  {programs programs' airings : List Program} {p q : Program} {id : RuleId} {e : Episode}
  {scheduled known : Program → Prop}

/-! ## What is kept of one episode -/

/-- What is to be kept of the airings of an episode: those that are scheduled, or the first one if
none is. -/
def Keeps (scheduled : Program → Prop) (airings : List Program) (p : Program) : Prop :=
  p ∈ airings ∧ (scheduled p ∨ (∀ q ∈ airings, ¬ scheduled q) ∧ IsFirst airings p)

theorem mem_keepOne (hids : (airings.map (·.id)).Nodup) :
    p ∈ keepOne s airings ↔ Keeps (isScheduled s · = true) airings p := by
  by_cases hnone : ∀ q ∈ airings, ¬ isScheduled s q = true
  · rw [mem_keepOne_iff hnone, ← Program.isFirst_iff_head? hids]
    exact ⟨fun h => ⟨h.1, Or.inr ⟨hnone, h⟩⟩, fun h => (h.2.resolve_left (hnone p h.1)).2⟩
  · have hsome : ¬ (airings.filter (isScheduled s)).isEmpty = true := by
      rw [List.isEmpty_iff, List.filter_eq_nil_iff]
      exact hnone
    rw [keepOne, if_neg hsome, List.mem_filter]
    exact and_congr_right fun hp => ⟨Or.inl, fun hkept => hkept.resolve_right fun h => hnone h.1⟩

/-- Who takes only some of the scheduled airings for scheduled keeps the same ones exactly if these
are all of them, or if the first one alone is scheduled. -/
theorem keeps_iff_keeps (hids : (airings.map (·.id)).Nodup)
    (hknown : ∀ q ∈ airings, known q → scheduled q) :
    (∀ p, Keeps known airings p ↔ Keeps scheduled airings p) ↔
      (∀ q ∈ airings, scheduled q → known q) ∨
        ∀ q ∈ airings, scheduled q ↔ IsFirst airings q := by
  constructor
  · refine fun hsame => or_iff_not_imp_left.mpr fun hmissed => ?_
    push Not at hmissed
    obtain ⟨q, hq, hscheduled, hunknown⟩ := hmissed
    -- The airing that is missed is kept, so it is the first one and no other is known.
    obtain ⟨hnone, -⟩ := ((hsame q).mpr ⟨hq, Or.inl hscheduled⟩).2.resolve_left hunknown
    intro p hp
    constructor
    · intro h
      exact (((hsame p).mpr ⟨hp, Or.inl h⟩).2.resolve_left (hnone p hp)).2
    · intro h
      refine ((hsame p).mp ⟨hp, Or.inr ⟨hnone, h⟩⟩).2.resolve_right fun hno => ?_
      exact hno.1 q hq hscheduled
  · rintro (hall | hfirst) p
    · have hiff : ∀ q ∈ airings, known q ↔ scheduled q := fun q hq => ⟨hknown q hq, hall q hq⟩
      refine and_congr_right fun hp => or_congr (hiff p hp) (and_congr_left fun _ => ?_)
      exact forall₂_congr fun q hq => not_congr (hiff q hq)
    · refine and_congr_right fun hp => ?_
      obtain ⟨first, h⟩ := Program.exists_isFirst hids hp
      have honly : ∀ q ∈ airings, known q → q = first := fun q hq hq' =>
        ((hfirst q hq).mp (hknown q hq hq')).unique h
      constructor
      · rintro (hp' | ⟨-, hp'⟩)
        · exact Or.inl (hknown p hp hp')
        · exact Or.inl ((hfirst p hp).mpr hp')
      · rintro (hp' | ⟨hnone, -⟩)
        · obtain rfl := ((hfirst p hp).mp hp').unique h
          by_cases hseen : known p
          · exact Or.inl hseen
          · exact Or.inr ⟨fun q hq hq' => hseen (honly q hq hq' ▸ hq'), h⟩
        · exact absurd ((hfirst first h.1).mpr h) (hnone first h.1)

/-! ## What is picked for one rule -/

/-- The programs of an episode of the show that a rule records. -/
def showings (programs : List Program) (rule : SeriesRule) (e : Episode) : List Program :=
  programs.filter fun p => p.seriesKey == some rule.seriesKey && Episode.ofProgram rule.id p == e

theorem mem_showings : p ∈ showings programs rule e ↔
    p ∈ programs ∧ p.seriesKey = some rule.seriesKey ∧ Episode.ofProgram rule.id p = e := by
  rw [showings, List.mem_filter, Bool.and_eq_true, beq_iff_eq, beq_iff_eq]

/-- What is to be picked for a rule: every program of its show whose episode cannot be told, and
what is to be kept of every complete episode. -/
def Picks (scheduled : Program → Prop) (programs : List Program) (rule : SeriesRule)
    (p : Program) : Prop :=
  p ∈ programs ∧ p.seriesKey = some rule.seriesKey ∧
    ((Episode.ofProgram rule.id p).isComplete = true →
      Keeps scheduled (showings programs rule (Episode.ofProgram rule.id p)) p)

theorem picks_perm (hperm : programs.Perm programs') :
    Picks scheduled programs rule p ↔ Picks scheduled programs' rule p := by
  simp only [Picks, Keeps, IsFirst, mem_showings, hperm.mem_iff]

theorem ids_showings (hprograms : (programs.map (·.id)).Nodup) (rule : SeriesRule) (e : Episode) :
    ((showings programs rule e).map (·.id)).Nodup :=
  hprograms.sublist (List.filter_sublist.map _)

theorem keeps_iff_picks (he : e.isComplete = true) : Keeps scheduled (showings programs rule e) p ↔
    p ∈ showings programs rule e ∧ Picks scheduled programs rule p := by
  refine ⟨fun h => ?_, fun h => ?_⟩
  · obtain ⟨hp, hkey, rfl⟩ := mem_showings.mp h.1
    exact ⟨h.1, hp, hkey, fun _ => h⟩
  · obtain ⟨-, -, rfl⟩ := mem_showings.mp h.1
    exact h.2.2.2 he

/-- Who takes only some of the scheduled programs for scheduled picks the same ones exactly if that
makes no difference for any episode. -/
theorem picks_iff_picks (hprograms : (programs.map (·.id)).Nodup)
    (hknown : ∀ q, known q → scheduled q) :
    (∀ p, Picks known programs rule p ↔ Picks scheduled programs rule p) ↔
      ∀ e : Episode, e.isComplete = true →
        (∀ q ∈ showings programs rule e, scheduled q → known q) ∨
          ∀ q ∈ showings programs rule e, scheduled q ↔ IsFirst (showings programs rule e) q := by
  have hkeeps := fun e => keeps_iff_keeps (ids_showings hprograms rule e) fun q _ => hknown q
  constructor
  · intro hsame e he
    refine (hkeeps e).mp fun p => ?_
    rw [keeps_iff_picks he, keeps_iff_picks he, hsame p]
  · intro h p
    refine and_congr_right fun _ => and_congr_right fun _ => forall_congr' fun he => ?_
    exact (hkeeps _).mpr (h _ he) p

/-- Whatever the order of a search is, it comes to a schedule that waits just if all of them do. -/
theorem forall_isScheduled_iff (hawaits : s.Awaits p.id) :
    (∀ listings, isScheduled { s with listings } p = true) ↔
      ∀ x ∈ s.schedules, x.programId = some p.id → x.state = .notStarted := by
  constructor
  · intro hall x hx hxp
    obtain ⟨listing, hfirst⟩ := Store.exists_listing hx hxp
    have hwaits := hall fun _ => listing
    rw [isScheduled, hfirst, Option.any_some, Schedule.isNotStarted, beq_iff_eq] at hwaits
    exact hwaits
  · intro hall listings
    obtain ⟨x, hx, hxp, -⟩ := hawaits
    cases hfound : { s with listings }.scheduleOf? p.id with
    | none => exact absurd hxp (Store.scheduleOf_eq_none_iff_mem.mp hfound x hx)
    | some y =>
      obtain ⟨hy, hyp⟩ := Store.mem_of_scheduleOf hfound
      rw [isScheduled, hfound, Option.any_some, Schedule.isNotStarted, beq_iff_eq]
      exact hall y hy hyp

section Rules

variable (hids : (rules.map (·.id)).Nodup) (hkeys : (rules.map (·.seriesKey)).Nodup)
  (hrule : rule ∈ rules)

include hids hkeys hrule

theorem ruleIdFor_iff : ruleIdFor rules p = some rule.id ↔ p.seriesKey = some rule.seriesKey :=
  ⟨seriesKey_of_ruleIdFor hids hrule, ruleIdFor_eq hkeys hrule⟩

theorem showings_eq : (programs.filter fun q =>
    ruleIdFor rules q == some rule.id && Episode.ofProgram rule.id q == e) =
      showings programs rule e := by
  refine List.filter_congr fun q _ => ?_
  rw [Bool.eq_iff_iff]
  simp only [Bool.and_eq_true, beq_iff_eq, ruleIdFor_iff hids hkeys hrule]

theorem mem_pickFor (hprograms : (programs.map (·.id)).Nodup) :
    p ∈ pickFor s rules programs rule.id ↔ Picks (isScheduled s · = true) programs rule p := by
  have hown : p ∈ pickFor s rules programs rule.id →
      p ∈ programs ∧ p.seriesKey = some rule.seriesKey := by
    intro h
    rw [← ruleIdFor_iff hids hkeys hrule]
    exact of_mem_pickFor h
  by_cases hcomplete : (Episode.ofProgram rule.id p).isComplete = true
  · have hkept : p ∈ pickFor s rules programs rule.id ↔ Keeps (isScheduled s · = true)
        (showings programs rule (Episode.ofProgram rule.id p)) p := by
      rw [mem_pickFor_iff hcomplete rfl, showings_eq hids hkeys hrule,
        mem_keepOne (ids_showings hprograms rule _)]
    refine ⟨fun h => ⟨(hown h).1, (hown h).2, fun _ => hkept.mp h⟩, fun h => ?_⟩
    exact hkept.mpr (h.2.2 hcomplete)
  · refine ⟨fun h => ⟨(hown h).1, (hown h).2, fun h' => absurd h' hcomplete⟩, fun h => ?_⟩
    exact mem_pickFor_loose h.1 (ruleIdFor_eq hkeys hrule h.2.1) (by simpa using hcomplete)

/-- Every program that waits counts as scheduled, as far as this makes a difference. -/
theorem picks_awaits_iff (hprograms : (programs.map (·.id)).Nodup) :
    (∀ p, p ∈ pickFor s rules programs rule.id ↔ Picks (s.Awaits ·.id) programs rule p) ↔
      ∀ e : Episode, e.isComplete = true →
        (∀ q ∈ showings programs rule e, s.Awaits q.id → isScheduled s q = true) ∨
          ∀ q ∈ showings programs rule e,
            s.Awaits q.id ↔ IsFirst (showings programs rule e) q := by
  rw [← picks_iff_picks hprograms fun q => awaits_of_isScheduled]
  exact forall_congr' fun p => iff_congr (mem_pickFor hids hkeys hrule hprograms) Iff.rfl

theorem forall_picks_awaits_iff (hprograms : (programs.map (·.id)).Nodup) :
    (∀ listings p, p ∈ pickFor { s with listings } rules programs rule.id ↔
      Picks (s.Awaits ·.id) programs rule p) ↔
      ∀ e : Episode, e.isComplete = true →
        (∀ q ∈ showings programs rule e, s.Awaits q.id →
          ∀ x ∈ s.schedules, x.programId = some q.id → x.state = .notStarted) ∨
            ∀ q ∈ showings programs rule e,
              s.Awaits q.id ↔ IsFirst (showings programs rule e) q := by
  refine (forall_congr' fun listings => picks_awaits_iff (s := { s with listings }) hids hkeys hrule
    hprograms).trans ?_
  rw [forall_comm]
  refine forall_congr' fun e => ?_
  rw [forall_comm]
  refine forall_congr' fun _ => ?_
  show (∀ listings, (∀ q ∈ showings programs rule e, s.Awaits q.id →
    isScheduled { s with listings } q = true) ∨ ∀ q ∈ showings programs rule e,
      s.Awaits q.id ↔ IsFirst (showings programs rule e) q) ↔ _
  rw [forall_or_right]
  refine or_congr_left ?_
  constructor
  · intro h q hq hawaits
    exact (forall_isScheduled_iff hawaits).mp fun listings => h listings q hq hawaits
  · intro h listings q hq hawaits
    exact (forall_isScheduled_iff hawaits).mpr (h q hq hawaits) listings

end Rules

theorem nodup_keepOne (h : airings.Nodup) : (keepOne s airings).Nodup := by
  rw [keepOne]
  split
  · exact ((perm_sortBy _ _).nodup_iff.mpr h).sublist (List.take_sublist 1 _)
  · exact h.filter _

theorem nodup_pickFor (h : programs.Nodup) : (pickFor s rules programs id).Nodup := by
  have hown : (programs.filter fun p => ruleIdFor rules p == some id).Nodup := h.filter _
  simp only [pickFor, List.partition_eq_filter_filter]
  generalize (programs.filter fun p => ruleIdFor rules p == some id) = own at hown
  rw [(perm_sortBy _ _).nodup_iff]
  refine List.Nodup.append (hown.filter _) ?_ ?_
  · refine List.nodup_flatMap.mpr ⟨fun e _ => nodup_keepOne ((hown.filter _).filter _), ?_⟩
    refine (nodup_eraseDups _).imp fun hne p hp hp' => hne ?_
    have he := (List.mem_filter.mp (mem_of_mem_keepOne hp)).2
    have he' := (List.mem_filter.mp (mem_of_mem_keepOne hp')).2
    exact (beq_iff_eq.mp he).symm.trans (beq_iff_eq.mp he')
  · -- What is loose belongs to no complete episode.
    intro p hloose hpicked
    obtain ⟨e, -, hkept⟩ := List.mem_flatMap.mp hpicked
    have hnumbered := List.mem_of_mem_filter (mem_of_mem_keepOne hkept)
    have hcomplete := (List.mem_filter.mp hnumbered).2
    have hnot := (List.mem_filter.mp hloose).2
    rw [Function.comp_apply, hcomplete] at hnot
    cases hnot

theorem pairwise_pickFor (hprograms : (programs.map (·.id)).Nodup) :
    (pickFor s rules programs id).Pairwise Program.AirsBefore := by
  have hnodup : (pickFor s rules programs id).Nodup := nodup_pickFor hprograms.of_map
  have hsorted : (pickFor s rules programs id).Pairwise (Program.airsBy · ·) :=
    pairwise_sortBy Program.airsBy_total Program.airsBy_trans _
  refine (hsorted.and hnodup).imp_of_mem fun {p q} hp hq ⟨hby, hne⟩ => ?_
  refine Program.airsBefore_of_airsBy hby fun hid => hne ?_
  exact List.inj_on_of_nodup_map hprograms (of_mem_pickFor hp).1 (of_mem_pickFor hq).1 hid

/-! ## Every list -/

theorem mem_pick (hrule : rule ∈ rules) {picked : List Program} :
    (rule.id, picked) ∈ pick s rules programs ↔ picked = pickFor s rules programs rule.id := by
  constructor
  · intro h
    obtain ⟨id, -, hpair⟩ := List.mem_map.mp h
    obtain ⟨rfl, rfl⟩ := Prod.mk.inj hpair
    rfl
  · rintro rfl
    refine List.mem_map.mpr ⟨rule.id, mem_sortBy.mpr (List.mem_eraseDups.mpr ?_), rfl⟩
    exact List.mem_map_of_mem hrule

/-- Every rule has one list, in the order of airing, of what is to be picked for it where a program
counts as scheduled if the schedule that a search comes to first waits. The order of the programs
makes no difference. The lists are those in which every program that waits counts as scheduled,
exactly if in each complete episode a search comes to a schedule that waits for every such program,
or the first airing alone waits. They are so in whatever order a search goes, exactly if in each
complete episode every schedule of such a program waits, or the first airing alone waits. -/
theorem one_airing_of_every_episode (store : Store) (rules : List SeriesRule)
    (programs : List Program) (hids : (rules.map (·.id)).Nodup)
    (hkeys : (rules.map (·.seriesKey)).Nodup) (hprograms : (programs.map (·.id)).Nodup) :
    ((pick store rules programs).map (·.1)).Perm (rules.map (·.id)) ∧
    (∀ programs', programs.Perm programs' →
      pick store rules programs' = pick store rules programs) ∧
    (∀ rule ∈ rules, ∀ picked, (rule.id, picked) ∈ pick store rules programs →
      picked.Pairwise Program.AirsBefore ∧
      (∀ p, p ∈ picked ↔ Picks (isScheduled store · = true) programs rule p) ∧
      ((∀ p, p ∈ picked ↔ Picks (store.Awaits ·.id) programs rule p) ↔
        ∀ e : Episode, e.isComplete = true →
          (∀ q ∈ showings programs rule e, store.Awaits q.id → isScheduled store q = true) ∨
            ∀ q ∈ showings programs rule e,
              store.Awaits q.id ↔ IsFirst (showings programs rule e) q)) ∧
    ∀ rule ∈ rules,
      (∀ listings picked, (rule.id, picked) ∈ pick { store with listings } rules programs →
        ∀ p, p ∈ picked ↔ Picks (store.Awaits ·.id) programs rule p) ↔
      ∀ e : Episode, e.isComplete = true →
        (∀ q ∈ showings programs rule e, store.Awaits q.id →
          ∀ x ∈ store.schedules, x.programId = some q.id → x.state = .notStarted) ∨
            ∀ q ∈ showings programs rule e,
              store.Awaits q.id ↔ IsFirst (showings programs rule e) q := by
  have hlisted : (rules.map (·.id)).eraseDups.Perm (rules.map (·.id)) :=
    (List.perm_ext_iff_of_nodup (nodup_eraseDups _) hids).mpr fun _ => List.mem_eraseDups
  have hsorted := (perm_sortBy (fun a b : RuleId => (compare a b).isLE)
    (rules.map (·.id)).eraseDups).trans hlisted
  refine ⟨?_, fun programs' hperm => ?_, fun rule hrule picked hpicked => ?_, fun rule hrule => ?_⟩
  · rw [pick, List.map_map]
    exact (List.map_id _).symm ▸ hsorted
  · refine List.map_congr_left fun id hid => ?_
    obtain ⟨rule, hrule, rfl⟩ := List.mem_map.mp (hsorted.mem_iff.mp hid)
    have hprograms' : (programs'.map (·.id)).Nodup := (hperm.map _).nodup_iff.mp hprograms
    refine congrArg (rule.id, ·) (List.Pairwise.eq_of_mem_iff (pairwise_pickFor hprograms')
      (pairwise_pickFor hprograms) fun p => ?_)
    rw [mem_pickFor hids hkeys hrule hprograms', mem_pickFor hids hkeys hrule hprograms,
      picks_perm hperm]
  · obtain rfl := (mem_pick hrule).mp hpicked
    exact ⟨pairwise_pickFor hprograms, fun p => mem_pickFor hids hkeys hrule hprograms,
      picks_awaits_iff hids hkeys hrule hprograms⟩
  · simp only [mem_pick hrule, forall_eq]
    exact forall_picks_awaits_iff hids hkeys hrule hprograms

/-- The later airing of the first episode waits, nothing is scheduled of the second one, and the
episode of the last program cannot be told. -/
theorem one_airing_of_every_episode_five :
    let rule : SeriesRule := { SeriesRule.ofKey "show" "tuner" 1 with id := 1 }
    let other : SeriesRule := { SeriesRule.ofKey "other" "tuner" 1 with id := 2 }
    let programs := [airing 10 100 "1", airing 11 220 "1", airing 12 200 "2", airing 13 120 "2",
      airing 14 150 ""]
    let s := [.load 0, .add [.ofProgram "tuner" (airing 11 220 "1")]].foldl Store.edit
      { archive := {} }
    ((([other, rule] : List SeriesRule).map (·.id)).Nodup ∧
      (([other, rule] : List SeriesRule).map (·.seriesKey)).Nodup ∧
      (programs.map (·.id)).Nodup) ∧
      pick s [other, rule] programs.reverse =
        [(1, [airing 13 120 "2", airing 14 150 "", airing 11 220 "1"]), (2, [])] ∧
      ∀ p, p ∈ [airing 13 120 "2", airing 14 150 "", airing 11 220 "1"] ↔
        Picks (s.Awaits ·.id) programs rule p := by
  intro rule other programs s
  have hids : (([other, rule] : List SeriesRule).map (·.id)).Nodup := by decide
  have hkeys : (([other, rule] : List SeriesRule).map (·.seriesKey)).Nodup := by decide
  have hprograms : (programs.map (·.id)).Nodup := by decide
  have hpick : pick s [other, rule] programs =
      [(1, [airing 13 120 "2", airing 14 150 "", airing 11 220 "1"]), (2, [])] := by
    decide +kernel
  obtain ⟨-, hperm, hlists, -⟩ :=
    one_airing_of_every_episode s [other, rule] programs hids hkeys hprograms
  have hone := hlists rule (by simp) [airing 13 120 "2", airing 14 150 "", airing 11 220 "1"]
    (hpick ▸ List.mem_cons_self)
  have hseen : ∀ q ∈ programs, s.Awaits q.id → isScheduled s q = true := by decide +kernel
  exact ⟨⟨hids, hkeys, hprograms⟩, (hperm _ (List.reverse_perm programs).symm).trans hpick,
    hone.2.2.mpr fun _ _ => Or.inl fun q hq => hseen q (mem_showings.mp hq).1⟩

/-- The later airing waits, but behind a schedule for it that has failed. The earlier airing is
picked in its place. -/
theorem not_picked_behind_failed :
    let rule : SeriesRule := { SeriesRule.ofKey "show" "tuner" 1 with id := 1 }
    let programs := [airing 10 100 "1", airing 11 200 "1"]
    let s := [.load 0, .add [.ofProgram "tuner" (airing 11 200 "1")], .changeState 1 .failed,
      .add [.ofProgram "tuner" (airing 11 200 "1")]].foldl Store.edit { archive := {} }
    s.schedules.map (fun x => (x.programId, x.state)) =
        [(some 11, .failed), (some 11, .notStarted)] ∧
      pick s [rule] programs = [(1, [airing 10 100 "1"])] ∧
      Picks (s.Awaits ·.id) programs rule (airing 11 200 "1") ∧
      ¬ Picks (s.Awaits ·.id) programs rule (airing 10 100 "1") := by
  intro rule programs s
  have hawaits : s.Awaits 11 := by decide +kernel
  have hmem : airing 11 200 "1" ∈ showings programs rule ⟨1, some "1", some "1"⟩ := by
    decide +kernel
  refine ⟨by decide +kernel, by decide +kernel,
    ⟨by decide +kernel, by decide +kernel, fun _ => ⟨hmem, Or.inl hawaits⟩⟩, fun hpicks => ?_⟩
  rcases (hpicks.2.2 (by decide +kernel)).2 with hearlier | ⟨hnone, -⟩
  · exact absurd hearlier (by decide +kernel)
  · exact hnone _ hmem hawaits

end Candidate

end Timeshift
