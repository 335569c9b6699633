import Timeshift.Proofs.Expansion.Picks

/-!
# Which episodes an update covers

An update picks one airing of every episode that is not covered: the first one that it may
schedule. If that airing has a schedule already which has failed or lost a part, nothing comes of
it, and no other airing is picked.
-/

namespace Timeshift

namespace Expansion

open Candidate Store

/-! ## Updates -/

/-- An update whose search may find anything. -/
def runWith (search : GuideQuery → List Program) (rules : List SeriesRule) (now : Instant) :
    Store.Op Nat := do
  let filter := CandidateFilter.ofStore (← get) rules [] now
  apply filter (search (.forRules rules now))

theorem run_eq_runWith (catalog : Catalog) : run catalog = runWith catalog.search := rfl

/-- The programs that an update may schedule for an episode of a rule. -/
def airingsOf (f : CandidateFilter) (found : List Program) (rule : SeriesRule) (e : Episode) :
    List Program :=
  found.filter fun p => f.accepts p && f.takes p rule && Episode.ofProgram rule.id p == e

theorem distinctRules_eq {rules : List SeriesRule} (hids : (rules.map (·.id)).Nodup) :
    distinctRules rules = rules := by
  induction rules with
  | nil => rfl
  | cons r rest ih =>
    obtain ⟨hr, hrest⟩ := List.nodup_cons.mp hids
    rw [distinctRules, ih hrest, List.filter_eq_self.mpr]
    intro x hx
    have hne : x.id ≠ r.id := by
      intro hid
      exact hr (List.mem_map.mpr ⟨x, hx, hid⟩)
    exact decide_eq_true hne

section Airings

variable {s : Store} {f : CandidateFilter} {found : List Program} {rule : SeriesRule} {e : Episode}
  {p : Program}

theorem mem_airingsOf : p ∈ airingsOf f found rule e ↔ p ∈ found ∧ f.accepts p = true ∧
    f.takes p rule = true ∧ Episode.ofProgram rule.id p = e := by
  rw [airingsOf, List.mem_filter, Bool.and_eq_true, Bool.and_eq_true, beq_iff_eq, and_assoc]

theorem seriesKey_of_takes (h : f.takes p rule = true) : p.seriesKey = some rule.seriesKey := by
  simp only [CandidateFilter.takes, SeriesRule.matchesProgram, Bool.and_eq_true, beq_iff_eq] at h
  exact h.1.1

variable (hkeys : (f.rules.map (·.seriesKey)).Nodup) (hids : (f.rules.map (·.id)).Nodup)
  (hrule : rule ∈ f.rules)

include hkeys hids hrule

/-- Of two rules for one show only one is in the list, so a candidate is one of its own rule. -/
theorem ruleIdFor_iff_takes (haccepts : f.accepts p = true) :
    ruleIdFor f.rules p = some rule.id ↔ f.takes p rule = true := by
  refine ⟨fun hid => ?_, fun htakes => ruleIdFor_eq hkeys hrule (seriesKey_of_takes htakes)⟩
  simp only [CandidateFilter.accepts, Bool.and_eq_true, List.any_eq_true] at haccepts
  obtain ⟨-, r, hr, htakes⟩ := haccepts
  have hkey := (seriesKey_of_takes htakes).symm.trans (seriesKey_of_ruleIdFor hids hrule hid)
  rwa [← List.inj_on_of_nodup_map hkeys hr hrule (Option.some.inj hkey)]

/-- The candidates for an episode are its airings. -/
theorem candidates_eq_airingsOf : ((found.filter f.accepts).filter fun q =>
    ruleIdFor f.rules q == some rule.id && Episode.ofProgram rule.id q == e) =
      airingsOf f found rule e := by
  rw [List.filter_filter, airingsOf]
  refine List.filter_congr fun q _ => ?_
  rw [Bool.eq_iff_iff]
  by_cases haccepts : f.accepts q = true
  · simp only [Bool.and_eq_true, beq_iff_eq, haccepts, and_true, true_and,
      ruleIdFor_iff_takes hkeys hids hrule haccepts]
  · simp [haccepts]

/-- What is picked for a rule is an airing of its own episode. -/
theorem mem_airingsOf_of_mem_pickFor
    (hp : p ∈ pickFor s f.rules (found.filter f.accepts) rule.id) :
    p ∈ airingsOf f found rule (Episode.ofProgram rule.id p) := by
  obtain ⟨hcandidate, hgoes⟩ := of_mem_pickFor hp
  obtain ⟨hin, haccepts⟩ := List.mem_filter.mp hcandidate
  have htakes := (ruleIdFor_iff_takes hkeys hids hrule haccepts).mp hgoes
  exact mem_airingsOf.mpr ⟨hin, haccepts, htakes, rfl⟩

/-- What is picked of the airings of an episode. -/
theorem mem_pickFor_of_airing (he : e.isComplete = true) (hp : p ∈ airingsOf f found rule e) :
    p ∈ pickFor s f.rules (found.filter f.accepts) rule.id ↔
      p ∈ keepOne s (airingsOf f found rule e) := by
  rw [mem_pickFor_iff he (mem_airingsOf.mp hp).2.2.2, candidates_eq_airingsOf hkeys hids hrule]

/-- Of the airings of an episode only the first one is picked, if none waits to be recorded. -/
theorem picked_iff_first {first : Program} (he : e.isComplete = true)
    (hfirst : (sortBy Program.airsBy (airingsOf f found rule e)).head? = some first)
    (hnone : ∀ q ∈ airingsOf f found rule e, isScheduled s q ≠ true)
    (hp : p ∈ airingsOf f found rule e) :
    p ∈ pickFor s f.rules (found.filter f.accepts) rule.id ↔ p = first := by
  rw [mem_pickFor_of_airing hkeys hids hrule he hp, mem_keepOne_iff hnone, hfirst, Option.some_inj,
    eq_comm]

/-- An airing is picked for its own rule or not at all. -/
theorem picked_of_isPicked (hfound : (found.map (·.id)).Nodup) (hp : p ∈ airingsOf f found rule e)
    (h : IsPicked (f.rules.map fun r =>
      (r, pickFor s f.rules (found.filter f.accepts) r.id)) p.id) :
    p ∈ pickFor s f.rules (found.filter f.accepts) rule.id := by
  obtain ⟨pick, hpick, q, hq, hid⟩ := h
  obtain ⟨r, -, rfl⟩ := List.mem_map.mp hpick
  obtain ⟨hcandidate, hrid⟩ := of_mem_pickFor hq
  obtain ⟨hin, haccepts, htakes, -⟩ := mem_airingsOf.mp hp
  obtain rfl := List.inj_on_of_nodup_map hfound (List.mem_of_mem_filter hcandidate) hin hid
  have hown := (ruleIdFor_iff_takes hkeys hids hrule haccepts).mpr htakes
  rwa [← Option.some.inj (hrid.symm.trans hown)]

end Airings

/-! ## Coverage -/

theorem ids_of_stored {s : Store} {rules : List SeriesRule}
    (hstored : ∀ r ∈ rules, s.rule? r.id = some r) (hkeys : (rules.map (·.seriesKey)).Nodup) :
    (rules.map (·.id)).Nodup := by
  refine List.Nodup.map_on (fun a ha b hb hid => ?_) hkeys.of_map
  have hsame := hstored a ha
  rw [hid, hstored b hb] at hsame
  exact (Option.some.inj hsame).symm

/-- Every episode of a stored rule that an update may schedule is covered after it, if some airing
was covered before or the first one had no schedule. If neither is so, it is not covered, unless
two programs that were found have one id. -/
theorem covered_iff_first_unscheduled (archive : Archive) (listings : Nat → Listing)
    (earlier : List Store.Edit) (search : GuideQuery → List Program) (rules : List SeriesRule)
    (now : Instant) :
    let s := earlier.foldl Store.edit { archive, listings }
    let f := CandidateFilter.ofStore s rules [] now
    let found := search (.forRules rules now)
    let t := (s.run (runWith search rules now)).2
    ∀ n, (s.run (runWith search rules now)).1 = .ok n → s.HasRoom n →
      (∀ r ∈ rules, s.rule? r.id = some r) → (rules.map (·.seriesKey)).Nodup →
      ∀ rule ∈ rules, ∀ e : Episode, e.isComplete = true →
      ∀ first, (sortBy Program.airsBy (airingsOf f found rule e)).head? = some first →
        ((∃ p ∈ airingsOf f found rule e, s.Covers p.id) ∨ s.scheduleOf? first.id = none →
          ∃ p ∈ airingsOf f found rule e, t.Covers p.id) ∧
        ((found.map (·.id)).Nodup → (∃ p ∈ airingsOf f found rule e, t.Covers p.id) →
          (∃ p ∈ airingsOf f found rule e, s.Covers p.id) ∨ s.scheduleOf? first.id = none) := by
  intro s f found t n hok hroom hstored hkeys rule hrule e he first hfirst
  have hkeyed : s.IsKeyed := isKeyed_edits (fun id x hx => by simp at hx) earlier
  have hids : (rules.map (·.id)).Nodup := ids_of_stored hstored hkeys
  let picks := rules.map fun r => (r, pickFor s rules (found.filter f.accepts) r.id)
  have hrun : s.run (attachAll picks) = (.ok n, t) := by
    have happly : s.run (runWith search rules now) =
        s.run (attachAll ((distinctRules rules).map fun r =>
          (r, pickFor s rules (found.filter f.accepts) r.id))) := rfl
    rw [distinctRules_eq hids] at happly
    rw [← happly, ← hok]
  obtain ⟨hgrows, hcovers⟩ := attachAll_ok hkeyed hrun hroom
  -- An airing that waits covers the episode before and after, so let none wait.
  by_cases hwaits : ∃ q ∈ airingsOf f found rule e, isScheduled s q = true
  · obtain ⟨q, hq, hscheduled⟩ := hwaits
    have hbefore := covers_of_isScheduled hscheduled
    exact ⟨fun _ => ⟨q, hq, hgrows.covers hbefore⟩, fun _ _ => Or.inl ⟨q, hq, hbefore⟩⟩
  push Not at hwaits
  have hpicked : ∀ p ∈ airingsOf f found rule e,
      p ∈ pickFor s rules (found.filter f.accepts) rule.id ↔ p = first :=
    fun p hp => picked_iff_first (f := f) hkeys hids hrule he hfirst hwaits hp
  refine ⟨?_, fun hfound ⟨p, hp, hafter⟩ => ?_⟩
  · rintro (⟨p, hp, hbefore⟩ | hnone)
    · exact ⟨p, hp, hgrows.covers hbefore⟩
    · have hmem : first ∈ airingsOf f found rule e := mem_sortBy.mp (List.mem_of_head? hfirst)
      have hrule' : (s.rule? rule.id).isSome = true := by
        rw [hstored rule hrule]
        rfl
      exact ⟨first, hmem, hcovers _ (List.mem_map_of_mem hrule) hrule' first
        ((hpicked first hmem).mpr rfl) hnone⟩
  · rcases hgrows.of_covers hafter with hbefore | ⟨hnew, hnone⟩
    · exact Or.inl ⟨p, hp, hbefore⟩
    · have hpick := picked_of_isPicked (f := f) hkeys hids hrule hfound hp hnew
      exact Or.inr ((hpicked p hp).mp hpick ▸ hnone)

/-- A program of a show on channel 1, fifty ticks long. -/
def airing (id : ProgramId) (starts : Instant) (episode : String) : Program :=
  { (default : Program) with
    id, channelId := 1, seriesKey := some "show", season := some "1", episode := some episode,
    starts, ends := starts + 50 }

/-- Nothing is scheduled of the first episode. The first airing of the second one has failed, and
another airing waits. -/
theorem covered_iff_first_unscheduled_two :
    let rule : SeriesRule := { SeriesRule.ofKey "show" "tuner" 1 with id := 1 }
    let guide := [airing 10 100 "1", airing 11 200 "1", airing 12 120 "2", airing 13 220 "2"]
    let earlier : List Edit := [.load 0, .addRule rule,
      .add [.ofProgram "tuner" (airing 12 120 "2"), .ofProgram "tuner" (airing 13 220 "2")],
      .changeState 1 .failed]
    let s := earlier.foldl edit { archive := {} }
    let f := CandidateFilter.ofStore s [rule] [] 50
    let t := (s.run (runWith (fun _ => guide) [rule] 50)).2
    (s.run (runWith (fun _ => guide) [rule] 50)).1 = .ok 2 ∧ s.HasRoom 2 ∧
      (∀ r ∈ [rule], s.rule? r.id = some r) ∧
      (sortBy Program.airsBy (airingsOf f guide rule ⟨1, some "1", some "1"⟩)).head? =
        some (airing 10 100 "1") ∧
      (∃ p ∈ airingsOf f guide rule ⟨1, some "1", some "1"⟩, t.Covers p.id) ∧
      (sortBy Program.airsBy (airingsOf f guide rule ⟨1, some "1", some "2"⟩)).head? =
        some (airing 12 120 "2") ∧
      ∃ p ∈ airingsOf f guide rule ⟨1, some "1", some "2"⟩, t.Covers p.id := by
  intro rule guide earlier s f t
  have hok : (s.run (runWith (fun _ => guide) [rule] 50)).1 = .ok 2 := by decide +kernel
  have hroom : s.HasRoom 2 := ⟨by decide, by decide +kernel⟩
  have hstored : ∀ r ∈ [rule], s.rule? r.id = some r := by decide +kernel
  have hone : (sortBy Program.airsBy (airingsOf f guide rule ⟨1, some "1", some "1"⟩)).head? =
      some (airing 10 100 "1") := by decide +kernel
  have htwo : (sortBy Program.airsBy (airingsOf f guide rule ⟨1, some "1", some "2"⟩)).head? =
      some (airing 12 120 "2") := by decide +kernel
  have hcovered := covered_iff_first_unscheduled {} (fun _ => .byAge) earlier (fun _ => guide)
    [rule] 50 2 hok hroom hstored (by decide) rule List.mem_cons_self
  exact ⟨hok, hroom, hstored, hone,
    (hcovered _ (by decide) _ hone).1 (Or.inr (by decide +kernel)), htwo,
    (hcovered _ (by decide) _ htwo).1 (Or.inl (by decide +kernel))⟩

/-- The first airing has failed, and an update picks it again although another airing may be
scheduled. -/
theorem not_covered_first_failed :
    let rule : SeriesRule := { SeriesRule.ofKey "show" "tuner" 1 with id := 1 }
    let catalog : Catalog := { guide := [airing 12 120 "2", airing 13 220 "2"] }
    let s := [.load 0, .addRule rule, .add [.ofProgram "tuner" (airing 12 120 "2")],
      .changeState 1 .failed].foldl edit { archive := {} }
    let f := CandidateFilter.ofStore s [rule] [] 50
    let t := (s.run (run catalog [rule] 50)).2
    (s.run (run catalog [rule] 50)).1 = .ok 1 ∧ s.rule? 1 = some rule ∧
      (airingsOf f (catalog.search (.forRules [rule] 50)) rule ⟨1, some "1", some "2"⟩).map (·.id) =
        [12, 13] ∧
      t.schedules.map (fun x => (x.programId, x.state)) = [(some 12, .failed)] :=
  ⟨by decide +kernel, by decide +kernel, by decide +kernel, by decide +kernel⟩

end Expansion

end Timeshift
