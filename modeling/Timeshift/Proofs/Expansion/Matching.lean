import Timeshift.Proofs.Expansion.Effects

/-!
# Which rule a program goes to

A program is a candidate if it matches one of the rules, and it goes to the last rule for its
show. Where several rules are for one show these may be different rules, and then the last one
has to take the channels of all the others.
-/

namespace Timeshift

/-- The rule takes every channel that the other one takes. -/
def SeriesRule.TakesChannelsOf (r q : SeriesRule) : Prop :=
  r.takesAllChannels = true ∨ q.takesAllChannels = false ∧ q.channelId = r.channelId

instance (r q : SeriesRule) : Decidable (r.TakesChannelsOf q) := inferInstanceAs
  (Decidable (r.takesAllChannels = true ∨ q.takesAllChannels = false ∧ q.channelId = r.channelId))

theorem SeriesRule.TakesChannelsOf.matches {r q : SeriesRule} {p : Program}
    (h : r.TakesChannelsOf q) (hkey : q.seriesKey = r.seriesKey) (hq : q.matchesProgram p = true) :
    r.matchesProgram p = true := by
  simp only [matchesProgram, Bool.and_eq_true, Bool.or_eq_true, beq_iff_eq] at hq ⊢
  rw [← hkey]
  refine ⟨hq.1, h.imp_right fun hlike => ?_⟩
  obtain ⟨hone, hchannel⟩ := hlike
  rcases hq.2 with hall | hsame
  · rw [hone] at hall
    cases hall
  · exact hsame.trans hchannel

namespace Expansion

open Candidate Store

section Picked

variable {s t : Store} {rules : List SeriesRule} {now : Instant} {found : List Program} {p : Program}

theorem matches_of_mem_picksOf (hstored : ∀ r ∈ rules, s.rule? r.id = some r)
    {pick : SeriesRule × List Program} (hpick : pick ∈ picksOf s (.ofStore s rules [] now) found)
    (hp : p ∈ pick.2) : p.seriesKey = some pick.1.seriesKey ∧
      ((∀ q ∈ rules, q.seriesKey = pick.1.seriesKey → pick.1.TakesChannelsOf q) →
        pick.1.matchesProgram p = true) := by
  obtain ⟨hmem, hpicked⟩ := of_mem_picksOf hpick
  obtain ⟨-, haccepts, hgoes⟩ := hpicked p hp
  obtain ⟨-, q, hq, htakes⟩ := CandidateFilter.accepts_iff.mp haccepts
  obtain ⟨r, hr, hid, hkey⟩ := exists_of_ruleIdFor hgoes
  -- The rule is known by its id, since it is stored.
  have hsame : r = pick.1 := by
    have hrstored := hstored r hr
    rw [hid, hstored pick.1 hmem] at hrstored
    exact (Option.some.inj hrstored).symm
  obtain rfl := hsame
  refine ⟨hkey, fun hchannels => ?_⟩
  have hqkey : q.seriesKey = pick.1.seriesKey :=
    Option.some.inj ((seriesKey_of_takes htakes).symm.trans hkey)
  exact (hchannels q hq hqkey).matches hqkey (CandidateFilter.matches_of_takes htakes)

theorem exists_pick_of_loose (hp : p ∈ found)
    (haccepts : (CandidateFilter.ofStore s rules [] now).accepts p = true)
    (hloose : (isPresent p.season && isPresent p.episode) = false) :
    ∃ pick ∈ picksOf s (.ofStore s rules [] now) found,
      p ∈ pick.2 ∧ ruleIdFor rules p = some pick.1.id := by
  obtain ⟨-, q, hq, htakes⟩ := CandidateFilter.accepts_iff.mp haccepts
  obtain ⟨id, hgoes⟩ := exists_ruleIdFor hq (seriesKey_of_takes htakes)
  obtain ⟨r, hr, rfl, -⟩ := exists_of_ruleIdFor hgoes
  obtain ⟨r', hr', hid⟩ := exists_distinctRules hr
  rw [← hid] at hgoes
  exact ⟨_, List.mem_map_of_mem hr',
    mem_pickFor_loose (List.mem_filter.mpr ⟨hp, haccepts⟩) hgoes hloose, hgoes⟩

/-- A program that had no schedule has a new one of the rule. -/
theorem new_of_becomes {rule : SeriesRule} {programs : List Program} {x : Schedule}
    (hnone : s.scheduleOf? p.id = none) (hx : t.scheduleOf? p.id = some x)
    (h : Becomes rule programs p.id (s.scheduleOf? p.id) x) :
    x ∈ t.schedules ∧ x ∉ s.schedules ∧ x.programId = some p.id ∧ x.ruleId = some rule.id := by
  rw [hnone] at h
  obtain ⟨q, -, -, hnew⟩ := h
  obtain ⟨hmem, hprogram⟩ := mem_of_scheduleOf hx
  refine ⟨hmem, fun hold => ?_, hprogram, congrArg Schedule.ruleId hnew⟩
  exact scheduleOf_eq_none_iff_mem.mp hnone x hold hprogram

end Picked

/-- Whatever an update schedules or takes over goes to a stored rule for the show, the last one
that was asked for, and it is a program that was found, airs later, may be recorded and is wanted.
The rule matches the program if it takes all channels that the other rules for the show take. A
program whose episode cannot be told goes to that rule in any case. -/
theorem attached_to_last_rule (archive : Archive) (listings : Nat → Listing)
    (earlier : List Store.Edit) (search : GuideQuery → List Program) (rules : List SeriesRule)
    (now : Instant) :
    let s := earlier.foldl Store.edit { archive, listings }
    let f := CandidateFilter.ofStore s rules [] now
    let found := search (.forRules rules now)
    let t := (s.run (runWith search rules now)).2
    (∀ r ∈ rules, s.rule? r.id = some r) →
      (∀ x ∈ t.schedules, x ∉ s.schedules → ∃ r ∈ rules, ∃ p ∈ found,
        x.ruleId = some r.id ∧ x.programId = some p.id ∧ ruleIdFor rules p = some r.id ∧
          now < p.starts ∧ p.prohibited = false ∧ p.id ∉ s.unwanted ∧
          p.seriesKey = some r.seriesKey ∧
          ((∀ q ∈ rules, q.seriesKey = r.seriesKey → r.TakesChannelsOf q) →
            r.matchesProgram p = true)) ∧
      ∀ n, (s.run (runWith search rules now)).1 = .ok n → s.HasRoom n →
        (found.map (·.id)).Nodup → ∀ p ∈ found, f.accepts p = true →
        (isPresent p.season && isPresent p.episode) = false → s.scheduleOf? p.id = none →
        ∃ x ∈ t.schedules, x ∉ s.schedules ∧ x.programId = some p.id ∧
          x.ruleId = ruleIdFor rules p := by
  intro s f found t hstored
  have hkeyed : s.IsKeyed := isKeyed_edits (fun id x hx => by simp at hx) earlier
  have hstored' : AreStored s (picksOf s f found) := areStored_picksOf hstored
  constructor
  · intro x hx hnew
    obtain ⟨id, hid⟩ := mem_values.mp hx
    rcases attachAll_origin hkeyed hstored' (run_runWith s search rules now) hid with
      hold | ⟨pick, hpick, hrule, p, hp, hprogram⟩
    · exact absurd (mem_values.mpr ⟨id, hold⟩) hnew
    obtain ⟨hmem, hpicked⟩ := of_mem_picksOf hpick
    obtain ⟨hfound, haccepts, hgoes⟩ := hpicked p hp
    have hadmits := (CandidateFilter.accepts_iff.mp haccepts).1
    exact ⟨pick.1, hmem, p, hfound, hrule, hprogram, hgoes, hadmits.later, hadmits.allowed,
      hadmits.wanted, matches_of_mem_picksOf hstored hpick hp⟩
  · intro n hok hroom hnodup p hp haccepts hloose hnone
    have hrun : s.run (attachAll (picksOf s f found)) = (.ok n, t) := by
      rw [← run_runWith, ← hok]
    obtain ⟨pick, hpick, hpicked, hgoes⟩ := exists_pick_of_loose hp haccepts hloose
    obtain ⟨hattached, -⟩ := isAttached_all hkeyed hstored' (areApart_picksOf hnodup) hroom hrun
    obtain ⟨x, hx, hbecomes⟩ :=
      (hattached pick hpick p hpicked (isSingle_of_none hnone)).exists_becomes
    obtain ⟨hmem, hnew, hprogram, hrule⟩ := new_of_becomes hnone hx hbecomes
    exact ⟨x, hmem, hnew, hprogram, hrule.trans hgoes.symm⟩

/-- Two rules for one show, the last one for all channels, and a program whose season is not
known. -/
theorem attached_to_last_rule_all :
    let one : SeriesRule := { SeriesRule.ofKey "show" "tuner" 1 with id := 1 }
    let all : SeriesRule := { SeriesRule.ofKey "show" "tuner" 2 with id := 2, channelOption := .all }
    let guide := [airing 10 100 "1", { airing 11 200 "2" with season := none }]
    let s := [.load 0, .addRule one, .addRule all].foldl edit { archive := {} }
    let t := (s.run (runWith (fun _ => guide) [one, all] 50)).2
    (∀ r ∈ [one, all], s.rule? r.id = some r) ∧
      (∀ q ∈ [one, all], all.TakesChannelsOf q) ∧
      t.schedules.map (·.programId) = [some 10, some 11] ∧
      (∀ x ∈ t.schedules, ∃ p ∈ guide, x.ruleId = some all.id ∧ x.programId = some p.id ∧
        all.matchesProgram p = true) ∧
      ∃ x ∈ t.schedules, x.programId = some 11 ∧ x.ruleId = some all.id := by
  intro one all guide s t
  have hstored : ∀ r ∈ [one, all], s.rule? r.id = some r := by decide +kernel
  have hchannels : ∀ q ∈ [one, all], all.TakesChannelsOf q := by decide
  have hempty : s.schedules = [] := by decide +kernel
  have hattached := attached_to_last_rule {} (fun _ => .byAge) [.load 0, .addRule one, .addRule all]
    (fun _ => guide) [one, all] 50 hstored
  refine ⟨hstored, hchannels, by decide +kernel, fun x hx => ?_, ?_⟩
  · obtain ⟨r, hr, p, hp, hrule, hprogram, hgoes, -, -, -, -, hmatches⟩ :=
      hattached.1 x hx fun hold : x ∈ s.schedules => List.not_mem_nil (hempty ▸ hold)
    have hlast : ∀ p ∈ guide, ruleIdFor [one, all] p = some all.id := by decide +kernel
    have hid : r.id = all.id := Option.some.inj (hgoes.symm.trans (hlast p hp))
    have hall : r = all := List.inj_on_of_nodup_map (by decide) hr (by decide) hid
    subst hall
    exact ⟨p, hp, hrule, hprogram, hmatches fun q hq _ => hchannels q hq⟩
  · obtain ⟨x, hx, -, hprogram, hrule⟩ := hattached.2 2 (by decide +kernel)
      ⟨by decide, by decide +kernel⟩ (by decide) { airing 11 200 "2" with season := none }
      (by decide) (by decide +kernel) (by decide) (by decide +kernel)
    exact ⟨x, hx, hprogram, hrule⟩

/-- The first rule takes all channels and accepts the program. The last one is for another
channel, and gets it. -/
theorem not_attached_to_matching_rule :
    let all : SeriesRule := { SeriesRule.ofKey "show" "tuner" 1 with id := 1, channelOption := .all }
    let one : SeriesRule := { SeriesRule.ofKey "show" "tuner" 2 with id := 2 }
    let catalog : Catalog := { guide := [airing 10 100 "1"] }
    let s := [.load 0, .addRule all, .addRule one].foldl edit { archive := {} }
    let t := (s.run (run catalog [all, one] 50)).2
    (s.run (run catalog [all, one] 50)).1 = .ok 1 ∧ (∀ r ∈ [all, one], s.rule? r.id = some r) ∧
      s.schedules = [] ∧ t.schedules.map (fun x => (x.programId, x.ruleId)) =
        [(some 10, some one.id)] ∧
      ∀ p ∈ catalog.guide, p.id = 10 → one.matchesProgram p = false :=
  ⟨by decide +kernel, by decide +kernel, by decide +kernel, by decide +kernel, by decide⟩

end Expansion

end Timeshift
