import Timeshift.Proofs.Expansion.Airings

/-!
# What a search may leave out

A search asks for the shows of some rules, for later programs, and for one channel if it is for a
single rule that takes one channel only. The filter asks for all of that again, rule by rule, so
what the search leaves out is nothing that the filter would accept.
-/

namespace Timeshift

variable {rules : List SeriesRule} {rule : SeriesRule} {now : Instant} {p : Program}

/-! ## What the query admits -/

namespace GuideQuery

/-- The channel that a query asks for is that of its only rule. -/
theorem channelId_forRules {channel : ChannelId} :
    (forRules rules now).channelId = some channel ↔
      ∃ rule, rules = [rule] ∧ rule.takesAllChannels = false ∧ rule.channelId = channel := by
  match rules with
  | [] => simp [forRules]
  | [rule] => cases hall : rule.takesAllChannels <;> simp [forRules, hall]
  | _ :: _ :: _ => simp [forRules]

theorem admits_forRules : (forRules rules now).admits p = true ↔
    now < p.starts ∧ (∃ rule ∈ rules, p.seriesKey = some rule.seriesKey) ∧
      ∀ rule, rules = [rule] → rule.takesAllChannels = false → p.channelId = rule.channelId := by
  have hkeys : p.seriesKey.any ((forRules rules now).seriesKeys.contains ·) = true ↔
      ∃ rule ∈ rules, p.seriesKey = some rule.seriesKey := by
    rw [Option.any_eq_true]
    simp only [forRules, List.contains_iff_mem, List.mem_map]
    exact ⟨fun ⟨key, hkey, rule, hrule, hsame⟩ => ⟨rule, hrule, hsame ▸ hkey⟩,
      fun ⟨rule, hrule, hkey⟩ => ⟨rule.seriesKey, hkey, rule, hrule, rfl⟩⟩
  have hchannel : (forRules rules now).channelId.all (· == p.channelId) = true ↔
      ∀ rule, rules = [rule] → rule.takesAllChannels = false → p.channelId = rule.channelId := by
    rw [Option.all_eq_true]
    simp only [channelId_forRules, beq_iff_eq]
    exact ⟨fun h rule hrules hone => (h _ ⟨rule, hrules, hone, rfl⟩).symm,
      fun h _ ⟨rule, hrules, hone, hsame⟩ => hsame ▸ (h rule hrules hone).symm⟩
  rw [admits, Bool.and_eq_true, Bool.and_eq_true, hkeys, hchannel, decide_eq_true_eq, and_right_comm,
    and_assoc]
  rfl

/-- A later program that one of the rules matches. -/
theorem admits_of_matches (hlater : now < p.starts) (hrule : rule ∈ rules)
    (hmatches : rule.matchesProgram p = true) : (forRules rules now).admits p = true := by
  simp only [SeriesRule.matchesProgram, Bool.and_eq_true, Bool.or_eq_true, beq_iff_eq] at hmatches
  obtain ⟨hkey, hchannel⟩ := hmatches
  refine admits_forRules.mpr ⟨hlater, ⟨rule, hrule, hkey⟩, ?_⟩
  rintro only rfl hone
  obtain rfl := List.mem_singleton.mp hrule
  refine hchannel.resolve_left fun hall => ?_
  rw [hone] at hall
  cases hall

end GuideQuery

/-! ## What the filter accepts of it -/

namespace CandidateFilter

variable {f : CandidateFilter}

theorem admits_of_accepts (h : f.accepts p = true) : (GuideQuery.forRules f.rules f.now).admits p :=
  have ⟨hadmits, _, hrule, htakes⟩ := accepts_iff.mp h
  GuideQuery.admits_of_matches hadmits.later hrule (matches_of_takes htakes)

/-- The query and the filter together are the filter alone. -/
theorem filter_search (f : CandidateFilter) (catalog : Catalog) :
    (catalog.search (.forRules f.rules f.now)).filter f.accepts =
      (sortBy Program.airsBy catalog.guide).filter f.accepts := by
  rw [Catalog.search, filter_sortBy Program.airsBy_total Program.airsBy_trans,
    filter_sortBy Program.airsBy_total Program.airsBy_trans, List.filter_filter]
  refine congrArg _ (List.filter_congr fun p _ => ?_)
  rw [Bool.eq_iff_iff, Bool.and_eq_true, and_iff_left_iff_imp]
  exact admits_of_accepts

/-- The programs that a filter accepts of what the search for its rules finds are those that it
accepts of the whole guide, each as often as it is listed there. So an update comes to the same as
one that goes through the whole guide, whatever the store is by the time the search comes back. -/
theorem search_hides_nothing (catalog : Catalog) (store : Store) (rules : List SeriesRule)
    (extra : List Episode) (now : Instant) :
    let f := CandidateFilter.ofStore store rules extra now
    let found := catalog.search (.forRules rules now)
    (∀ p, p ∈ found ∧ f.accepts p = true ↔ p ∈ catalog.guide ∧ f.accepts p = true) ∧
      (found.filter f.accepts).Perm (catalog.guide.filter f.accepts) ∧
      ∀ later : Store, later.run (Expansion.apply f found) =
        later.run (Expansion.apply f (sortBy Program.airsBy catalog.guide)) := by
  intro f found
  have hsame : found.filter f.accepts = (sortBy Program.airsBy catalog.guide).filter f.accepts :=
    filter_search f catalog
  have hperm : (found.filter f.accepts).Perm (catalog.guide.filter f.accepts) :=
    hsame ▸ (perm_sortBy _ _).filter _
  refine ⟨fun p => ?_, hperm, fun later => ?_⟩
  · rw [← List.mem_filter, ← List.mem_filter, hperm.mem_iff]
  · simp only [Expansion.apply, hsame]

end CandidateFilter

/-- A rule that is not stored yet has the programs picked for it that the whole guide gives. -/
theorem Expansion.trialPick_search (catalog : Catalog) (store later : Store) (rule : SeriesRule)
    (now : Instant) :
    trialPick later (trialFilter store rule now) rule (catalog.search (.forRules [rule] now)) =
      trialPick later (trialFilter store rule now) rule
        (sortBy Program.airsBy catalog.guide) :=
  congrArg (Candidate.pickFor later [rule] · rule.id)
    ((trialFilter store rule now).filter_search catalog)

end Timeshift
