import Mathlib.Data.Option.Basic
import Timeshift.Proofs.Expansion.Attach

/-!
# What is picked of the candidates

A program is a candidate if it could be scheduled at all and some rule takes it. It goes to one
rule. Of the airings of a complete episode one is picked, or those that are
scheduled already. A program whose episode cannot be told is picked in any case.
-/

namespace Timeshift

section Lists

variable {α β κ : Type}

theorem nodup_eraseDups [BEq α] [LawfulBEq α] (l : List α) : l.eraseDups.Nodup := by
  match l with
  | [] => exact List.nodup_nil
  | a :: rest =>
    rw [List.eraseDups_cons, List.nodup_cons, List.mem_eraseDups]
    exact ⟨by simp, nodup_eraseDups _⟩
termination_by l.length
decreasing_by exact Nat.lt_succ_of_le (List.length_filter_le _ _)

theorem flatMap_of_unique {l : List α} (hl : l.Nodup) {a : α} (ha : a ∈ l) {g : α → List β}
    (hothers : ∀ b ∈ l, b ≠ a → g b = []) : l.flatMap g = g a := by
  obtain ⟨before, after, rfl⟩ := List.append_of_mem ha
  obtain ⟨-, hafter, hbefore⟩ := List.nodup_append.mp hl
  rw [List.nodup_cons] at hafter
  have hleft : before.flatMap g = [] := by
    refine List.flatMap_eq_nil_iff.mpr fun b hb => ?_
    exact hothers b (List.mem_append_left _ hb) (hbefore b hb a List.mem_cons_self)
  have hright : after.flatMap g = [] := by
    refine List.flatMap_eq_nil_iff.mpr fun b hb => ?_
    refine hothers b (List.mem_append_right _ (List.mem_cons_of_mem a hb)) ?_
    rintro rfl
    exact hafter.1 hb
  rw [List.flatMap_append, List.flatMap_cons, hleft, hright, List.nil_append, List.append_nil]

theorem flatMap_sublist {l : List α} {g g' : α → List β} (h : ∀ a ∈ l, (g a).Sublist (g' a)) :
    (l.flatMap g).Sublist (l.flatMap g') := by
  induction l with
  | nil => exact List.Sublist.refl _
  | cons a rest ih =>
    obtain ⟨ha, hrest⟩ := List.forall_mem_cons.mp h
    rw [List.flatMap_cons, List.flatMap_cons]
    exact ha.append (ih hrest)

theorem length_flatMap_le {l : List α} {g g' : α → List β}
    (h : ∀ a ∈ l, (g a).length ≤ (g' a).length) : (l.flatMap g).length ≤ (l.flatMap g').length := by
  induction l with
  | nil => exact Nat.le_refl _
  | cons a rest ih =>
    obtain ⟨ha, hrest⟩ := List.forall_mem_cons.mp h
    rw [List.flatMap_cons, List.flatMap_cons, List.length_append, List.length_append]
    exact Nat.add_le_add ha (ih hrest)

/-- Elements with different keys are not counted twice. -/
theorem length_flatMap_filter_le [BEq κ] [LawfulBEq κ] (key : α → κ) {ks : List κ} (hks : ks.Nodup)
    (l : List α) : (ks.flatMap fun k => l.filter (key · == k)).length ≤ l.length := by
  induction ks generalizing l with
  | nil => exact Nat.zero_le _
  | cons k rest ih =>
    obtain ⟨hk, hrest⟩ := List.nodup_cons.mp hks
    have hlater : (rest.flatMap fun k' => l.filter (key · == k')) =
        rest.flatMap fun k' => (l.filter (!key · == k)).filter (key · == k') := by
      refine List.flatMap_congr fun k' hk' => ?_
      rw [List.filter_filter]
      refine List.filter_congr fun x _ => ?_
      by_cases hx : key x = k'
      · have hne : key x ≠ k := by
          rintro rfl
          exact hk (hx ▸ hk')
        simp [hx, hx ▸ hne]
      · simp [hx]
    have hsplit := List.length_eq_length_filter_add (l := l) (key · == k)
    rw [List.flatMap_cons, List.length_append, hlater, hsplit]
    exact Nat.add_le_add_left (ih hrest _) _

end Lists

/-! ## What passes the filter -/

namespace Store

/-- A schedule in use covers the episode: it has neither failed nor lost a part. -/
def Records (s : Store) (e : Episode) : Prop :=
  ∃ x ∈ s.schedules, Episode.ofSchedule? x = some e ∧ x.state ≠ .failed ∧ x.state ≠ .clipped

instance (s : Store) (e : Episode) : Decidable (s.Records e) := inferInstanceAs (Decidable
  (∃ x ∈ s.schedules, Episode.ofSchedule? x = some e ∧ x.state ≠ .failed ∧ x.state ≠ .clipped))

/-- Some schedule in use for the program waits to be recorded. -/
def Awaits (s : Store) (p : ProgramId) : Prop :=
  ∃ x ∈ s.schedules, x.programId = some p ∧ x.state = .notStarted

instance (s : Store) (p : ProgramId) : Decidable (s.Awaits p) :=
  inferInstanceAs (Decidable (∃ x ∈ s.schedules, x.programId = some p ∧ x.state = .notStarted))

end Store

namespace CandidateFilter

variable {f : CandidateFilter} {s : Store} {rules : List SeriesRule} {rule : SeriesRule}
  {extra : List Episode} {now : Instant} {e : Episode} {p : Program}

/-- The program could be scheduled whatever the rules are. -/
structure Admits (f : CandidateFilter) (p : Program) : Prop where
  later : f.now < p.starts
  allowed : p.prohibited = false
  wanted : p.id ∉ f.unwanted
  numbered : (isPresent p.season || isPresent p.episode) = true

theorem accepts_iff :
    f.accepts p = true ↔ f.Admits p ∧ ∃ rule ∈ f.rules, f.takes p rule = true := by
  simp only [accepts, Bool.and_eq_true, List.any_eq_true, Bool.not_eq_true', decide_eq_true_eq]
  constructor
  · rintro ⟨⟨⟨⟨hlater, hallowed⟩, hwanted⟩, hnumbered⟩, htakes⟩
    refine ⟨⟨hlater, hallowed, fun hmem => ?_, hnumbered⟩, htakes⟩
    rw [List.contains_iff_mem.mpr hmem] at hwanted
    cases hwanted
  · rintro ⟨h, htakes⟩
    refine ⟨⟨⟨⟨h.later, h.allowed⟩, ?_⟩, h.numbered⟩, htakes⟩
    exact Bool.eq_false_iff.mpr fun hmem => h.wanted (List.contains_iff_mem.mp hmem)

theorem matches_of_takes (h : f.takes p rule = true) : rule.matchesProgram p = true := by
  rw [takes, Bool.and_eq_true] at h
  exact h.1

theorem isCoveredBy_iff (he : e.isComplete = true) (hrule : rule ∈ rules)
    (hid : e.ruleId = rule.id) :
    e.isCoveredBy (ofStore s rules extra now).covered = true ↔ e ∈ extra ∨ s.Records e := by
  have hmem : e ∈ Episode.scheduledFor (rules.map (·.id)) s.schedules ↔ s.Records e := by
    simp only [Episode.scheduledFor, List.mem_filter, List.mem_filterMap, List.contains_iff_mem,
      Store.Records, decide_eq_true_eq, Bool.and_eq_true, ne_eq]
    constructor
    · rintro ⟨⟨x, ⟨hx, hfailed, hclipped⟩, hep⟩, -⟩
      exact ⟨x, hx, hep, hfailed, hclipped⟩
    · rintro ⟨x, hx, hep, hfailed, hclipped⟩
      exact ⟨⟨x, ⟨hx, hfailed, hclipped⟩, hep⟩, hid ▸ List.mem_map_of_mem hrule⟩
  rw [Episode.isCoveredBy, he, Bool.true_and, List.contains_iff_mem]
  exact List.mem_append.trans (or_congr Iff.rfl hmem)

theorem takes_iff (he : (Episode.ofProgram rule.id p).isComplete = true) (hrule : rule ∈ rules) :
    (ofStore s rules extra now).takes p rule = true ↔ rule.matchesProgram p = true ∧
      Episode.ofProgram rule.id p ∉ extra ∧ ¬ s.Records (Episode.ofProgram rule.id p) := by
  rw [takes, Bool.and_eq_true, Bool.not_eq_true', ← Bool.not_eq_true,
    isCoveredBy_iff he hrule rfl, not_or]

end CandidateFilter

namespace Candidate

open Store

variable {s : Store} {rules : List SeriesRule} {rule : SeriesRule} {programs airings : List Program}
  {p : Program} {id : RuleId} {e : Episode}

/-! ## The rule of a program -/

theorem ruleIdFor_eq (hkeys : (rules.map (·.seriesKey)).Nodup) (hrule : rule ∈ rules)
    (hp : p.seriesKey = some rule.seriesKey) : ruleIdFor rules p = some rule.id := by
  rw [ruleIdFor, hp, Option.bind_some]
  cases hfind : rules.reverse.find? (·.seriesKey == rule.seriesKey) with
  | none =>
    rw [List.find?_eq_none] at hfind
    exact absurd (beq_self_eq_true _) (hfind rule (List.mem_reverse.mpr hrule))
  | some r =>
    have hr := List.mem_reverse.mp (List.mem_of_find?_eq_some hfind)
    have hkey := List.find?_some hfind
    rw [List.inj_on_of_nodup_map hkeys hr hrule (beq_iff_eq.mp hkey)]
    rfl

theorem seriesKey_of_ruleIdFor (hids : (rules.map (·.id)).Nodup) (hrule : rule ∈ rules)
    (hp : ruleIdFor rules p = some rule.id) : p.seriesKey = some rule.seriesKey := by
  obtain ⟨key, hkey, hfind⟩ := Option.bind_eq_some_iff.mp hp
  obtain ⟨r, hr, hid⟩ := Option.map_eq_some_iff.mp hfind
  have hmem := List.mem_reverse.mp (List.mem_of_find?_eq_some hr)
  have hrkey := List.find?_some hr
  obtain rfl := List.inj_on_of_nodup_map hids hmem hrule hid
  rw [hkey, beq_iff_eq.mp hrkey]

theorem exists_of_ruleIdFor (h : ruleIdFor rules p = some id) :
    ∃ r ∈ rules, r.id = id ∧ p.seriesKey = some r.seriesKey := by
  obtain ⟨key, hkey, hfind⟩ := Option.bind_eq_some_iff.mp h
  obtain ⟨r, hr, hid⟩ := Option.map_eq_some_iff.mp hfind
  have hrkey := List.find?_some hr
  refine ⟨r, List.mem_reverse.mp (List.mem_of_find?_eq_some hr), hid, ?_⟩
  rw [hkey, beq_iff_eq.mp hrkey]

theorem exists_ruleIdFor (hrule : rule ∈ rules) (hkey : p.seriesKey = some rule.seriesKey) :
    ∃ id, ruleIdFor rules p = some id := by
  rw [ruleIdFor, hkey, Option.bind_some]
  cases hfind : rules.reverse.find? (·.seriesKey == rule.seriesKey) with
  | some r => exact ⟨r.id, rfl⟩
  | none =>
    have hnot := List.find?_eq_none.mp hfind rule (List.mem_reverse.mpr hrule)
    exact absurd (beq_self_eq_true _) hnot

/-! ## What is picked -/

theorem mem_of_mem_keepOne (h : p ∈ keepOne s airings) : p ∈ airings := by
  simp only [keepOne] at h
  split at h
  · exact mem_sortBy.mp (List.mem_of_mem_take h)
  · exact List.mem_of_mem_filter h

theorem awaits_of_isScheduled (h : isScheduled s p = true) : s.Awaits p.id := by
  unfold isScheduled at h
  cases hx : s.scheduleOf? p.id with
  | none =>
    rw [hx] at h
    cases h
  | some x =>
    rw [hx, Option.any_some, Schedule.isNotStarted, beq_iff_eq] at h
    obtain ⟨hmem, hp⟩ := mem_of_scheduleOf hx
    exact ⟨x, hmem, hp, h⟩

theorem covers_of_isScheduled (h : isScheduled s p = true) : s.Covers p.id := by
  obtain ⟨x, hx, hp, hstate⟩ := awaits_of_isScheduled h
  exact ⟨x, hx, hp, hstate ▸ ⟨nofun, nofun⟩⟩

/-- If none waits to be recorded, only the first airing is kept. -/
theorem mem_keepOne_iff (hnone : ∀ q ∈ airings, isScheduled s q ≠ true) :
    p ∈ keepOne s airings ↔ (sortBy Program.airsBy airings).head? = some p := by
  have hempty : airings.filter (isScheduled s) = [] := List.filter_eq_nil_iff.mpr hnone
  rw [keepOne, hempty, List.isEmpty_nil, if_pos rfl]
  cases sortBy Program.airsBy airings <;> simp [eq_comm]

theorem of_mem_pickFor (h : p ∈ pickFor s rules programs id) :
    p ∈ programs ∧ ruleIdFor rules p = some id := by
  have hown : p ∈ programs.filter fun q => ruleIdFor rules q == some id := by
    simp only [pickFor, List.partition_eq_filter_filter, mem_sortBy, List.mem_append,
      List.mem_flatMap] at h
    rcases h with hloose | ⟨e, -, hkeep⟩
    · exact List.mem_of_mem_filter hloose
    · exact List.mem_of_mem_filter (List.mem_of_mem_filter (mem_of_mem_keepOne hkeep))
  obtain ⟨hmem, hid⟩ := List.mem_filter.mp hown
  exact ⟨hmem, beq_iff_eq.mp hid⟩

theorem length_keepOne_le : (keepOne s airings).length ≤ airings.length := by
  simp only [keepOne]
  split
  · rw [List.length_take, length_sortBy]
    exact Nat.min_le_right _ _
  · exact List.length_filter_le _ _

theorem pickFor_of_episode (he : e.isComplete = true) :
    ((pickFor s rules programs id).filter (Episode.ofProgram id · == e)).Perm
      (keepOne s (programs.filter fun q =>
        ruleIdFor rules q == some id && Episode.ofProgram id q == e)) := by
  have hgroup : (((programs.filter fun q => ruleIdFor rules q == some id).filter fun q =>
      (Episode.ofProgram id q).isComplete).filter fun q => Episode.ofProgram id q == e) =
        programs.filter fun q => ruleIdFor rules q == some id && Episode.ofProgram id q == e := by
    rw [List.filter_filter, List.filter_filter]
    refine List.filter_congr fun q _ => ?_
    by_cases hq : Episode.ofProgram id q = e
    · simp [hq, he]
    · simp [beq_false_of_ne hq]
  simp only [pickFor, List.partition_eq_filter_filter]
  refine ((perm_sortBy _ _).filter _).trans (List.Perm.of_eq ?_)
  rw [← hgroup]
  generalize (programs.filter fun q => ruleIdFor rules q == some id) = own
  have hloose : ((own.filter (not ∘ fun q => (Episode.ofProgram id q).isComplete)).filter
      (Episode.ofProgram id · == e)) = [] := by
    refine List.filter_eq_nil_iff.mpr fun q hq hsame => ?_
    have hnot := (List.mem_filter.mp hq).2
    rw [Function.comp_apply, beq_iff_eq.mp hsame, he] at hnot
    cases hnot
  generalize (own.filter fun q => (Episode.ofProgram id q).isComplete) = numbered
  rw [List.filter_append, hloose, List.nil_append, List.filter_flatMap]
  by_cases hmem : e ∈ (numbered.map (Episode.ofProgram id)).eraseDups
  · rw [flatMap_of_unique (nodup_eraseDups _) hmem]
    · refine List.filter_eq_self.mpr fun q hq => ?_
      exact (List.mem_filter.mp (mem_of_mem_keepOne hq)).2
    · intro e' _ hne
      refine List.filter_eq_nil_iff.mpr fun q hq hsame => hne ?_
      have hother := (List.mem_filter.mp (mem_of_mem_keepOne hq)).2
      exact (beq_iff_eq.mp hother).symm.trans (beq_iff_eq.mp hsame)
  · have hnone : numbered.filter (Episode.ofProgram id · == e) = [] := by
      refine List.filter_eq_nil_iff.mpr fun q hq hsame => hmem ?_
      exact List.mem_eraseDups.mpr (List.mem_map.mpr ⟨q, hq, beq_iff_eq.mp hsame⟩)
    rw [hnone]
    refine List.flatMap_eq_nil_iff.mpr fun e' he' => List.filter_eq_nil_iff.mpr fun q hq hsame => ?_
    have hin := List.mem_of_mem_filter (mem_of_mem_keepOne hq)
    have hq' : q ∈ numbered.filter (Episode.ofProgram id · == e) :=
      List.mem_filter.mpr ⟨hin, hsame⟩
    rw [hnone] at hq'
    cases hq'

theorem mem_pickFor_iff (he : e.isComplete = true) (hp : Episode.ofProgram id p = e) :
    p ∈ pickFor s rules programs id ↔ p ∈ keepOne s (programs.filter fun q =>
      ruleIdFor rules q == some id && Episode.ofProgram id q == e) := by
  rw [← (pickFor_of_episode he).mem_iff, List.mem_filter, beq_iff_eq, hp]
  exact (and_iff_left rfl).symm

/-- A program whose episode cannot be told is picked, whatever else is. -/
theorem mem_pickFor_loose (hp : p ∈ programs) (hid : ruleIdFor rules p = some id)
    (hloose : (Episode.ofProgram id p).isComplete = false) : p ∈ pickFor s rules programs id := by
  simp only [pickFor, List.partition_eq_filter_filter, mem_sortBy, List.mem_append,
    List.mem_filter, Function.comp_apply, hp, hid, hloose, beq_self_eq_true, Bool.not_false,
    true_and, true_or]

end Candidate

end Timeshift
