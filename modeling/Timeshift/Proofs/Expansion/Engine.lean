import Mathlib.Data.List.Pairwise
import Timeshift.Expansion.Engine
import Timeshift.Proofs.Expansion.Picks
import Timeshift.Proofs.Store.Replica

/-!
# The list of updates

No rule is covered by two updates of an engine. When some rules are to be updated, the updates that
share a rule with them end, and every rule of those and of the ones asked for is covered anew, if it
is still stored.
-/

namespace Timeshift

open Engine (Task)

/-! ## Updates -/

namespace RuleUpdate

variable {u v : RuleUpdate} {id : RuleId}

theorem covers_iff : u.covers id = true ↔ id ∈ u.rules.map (·.id) := by
  simp [covers]

/-- No rule is covered by both. -/
def IsApartFrom (u v : RuleUpdate) : Prop := ∀ id, u.covers id = true → v.covers id = false

theorem IsApartFrom.symm (h : u.IsApartFrom v) : v.IsApartFrom u := by
  intro id hv
  rw [Bool.eq_false_iff]
  intro hu
  rw [h id hu] at hv
  cases hv

theorem apart_of_mem {l : List RuleUpdate} (h : l.Pairwise IsApartFrom) (hu : u ∈ l) (hv : v ∈ l)
    (hne : u ≠ v) : u.IsApartFrom v := by
  have : Std.Symm IsApartFrom := ⟨fun _ _ => IsApartFrom.symm⟩
  exact h.forall hu hv hne

theorem length_covering_le {l : List RuleUpdate} (h : l.Pairwise IsApartFrom) (id : RuleId) :
    (l.filter (·.covers id)).length ≤ 1 := by
  induction l with
  | nil => exact Nat.zero_le _
  | cons u rest ih =>
    obtain ⟨hu, hrest⟩ := List.pairwise_cons.mp h
    by_cases hcovers : u.covers id = true
    · have hnone : rest.filter (·.covers id) = [] := by
        refine List.filter_eq_nil_iff.mpr fun v hv => ?_
        rw [hu v hv id hcovers]
        exact Bool.false_ne_true
      rw [List.filter_cons_of_pos (p := fun v : RuleUpdate => v.covers id) hcovers, hnone]
      exact Nat.le_refl _
    · rw [List.filter_cons_of_neg (p := fun v : RuleUpdate => v.covers id) hcovers]
      exact ih hrest

end RuleUpdate

namespace Engine

open RuleUpdate (IsApartFrom)

variable {e e' e'' : Engine} {store : Store} {rules : List SeriesRule} {l : List RuleUpdate}
  {u v : RuleUpdate} {id : RuleId}

def shares (rules : List SeriesRule) (u : RuleUpdate) : Bool := rules.any fun r => u.covers r.id

theorem shares_iff : shares rules u = true ↔ ∃ id ∈ rules.map (·.id), u.covers id = true := by
  simp [shares]

/-- No rule is covered by two updates, and every update has a number of its own. -/
structure IsTidy (e : Engine) : Prop where
  apart : e.updates.Pairwise IsApartFrom
  numbers : (e.updates.map (·.id)).Nodup
  below : ∀ u ∈ e.updates, u.id < e.nextUpdate

/-! ## Taking out updates -/

/-- The rules of an update that is taken out do not make another one share a rule. -/
theorem shares_append (hu : u.IsApartFrom v) {new : List SeriesRule} (hnew : ∀ r ∈ new, r ∈ u.rules) :
    shares (rules ++ new) v = shares rules v := by
  have hnone : shares new v = false := by
    refine List.any_eq_false.mpr fun r hr => ?_
    rw [hu r.id (RuleUpdate.covers_iff.mpr (List.mem_map_of_mem (hnew r hr)))]
    exact Bool.false_ne_true
  rw [shares, List.any_append]
  show (shares rules v || shares new v) = _
  rw [hnone, Bool.or_false]

/-- The rules of an update that are not asked for already. -/
def others (rules : List SeriesRule) (u : RuleUpdate) : List SeriesRule :=
  u.rules.filter fun r => !rules.any (·.id == r.id)

theorem absorb_cons_of_shares {rest : List RuleUpdate} (h : shares rules u = true) :
    absorb (u :: rest) rules = ((absorb rest (rules ++ others rules u)).1,
      u.id :: (absorb rest (rules ++ others rules u)).2.1,
      (absorb rest (rules ++ others rules u)).2.2) := if_pos h

theorem absorb_cons_of_apart {rest : List RuleUpdate} (h : ¬ shares rules u = true) :
    absorb (u :: rest) rules = (u :: (absorb rest rules).1, (absorb rest rules).2.1,
      (absorb rest rules).2.2) := if_neg h

theorem mem_ids_others : id ∈ (rules ++ others rules u).map (·.id) ↔
    id ∈ rules.map (·.id) ∨ u.covers id = true := by
  rw [RuleUpdate.covers_iff, List.map_append, List.mem_append]
  refine or_congr_right' fun hnot => ?_
  simp only [others, List.mem_map, List.mem_filter, Bool.not_eq_true', List.any_eq_false, beq_iff_eq]
  constructor
  · rintro ⟨r, ⟨hr, -⟩, rfl⟩
    exact ⟨r, hr, rfl⟩
  · rintro ⟨r, hr, rfl⟩
    exact ⟨r, ⟨hr, fun x hx hid => hnot (List.mem_map.mpr ⟨x, hx, hid⟩)⟩, rfl⟩

/-- What is taken out is what shares a rule with the ones asked for, and all its rules come with
it. -/
theorem absorb_eq (hapart : l.Pairwise IsApartFrom) (rules : List SeriesRule) :
    (absorb l rules).1 = l.filter (fun u => !shares rules u) ∧
      (absorb l rules).2.1 = (l.filter (shares rules)).map (·.id) ∧
      ∀ id, id ∈ (absorb l rules).2.2.map (·.id) ↔
        id ∈ rules.map (·.id) ∨ ∃ u ∈ l, shares rules u = true ∧ u.covers id = true := by
  -- An update that is taken out adds its rules, so the rules asked for grow along the list.
  induction l generalizing rules with
  | nil => exact ⟨rfl, rfl, fun id => by simp [absorb]⟩
  | cons u rest ih =>
    obtain ⟨hu, hrest⟩ := List.pairwise_cons.mp hapart
    by_cases hshares : shares rules u = true
    · have hsame : ∀ v ∈ rest, shares (rules ++ others rules u) v = shares rules v :=
        fun v hv => shares_append (hu v hv) fun r hr => List.mem_of_mem_filter hr
      obtain ⟨hkept, hended, hids⟩ := ih hrest (rules ++ others rules u)
      rw [absorb_cons_of_shares hshares, List.filter_cons_of_pos hshares,
        List.filter_cons_of_neg (by simp [hshares])]
      refine ⟨?_, ?_, fun id => ?_⟩
      · dsimp only
        rw [hkept]
        exact List.filter_congr fun v hv => by rw [hsame v hv]
      · dsimp only
        rw [hended, List.map_cons]
        exact congrArg (u.id :: List.map _ ·) (List.filter_congr hsame)
      · dsimp only
        rw [hids, mem_ids_others, or_assoc]
        refine or_congr_right ?_
        rw [List.exists_mem_cons_iff, hshares]
        refine or_congr (by rw [eq_self_iff_true, true_and]) (exists_congr fun v => ?_)
        exact and_congr_right fun hv => by rw [hsame v hv]
    · obtain ⟨hkept, hended, hids⟩ := ih hrest rules
      rw [absorb_cons_of_apart hshares, List.filter_cons_of_neg hshares,
        List.filter_cons_of_pos (by simp [hshares])]
      refine ⟨congrArg (u :: ·) hkept, hended, fun id => (hids id).trans (or_congr_right ?_)⟩
      rw [List.exists_mem_cons_iff]
      exact (or_iff_right fun h => hshares h.1).symm

/-! ## Beginning updates -/

def begun : Nat → List (List SeriesRule) → List RuleUpdate
  | _, [] => []
  | next, rules :: rest => ⟨next, rules⟩ :: begun (next + 1) rest

theorem rules_begun (next : Nat) (groups : List (List SeriesRule)) :
    (begun next groups).map (·.rules) = groups := by
  induction groups generalizing next with
  | nil => rfl
  | cons rules rest ih => rw [begun, List.map_cons, ih]

theorem ids_begun (next : Nat) (groups : List (List SeriesRule)) :
    (begun next groups).map (·.id) = List.range' next groups.length := by
  induction groups generalizing next with
  | nil => rfl
  | cons rules rest ih => rw [begun, List.map_cons, ih, List.length_cons, List.range'_succ]

theorem id_of_mem_begun {next : Nat} {groups : List (List SeriesRule)} (h : u ∈ begun next groups) :
    next ≤ u.id ∧ u.id < next + groups.length := by
  have hid := List.mem_map_of_mem (f := (·.id)) h
  rw [ids_begun, List.mem_range'_1] at hid
  exact hid

theorem beginAll_eq (groups : List (List SeriesRule)) (e : Engine) : beginAll groups e =
    ({ e with
        updates := e.updates ++ begun e.nextUpdate groups
        nextUpdate := e.nextUpdate + groups.length },
      (begun e.nextUpdate groups).map fun u => .update u.id u.rules) := by
  induction groups generalizing e with
  | nil => rw [beginAll, begun, List.append_nil]; rfl
  | cons rules rest ih =>
    rw [beginAll, begin]
    dsimp only
    rw [ih, begun, List.append_assoc, List.length_cons, Nat.add_assoc, Nat.add_comm 1]
    rfl

theorem mem_spread : (∃ g ∈ spread rules, id ∈ g.map (·.id)) ↔ id ∈ rules.map (·.id) := by
  rw [spread]
  split
  · next hnone =>
    rw [List.isEmpty_iff.mp hnone]
    simp
  · split <;> simp

theorem pairwise_spread (hids : (rules.map (·.id)).Nodup) :
    (spread rules).Pairwise fun g g' => ∀ id ∈ g.map (·.id), id ∉ g'.map (·.id) := by
  rw [spread]
  split
  · exact List.Pairwise.nil
  · split
    · exact List.pairwise_singleton _ _
    · refine List.pairwise_map.mpr ((List.pairwise_map.mp hids).imp fun hne id hid hid' => hne ?_)
      rw [List.map_singleton, List.mem_singleton] at hid hid'
      exact hid.symm.trans hid'

theorem apart_begun {next : Nat} {groups : List (List SeriesRule)}
    (h : groups.Pairwise fun g g' => ∀ id ∈ g.map (·.id), id ∉ g'.map (·.id)) :
    (begun next groups).Pairwise IsApartFrom := by
  rw [← rules_begun next groups] at h
  refine (List.pairwise_map.mp h).imp fun hids id hu => Bool.eq_false_iff.mpr fun hv => ?_
  exact hids id (RuleUpdate.covers_iff.mp hu) (RuleUpdate.covers_iff.mp hv)

/-! ## Stored copies -/

theorem mem_storedCopies (h : store.HasRuleIds) : id ∈ (storedCopies store rules).map (·.id) ↔
    id ∈ rules.map (·.id) ∧ (store.rule? id).isSome = true := by
  simp only [storedCopies, List.mem_map, List.mem_filterMap]
  constructor
  · rintro ⟨r, ⟨k, hk, hr⟩, rfl⟩
    rw [sortOn, mem_sortBy, List.mem_eraseDups] at hk
    obtain rfl := h k r hr
    exact ⟨List.mem_map.mp hk, by rw [hr]; rfl⟩
  · rintro ⟨hid, hstored⟩
    obtain ⟨r, hr⟩ := Option.isSome_iff_exists.mp hstored
    refine ⟨r, ⟨id, ?_, hr⟩, h id r hr⟩
    rw [sortOn, mem_sortBy, List.mem_eraseDups]
    exact List.mem_map.mpr hid

theorem ids_storedCopies (h : store.HasRuleIds) (rules : List SeriesRule) :
    ((storedCopies store rules).map (·.id)).Nodup := by
  have hids : (sortOn id ((rules.map (·.id)).eraseDups)).Nodup :=
    (perm_sortBy _ _).nodup_iff.mpr (nodup_eraseDups _)
  refine hids.sublist ?_
  rw [storedCopies]
  generalize sortOn id ((rules.map (·.id)).eraseDups) = ids
  induction ids with
  | nil => exact List.Sublist.refl _
  | cons k rest ih =>
    cases hr : store.rule? k with
    | none =>
      rw [List.filterMap_cons_none hr]
      exact ih.cons k
    | some r =>
      rw [List.filterMap_cons_some hr, List.map_cons, h k r hr]
      exact ih.cons_cons k

/-! ## Steps -/

def Task.begins? : Task → Option Nat
  | .update id _ => some id
  | _ => none

/-- A step leaves the list of updates tidy, and its tasks say how the list has changed. -/
structure Steps (e : Engine) (step : Step) : Prop where
  tidy : step.1.IsTidy
  goesOn : e.isOver = false → step.1.isOver = false
  grows : e.nextUpdate ≤ step.1.nextUpdate
  new : ∀ u ∈ step.1.updates, u ∈ e.updates ∨ .update u.id u.rules ∈ step.2
  old : ∀ u ∈ e.updates, u ∈ step.1.updates ∨ .callOff u.id ∈ step.2
  begun : ∀ id rules, .update id rules ∈ step.2 →
    e.nextUpdate ≤ id ∧ ⟨id, rules⟩ ∈ step.1.updates
  ended : ∀ id, .callOff id ∈ step.2 →
    (∃ u ∈ e.updates, u.id = id) ∧ ∀ u ∈ step.1.updates, u.id ≠ id
  once : (step.2.filterMap Task.begins?).Nodup

namespace Steps

/-- The updates stay as they are, and none is begun or called off. -/
theorem quiet {tasks : List Task} (h : e.IsTidy) (hupdates : e'.updates = e.updates)
    (hnext : e'.nextUpdate = e.nextUpdate) (hover : e.isOver = false → e'.isOver = false)
    (htasks : ∀ t ∈ tasks, ∃ rule, t = .fetchInfo rule) : Steps e (e', tasks) where
  tidy := ⟨hupdates ▸ h.apart, hupdates ▸ h.numbers, hnext ▸ hupdates ▸ h.below⟩
  goesOn := hover
  grows := Nat.le_of_eq hnext.symm
  new u hu := Or.inl (hupdates ▸ hu)
  old u hu := Or.inl (hupdates.symm ▸ hu)
  begun id rules ht := by
    obtain ⟨rule, hrule⟩ := htasks _ ht
    cases hrule
  ended id ht := by
    obtain ⟨rule, hrule⟩ := htasks _ ht
    cases hrule
  once := by
    have hnone : tasks.filterMap Task.begins? = [] := by
      refine List.filterMap_eq_nil_iff.mpr fun t ht => ?_
      obtain ⟨rule, rfl⟩ := htasks t ht
      rfl
    rw [hnone]
    exact List.nodup_nil

theorem drop (h : e.IsTidy) (stays : RuleUpdate → Bool) :
    Steps e ({ e with updates := e.updates.filter stays },
      ((e.updates.filter fun u => !stays u).map (·.id)).map .callOff) where
  tidy := ⟨h.apart.filter _, (List.filter_sublist.map _).nodup h.numbers,
    fun u hu => h.below u (List.mem_of_mem_filter hu)⟩
  goesOn hover := hover
  grows := Nat.le_refl _
  new u hu := Or.inl (List.mem_of_mem_filter hu)
  old u hu := by
    cases hstays : stays u with
    | true => exact Or.inl (List.mem_filter.mpr ⟨hu, hstays⟩)
    | false =>
      refine Or.inr (List.mem_map_of_mem (List.mem_map_of_mem (List.mem_filter.mpr ⟨hu, ?_⟩)))
      rw [hstays]
      rfl
  begun id rules ht := by
    obtain ⟨k, -, hk⟩ := List.mem_map.mp ht
    cases hk
  ended id ht := by
    obtain ⟨k, hk, heq⟩ := List.mem_map.mp ht
    obtain rfl := Task.callOff.inj heq
    obtain ⟨u, hu, rfl⟩ := List.mem_map.mp hk
    obtain ⟨hmem, hgone⟩ := List.mem_filter.mp hu
    refine ⟨⟨u, hmem, rfl⟩, fun v hv hid => ?_⟩
    obtain ⟨hvmem, hvstays⟩ := List.mem_filter.mp hv
    obtain rfl := List.inj_on_of_nodup_map h.numbers hvmem hmem hid
    rw [hvstays] at hgone
    cases hgone
  once := by
    rw [List.filterMap_map]
    have hnone : (Task.begins? ∘ Task.callOff) = fun _ => none := rfl
    rw [hnone, List.filterMap_none]
    exact List.nodup_nil

/-- A step that begins nothing, and another one. -/
theorem trans {tasks more : List Task} (h : Steps e (e', tasks)) (h' : Steps e' (e'', more))
    (hnone : ∀ id rules, .update id rules ∉ tasks) (htidy : e.IsTidy) :
    Steps e (e'', tasks ++ more) where
  tidy := h'.tidy
  goesOn hover := h'.goesOn (h.goesOn hover)
  grows := Nat.le_trans h.grows h'.grows
  new u hu := by
    rcases h'.new u hu with hmid | hbegun
    · exact (h.new u hmid).imp_right fun ht => List.mem_append_left _ ht
    · exact Or.inr (List.mem_append_right _ hbegun)
  old u hu := by
    rcases h.old u hu with hmid | hended
    · exact (h'.old u hmid).imp_right fun ht => List.mem_append_right _ ht
    · exact Or.inr (List.mem_append_left _ hended)
  begun id rules ht := by
    rcases List.mem_append.mp ht with ht | ht
    · exact absurd ht (hnone id rules)
    · obtain ⟨hle, hmem⟩ := h'.begun id rules ht
      exact ⟨Nat.le_trans h.grows hle, hmem⟩
  ended id ht := by
    rcases List.mem_append.mp ht with ht | ht
    · obtain ⟨⟨u, hu, rfl⟩, hgone⟩ := h.ended id ht
      refine ⟨⟨u, hu, rfl⟩, fun v hv hid => ?_⟩
      rcases h'.new v hv with hmid | hbegun
      · exact hgone v hmid hid
      · -- What is begun later has a later number.
        have hbefore := htidy.below u hu
        have hlater := Nat.le_trans h.grows (h'.begun _ _ hbegun).1
        omega
    · obtain ⟨⟨u, hu, rfl⟩, hgone⟩ := h'.ended id ht
      rcases h.new u hu with hold | hbegun
      · exact ⟨⟨u, hold, rfl⟩, hgone⟩
      · exact absurd hbegun (hnone u.id u.rules)
  once := by
    have hfirst : tasks.filterMap Task.begins? = [] := by
      refine List.filterMap_eq_nil_iff.mpr fun t ht => ?_
      cases t with
      | update id rules => exact absurd ht (hnone id rules)
      | callOff | fetchInfo => rfl
    rw [List.filterMap_append, hfirst, List.nil_append]
    exact h'.once

/-- New updates for groups of rules, which none of the others covers. -/
theorem begin (h : e.IsTidy) {groups : List (List SeriesRule)}
    (hgroups : groups.Pairwise fun g g' => ∀ id ∈ g.map (·.id), id ∉ g'.map (·.id))
    (hfree : ∀ g ∈ groups, ∀ id ∈ g.map (·.id), ∀ u ∈ e.updates, u.covers id = false) :
    Steps e (beginAll groups e) := by
  rw [beginAll_eq]
  refine
    { tidy := ⟨List.pairwise_append.mpr ⟨h.apart, apart_begun hgroups, fun u hu v hv id hid => ?_⟩,
        ?_, fun u hu => ?_⟩
      goesOn := fun hover => hover
      grows := Nat.le_add_right _ _
      new := fun u hu => (List.mem_append.mp hu).imp_right fun hu => List.mem_map.mpr ⟨u, hu, rfl⟩
      old := fun u hu => Or.inl (List.mem_append_left _ hu)
      begun := fun id rules ht => ?_
      ended := fun id ht => ?_
      once := ?_ }
  · refine Bool.eq_false_iff.mpr fun hcovers => ?_
    have hgroup : v.rules ∈ groups := by
      rw [← rules_begun e.nextUpdate groups]
      exact List.mem_map_of_mem hv
    have hnot := hfree v.rules hgroup id (RuleUpdate.covers_iff.mp hcovers) u hu
    rw [hid] at hnot
    cases hnot
  · rw [List.map_append, List.nodup_append]
    refine ⟨h.numbers, ?_, fun k hk m hm hsame => ?_⟩
    · rw [ids_begun]
      exact List.nodup_range' ..
    · obtain ⟨u, hu, rfl⟩ := List.mem_map.mp hk
      obtain ⟨v, hv, rfl⟩ := List.mem_map.mp hm
      have hbefore := h.below u hu
      have hlater := (id_of_mem_begun hv).1
      omega
  · rcases List.mem_append.mp hu with hu | hu
    · exact Nat.lt_of_lt_of_le (h.below u hu) (Nat.le_add_right _ _)
    · exact (id_of_mem_begun hu).2
  · obtain ⟨u, hu, heq⟩ := List.mem_map.mp ht
    obtain ⟨rfl, rfl⟩ := Task.update.inj heq
    exact ⟨(id_of_mem_begun hu).1, List.mem_append_right _ hu⟩
  · obtain ⟨u, -, heq⟩ := List.mem_map.mp ht
    cases heq
  · have hids : ((Engine.begun e.nextUpdate groups).map fun u => Task.update u.id u.rules).filterMap
        Task.begins? = (Engine.begun e.nextUpdate groups).map (·.id) := by
      rw [List.filterMap_map, ← List.filterMap_eq_map]
      rfl
    rw [hids, ids_begun]
    exact List.nodup_range' ..

end Steps

/-! ## The steps of an engine -/

/-- The groups of rules for which a refreshment begins updates. -/
def groupsFor (store : Store) (rules : List SeriesRule) (e : Engine) : List (List SeriesRule) :=
  if store.isLoaded then spread (storedCopies store (absorb e.updates rules).2.2) else []

theorem refresh_eq (h : e.IsTidy) (store : Store) (rules : List SeriesRule) :
    let kept : Engine := { e with updates := e.updates.filter fun u => !shares rules u }
    e.refresh store rules = ((beginAll (groupsFor store rules e) kept).1,
      ((e.updates.filter fun u => !!shares rules u).map (·.id)).map .callOff ++
        (beginAll (groupsFor store rules e) kept).2) := by
  obtain ⟨hkept, hended, -⟩ := absorb_eq h.apart rules
  simp only [refresh, groupsFor, hkept, hended, Bool.not_not]

theorem mem_groupsFor (h : e.IsTidy) (hids : store.HasRuleIds) (hloaded : store.isLoaded = true) :
    (∃ g ∈ groupsFor store rules e, id ∈ g.map (·.id)) ↔
      (id ∈ rules.map (·.id) ∨ ∃ u ∈ e.updates, shares rules u = true ∧ u.covers id = true) ∧
        (store.rule? id).isSome = true := by
  rw [groupsFor, if_pos hloaded, mem_spread, mem_storedCopies hids, (absorb_eq h.apart rules).2.2]

theorem free_of_groupsFor (h : e.IsTidy) (hids : store.HasRuleIds) {g : List SeriesRule}
    (hg : g ∈ groupsFor store rules e) (hid : id ∈ g.map (·.id)) (hu : u ∈ e.updates)
    (hstays : shares rules u = false) : u.covers id = false := by
  cases hloaded : store.isLoaded with
  | false =>
    rw [groupsFor, hloaded] at hg
    cases hg
  | true =>
    rcases ((mem_groupsFor h hids hloaded).mp ⟨g, hg, hid⟩).1 with hasked | ⟨v, hv, hshares, hcovers⟩
    · refine Bool.eq_false_iff.mpr fun hu => ?_
      rw [shares_iff.mpr ⟨id, hasked, hu⟩] at hstays
      cases hstays
    · have hne : v ≠ u := by
        rintro rfl
        rw [hshares] at hstays
        cases hstays
      exact RuleUpdate.apart_of_mem h.apart hv hu hne id hcovers

theorem refresh_steps (h : e.IsTidy) (hids : store.HasRuleIds) (rules : List SeriesRule) :
    Steps e (e.refresh store rules) := by
  rw [refresh_eq h]
  have hdrop := Steps.drop h fun u => !shares rules u
  refine hdrop.trans (.begin hdrop.tidy ?_ ?_) (fun id new ht => ?_) h
  · rw [groupsFor]
    split
    · exact pairwise_spread (ids_storedCopies hids _)
    · exact List.Pairwise.nil
  · intro g hg id hid u hu
    obtain ⟨hmem, hstays⟩ := List.mem_filter.mp hu
    exact free_of_groupsFor h hids hg hid hmem ((Bool.not_eq_true' _).mp hstays)
  · obtain ⟨k, -, hk⟩ := List.mem_map.mp ht
    cases hk

/-- What is asked for, and the rest of the updates that have to end for it, is covered anew. -/
theorem length_covering_refresh (h : e.IsTidy) (hids : store.HasRuleIds)
    (hloaded : store.isLoaded = true) (hstored : (store.rule? id).isSome = true)
    (hid : id ∈ rules.map (·.id) ∨ ∃ u ∈ e.updates, shares rules u = true ∧ u.covers id = true) :
    ((e.refresh store rules).1.updates.filter (·.covers id)).length = 1 := by
  have htidy := (refresh_steps h hids rules).tidy
  refine Nat.le_antisymm (RuleUpdate.length_covering_le htidy.apart id) ?_
  obtain ⟨g, hg, hcovered⟩ := (mem_groupsFor h hids hloaded).mpr ⟨hid, hstored⟩
  rw [← rules_begun e.nextUpdate (groupsFor store rules e)] at hg
  obtain ⟨u, hu, rfl⟩ := List.mem_map.mp hg
  refine List.length_pos_of_mem (a := u) (List.mem_filter.mpr ⟨?_, RuleUpdate.covers_iff.mpr hcovered⟩)
  rw [refresh_eq h, beginAll_eq]
  exact List.mem_append_right _ hu

theorem callOff_mem_refresh (h : e.IsTidy) (hu : u ∈ e.updates) (hshares : shares rules u = true) :
    .callOff u.id ∈ (e.refresh store rules).2 := by
  rw [refresh_eq h]
  refine List.mem_append_left _ (List.mem_map_of_mem (List.mem_map_of_mem ?_))
  exact List.mem_filter.mpr ⟨hu, by rw [hshares]; rfl⟩

theorem mem_refresh_of_apart (h : e.IsTidy) (store : Store) (hu : u ∈ e.updates)
    (hapart : shares rules u = false) : u ∈ (e.refresh store rules).1.updates ∧
      .callOff u.id ∉ (e.refresh store rules).2 := by
  rw [refresh_eq h, beginAll_eq]
  refine ⟨List.mem_append_left _ (List.mem_filter.mpr ⟨hu, by rw [hapart]; rfl⟩), fun ht => ?_⟩
  rcases List.mem_append.mp ht with ht | ht
  · obtain ⟨k, hk, heq⟩ := List.mem_map.mp ht
    obtain ⟨v, hv, rfl⟩ := List.mem_map.mp hk
    obtain ⟨hmem, hshares⟩ := List.mem_filter.mp hv
    obtain rfl := List.inj_on_of_nodup_map h.numbers hmem hu (Task.callOff.inj heq)
    rw [hapart] at hshares
    cases hshares
  · obtain ⟨v, -, heq⟩ := List.mem_map.mp ht
    cases heq

theorem refreshAll_steps (h : e.IsTidy) (hids : store.HasRuleIds) :
    Steps e (e.refreshAll store) := by
  rw [refreshAll]
  split
  · exact refresh_steps h hids _
  · exact .quiet h rfl rfl id fun t ht => absurd ht List.not_mem_nil

theorem dropAll_steps (h : e.IsTidy) :
    Steps e ({ e with updates := [] }, e.updates.map (Task.callOff ·.id)) := by
  have hdrop := Steps.drop h fun _ => false
  rwa [List.filter_false, Bool.not_false, List.filter_true, List.map_map] at hdrop

theorem restartAll_steps (h : e.IsTidy) (hids : store.HasRuleIds) :
    Steps e (e.restartAll store) := by
  have hdrop := dropAll_steps h
  rw [restartAll]
  dsimp only
  split
  · exact hdrop
  · refine hdrop.trans (refresh_steps hdrop.tidy hids _) (fun id rules ht => ?_) h
    obtain ⟨u, -, hu⟩ := List.mem_map.mp ht
    cases hu

theorem dropRemoved_steps (h : e.IsTidy) (removed : List SeriesRule) :
    Steps e (e.dropRemoved removed) := by
  have hdrop := Steps.drop h fun u => !u.rules.all fun r => removed.any (·.id == r.id)
  rw [List.map_map] at hdrop
  simp only [Bool.not_not] at hdrop
  rw [dropRemoved, List.partition_eq_filter_filter]
  exact hdrop

theorem onLoss_steps (h : e.IsTidy) (hids : store.HasRuleIds) (lost : List Schedule) :
    Steps e (e.onLoss store lost) := by
  rw [onLoss]
  split
  · exact .quiet h rfl rfl id fun t ht => absurd ht List.not_mem_nil
  · exact refresh_steps h hids _

theorem handle_steps (h : e.IsTidy) (hids : store.HasRuleIds) (event : StoreEvent) :
    Steps e (e.handle store event) := by
  cases event with
  | loaded => exact refreshAll_steps h hids
  | rulesAdded rules =>
    refine .quiet h rfl rfl id fun t ht => ?_
    obtain ⟨rule, -, rfl⟩ := List.mem_map.mp ht
    exact ⟨rule, rfl⟩
  | rulesRemoved rules => exact dropRemoved_steps h rules
  | rulesChanged rules => exact refresh_steps h hids rules
  | added l => exact .quiet h rfl rfl id fun t ht => absurd ht List.not_mem_nil
  | removed l => exact onLoss_steps h hids l
  | changed l => exact onLoss_steps h hids _

theorem enterEra_steps (h : e.IsTidy) (hids : store.HasRuleIds) :
    Steps e (e.enterEra store) := by
  have hentered : Steps e ({ e with era := e.era + 1, isOver := false },
      (store.ruleList.filter fun r => !e.fetched.contains r.seriesKey).map .fetchInfo) := by
    refine .quiet h rfl rfl (fun _ => rfl) fun t ht => ?_
    obtain ⟨rule, -, rfl⟩ := List.mem_map.mp ht
    exact ⟨rule, rfl⟩
  refine hentered.trans (refreshAll_steps hentered.tidy hids) (fun id rules ht => ?_) h
  obtain ⟨rule, -, hrule⟩ := List.mem_map.mp ht
  cases hrule

theorem complete_steps (h : e.IsTidy) {n : Nat} (hlisted : ∃ u ∈ e.updates, u.id = n) :
    Steps e (e.complete n, [.callOff n]) where
  tidy := ⟨h.apart.filter _, (List.filter_sublist.map _).nodup h.numbers,
    fun u hu => h.below u (List.mem_of_mem_filter hu)⟩
  goesOn hover := hover
  grows := Nat.le_refl _
  new u hu := Or.inl (List.mem_of_mem_filter hu)
  old u hu := by
    by_cases hid : u.id = n
    · exact Or.inr (hid ▸ List.mem_cons_self)
    · exact Or.inl (List.mem_filter.mpr ⟨hu, decide_eq_true hid⟩)
  begun id rules ht := by cases List.mem_singleton.mp ht
  ended id ht := by
    obtain rfl := Task.callOff.inj (List.mem_singleton.mp ht)
    exact ⟨hlisted, fun u hu => of_decide_eq_true (List.mem_filter.mp hu).2⟩
  once := List.nodup_nil

end Engine

end Timeshift
