import Timeshift.Expansion.Update
import Timeshift.Proofs.Store.Success

/-!
# Attaching programs to rules

An update only adds schedules, and it only adds them for programs that have none. A schedule that
is taken over by a rule stays what it is otherwise.
-/

namespace Timeshift

namespace Store

variable {s t u : Store} {P Q : ProgramId → Prop} {p : ProgramId} {x y : Schedule}

/-! ## The schedule that a search comes to -/

theorem mem_listing : x ∈ s.listing.schedules s.schedules ↔ x ∈ s.schedules :=
  (s.listing.schedules_perm s.schedules).mem_iff

theorem mem_of_scheduleOf (h : s.scheduleOf? p = some x) :
    x ∈ s.schedules ∧ x.programId = some p := by
  have hp := List.find?_some h
  exact ⟨mem_listing.mp (List.mem_of_find?_eq_some h), beq_iff_eq.mp hp⟩

theorem scheduleOf_eq_none_iff_mem : s.scheduleOf? p = none ↔
    ∀ x ∈ s.schedules, x.programId ≠ some p := by
  simp only [scheduleOf?, List.find?_eq_none, mem_listing, beq_iff_eq]

theorem scheduleOf_eq_none : s.scheduleOf? p = none ↔
    ∀ (id : ScheduleId) (x : Schedule), s.live[id]? = some x → x.programId ≠ some p := by
  simp only [scheduleOf_eq_none_iff_mem, schedules, mem_values]
  constructor
  · exact fun h id x hx => h x ⟨id, hx⟩
  · rintro h x ⟨id, hx⟩
    exact h id x hx

theorem scheduleOf_eq_none_congr (hlive : t.live = s.live) :
    t.scheduleOf? p = none ↔ s.scheduleOf? p = none := by
  rw [scheduleOf_eq_none, scheduleOf_eq_none, hlive]

theorem live_of_scheduleOf (hkeyed : s.IsKeyed) (h : s.scheduleOf? p = some x) :
    s.live[x.id]? = some x ∧ x.programId = some p := by
  obtain ⟨hx, hp⟩ := mem_of_scheduleOf h
  obtain ⟨id, hid⟩ := mem_values.mp hx
  rw [hkeyed id x hid]
  exact ⟨hid, hp⟩

/-- Whichever schedule of a program it is, some search comes to it first. -/
theorem exists_listing (hx : x ∈ s.schedules) (hp : x.programId = some p) :
    ∃ listing, { s with listings := fun _ => listing }.scheduleOf? p = some x := by
  refine ⟨⟨fun l => if x ∈ l then x :: l.erase x else l, id, fun l => ?_, .refl⟩, ?_⟩
  · split
    · next hmem => exact (List.perm_cons_erase hmem).symm
    · exact .refl l
  · show List.find? _ (if x ∈ s.schedules then x :: s.schedules.erase x else s.schedules) = some x
    rw [if_pos hx, List.find?_cons, hp, beq_self_eq_true]

/-- No two schedules in use are for the program. -/
def IsSingle (s : Store) (p : ProgramId) : Prop :=
  ∀ x ∈ s.schedules, ∀ y ∈ s.schedules, x.programId = some p → y.programId = some p → x = y

instance (s : Store) (p : ProgramId) : Decidable (s.IsSingle p) := inferInstanceAs (Decidable
  (∀ x ∈ s.schedules, ∀ y ∈ s.schedules, x.programId = some p → y.programId = some p → x = y))

theorem isSingle_of_none (h : s.scheduleOf? p = none) : s.IsSingle p :=
  fun x hx _ _ hxp => absurd hxp (scheduleOf_eq_none_iff_mem.mp h x hx)

/-- In whatever order a search goes, it comes to the only schedule of a program. -/
theorem IsSingle.scheduleOf_eq_some (h : s.IsSingle p) :
    s.scheduleOf? p = some x ↔ x ∈ s.schedules ∧ x.programId = some p := by
  refine ⟨mem_of_scheduleOf, fun ⟨hx, hp⟩ => ?_⟩
  cases hfound : s.scheduleOf? p with
  | none => exact absurd hp (scheduleOf_eq_none_iff_mem.mp hfound x hx)
  | some y =>
    obtain ⟨hy, hyp⟩ := mem_of_scheduleOf hfound
    rw [h y hy x hx hyp hp]

/-! ## Covering -/

/-- A schedule for the program is in use that has neither failed nor lost a part. -/
def Covers (s : Store) (p : ProgramId) : Prop :=
  ∃ x ∈ s.schedules, x.programId = some p ∧ x.state ≠ .failed ∧ x.state ≠ .clipped

instance (s : Store) (p : ProgramId) : Decidable (s.Covers p) := inferInstanceAs (Decidable
  (∃ x ∈ s.schedules, x.programId = some p ∧ x.state ≠ .failed ∧ x.state ≠ .clipped))

theorem covers_iff : s.Covers p ↔ ∃ (id : ScheduleId) (x : Schedule), s.live[id]? = some x ∧
    x.programId = some p ∧ x.state ≠ .failed ∧ x.state ≠ .clipped := by
  simp only [Covers, schedules, mem_values]
  constructor
  · rintro ⟨x, ⟨id, hx⟩, h⟩
    exact ⟨id, x, hx, h⟩
  · rintro ⟨id, x, hx, h⟩
    exact ⟨x, ⟨id, hx⟩, h⟩

/-! ## Growing -/

/-- Both copies are of one program, and in one state. -/
def SameCourse (x y : Schedule) : Prop := y.programId = x.programId ∧ y.state = x.state

/-- Every schedule stays in its state, and the new ones wait, or are canceled. They are for
programs that had none, and for which `P` holds. -/
structure Grows (P : ProgramId → Prop) (s t : Store) : Prop where
  rules : t.rules = s.rules
  keyed : s.IsKeyed → t.IsKeyed
  kept : ∀ (id : ScheduleId) (x : Schedule), s.live[id]? = some x →
    ∃ y, t.live[id]? = some y ∧ SameCourse x y
  new : ∀ (id : ScheduleId) (y : Schedule), t.live[id]? = some y →
    (∃ x, s.live[id]? = some x ∧ SameCourse x y) ∨
      (y.state = .notStarted ∨ y.state = .canceled) ∧
        ∃ p, y.programId = some p ∧ P p ∧ s.scheduleOf? p = none

namespace Grows

theorem refl (s : Store) : Grows P s s where
  rules := rfl
  keyed h := h
  kept _ x hx := ⟨x, hx, rfl, rfl⟩
  new _ y hy := Or.inl ⟨y, hy, rfl, rfl⟩

/-- A program that has no schedule later had none before. -/
theorem scheduleOf_eq_none (h : Grows P s t) (hnone : t.scheduleOf? p = none) :
    s.scheduleOf? p = none := by
  rw [Store.scheduleOf_eq_none] at hnone ⊢
  intro id x hx hp
  obtain ⟨y, hy, hsame, -⟩ := h.kept id x hx
  exact hnone id y hy (hsame.trans hp)

/-- A program that is not one of those in question has no schedule if it had none. -/
theorem scheduleOf_eq_none_iff (h : Grows P s t) (hp : ¬ P p) :
    t.scheduleOf? p = none ↔ s.scheduleOf? p = none := by
  refine ⟨h.scheduleOf_eq_none, fun hnone => ?_⟩
  rw [Store.scheduleOf_eq_none] at hnone ⊢
  intro id y hy hyp
  rcases h.new id y hy with ⟨x, hx, hsame, -⟩ | ⟨-, q, hq, hP, -⟩
  · exact hnone id x hx (hsame.symm.trans hyp)
  · obtain rfl := Option.some.inj (hq.symm.trans hyp)
    exact hp hP

theorem trans (h : Grows P s t) (h' : Grows P t u) : Grows P s u where
  rules := h'.rules.trans h.rules
  keyed hs := h'.keyed (h.keyed hs)
  kept id x hx := by
    obtain ⟨y, hy, hp, hstate⟩ := h.kept id x hx
    obtain ⟨z, hz, hp', hstate'⟩ := h'.kept id y hy
    exact ⟨z, hz, hp'.trans hp, hstate'.trans hstate⟩
  new id z hz := by
    rcases h'.new id z hz with ⟨y, hy, hp', hstate'⟩ | ⟨hstate, p, hp, hP, hnone⟩
    · rcases h.new id y hy with ⟨x, hx, hp, hstate⟩ | ⟨hstate, p, hp, hP, hnone⟩
      · exact Or.inl ⟨x, hx, hp'.trans hp, hstate'.trans hstate⟩
      · exact Or.inr ⟨hstate' ▸ hstate, p, hp'.trans hp, hP, hnone⟩
    · exact Or.inr ⟨hstate, p, hp, hP, h.scheduleOf_eq_none hnone⟩

theorem mono (h : Grows P s t) (hPQ : ∀ p, P p → Q p) : Grows Q s t where
  rules := h.rules
  keyed := h.keyed
  kept := h.kept
  new id y hy := by
    refine (h.new id y hy).imp_right fun ⟨hstate, p, hp, hP, hnone⟩ => ?_
    exact ⟨hstate, p, hp, hPQ p hP, hnone⟩

theorem covers (h : Grows P s t) (hp : s.Covers p) : t.Covers p := by
  obtain ⟨id, x, hx, hxp, hsound⟩ := covers_iff.mp hp
  obtain ⟨y, hy, hyp, hstate⟩ := h.kept id x hx
  exact covers_iff.mpr ⟨id, y, hy, hyp.trans hxp, hstate ▸ hsound⟩

/-- A new schedule is a sound one. -/
theorem covers_of_new (h : Grows P s t) (hbefore : s.scheduleOf? p = none)
    (hafter : t.scheduleOf? p ≠ none) : t.Covers p := by
  rw [Store.scheduleOf_eq_none] at hbefore
  rw [ne_eq, Store.scheduleOf_eq_none] at hafter
  push Not at hafter
  obtain ⟨id, y, hy, hyp⟩ := hafter
  refine covers_iff.mpr ⟨id, y, hy, hyp, ?_⟩
  rcases h.new id y hy with ⟨x, hx, hxp, -⟩ | ⟨hstate, -⟩
  · exact absurd (hxp.symm.trans hyp) (hbefore id x hx)
  · rcases hstate with hstate | hstate <;> exact hstate ▸ ⟨nofun, nofun⟩

/-- What is covered anew had no schedule, and is one of the programs in question. -/
theorem of_covers (h : Grows P s t) (hp : t.Covers p) :
    s.Covers p ∨ P p ∧ s.scheduleOf? p = none := by
  obtain ⟨id, y, hy, hyp, hsound⟩ := covers_iff.mp hp
  rcases h.new id y hy with ⟨x, hx, hxp, hstate⟩ | ⟨-, q, hq, hP, hnone⟩
  · exact Or.inl (covers_iff.mpr ⟨id, x, hx, hxp.symm.trans hyp, hstate ▸ hsound⟩)
  · obtain rfl := Option.some.inj (hq.symm.trans hyp)
    exact Or.inr ⟨hP, hnone⟩

end Grows

end Store

namespace Expansion

open Store

variable {s t : Store} {rule : SeriesRule} {programs : List Program}

/-! ## One rule -/

/-- The programs are among these. -/
def IsAmong (programs : List Program) (p : ProgramId) : Prop := ∃ q ∈ programs, q.id = p

theorem mem_unscheduled {p : Program} :
    p ∈ unscheduled s programs ↔ p ∈ programs ∧ s.scheduleOf? p.id = none := by
  rw [unscheduled, List.mem_filter, Option.isNone_iff_eq_none]

theorem length_added_le (s : Store) (rule : SeriesRule) (programs : List Program) :
    ((unscheduled s programs).map (newSchedule rule)).length ≤ programs.length := by
  rw [List.length_map]
  exact List.length_filter_le _ _

/-- Exactly the programs without a schedule get one. -/
theorem grows_added (hkeyed : s.IsKeyed) (hroom : s.HasRoom programs.length)
    (h : Takes (s.numbered ((unscheduled s programs).map (newSchedule rule)))
      (number s.scheduleIds ((unscheduled s programs).map (newSchedule rule))).1 t) :
    Grows (IsAmong programs) s t ∧
      ∀ p ∈ programs, s.scheduleOf? p.id = none → t.scheduleOf? p.id ≠ none := by
  have hlength := length_added_le s rule programs
  generalize hl : (unscheduled s programs).map (newSchedule rule) = l at h hlength
  have hget : ∀ id : ScheduleId,
      t.live[id]? = (copyIn (number s.scheduleIds l).1 id).or s.live[id]? := by
    intro id
    rw [h.live, get_hold]
    rfl
  refine ⟨⟨h.rules, fun _ => ?_, fun id x hx => ?_, fun id y hy => ?_⟩, fun p hp hnone => ?_⟩
  · have hnumbered : (s.numbered l).IsKeyed := hkeyed.congr rfl
    exact (hnumbered.hold _).congr h.live
  · have hfree : copyIn (number s.scheduleIds l).1 id = none := by
      refine copyIn_eq_none.mpr fun z hz hid => ?_
      obtain ⟨k, hk, hzid⟩ := id_of_mem_number hz
      exact hroom.unused k (by omega) (hzid ▸ hid ▸ mem_of_get hx)
    exact ⟨x, by rw [hget, hfree, Option.none_or, hx], rfl, rfl⟩
  · rw [hget, Option.or_eq_some_iff] at hy
    rcases hy with hnew | ⟨-, hold⟩
    · obtain ⟨z, hz, hyz⟩ := mem_number (id_of_copyIn hnew).1
      obtain ⟨q, hq, rfl⟩ := List.mem_map.mp (hl ▸ hz)
      obtain ⟨hq, hnone⟩ := mem_unscheduled.mp hq
      refine Or.inr ⟨?_, q.id, ?_, ⟨q, hq, rfl⟩, hnone⟩
      · rw [hyz]
        show (if rule.isCanceled then _ else _) = _ ∨ (if rule.isCanceled then _ else _) = _
        split
        · exact Or.inr rfl
        · exact Or.inl rfl
      · rw [hyz]
        rfl
    · exact Or.inl ⟨y, hold, rfl, rfl⟩
  · have hadded : newSchedule rule p ∈ l :=
      hl ▸ List.mem_map_of_mem (mem_unscheduled.mpr ⟨hp, hnone⟩)
    obtain ⟨id, hid⟩ := exists_mem_number (c := s.scheduleIds) hadded
    have hcopy := copyIn_of_nodup (ids_number s.scheduleIds (Nat.le_trans hlength hroom.bound)) hid
    rw [ne_eq, scheduleOf_eq_none]
    exact fun hall => hall id _ (by rw [hget, hcopy, Option.some_or]) rfl

/-- A schedule that is taken over keeps its course. -/
theorem grows_updated {l : List Schedule} {P : ProgramId → Prop}
    (hl : ∀ x ∈ l, ∃ y, s.live[x.id]? = some y ∧ SameCourse y x) (h : Takes s l t) :
    Grows P s t := by
  have hget : ∀ id : ScheduleId, t.live[id]? = (copyIn l id).or s.live[id]? := by
    intro id
    rw [h.live, get_hold]
  have hcopy : ∀ (id : ScheduleId) (z : Schedule), copyIn l id = some z →
      ∃ y, s.live[id]? = some y ∧ SameCourse y z := by
    intro id z hz
    obtain ⟨hmem, rfl⟩ := id_of_copyIn hz
    exact hl z hmem
  refine ⟨h.rules, fun hkeyed => (hkeyed.hold l).congr h.live, fun id x hx => ?_, fun id y hy => ?_⟩
  · rw [hget]
    cases hz : copyIn l id with
    | none => exact ⟨x, hx, rfl, rfl⟩
    | some z =>
      obtain ⟨y, hy, hsame⟩ := hcopy id z hz
      obtain rfl := Option.some.inj (hy.symm.trans hx)
      exact ⟨z, rfl, hsame⟩
  · rw [hget, Option.or_eq_some_iff] at hy
    rcases hy with hz | ⟨-, hold⟩
    · exact Or.inl (hcopy id y hz)
    · exact Or.inl ⟨y, hold, rfl, rfl⟩

theorem mem_takeovers {x : Schedule} : x ∈ takeovers s rule programs ↔ ∃ p ∈ programs, ∃ y,
    s.scheduleOf? p.id = some y ∧ (canTakeOver y = true ∧ takenOver rule y ≠ y) ∧
      x = takenOver rule y := by
  rw [takeovers, List.mem_filterMap]
  refine exists_congr fun p => and_congr_right fun _ => ?_
  rw [Option.bind_eq_some_iff]
  refine exists_congr fun y => and_congr_right fun _ => ?_
  rw [Option.ite_none_right_eq_some, Bool.and_eq_true, decide_eq_true_eq, Option.some_inj,
    eq_comm (a := x)]

theorem of_mem_takeovers {x : Schedule} (hkeyed : s.IsKeyed) (hx : x ∈ takeovers s rule programs) :
    ∃ y, s.live[x.id]? = some y ∧ SameCourse y x := by
  obtain ⟨p, -, y, hy, -, rfl⟩ := mem_takeovers.mp hx
  exact ⟨y, (live_of_scheduleOf hkeyed hy).1, rfl, rfl⟩

theorem discard_eq {α : Type} (op : Store.Op α) : discard op = op >>= fun _ => pure () := by
  simp only [discard, Functor.discard, LawfulFunctor.map_const, Function.comp_apply,
    map_eq_pure_bind, Function.const_apply]

theorem run_discard_ok {α : Type} {op : Store.Op α} (h : s.run (discard op) = (.ok (), t)) :
    ∃ a, s.run op = (.ok a, t) := by
  rw [discard_eq] at h
  obtain ⟨a, u, hop, hpure⟩ := run_bind_ok h
  obtain rfl := congrArg Prod.snd hpure
  exact ⟨a, hop⟩

/-- What an attachment that succeeds has done: first it has added schedules, and then it has taken
over others. -/
theorem takes_attach (h : s.run (attach rule programs) = (.ok (), t)) :
    ∃ u, Takes (s.numbered ((unscheduled s programs).map (newSchedule rule)))
        (number s.scheduleIds ((unscheduled s programs).map (newSchedule rule))).1 u ∧
      Takes u ((takeovers s rule programs).filter (u.live.contains ·.id)) t := by
  rw [attach, run_bind, run_get] at h
  dsimp only at h
  have hlast : ∀ {u : Store}, u.run (unless (takeovers s rule programs).isEmpty do
      Store.update (takeovers s rule programs)) = (.ok (), t) →
        Takes u ((takeovers s rule programs).filter (u.live.contains ·.id)) t := by
    intro u hu
    split at hu
    · next hnone =>
      obtain rfl := congrArg Prod.snd hu
      rw [List.isEmpty_iff.mp hnone]
      exact ⟨rfl, rfl, rfl⟩
    · exact takes_update hu
  split at h
  · next hnone =>
    refine ⟨s, ?_, hlast h⟩
    rw [List.isEmpty_iff.mp hnone]
    exact ⟨rfl, rfl, rfl⟩
  · obtain ⟨_, u, hadd, h⟩ := run_bind_ok h
    obtain ⟨_, hadd⟩ := run_discard_ok hadd
    exact ⟨u, takes_add hadd, hlast h⟩

/-- An attachment that succeeds makes schedules for the programs that had none. -/
theorem attach_ok (hkeyed : s.IsKeyed) {n : Nat} (hroom : s.HasRoom (programs.length + n))
    (h : s.run (attach rule programs) = (.ok (), t)) :
    Grows (IsAmong programs) s t ∧ t.HasRoom n ∧
      ∀ p ∈ programs, s.scheduleOf? p.id = none → t.Covers p.id := by
  obtain ⟨u, hadd, hupdate⟩ := takes_attach h
  obtain ⟨hgrows, hnew⟩ := grows_added hkeyed (hroom.mono (Nat.le_add_right _ _)) hadd
  have htaken : ∀ x ∈ (takeovers s rule programs).filter (u.live.contains ·.id),
      ∃ y, u.live[x.id]? = some y ∧ SameCourse y x := by
    intro x hx
    obtain ⟨y, hy, hp, hstate⟩ := of_mem_takeovers hkeyed (List.mem_of_mem_filter hx)
    obtain ⟨z, hz, hp', hstate'⟩ := hgrows.kept x.id y hy
    exact ⟨z, hz, hp.trans hp'.symm, hstate.trans hstate'.symm⟩
  have hgrows' : Grows (IsAmong programs) u t := grows_updated htaken hupdate
  refine ⟨hgrows.trans hgrows', ?_, fun p hp hnone => ?_⟩
  · refine (hroom.added (length_added_le _ _ _) hadd).congr hupdate.scheduleIds fun id hid => ?_
    obtain ⟨y, hy⟩ := mem_iff_get.mp hid
    rw [hupdate.live, get_hold, Option.or_eq_some_iff] at hy
    rcases hy with hcopy | ⟨-, hold⟩
    · obtain ⟨hmem, rfl⟩ := id_of_copyIn hcopy
      exact Std.TreeMap.contains_iff_mem.mp (List.mem_filter.mp hmem).2
    · exact mem_of_get hold
  · exact hgrows'.covers (hgrows.covers_of_new hnone (hnew p hp hnone))

/-! ## All rules -/

/-- The programs are among those of some rule. -/
def IsPicked (picks : List (SeriesRule × List Program)) (p : ProgramId) : Prop :=
  ∃ pick ∈ picks, IsAmong pick.2 p

theorem attachAll_ok {picks : List (SeriesRule × List Program)} (hkeyed : s.IsKeyed) {n : Nat}
    (h : s.run (attachAll picks) = (.ok n, t)) (hroom : s.HasRoom n) :
    Grows (IsPicked picks) s t ∧
      ∀ pick ∈ picks, (s.rule? pick.1.id).isSome = true → ∀ p ∈ pick.2,
        s.scheduleOf? p.id = none → t.Covers p.id := by
  induction picks generalizing s n with
  | nil =>
    obtain rfl := congrArg Prod.snd h
    exact ⟨.refl s, fun pick hpick => absurd hpick List.not_mem_nil⟩
  | cons pick rest ih =>
    obtain ⟨rule, programs⟩ := pick
    have hmono : ∀ p, IsPicked rest p → IsPicked ((rule, programs) :: rest) p :=
      fun p ⟨pick, hpick, hp⟩ => ⟨pick, List.mem_cons_of_mem _ hpick, hp⟩
    rw [attachAll, run_bind, run_get] at h
    dsimp only at h
    split at h
    · next current hcurrent =>
      split at h
      · next hnone =>
        obtain ⟨hgrows, hcovers⟩ := ih hkeyed h hroom
        refine ⟨hgrows.mono hmono, List.forall_mem_cons.mpr ⟨fun _ p hp => ?_, hcovers⟩⟩
        rw [List.isEmpty_iff.mp hnone] at hp
        exact absurd hp List.not_mem_nil
      · obtain ⟨_, u, hattach, h⟩ := run_bind_ok h
        obtain ⟨k, v, hrest, hpure⟩ := run_bind_ok h
        obtain ⟨hn, rfl⟩ := Prod.mk.inj hpure
        obtain rfl := Except.ok.inj hn
        obtain ⟨hfirst, hroom', hcovers⟩ := attach_ok hkeyed hroom hattach
        obtain ⟨hlater, hcovers'⟩ := ih (hfirst.keyed hkeyed) hrest hroom'
        refine ⟨(hfirst.mono fun p hp => ⟨_, List.mem_cons_self, hp⟩).trans (hlater.mono hmono),
          List.forall_mem_cons.mpr ⟨fun _ p hp hnone => hlater.covers (hcovers p hp hnone), ?_⟩⟩
        intro pick hpick hrule p hp hnone
        by_cases hbefore : u.scheduleOf? p.id = none
        · exact hcovers' pick hpick (by rwa [rule?, hfirst.rules]) p hp hbefore
        · exact hlater.covers (hfirst.covers_of_new hnone hbefore)
    · next hgone =>
      obtain ⟨hgrows, hcovers⟩ := ih hkeyed h hroom
      refine ⟨hgrows.mono hmono, List.forall_mem_cons.mpr ⟨fun hrule => ?_, hcovers⟩⟩
      rw [hgone] at hrule
      cases hrule

end Expansion

end Timeshift
