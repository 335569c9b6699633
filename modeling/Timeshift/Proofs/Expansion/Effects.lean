import Timeshift.Proofs.Expansion.Brought
import Timeshift.Proofs.Expansion.Coverage

/-!
# What attachments do

An attachment adds schedules for the programs that have none, and takes over those of the others
that still wait or are canceled. Of several schedules of a program it takes over the one that a
search comes to first. If a write is refused it stops there, and so do all that come after it.
-/

namespace Timeshift

namespace Expansion

open Candidate Store

variable {s t u : Store} {rule : SeriesRule} {programs : List Program} {l c : List Schedule}
  {picks rest : List (SeriesRule × List Program)} {p : ProgramId} {x : Schedule}

/-! ## One attachment -/

def additions (s : Store) (rule : SeriesRule) (programs : List Program) : List Schedule :=
  (unscheduled s programs).map (newSchedule rule)

/-- How far an attachment gets: it adds `l`, and then it takes over `c`. -/
structure Attaches (rule : SeriesRule) (programs : List Program) (s : Store)
    (l c : List Schedule) (t : Store) : Prop where
  looks : LooksLike ((s.brought .added l).brought .changed c) t
  added : l = [] ∨ l = (number s.scheduleIds (additions s rule programs)).1
  changed : c = [] ∨ c = takeovers s rule programs

theorem failsUnseen_discard (l : List Schedule) : FailsUnseen (discard (Store.add l)) := by
  rw [discard_eq]
  exact .before (failsUnseen_add l) fun _ => .pure ()

/-- An attachment may stop early, and one that succeeds does everything. -/
theorem attaches (hkeyed : s.IsKeyed) {r : Except Fault Unit}
    (h : s.run (attach rule programs) = (r, t)) :
    ∃ l c, Attaches rule programs s l c t ∧ (r = .ok () →
      l = (number s.scheduleIds (additions s rule programs)).1 ∧
        c = takeovers s rule programs) := by
  rw [attach, run_bind, run_get] at h
  dsimp only at h
  have hlast : ∀ {u : Store},
      LooksLike (s.brought .added (number s.scheduleIds (additions s rule programs)).1) u →
      u.run (unless (takeovers s rule programs).isEmpty do
        Store.update (takeovers s rule programs)) = (r, t) →
      ∃ l c, Attaches rule programs s l c t ∧ (r = .ok () →
        l = (number s.scheduleIds (additions s rule programs)).1 ∧
          c = takeovers s rule programs) := by
    intro u hlike hu
    split at hu
    · next hnone =>
      obtain rfl := congrArg Prod.snd hu
      refine ⟨_, [], ⟨?_, Or.inr rfl, Or.inl rfl⟩, fun _ => ⟨rfl, ?_⟩⟩
      · exact (LooksLike.brought_nil _ _).trans hlike
      · exact (List.isEmpty_iff.mp hnone).symm
    · cases r with
      | error fault =>
        have hseen := failsUnseen_update _ u fault (by rw [hu])
        rw [hu] at hseen
        refine ⟨_, [], ⟨?_, Or.inr rfl, Or.inl rfl⟩, fun hok => by cases hok⟩
        exact (LooksLike.brought_nil _ _).trans (hlike.trans hseen)
      | ok =>
        have hknown : (takeovers s rule programs).filter (u.live.contains ·.id) =
            takeovers s rule programs := by
          refine List.filter_eq_self.mpr fun x hx => Std.TreeMap.contains_iff_mem.mpr ?_
          obtain ⟨y, hy, -⟩ := of_mem_takeovers hkeyed hx
          rw [hlike.live]
          exact mem_of_get (get_brought_of_live hy)
        have hdone := looksLike_update hu
        rw [hknown] at hdone
        exact ⟨_, _, ⟨(hlike.brought _ _).trans hdone, Or.inr rfl, Or.inr rfl⟩,
          fun _ => ⟨rfl, rfl⟩⟩
  split at h
  · next hnone =>
    refine hlast (u := s) ?_ h
    rw [additions, List.isEmpty_iff.mp hnone]
    exact .brought_nil s _
  · rw [run_bind] at h
    split at h
    · next u hadd =>
      obtain ⟨_, hadd⟩ := run_discard_ok hadd
      exact hlast (looksLike_add hadd) h
    · next fault u hadd =>
      obtain ⟨rfl, rfl⟩ := Prod.mk.inj h
      have hseen := failsUnseen_discard _ s fault (by rw [hadd])
      rw [hadd] at hseen
      refine ⟨[], [], ⟨?_, Or.inl rfl, Or.inl rfl⟩, fun hok => by cases hok⟩
      exact ((LooksLike.brought_nil _ _).trans (LooksLike.brought_nil _ _)).trans hseen

namespace Attaches

variable {id : ScheduleId}

theorem rules (h : Attaches rule programs s l c t) : t.rules = s.rules := h.looks.rules

theorem keyed (h : Attaches rule programs s l c t) (hkeyed : s.IsKeyed) : t.IsKeyed :=
  h.looks.isKeyed ((hkeyed.hold l).congr rfl)

theorem journal (h : Attaches rule programs s l c t) :
    t.journal = s.journal ++ (told .added l ++ told .changed c) := by
  rw [h.looks.journal, ← List.append_assoc]
  rfl

theorem get (h : Attaches rule programs s l c t) (id : ScheduleId) :
    t.live[id]? = (copyIn c id).or ((copyIn l id).or s.live[id]?) := by
  rw [h.looks.live, get_brought, get_brought]

theorem of_mem (h : Attaches rule programs s l c t) (hx : x ∈ l ∨ x ∈ c) :
    x.ruleId = some rule.id ∧ ∃ p ∈ programs, x.programId = some p.id := by
  rcases hx with hx | hx
  · rcases h.added with rfl | rfl
    · cases hx
    · obtain ⟨y, hy, hxy⟩ := mem_number hx
      obtain ⟨p, hp, rfl⟩ := List.mem_map.mp hy
      rw [hxy]
      exact ⟨rfl, p, List.mem_of_mem_filter hp, rfl⟩
  · rcases h.changed with rfl | rfl
    · cases hx
    · obtain ⟨p, hp, y, hy, -, rfl⟩ := mem_takeovers.mp hx
      exact ⟨rfl, p, hp, (mem_of_scheduleOf hy).2⟩

/-- A schedule is as it was, or it is now the rule's schedule for one of the programs. -/
theorem origin (h : Attaches rule programs s l c t) (hx : t.live[id]? = some x) :
    s.live[id]? = some x ∨
      x.ruleId = some rule.id ∧ ∃ p ∈ programs, x.programId = some p.id := by
  rw [h.get, Option.or_eq_some_iff, Option.or_eq_some_iff] at hx
  rcases hx with hchanged | ⟨-, hadded | ⟨-, hold⟩⟩
  · exact Or.inr (h.of_mem (Or.inr (id_of_copyIn hchanged).1))
  · exact Or.inr (h.of_mem (Or.inl (id_of_copyIn hadded).1))
  · exact Or.inl hold

theorem marks (h : Attaches rule programs s l c t) (hp : ∀ p ∈ programs, p.id ∉ s.marks) :
    t.marks = s.marks := by
  have hunmarked : ∀ x, x ∈ l ∨ x ∈ c → ∀ q, x.programId = some q → q ∉ s.marks := by
    intro x hx q hq
    obtain ⟨-, p, hmem, hpid⟩ := h.of_mem hx
    obtain rfl := Option.some.inj (hpid.symm.trans hq)
    exact hp p hmem
  have hadded : (s.brought .added l).marks = s.marks :=
    marks_brought fun x hx => hunmarked x (Or.inl hx)
  rw [h.looks.marks, marks_brought, hadded]
  rw [hadded]
  exact fun x hx => hunmarked x (Or.inr hx)

end Attaches

/-! ## The schedule of a program that is attached -/

/-- What the schedule of a program is after an attachment, if it was this one before. -/
def Becomes (rule : SeriesRule) (programs : List Program) (p : ProgramId) :
    Option Schedule → Schedule → Prop
  | some y, x => x = if canTakeOver y then takenOver rule y else y
  | none, x => ∃ q ∈ programs, q.id = p ∧ x = { newSchedule rule q with id := x.id }

theorem free_of_additions (hroom : s.HasRoom programs.length)
    (hx : x ∈ (number s.scheduleIds (additions s rule programs)).1) : x.id ∉ s.live := by
  obtain ⟨k, hk, hid⟩ := id_of_mem_number hx
  rw [hid]
  exact hroom.unused k (Nat.lt_of_lt_of_le hk (length_added_le s rule programs))

/-- The other programs have the schedules that they had. -/
theorem sameFor_attached (hkeyed : s.IsKeyed) (hroom : s.HasRoom programs.length)
    (h : s.run (attach rule programs) = (.ok (), t)) (hp : ¬ IsAmong programs p) :
    SameFor p s t := by
  obtain ⟨l, c, hattaches, hfull⟩ := attaches hkeyed h
  obtain ⟨rfl, rfl⟩ := hfull rfl
  intro id x hxp
  constructor
  · intro hx
    refine (hattaches.origin hx).resolve_right fun ⟨_, q, hq, hxq⟩ => hp ⟨q, hq, ?_⟩
    exact Option.some.inj (hxq.symm.trans hxp)
  · intro hx
    have hadded : copyIn (number s.scheduleIds (additions s rule programs)).1 id = none := by
      refine copyIn_eq_none.mpr fun y hy hid => ?_
      exact free_of_additions hroom hy (hid ▸ mem_of_get hx)
    have hchanged : copyIn (takeovers s rule programs) id = none := by
      refine copyIn_eq_none.mpr fun y hy hid => ?_
      obtain ⟨z, hz, hyz, -⟩ := of_mem_takeovers hkeyed hy
      rw [hid, hx] at hz
      obtain rfl := Option.some.inj hz
      obtain ⟨-, q, hq, hyq⟩ := hattaches.of_mem (Or.inr hy)
      exact hp ⟨q, hq, Option.some.inj ((hyq.symm.trans hyz).trans hxp)⟩
    rw [hattaches.get, hchanged, hadded, Option.none_or, Option.none_or, hx]

/-- Of the program there is a schedule after an attachment, and every one is what it has to be. -/
structure IsAttached (rule : SeriesRule) (programs : List Program) (p : ProgramId) (s t : Store) :
    Prop where
  found : t.scheduleOf? p ≠ none
  becomes : ∀ x ∈ t.schedules, x.programId = some p → Becomes rule programs p (s.scheduleOf? p) x

namespace IsAttached

theorem exists_becomes (h : IsAttached rule programs p s t) :
    ∃ x, t.scheduleOf? p = some x ∧ Becomes rule programs p (s.scheduleOf? p) x := by
  obtain ⟨x, hx⟩ := Option.ne_none_iff_exists'.mp h.found
  obtain ⟨hmem, hxp⟩ := mem_of_scheduleOf hx
  exact ⟨x, hx, h.becomes x hmem hxp⟩

theorem later (h : IsAttached rule programs p s t) (hsame : SameFor p t u) :
    IsAttached rule programs p s u where
  found := mt hsame.scheduleOf_eq_none_iff.mp h.found
  becomes x hx hxp := h.becomes x ((hsame.mem_schedules_iff hxp).mp hx) hxp

theorem earlier (h : IsAttached rule programs p t u) (hsame : SameFor p s t)
    (hsingle : s.IsSingle p) : IsAttached rule programs p s u where
  found := h.found
  becomes := hsame.scheduleOf_eq hsingle ▸ h.becomes

end IsAttached

theorem becomes_of_mem_takeovers (hx : x ∈ takeovers s rule programs) (hxp : x.programId = some p) :
    Becomes rule programs p (s.scheduleOf? p) x := by
  obtain ⟨q, -, y, hy, ⟨hcan, -⟩, rfl⟩ := mem_takeovers.mp hx
  obtain rfl : q.id = p := Option.some.inj ((mem_of_scheduleOf hy).2.symm.trans hxp)
  rw [hy]
  exact (if_pos hcan).symm

theorem becomes_of_mem_additions (hx : x ∈ (number s.scheduleIds (additions s rule programs)).1)
    (hxp : x.programId = some p) : Becomes rule programs p (s.scheduleOf? p) x := by
  obtain ⟨y, hy, hxy⟩ := mem_number hx
  obtain ⟨q, hq, rfl⟩ := List.mem_map.mp hy
  obtain ⟨hq, hnone⟩ := mem_unscheduled.mp hq
  obtain rfl : q.id = p := Option.some.inj ((congrArg Schedule.programId hxy).symm.trans hxp)
  rw [hnone]
  exact ⟨q, hq, rfl, hxy⟩

/-- A schedule that is found and not taken over cannot be, or would stay the same. -/
theorem becomes_of_left (hp : IsAmong programs p) (hx : s.scheduleOf? p = some x)
    (hleft : copyIn (takeovers s rule programs) x.id = none) :
    Becomes rule programs p (s.scheduleOf? p) x := by
  obtain ⟨q, hq, rfl⟩ := hp
  rw [hx]
  show x = if canTakeOver x then takenOver rule x else x
  split
  · next hcan =>
    by_contra hne
    refine copyIn_eq_none.mp hleft (takenOver rule x) ?_ rfl
    exact mem_takeovers.mpr ⟨q, hq, x, hx, ⟨hcan, Ne.symm hne⟩, rfl⟩
  · rfl

/-- Of the program there was one schedule at most, so a search has come to it. -/
theorem isAttached (hkeyed : s.IsKeyed) (hroom : s.HasRoom programs.length)
    (h : s.run (attach rule programs) = (.ok (), t)) (hp : IsAmong programs p)
    (hsingle : s.IsSingle p) : IsAttached rule programs p s t := by
  obtain ⟨l, c, hattaches, hfull⟩ := attaches hkeyed h
  obtain ⟨rfl, rfl⟩ := hfull rfl
  constructor
  · obtain ⟨hgrows, -, hcovers⟩ := attach_ok (n := 0) hkeyed hroom h
    obtain ⟨q, hq, rfl⟩ := hp
    intro hnone
    obtain ⟨x, hx, hxp, -⟩ := hcovers q hq (hgrows.scheduleOf_eq_none hnone)
    exact scheduleOf_eq_none_iff_mem.mp hnone x hx hxp
  · intro x hx hxp
    obtain ⟨id, hx⟩ := mem_values.mp hx
    rw [hattaches.get, Option.or_eq_some_iff, Option.or_eq_some_iff] at hx
    rcases hx with hchanged | ⟨hleft, hadded | ⟨-, hold⟩⟩
    · exact becomes_of_mem_takeovers (id_of_copyIn hchanged).1 hxp
    · exact becomes_of_mem_additions (id_of_copyIn hadded).1 hxp
    · have hfound : s.scheduleOf? p = some x :=
        hsingle.scheduleOf_eq_some.mpr ⟨mem_values.mpr ⟨id, hold⟩, hxp⟩
      exact becomes_of_left hp hfound (hkeyed id x hold ▸ hleft)

/-! ## All attachments -/

def AreStored (s : Store) (picks : List (SeriesRule × List Program)) : Prop :=
  ∀ pick ∈ picks, s.rule? pick.1.id = some pick.1

theorem AreStored.congr (h : AreStored s picks) (hrules : t.rules = s.rules) :
    AreStored t picks := by
  intro pick hpick
  rw [rule?, hrules]
  exact h pick hpick

theorem AreStored.tail {pick : SeriesRule × List Program} (h : AreStored s (pick :: rest)) :
    AreStored s rest := (List.forall_mem_cons.mp h).2

/-- No program is attached to two of the rules. -/
def AreApart (picks : List (SeriesRule × List Program)) : Prop :=
  picks.Pairwise fun a b => ∀ p ∈ a.2, ¬ IsAmong b.2 p.id

/-- The first attachment is made and the others come after it, or it fails and is the last. -/
theorem attachAll_cons {r : Except Fault Nat} (hrule : s.rule? rule.id = some rule)
    (h : s.run (attachAll ((rule, programs) :: rest)) = (r, t)) :
    (∃ u r', s.run (attach rule programs) = (.ok (), u) ∧ u.run (attachAll rest) = (r', t) ∧
      r = r'.map (programs.length + ·)) ∨
    ∃ fault, r = .error fault ∧ s.run (attach rule programs) = (.error fault, t) := by
  rw [attachAll, run_bind, run_get] at h
  dsimp only at h
  rw [hrule] at h
  dsimp only at h
  split at h
  · next hnone =>
    obtain rfl := List.isEmpty_iff.mp hnone
    refine Or.inl ⟨s, r, rfl, h, ?_⟩
    cases r with
    | error => rfl
    | ok n => exact congrArg Except.ok (Nat.zero_add n).symm
  · rw [run_bind] at h
    split at h
    · next u hattach =>
      rw [run_bind] at h
      split at h
      · next n v hrest =>
        obtain ⟨rfl, rfl⟩ := Prod.mk.inj h
        exact Or.inl ⟨u, .ok n, hattach, hrest, rfl⟩
      · next fault v hrest =>
        obtain ⟨rfl, rfl⟩ := Prod.mk.inj h
        exact Or.inl ⟨u, .error fault, hattach, hrest, rfl⟩
    · next fault u hattach =>
      obtain ⟨rfl, rfl⟩ := Prod.mk.inj h
      exact Or.inr ⟨fault, rfl, hattach⟩

theorem attachAll_origin (hkeyed : s.IsKeyed) (hstored : AreStored s picks)
    {r : Except Fault Nat} (h : s.run (attachAll picks) = (r, t)) {id : ScheduleId}
    (hx : t.live[id]? = some x) : s.live[id]? = some x ∨
      ∃ pick ∈ picks, x.ruleId = some pick.1.id ∧ ∃ p ∈ pick.2, x.programId = some p.id := by
  induction picks generalizing s r with
  | nil =>
    obtain rfl := congrArg Prod.snd h
    exact Or.inl hx
  | cons pick rest ih =>
    have hfirst : ∀ {l c u}, Attaches pick.1 pick.2 s l c u → u.live[id]? = some x →
        s.live[id]? = some x ∨ ∃ made ∈ pick :: rest, x.ruleId = some made.1.id ∧
          ∃ p ∈ made.2, x.programId = some p.id := by
      intro l c u hattaches hxu
      exact (hattaches.origin hxu).imp_right fun hnew => ⟨pick, List.mem_cons_self, hnew⟩
    rcases attachAll_cons (hstored pick List.mem_cons_self) h with
      ⟨u, r', hattach, hrest, -⟩ | ⟨fault, -, hattach⟩
    · obtain ⟨l, c, hattaches, -⟩ := attaches hkeyed hattach
      rcases ih (hattaches.keyed hkeyed) (hstored.tail.congr hattaches.rules) hrest with
        hbefore | ⟨later, hlater, hnew⟩
      · exact hfirst hattaches hbefore
      · exact Or.inr ⟨later, List.mem_cons_of_mem _ hlater, hnew⟩
    · obtain ⟨l, c, hattaches, -⟩ := attaches hkeyed hattach
      exact hfirst hattaches hx

theorem attachAll_marks (hkeyed : s.IsKeyed) (hstored : AreStored s picks)
    (hmarks : ∀ pick ∈ picks, ∀ p ∈ pick.2, p.id ∉ s.marks) {r : Except Fault Nat}
    (h : s.run (attachAll picks) = (r, t)) : t.marks = s.marks := by
  induction picks generalizing s r with
  | nil =>
    obtain rfl := congrArg Prod.snd h
    rfl
  | cons pick rest ih =>
    obtain ⟨hpick, hrest⟩ := List.forall_mem_cons.mp hmarks
    rcases attachAll_cons (hstored pick List.mem_cons_self) h with
      ⟨u, r', hattach, hlater, -⟩ | ⟨fault, -, hattach⟩
    · obtain ⟨l, c, hattaches, -⟩ := attaches hkeyed hattach
      have hsame := hattaches.marks hpick
      rw [ih (hattaches.keyed hkeyed) (hstored.tail.congr hattaches.rules) (hsame ▸ hrest) hlater,
        hsame]
    · obtain ⟨l, c, hattaches, -⟩ := attaches hkeyed hattach
      exact hattaches.marks hpick

theorem attachAll_journal (hkeyed : s.IsKeyed) (hstored : AreStored s picks)
    {r : Except Fault Nat} (h : s.run (attachAll picks) = (r, t)) :
    s.journal <+: t.journal := by
  induction picks generalizing s r with
  | nil =>
    obtain rfl := congrArg Prod.snd h
    exact List.prefix_refl _
  | cons pick rest ih =>
    rcases attachAll_cons (hstored pick List.mem_cons_self) h with
      ⟨u, r', hattach, hlater, -⟩ | ⟨fault, -, hattach⟩
    · obtain ⟨l, c, hattaches, -⟩ := attaches hkeyed hattach
      have hfirst : s.journal <+: u.journal := ⟨_, hattaches.journal.symm⟩
      exact hfirst.trans
        (ih (hattaches.keyed hkeyed) (hstored.tail.congr hattaches.rules) hlater)
    · obtain ⟨l, c, hattaches, -⟩ := attaches hkeyed hattach
      exact ⟨_, hattaches.journal.symm⟩

/-- The attachments are for different programs, so none of them undoes what another one does. -/
theorem isAttached_all (hkeyed : s.IsKeyed) (hstored : AreStored s picks)
    (hapart : AreApart picks) {n : Nat} (hroom : s.HasRoom n)
    (h : s.run (attachAll picks) = (.ok n, t)) :
    (∀ pick ∈ picks, ∀ p ∈ pick.2, s.IsSingle p.id → IsAttached pick.1 pick.2 p.id s t) ∧
    ∀ p, ¬ IsPicked picks p → SameFor p s t := by
  induction picks generalizing s n with
  | nil =>
    obtain rfl := congrArg Prod.snd h
    exact ⟨fun pick hpick => absurd hpick List.not_mem_nil, fun _ _ => .refl _⟩
  | cons pick rest ih =>
    rcases attachAll_cons (hstored pick List.mem_cons_self) h with
      ⟨u, r', hattach, hrest, hr⟩ | ⟨fault, hr, -⟩
    swap
    · cases hr
    cases r' with
    | error => cases hr
    | ok k =>
      obtain rfl := Except.ok.inj hr
      obtain ⟨hgrows, hroom', -⟩ := attach_ok hkeyed hroom hattach
      have hroomFirst : s.HasRoom pick.2.length := hroom.mono (Nat.le_add_right _ _)
      obtain ⟨hfirst, hapart⟩ := List.pairwise_cons.mp hapart
      obtain ⟨hlater, hothers⟩ := ih (hgrows.keyed hkeyed) (hstored.tail.congr hgrows.rules)
        hapart hroom' hrest
      refine ⟨List.forall_mem_cons.mpr ⟨fun p hp hsingle => ?_, fun later hmem p hp hsingle => ?_⟩,
        fun p hnot => ?_⟩
      · have hnow := isAttached hkeyed hroomFirst hattach ⟨p, hp, rfl⟩ hsingle
        refine hnow.later (hothers p.id fun ⟨later, hmem, hlater⟩ => ?_)
        exact hfirst later hmem p hp hlater
      · have hsame : SameFor p.id s u := by
          refine sameFor_attached hkeyed hroomFirst hattach fun ⟨q, hq, hid⟩ => ?_
          exact hfirst later hmem q hq ⟨p, hp, hid.symm⟩
        exact (hlater later hmem p hp (hsame.isSingle_iff.mpr hsingle)).earlier hsame hsingle
      · have hsame := sameFor_attached hkeyed hroomFirst hattach fun hp =>
          hnot ⟨pick, List.mem_cons_self, hp⟩
        exact hsame.trans (hothers p fun ⟨later, hmem, hp⟩ =>
          hnot ⟨later, List.mem_cons_of_mem _ hmem, hp⟩)

/-! ## The picks of an update -/

section Update

variable {f : CandidateFilter} {found : List Program} {rules : List SeriesRule}

/-- What an update picks for each of its rules. -/
def picksOf (s : Store) (f : CandidateFilter) (found : List Program) :
    List (SeriesRule × List Program) :=
  (distinctRules f.rules).map fun rule =>
    (rule, pickFor s f.rules (found.filter f.accepts) rule.id)

theorem run_runWith (s : Store) (search : GuideQuery → List Program) (rules : List SeriesRule)
    (now : Instant) : s.run (runWith search rules now) = s.run (attachAll
      (picksOf s (.ofStore s rules [] now) (search (.forRules rules now)))) := rfl

theorem mem_distinctRules (h : rule ∈ distinctRules rules) : rule ∈ rules := by
  induction rules with
  | nil => exact h
  | cons r rest ih =>
    rcases List.mem_cons.mp h with rfl | hrest
    · exact List.mem_cons_self
    · exact List.mem_cons_of_mem r (ih (List.mem_of_mem_filter hrest))

theorem ids_distinctRules (rules : List SeriesRule) :
    ((distinctRules rules).map (·.id)).Nodup := by
  induction rules with
  | nil => exact List.nodup_nil
  | cons r rest ih =>
    rw [distinctRules, List.map_cons, List.nodup_cons]
    refine ⟨fun hmem => ?_, (List.filter_sublist.map _).nodup ih⟩
    obtain ⟨x, hx, hid⟩ := List.mem_map.mp hmem
    exact of_decide_eq_true (List.mem_filter.mp hx).2 hid

theorem exists_distinctRules (h : rule ∈ rules) : ∃ r ∈ distinctRules rules, r.id = rule.id := by
  induction rules with
  | nil => cases h
  | cons x rest ih =>
    by_cases hid : x.id = rule.id
    · exact ⟨x, List.mem_cons_self, hid⟩
    rcases List.mem_cons.mp h with rfl | hrest
    · exact absurd rfl hid
    · obtain ⟨r, hr, hrid⟩ := ih hrest
      have hne : r.id ≠ x.id := fun hsame => hid (hsame.symm.trans hrid)
      exact ⟨r, List.mem_cons_of_mem x (List.mem_filter.mpr ⟨hr, decide_eq_true hne⟩), hrid⟩

theorem of_mem_picksOf {pick : SeriesRule × List Program} (hpick : pick ∈ picksOf s f found) :
    pick.1 ∈ f.rules ∧ ∀ p ∈ pick.2,
      p ∈ found ∧ f.accepts p = true ∧ ruleIdFor f.rules p = some pick.1.id := by
  obtain ⟨r, hr, rfl⟩ := List.mem_map.mp hpick
  refine ⟨mem_distinctRules hr, fun p hp => ?_⟩
  obtain ⟨hcandidate, hid⟩ := of_mem_pickFor hp
  obtain ⟨hfound, haccepts⟩ := List.mem_filter.mp hcandidate
  exact ⟨hfound, haccepts, hid⟩

theorem areStored_picksOf (hstored : ∀ r ∈ f.rules, s.rule? r.id = some r) :
    AreStored s (picksOf s f found) :=
  fun pick hpick => hstored pick.1 (of_mem_picksOf hpick).1

/-- A program goes to one rule, so no program is attached to two of them. -/
theorem areApart_picksOf (hfound : (found.map (·.id)).Nodup) : AreApart (picksOf s f found) := by
  have hrules : (distinctRules f.rules).Pairwise fun a b => a.id ≠ b.id :=
    List.pairwise_map.mp (ids_distinctRules f.rules)
  refine List.pairwise_map.mpr (hrules.imp fun hne p hp ⟨q, hq, hid⟩ => hne ?_)
  obtain ⟨hpmem, hpid⟩ := of_mem_pickFor hp
  obtain ⟨hqmem, hqid⟩ := of_mem_pickFor hq
  obtain rfl := List.inj_on_of_nodup_map hfound (List.mem_of_mem_filter hqmem)
    (List.mem_of_mem_filter hpmem) hid
  exact Option.some.inj (hpid.symm.trans hqid)

end Update

end Expansion

end Timeshift
