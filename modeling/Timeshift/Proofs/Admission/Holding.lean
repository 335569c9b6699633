import Timeshift.Proofs.Admission.Changes

/-!
# What a desk holds

A desk holds a schedule that waits, or whose recording it has not told to end. A message says of
a schedule that it may be held from now on, or that it is not, or nothing at all.
-/

namespace Timeshift

namespace Admission

variable {l : License} {a b : Admission} {id : ScheduleId}

/-- The schedule waits, or has a recording that has not been told to end. -/
def Holds (a : Admission) (id : ScheduleId) : Prop :=
  id ∈ a.waiting ∨ ∃ t, a.active[id]? = some t ∧ t.isStopping = false

instance : Decidable (a.Holds id) :=
  inferInstanceAs (Decidable (id ∈ a.waiting ∨ ∃ t ∈ a.active[id]?, t.isStopping = false))

/-! ## Changes -/

theorem Holds.of_dismiss {k : ScheduleId} (h : (a.dismiss k).Holds id) : a.Holds id :=
  h.imp_left fun hwait => Std.TreeMap.mem_of_mem_erase hwait

theorem Holds.of_enqueue {s : Schedule} (h : (a.enqueue s).Holds id) : s.id = id ∨ a.Holds id := by
  rcases h with hwait | hon
  · rw [enqueue, Std.TreeMap.mem_insert, Std.LawfulEqOrd.compare_eq_iff_eq] at hwait
    exact hwait.imp_right Or.inl
  · exact Or.inr (Or.inr hon)

/-- A recording that is told to end holds its schedule no longer. -/
theorem holds_tellEnd {t : Running} {order : Order} (h : (a.tellEnd t order).1.Holds id) :
    id ∈ a.waiting ∨ t.schedule.id ≠ id ∧ a.Holds id := by
  rcases h with hwait | ⟨u, hu, hstopping⟩
  · exact Or.inl hwait
  · simp only [tellEnd, get_insert] at hu
    split at hu
    · obtain rfl := Option.some.inj hu
      cases hstopping
    · next hne => exact Or.inr ⟨hne, Or.inr ⟨u, hu, hstopping⟩⟩

theorem Holds.of_tellEnd {t : Running} {order : Order} (h : (a.tellEnd t order).1.Holds id) :
    a.Holds id := (holds_tellEnd h).elim Or.inl (·.2)

/-- What is held anew has been taken over. -/
theorem holds_change {turn : Turn} (hchange : Change l a turn) (h : turn.1.Holds id) :
    a.Holds id ∨ ∃ s, l.takes s ∧ s.id = id := by
  cases hchange with
  | note | answer => exact Or.inl h
  | join s hs | replace s hs =>
    rcases h.of_enqueue with hid | hbefore
    · exact Or.inr ⟨s, hs, hid⟩
    · exact Or.inl hbefore
  | requeue s t hs =>
    rcases h.of_tellEnd.of_enqueue with hid | hbefore
    · exact Or.inr ⟨s, hs, hid⟩
    · exact Or.inl hbefore
  | follow s t hs =>
    rcases h with hwait | ⟨u, hu, hstopping⟩
    · exact Or.inl (Or.inl hwait)
    · rw [get_insert] at hu
      split at hu
      · next hid => exact Or.inr ⟨s, hs, hid⟩
      · exact Or.inl (Or.inr ⟨u, hu, hstopping⟩)
  | drop k => exact Or.inl h.of_dismiss
  | callOff k t => exact Or.inl h.of_tellEnd.of_dismiss
  | clear =>
    rcases h with hwait | hon
    · exact absurd hwait Std.TreeMap.not_mem_emptyc
    · exact Or.inl (Or.inr hon)
  | stop k t => exact Or.inl h.of_tellEnd
  | close k t =>
    rcases h with hwait | ⟨u, hu, hstopping⟩
    · exact Or.inl (Or.inl hwait)
    · rw [get_erase] at hu
      split at hu
      · cases hu
      · exact Or.inl (Or.inr ⟨u, hu, hstopping⟩)
  | fail s => exact Or.inl h.of_dismiss
  | start s channel hwaits =>
    rcases h with hwait | ⟨u, hu, hstopping⟩
    · exact Or.inl (Or.inl (Std.TreeMap.mem_of_mem_erase hwait))
    · simp only [begin, get_insert] at hu
      split at hu
      · next hid => exact Or.inl (Or.inl (hid ▸ mem_of_get hwaits))
      · exact Or.inl (Or.inr ⟨u, hu, hstopping⟩)

theorem holds_changes {turn : Turn} (hall : Changes l a turn) (h : turn.1.Holds id) :
    a.Holds id ∨ ∃ s, l.takes s ∧ s.id = id := by
  refine hall.keeps (P := fun b => b.Holds id → a.Holds id ∨ ∃ s, l.takes s ∧ s.id = id)
    (fun hb hchange hc => ?_) Or.inl h
  rcases holds_change hchange hc with hbefore | htaken
  · exact hb hbefore
  · exact Or.inr htaken

/-! ## Words -/

/-- What becomes of a schedule at a desk. -/
inductive Word where
  /-- The desk may hold it from now on. -/
  | take
  /-- The desk holds it no longer. -/
  | drop
  deriving DecidableEq

/-- Whether a schedule may be held after a word, or after none. -/
def heldAfter (held : Prop) : Option Word → Prop
  | none => held
  | some .take => True
  | some .drop => False

theorem heldAfter_mono {held held' : Prop} (h : held → held') {w : Option Word} :
    heldAfter held w → heldAfter held' w := by
  cases w with
  | none => exact h
  | some w => cases w <;> exact id

/-- Whether a schedule may be held after some words, the first one first. -/
def mayHold (held : Prop) (words : List (Option Word)) : Prop := words.foldl heldAfter held

section mayHold

variable {held held' : Prop} {w : Option Word} {words more : List (Option Word)}

theorem mayHold_cons : mayHold held (w :: words) = mayHold (heldAfter held w) words := rfl

theorem mayHold_append : mayHold held (words ++ more) = mayHold (mayHold held words) more :=
  List.foldl_append

theorem mayHold_mono (h : held → held') : mayHold held words → mayHold held' words := by
  induction words generalizing held held' with
  | nil => exact h
  | cons w rest ih => exact ih (heldAfter_mono h)

/-- Without a word nothing changes. -/
theorem mayHold_silent (h : ∀ w ∈ words, w = none) : mayHold held words = held := by
  induction words generalizing held with
  | nil => rfl
  | cons w rest ih =>
    rw [mayHold_cons, h w List.mem_cons_self]
    exact ih fun w hw => h w (List.mem_cons_of_mem _ hw)

/-- What is not taken must have been held, and never dropped. -/
theorem held_of_mayHold (htake : ∀ w ∈ words, w ≠ some .take) (h : mayHold held words) :
    held ∧ ∀ w ∈ words, w = none := by
  induction words generalizing held with
  | nil => exact ⟨h, fun w hw => absurd hw List.not_mem_nil⟩
  | cons w rest ih =>
    obtain ⟨hheld, hrest⟩ := ih (fun w hw => htake w (List.mem_cons_of_mem _ hw)) h
    cases w with
    | none => exact ⟨hheld, List.forall_mem_cons.mpr ⟨rfl, hrest⟩⟩
    | some w =>
      cases w with
      | take => exact absurd rfl (htake _ List.mem_cons_self)
      | drop => exact hheld.elim

/-- A schedule that may be held was held before or is taken. -/
theorem take_of_mayHold (h : mayHold held words) : held ∨ some .take ∈ words := by
  by_cases htake : some .take ∈ words
  · exact Or.inr htake
  · exact Or.inl (held_of_mayHold (fun w hw heq => htake (heq ▸ hw)) h).1

/-- Of what has been said only the last part is remembered. -/
theorem mayHold_of_suffix (hsuffix : words <:+ more) (h : mayHold False words) :
    mayHold False more := by
  obtain ⟨pre, rfl⟩ := hsuffix
  rw [mayHold_append]
  exact mayHold_mono False.elim h

end mayHold

def Message.wordOn (id : ScheduleId) : Message → Option Word
  | .add s | .update s => if s.id = id then some .take else none
  | .remove k => if k = id then some .drop else none
  | .reconcile pending => if pending.any (·.id = id) then some .take else some .drop
  | _ => none

theorem not_holds_handleRemove (h : a.IsKeyed) (id : ScheduleId) :
    ¬ (a.handleRemove id).1.Holds id := by
  have hgone : id ∉ (a.dismiss id).waiting := by simp [dismiss]
  simp only [handleRemove]
  split
  · next t ht =>
    intro hholds
    rcases holds_tellEnd hholds with hwait | ⟨hne, -⟩
    · exact hgone hwait
    · exact hne (h.active id t ht)
  · next hoff =>
    rintro (hwait | ⟨t, ht, -⟩)
    · split at hwait <;> exact hgone hwait
    · split at ht <;> exact absurd (ht.symm.trans hoff) (by simp)

/-- What is not wanted is given up when its turn comes, and not taken up again. -/
theorem not_holds_reconciled (now : Instant) (pending : List Schedule)
    (hid : ∀ s ∈ pending, s.id ≠ id) (ids : List ScheduleId) (h : a.IsKeyed)
    (hids : id ∈ ids ∨ ¬ a.Holds id) :
    ¬ (forEach (reconcileOne now (pending.foldl (fun m s => m.insert s.id s) ∅)) ids a).1.Holds id
    := by
  induction ids generalizing a with
  | nil => exact hids.resolve_left List.not_mem_nil
  | cons k rest ih =>
    have hstep := changes_reconcileOne a now pending k
    refine ih (hstep.keyed h) ?_
    rcases hids with hmem | hnot
    · rcases List.mem_cons.mp hmem with rfl | hrest
      · have hnone : ((pending.filter (·.id = id)).getLast?) = none := by
          rw [List.getLast?_eq_none_iff, List.filter_eq_nil_iff]
          exact fun s hs => by simpa using hid s hs
        have hgone : ¬ (a.reconcileOne now
            (pending.foldl (fun m s => m.insert s.id s) ∅) id).1.Holds id := by
          rw [reconcileOne, get_wanted, hnone]
          exact not_holds_handleRemove h id
        exact Or.inr hgone
      · exact Or.inl hrest
    · refine Or.inr fun hholds => ?_
      rcases holds_changes hstep hholds with hbefore | ⟨s, hs, hsid⟩
      · exact hnot hbefore
      · exact hid s hs hsid

theorem mem_trackedIds (h : a.Holds id) : id ∈ a.trackedIds := by
  rw [trackedIds, List.mem_append, Std.TreeMap.mem_keys]
  by_cases hwait : id ∈ a.waiting
  · exact Or.inl hwait
  · obtain ⟨t, ht, -⟩ := h.resolve_left hwait
    refine Or.inr (List.mem_filter.mpr ⟨Std.TreeMap.mem_keys.mpr (mem_of_get ht), ?_⟩)
    rw [Bool.not_eq_true', Bool.eq_false_iff]
    exact mt Std.TreeMap.contains_iff_mem.mp hwait

/-- A desk keeps to the word of the message that it handles. -/
theorem holds_handle (catalog : Catalog) (now : Instant) (m : Message) (ha : a.IsKeyed)
    (h : (a.handle catalog now m).1.Holds id) : heldAfter (a.Holds id) (m.wordOn id) := by
  have hchanged := holds_changes (changes_handle catalog now m ha) h
  cases m with
  | add s | update s =>
    rw [Message.wordOn]
    split
    · trivial
    · next hne =>
      rcases hchanged with hbefore | ⟨x, rfl, hid⟩
      · exact hbefore
      · exact absurd hid hne
  | remove k =>
    rw [Message.wordOn]
    split
    · next hid => exact absurd (hid ▸ h) (not_holds_handleRemove ha k)
    · exact hchanged.resolve_right fun ⟨_, hno, _⟩ => hno
  | reconcile pending =>
    rw [Message.wordOn]
    split
    · trivial
    · next hnone =>
      have hid : ∀ s ∈ pending, s.id ≠ id := by simpa using hnone
      refine not_holds_reconciled now pending hid a.trackedIds ha ?_ h
      by_cases hholds : a.Holds id
      · exact Or.inl (mem_trackedIds hholds)
      · exact Or.inr hholds
  | rebuild | finished | stopTask | askView | stop =>
    exact hchanged.resolve_right fun ⟨_, hno, _⟩ => hno

theorem holds_passIfDue {catalog : Catalog} {now : Instant} (ha : a.IsKeyed)
    (h : (a.passIfDue catalog now).1.Holds id) : a.Holds id :=
  (holds_changes (changes_passIfDue (l := {}) catalog now ha) h).resolve_right
    fun ⟨_, hno, _⟩ => hno

end Admission

end Timeshift
