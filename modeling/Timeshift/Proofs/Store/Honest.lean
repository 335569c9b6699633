import Timeshift.Proofs.Store.Journal

/-!
# Every operation tells what it does

An operation is honest if the events that it adds to the journal tell what it does to the
schedules in use, also if it fails midway.
-/

namespace Timeshift

namespace Store

variable {α β : Type} {s s' s'' : Store} {es fs : List StoreEvent}

/-! ## Telling -/

/-- The events tell how the schedules in use have changed. -/
structure Tells (s : Store) (es : List StoreEvent) (s' : Store) : Prop where
  journal : s'.journal = s.journal ++ es
  isTrue : AreTrue es s'.live
  silent : ∀ id, AreSilent es id → s'.live[id]? = s.live[id]?
  keyed : s.IsKeyed → s'.IsKeyed

namespace Tells

theorem nothing (hlive : s'.live = s.live) (hjournal : s'.journal = s.journal) : Tells s [] s' where
  journal := by rw [hjournal, List.append_nil]
  isTrue := .nil _
  silent _ _ := by rw [hlive]
  keyed h := h.congr hlive

theorem andThen (h : Tells s es s') (h' : Tells s' fs s'') : Tells s (es ++ fs) s'' where
  journal := by rw [h'.journal, h.journal, List.append_assoc]
  isTrue := h.isTrue.append h'.isTrue h'.silent
  silent id hid := by
    rw [areSilent_append] at hid
    rw [h'.silent id hid.2, h.silent id hid.1]
  keyed hkeyed := h'.keyed (h.keyed hkeyed)

theorem one {e : StoreEvent} (hjournal : s'.journal = s.journal ++ [e])
    (htrue : ∀ id word, e.wordOn id = some word → s'.live[id]? = word)
    (hsilent : ∀ id, e.IsSilent id → s'.live[id]? = s.live[id]?)
    (hkeyed : s.IsKeyed → s'.IsKeyed) : Tells s [e] s' where
  journal := hjournal
  isTrue pre x post id word heq hword _ := by
    obtain ⟨rfl, h⟩ | ⟨mid, rfl, h⟩ := List.cons_eq_append_iff.mp heq
    · obtain ⟨rfl, -⟩ := List.cons.inj h
      exact htrue id word hword
    · simp at h
  silent id hid := hsilent id (hid e List.mem_cons_self)
  keyed := hkeyed

theorem held {e : StoreEvent} {l : List Schedule} (he : e = .added l ∨ e = .changed l)
    (hlive : s'.live = (s.hold l).live) (hjournal : s'.journal = s.journal ++ [e]) :
    Tells s [e] s' := by
  have hword : ∀ id, e.wordOn id = (copyIn l id).map some := by
    rcases he with rfl | rfl <;> exact fun _ => rfl
  refine .one hjournal ?_ ?_ fun h => (h.hold l).congr hlive
  · intro id word h
    rw [hword, Option.map_eq_some_iff] at h
    obtain ⟨x, hx, rfl⟩ := h
    rw [hlive, get_hold, hx, Option.some_or]
  · intro id h
    have hnone : copyIn l id = none := Option.map_eq_none_iff.mp (hword id ▸ h.2)
    rw [hlive, get_hold, hnone, Option.none_or]

theorem released {l : List Schedule} (hlive : s'.live = (s.release (l.map (·.id))).live)
    (hjournal : s'.journal = s.journal ++ [.removed l]) : Tells s [.removed l] s' := by
  have hmem : ∀ id, id ∈ l.map (·.id) ↔ l.any (·.id = id) = true := by simp
  refine .one hjournal ?_ ?_ fun h => (h.release _).congr hlive
  · intro id word h
    rw [hlive, get_release]
    simp only [StoreEvent.wordOn] at h
    split at h
    · next hid => rw [if_pos ((hmem id).mpr hid), Option.some.inj h]
    · cases h
  · intro id h
    have hnot : ¬ l.any (·.id = id) = true := by
      intro hany
      have hword := h.2
      simp [StoreEvent.wordOn, hany] at hword
    rw [hlive, get_release, if_neg (mt (hmem id).mp hnot)]

theorem releasedAny {l : List Schedule} (hlive : s'.live = (s.release (l.map (·.id))).live)
    (hjournal : s'.journal = s.journal ++ if l.isEmpty then [] else [.removed l]) :
    Tells s (if l.isEmpty then [] else [.removed l]) s' := by
  cases l with
  | nil => exact .nothing hlive (by rw [hjournal]; exact List.append_nil _)
  | cons x rest => exact .released hlive hjournal

theorem changedAny {l : List Schedule} (hlive : s'.live = (s.hold l).live)
    (hjournal : s'.journal = s.journal ++ if l.isEmpty then [] else [.changed l]) :
    Tells s (if l.isEmpty then [] else [.changed l]) s' := by
  cases l with
  | nil => exact .nothing hlive (by rw [hjournal]; exact List.append_nil _)
  | cons x rest => exact .held (Or.inr rfl) hlive hjournal

/-- An event about rules. -/
theorem aside {e : StoreEvent} (he : ∀ id, e.wordOn id = none) (hlive : s'.live = s.live)
    (hjournal : s'.journal = s.journal ++ [e]) : Tells s [e] s' :=
  .one hjournal (fun id word h => absurd h (by simp [he])) (fun id _ => by rw [hlive])
    fun h => h.congr hlive

end Tells

/-! ## Runs of operations -/

theorem run_bind (s : Store) (op : Op α) (next : α → Op β) :
    s.run (op >>= next) = match s.run op with
      | (.ok a, s') => s'.run (next a)
      | (.error fault, s') => (.error fault, s') := by
  simp only [run, ExceptT.run_bind, StateT.run_bind]
  rcases (ExceptT.run op).run s with ⟨r, s'⟩
  cases r <;> rfl

/-- What both parts of an operation do to the store, the operation does, whether the first part
fails or not. -/
theorem run_bind_trans {R : Store → Store → Prop}
    (htrans : ∀ {a b c : Store}, R a b → R b c → R a c) {s : Store} {op : Op α}
    {next : α → Op β} (h : R s (s.run op).2) (h' : ∀ a t, R t (t.run (next a)).2) :
    R s (s.run (op >>= next)).2 := by
  rw [run_bind]
  rcases hrun : s.run op with ⟨r, t⟩
  rw [hrun] at h
  cases r with
  | error _ => exact h
  | ok a => exact htrans h (h' a t)

@[simp] theorem run_get (s : Store) : s.run get = (.ok s, s) := rfl

@[simp] theorem run_modify (s : Store) (f : Store → Store) :
    s.run (modify f) = (.ok (), f s) := rfl

/-- Whatever the operation does to the schedules in use, it tells, with events like these. -/
def TellsOnly (E : StoreEvent → Prop) (s : Store) (op : Op α) : Prop :=
  ∃ es, Tells s es (s.run op).2 ∧ ∀ e ∈ es, E e

def IsHonest (E : StoreEvent → Prop) (op : Op α) : Prop := ∀ s : Store, TellsOnly E s op

variable {E : StoreEvent → Prop}

namespace TellsOnly

theorem one {op : Op α} {e : StoreEvent} (h : Tells s [e] (s.run op).2) (he : E e) :
    TellsOnly E s op := ⟨[e], h, fun _ hx => List.mem_singleton.mp hx ▸ he⟩

/-- What comes next may look at the store. -/
theorem look {next : Store → Op β} (h : TellsOnly E s (next s)) :
    TellsOnly E s (MonadState.get >>= next) := by
  rw [TellsOnly, run_bind, run_get]
  exact h

theorem bind {op : Op α} {next : α → Op β} (h : TellsOnly E s op)
    (h' : ∀ a, IsHonest E (next a)) : TellsOnly E s (op >>= next) := by
  obtain ⟨es, hes, hE⟩ := h
  rw [TellsOnly, run_bind]
  rcases hrun : s.run op with ⟨r, s'⟩
  rw [hrun] at hes
  cases r with
  | error fault => exact ⟨es, hes, hE⟩
  | ok a =>
    obtain ⟨fs, hfs, hF⟩ := h' a s'
    exact ⟨es ++ fs, hes.andThen hfs, List.forall_mem_append.mpr ⟨hE, hF⟩⟩

end TellsOnly

namespace IsHonest

/-- The operation neither touches the schedules in use nor tells anything. -/
theorem of_quiet {op : Op α} (hlive : ∀ s : Store, (s.run op).2.live = s.live)
    (hjournal : ∀ s : Store, (s.run op).2.journal = s.journal) : IsHonest E op :=
  fun s => ⟨[], .nothing (hlive s) (hjournal s), List.forall_mem_nil _⟩

theorem pure (a : α) : IsHonest E (Pure.pure a) := of_quiet (fun _ => rfl) fun _ => rfl

theorem get : IsHonest E MonadState.get := of_quiet (fun _ => rfl) fun _ => rfl

theorem throw (fault : Fault) : IsHonest E (MonadExcept.throw fault : Op α) :=
  of_quiet (fun _ => rfl) fun _ => rfl

theorem bind {op : Op α} {next : α → Op β} (h : IsHonest E op) (h' : ∀ a, IsHonest E (next a)) :
    IsHonest E (op >>= next) := fun s => (h s).bind h'

theorem persist (edit : Archive → Archive) : IsHonest E (persist edit) := by
  refine of_quiet (fun s => ?_) fun s => ?_ <;>
  · simp only [Store.persist, run_bind, run_get, run_modify]
    split <;> rfl

/-- A part that may be left out, and what comes after it. -/
theorem whenever {c : Bool} {op : Op PUnit} {next : PUnit → Op β} (h : IsHonest E op)
    (h' : IsHonest E (next ())) : IsHonest E (if c = true then next () else op >>= next) := by
  split
  · exact h'
  · exact h.bind fun _ => h'

end IsHonest

/-! ## The operations -/

/-- Unknown schedules are left out of an update, and nothing else. -/
theorem eq_filter_of_knownUpdates {l updates : List Schedule}
    (h : s.knownUpdates l = .ok updates) : updates = l.filter (s.live.contains ·.id) := by
  have hknown : ∀ x : Schedule, s.live.contains x.id = (s.schedule? x.id).isSome := fun x =>
    Std.TreeMap.contains_eq_isSome_getElem?
  induction l generalizing updates with
  | nil => exact (Except.ok.inj h).symm
  | cons x rest ih =>
    rw [knownUpdates] at h
    rw [List.filter_cons, hknown]
    split at h
    · next hnone =>
      rw [hnone]
      exact ih h
    · next old hsome =>
      rw [hsome]
      split at h
      · cases hrest : s.knownUpdates rest with
        | error fault =>
          rw [hrest] at h
          cases h
        | ok later =>
          rw [hrest] at h
          obtain rfl := Except.ok.inj h
          rw [ih hrest]
          rfl
      · cases h

theorem isKeyed_adopt (s : Store) (rows : List Schedule) (rest : Snapshot) :
    (s.adopt rows rest).IsKeyed := by
  have hnone : IsKeyed { s with live := ∅, marks := ∅, rules := ∅ } :=
    fun id x hx => by simp at hx
  exact (hnone.hold _).congr rfl

theorem isHonest_load (now : Instant) (hE : E .loaded) : IsHonest E (load now) := by
  rw [load]
  refine .bind .get fun s => ?_
  split
  · exact .throw _
  · next snapshot _ =>
    refine .whenever (.persist _) fun s => .one ?_ hE
    exact .one rfl (fun id word h => nomatch h) (fun id h => absurd rfl h.1)
      fun _ => (isKeyed_adopt s _ snapshot).congr rfl

theorem isHonest_keep (l : List Schedule) {e : StoreEvent} (he : e = .added l ∨ e = .changed l) :
    IsHonest (· = e) (do keep l; publish e) := by
  simp only [keep, bind_assoc]
  refine .bind .get fun s => .bind (.persist _) fun _ => ?_
  have hlast : IsHonest (· = e) (do
      modify fun s' => (s'.unmark (s.marksOf l)).hold l
      publish e) := fun s => .one (.held he rfl rfl) rfl
  split
  · exact hlast
  · rw [bind_assoc]
    exact .bind (.persist _) fun _ => hlast

theorem tells_add (s : Store) (l : List Schedule) :
    TellsOnly (· = .added (number s.scheduleIds l).1) s (add l) := by
  rw [add]
  split
  · exact IsHonest.pure _ s
  · split
    · exact IsHonest.throw _ s
    · refine .look (.bind (IsHonest.of_quiet (fun _ => rfl) (fun _ => rfl) s) fun _ => ?_)
      simp only [← bind_assoc]
      exact .bind (isHonest_keep _ (Or.inl rfl)) fun _ => .pure _

theorem tells_update (s : Store) (l : List Schedule) :
    TellsOnly (fun e => ∃ updates, s.knownUpdates l = .ok updates ∧ e = .changed updates) s
      (update l) := by
  rw [update]
  refine .look ?_
  split
  · exact IsHonest.throw _ s
  · next updates hupdates =>
    split
    · exact IsHonest.pure _ s
    · obtain ⟨es, hes, hE⟩ := isHonest_keep updates (Or.inr rfl) s
      exact ⟨es, hes, fun e he => ⟨updates, hupdates, hE e he⟩⟩

theorem isHonest_update (l : List Schedule) (hE : ∀ l, E (.changed l)) :
    IsHonest E (update l) := by
  intro s
  obtain ⟨es, hes, hchanged⟩ := tells_update s l
  refine ⟨es, hes, fun e he => ?_⟩
  obtain ⟨updates, -, rfl⟩ := hchanged e he
  exact hE updates

theorem isHonest_changeState (id : ScheduleId) (state : RecordingState)
    (hE : ∀ l, E (.changed l)) : IsHonest E (changeState id state) := by
  rw [changeState]
  refine .bind .get fun s => ?_
  split
  · split
    · exact .pure _
    · exact isHonest_update _ hE
  · exact .pure _

theorem isHonest_remove (l : List Schedule) (force : Bool) (hE : ∀ l, E (.removed l)) :
    IsHonest E (remove l force) := by
  rw [remove]
  refine .bind .get fun s => ?_
  dsimp only
  split
  · exact .pure _
  · refine .whenever (.persist _) (.whenever (.persist _) ?_)
    exact fun s => .one (.released rfl rfl) (hE _)

theorem isHonest_addRule (rule : SeriesRule) (hE : ∀ l, E (.rulesAdded l)) :
    IsHonest E (addRule rule) := by
  rw [addRule]
  split
  · exact .throw _
  · refine .bind .get fun s => ?_
    refine .bind (.of_quiet (fun _ => rfl) fun _ => rfl) fun _ => .bind (.persist _) fun _ => ?_
    exact fun s => .one (.aside (fun _ => rfl) rfl rfl) (hE _)

theorem isHonest_updateRule (rule : SeriesRule) (hE : ∀ l, E (.rulesChanged l)) :
    IsHonest E (updateRule rule) := by
  rw [updateRule]
  refine .bind .get fun s => ?_
  split
  · exact .bind (.persist _) fun _ s => .one (.aside (fun _ => rfl) rfl rfl) (hE _)
  · exact .pure _

/-- Parting with the members of a rule: some go, and the others stay without the rule. -/
theorem isHonest_part (dropped detached marks : List Schedule) (rule : SeriesRule) (id : RuleId)
    (hremoved : E (.removed dropped)) (hchanged : E (.changed detached))
    (hrule : E (.rulesRemoved [rule])) :
    IsHonest E (do
      modify fun s =>
        let s := ((s.release (dropped.map (·.id))).unmark marks).hold detached
        { s with rules := s.rules.erase id }
      unless dropped.isEmpty do publish (.removed dropped)
      unless detached.isEmpty do publish (.changed detached)
      publish (.rulesRemoved [rule])) := by
  intro s
  let left : Store :=
    { s.release (dropped.map (·.id)) with
      journal := s.journal ++ if dropped.isEmpty then [] else [.removed dropped] }
  let freed : Store :=
    { left.hold detached with
      journal := left.journal ++ if detached.isEmpty then [] else [.changed detached] }
  have hleft : Tells s _ left := .releasedAny rfl rfl
  have hfreed : Tells left _ freed := .changedAny rfl rfl
  refine ⟨_, (hleft.andThen hfreed).andThen
    (.aside (e := .rulesRemoved [rule]) (fun _ => rfl) ?_ ?_), fun e he => ?_⟩
  · cases dropped <;> cases detached <;> rfl
  · cases dropped <;> cases detached <;> simp only [left, freed, List.isEmpty_nil,
      List.isEmpty_cons, Bool.false_eq_true, if_true, if_false, List.append_nil] <;> rfl
  · rcases List.mem_append.mp he with hfirst | hlast
    · rcases List.mem_append.mp hfirst with hgone | hstays
      · split at hgone
        · cases hgone
        · exact List.mem_singleton.mp hgone ▸ hremoved
      · split at hstays
        · cases hstays
        · exact List.mem_singleton.mp hstays ▸ hchanged
    · exact List.mem_singleton.mp hlast ▸ hrule

theorem isHonest_removeRule (id : RuleId) (hremoved : ∀ l, E (.removed l))
    (hchanged : ∀ l, E (.changed l)) (hrules : ∀ l, E (.rulesRemoved l)) :
    IsHonest E (removeRule id) := by
  rw [removeRule]
  refine .bind .get fun s => ?_
  split
  · exact .whenever (.persist _) (.whenever (.persist _) (.bind (.persist _) fun _ =>
      isHonest_part _ _ _ _ _ (hremoved _) (hchanged _) (hrules _)))
  · exact .pure _

theorem isHonest_addRecorded (r : RecordedProgram) : IsHonest E (addRecorded r) := by
  rw [addRecorded]
  refine .bind .get fun s => ?_
  split
  all_goals
    refine .bind (.of_quiet (fun _ => rfl) fun _ => rfl) fun _ => .bind (.persist _) fun _ => ?_
    exact .bind (.of_quiet (fun _ => rfl) fun _ => rfl) fun _ => .pure _

/-! ## Edits -/

/-- A call of one of the operations. -/
inductive Edit where
  | load (now : Instant)
  | add (schedules : List Schedule)
  | update (schedules : List Schedule)
  | changeState (id : ScheduleId) (state : RecordingState)
  | remove (schedules : List Schedule) (force : Bool)
  | addRule (rule : SeriesRule)
  | updateRule (rule : SeriesRule)
  | removeRule (id : RuleId)
  | addRecorded (r : RecordedProgram)

/-- The store after a call, whether the call succeeds or not. -/
def edit (s : Store) : Edit → Store
  | .load now => (s.run (load now)).2
  | .add schedules => (s.run (add schedules)).2
  | .update schedules => (s.run (update schedules)).2
  | .changeState id state => (s.run (changeState id state)).2
  | .remove schedules force => (s.run (remove schedules force)).2
  | .addRule rule => (s.run (addRule rule)).2
  | .updateRule rule => (s.run (updateRule rule)).2
  | .removeRule id => (s.run (removeRule id)).2
  | .addRecorded r => (s.run (addRecorded r)).2

/-- The events of a call are those of its kind. -/
def Edit.mayTell : Edit → StoreEvent → Prop
  | .load _, .loaded | .add _, .added _ => True
  | .load _, _ | .add _, _ => False
  | _, .loaded | _, .added _ => False
  | _, _ => True

theorem tellsOnly_edit (s : Store) (e : Edit) :
    ∃ es, Tells s es (s.edit e) ∧ ∀ x ∈ es, e.mayTell x := by
  cases e with
  | load now => exact isHonest_load now trivial s
  | add schedules =>
    obtain ⟨es, hes, hE⟩ := tells_add s schedules
    exact ⟨es, hes, fun x hx => hE x hx ▸ trivial⟩
  | update schedules => exact isHonest_update schedules (fun _ => trivial) s
  | changeState id state => exact isHonest_changeState id state (fun _ => trivial) s
  | remove schedules force => exact isHonest_remove schedules force (fun _ => trivial) s
  | addRule rule => exact isHonest_addRule rule (fun _ => trivial) s
  | updateRule rule => exact isHonest_updateRule rule (fun _ => trivial) s
  | removeRule id =>
    exact isHonest_removeRule id (fun _ => trivial) (fun _ => trivial) (fun _ => trivial) s
  | addRecorded r => exact isHonest_addRecorded r s

theorem tells_edit (s : Store) (e : Edit) : ∃ es, Tells s es (s.edit e) := by
  obtain ⟨es, hes, -⟩ := tellsOnly_edit s e
  exact ⟨es, hes⟩

theorem isKeyed_edits {s : Store} (h : s.IsKeyed) (edits : List Edit) :
    (edits.foldl edit s).IsKeyed := by
  induction edits generalizing s with
  | nil => exact h
  | cons e rest ih =>
    obtain ⟨es, hes⟩ := tells_edit s e
    exact ih (hes.keyed h)

end Store

end Timeshift
