import Timeshift.Proofs.Rank
import Timeshift.Proofs.Store.Honest

/-!
# A refused operation leaves no trace

The archive may refuse any of the writes that an operation asks for, and then the archive may
have taken the ones before it. What can be read of the store is as before, and nothing has been
told.
-/

namespace Timeshift

namespace Store

variable {α β : Type} {s s' s'' : Store}

/-- The same can be read of both stores, a search comes to the same entries, and both have told the
same. Only the archive and the ids that come next may be different. -/
structure LooksLike (s s' : Store) : Prop where
  live : s'.live = s.live
  marks : s'.marks = s.marks
  rules : s'.rules = s.rules
  recorded : s'.recorded = s.recorded
  isLoaded : s'.isLoaded = s.isLoaded
  journal : s'.journal = s.journal
  listings : s'.listings = s.listings

namespace LooksLike

theorem refl (s : Store) : LooksLike s s := ⟨rfl, rfl, rfl, rfl, rfl, rfl, rfl⟩

theorem trans (h : LooksLike s s') (h' : LooksLike s' s'') : LooksLike s s'' where
  live := h'.live.trans h.live
  marks := h'.marks.trans h.marks
  rules := h'.rules.trans h.rules
  recorded := h'.recorded.trans h.recorded
  isLoaded := h'.isLoaded.trans h.isLoaded
  journal := h'.journal.trans h.journal
  listings := h'.listings.trans h.listings

end LooksLike

/-! ## Three kinds of parts -/

/-- The operation is not seen, whether it fails or not. -/
def IsUnseen (op : Op α) : Prop := ∀ s : Store, LooksLike s (s.run op).2

def NeverFails (op : Op α) : Prop := ∀ s : Store, ∃ a, (s.run op).1 = .ok a

/-- The operation is not seen if it fails. -/
def FailsUnseen (op : Op α) : Prop :=
  ∀ (s : Store) fault, (s.run op).1 = .error fault → LooksLike s (s.run op).2

namespace IsUnseen

theorem get : IsUnseen MonadState.get := .refl

theorem persist (edit : Archive → Archive) : IsUnseen (persist edit) := by
  intro s
  simp only [Store.persist, run_bind, run_get, run_modify]
  split <;> exact ⟨rfl, rfl, rfl, rfl, rfl, rfl, rfl⟩

end IsUnseen

namespace NeverFails

theorem pure (a : α) : NeverFails (Pure.pure a) := fun _ => ⟨a, rfl⟩

theorem modify (f : Store → Store) : NeverFails (modify f) := fun _ => ⟨(), rfl⟩

theorem publish (e : StoreEvent) : NeverFails (publish e) := modify _

theorem get : NeverFails MonadState.get := fun s => ⟨s, rfl⟩

theorem bind {op : Op α} {next : α → Op β} (h : NeverFails op) (h' : ∀ a, NeverFails (next a)) :
    NeverFails (op >>= next) := by
  intro s
  obtain ⟨a, ha⟩ := h s
  rw [run_bind]
  rcases hrun : s.run op with ⟨r, s'⟩
  rw [hrun] at ha
  obtain rfl : r = .ok a := ha
  exact h' a s'

/-- A part that may be left out, and what comes after it. -/
theorem whenever {c : Bool} {op : Op PUnit} {next : PUnit → Op β} (h : NeverFails op)
    (h' : NeverFails (next ())) : NeverFails (if c = true then next () else op >>= next) := by
  split
  · exact h'
  · exact h.bind fun _ => h'

end NeverFails

namespace FailsUnseen

theorem of_neverFails {op : Op α} (h : NeverFails op) : FailsUnseen op := by
  intro s fault hfault
  obtain ⟨a, ha⟩ := h s
  rw [ha] at hfault
  cases hfault

theorem pure (a : α) : FailsUnseen (Pure.pure a) := of_neverFails (.pure a)

theorem throw (fault : Fault) : FailsUnseen (MonadExcept.throw fault : Op α) :=
  fun s _ _ => .refl s

/-- What is not seen comes first. -/
theorem after {op : Op α} {next : α → Op β} (h : IsUnseen op) (h' : ∀ a, FailsUnseen (next a)) :
    FailsUnseen (op >>= next) := by
  intro s fault
  have hop := h s
  rw [run_bind]
  rcases hrun : s.run op with ⟨r, s'⟩
  rw [hrun] at hop
  cases r with
  | error _ => exact fun _ => hop
  | ok a => exact fun hfault => hop.trans (h' a s' fault hfault)

/-- What cannot fail comes last. -/
theorem before {op : Op α} {next : α → Op β} (h : FailsUnseen op)
    (h' : ∀ a, NeverFails (next a)) : FailsUnseen (op >>= next) := by
  intro s fault
  have hop := h s
  rw [run_bind]
  rcases hrun : s.run op with ⟨r, s'⟩
  rw [hrun] at hop
  cases r with
  | error _ => exact fun _ => hop _ rfl
  | ok a =>
    obtain ⟨b, hb⟩ := h' a s'
    exact fun hfault => absurd (hb.symm.trans hfault) nofun

/-- A part that is not seen and may be left out, and what comes after it. -/
theorem whenever {c : Bool} {op : Op PUnit} {next : PUnit → Op β} (h : IsUnseen op)
    (h' : FailsUnseen (next ())) : FailsUnseen (if c = true then next () else op >>= next) := by
  split
  · exact h'
  · exact .after h fun _ => h'

end FailsUnseen

/-! ## The operations -/

theorem failsUnseen_load (now : Instant) : FailsUnseen (load now) := by
  rw [load]
  refine .after .get fun s => ?_
  split
  · exact .throw _
  · exact .whenever (.persist _) (.of_neverFails
      (.bind (.modify _) fun _ => .bind (.publish _) fun _ => .bind .get fun _ => .pure _))

theorem failsUnseen_keep (l : List Schedule) : FailsUnseen (keep l) := by
  rw [keep]
  exact .after .get fun s => .after (.persist _) fun _ =>
    .whenever (.persist _) (.of_neverFails (.modify _))

theorem failsUnseen_add (l : List Schedule) : FailsUnseen (add l) := by
  rw [add]
  split
  · exact .pure _
  · split
    · exact .throw _
    · -- The ids are used up before anything can fail.
      refine .after .get fun s => .after (fun s => ⟨rfl, rfl, rfl, rfl, rfl, rfl, rfl⟩) fun _ => ?_
      exact .before (failsUnseen_keep _) fun _ => .bind (.publish _) fun _ => .pure _

theorem failsUnseen_update (l : List Schedule) : FailsUnseen (update l) := by
  rw [update]
  refine .after .get fun s => ?_
  split
  · exact .throw _
  · split
    · exact .pure _
    · exact .before (failsUnseen_keep _) fun _ => .publish _

theorem failsUnseen_changeState (id : ScheduleId) (state : RecordingState) :
    FailsUnseen (changeState id state) := by
  rw [changeState]
  refine .after .get fun s => ?_
  split
  · split
    · exact .pure _
    · exact failsUnseen_update _
  · exact .pure _

theorem failsUnseen_remove (l : List Schedule) (force : Bool) : FailsUnseen (remove l force) := by
  rw [remove]
  refine .after .get fun s => ?_
  dsimp only
  split
  · exact .pure _
  · exact .whenever (.persist _) (.whenever (.persist _)
      (.of_neverFails (.bind (.modify _) fun _ => .publish _)))

theorem failsUnseen_addRule (rule : SeriesRule) : FailsUnseen (addRule rule) := by
  rw [addRule]
  split
  · exact .throw _
  · refine .after .get fun s => .after (fun s => ⟨rfl, rfl, rfl, rfl, rfl, rfl, rfl⟩) fun _ => ?_
    exact .after (.persist _) fun _ => .of_neverFails
      (.bind (.modify _) fun _ => .bind (.publish _) fun _ => .pure _)

theorem failsUnseen_updateRule (rule : SeriesRule) : FailsUnseen (updateRule rule) := by
  rw [updateRule]
  refine .after .get fun s => ?_
  split
  · exact .after (.persist _) fun _ => .of_neverFails (.bind (.modify _) fun _ => .publish _)
  · exact .pure _

theorem failsUnseen_removeRule (id : RuleId) : FailsUnseen (removeRule id) := by
  rw [removeRule]
  refine .after .get fun s => ?_
  split
  · refine .whenever (.persist _) (.whenever (.persist _) (.after (.persist _) fun _ => ?_))
    exact .of_neverFails (.bind (.modify _) fun _ =>
      .whenever (.publish _) (.whenever (.publish _) (.publish _)))
  · exact .pure _

theorem failsUnseen_addRecorded (r : RecordedProgram) : FailsUnseen (addRecorded r) := by
  rw [addRecorded]
  refine .after .get fun s => ?_
  split
  all_goals
    refine .after (fun s => ⟨rfl, rfl, rfl, rfl, rfl, rfl, rfl⟩) fun _ =>
      .after (.persist _) fun _ => ?_
    exact .of_neverFails (.bind (.modify _) fun _ => .pure _)

/-! ## Every call -/

def answer (s : Store) : Edit → Except Fault Unit
  | .load now => (s.run (load now)).1.map fun _ => ()
  | .add schedules => (s.run (add schedules)).1.map fun _ => ()
  | .update schedules => (s.run (update schedules)).1
  | .changeState id state => (s.run (changeState id state)).1
  | .remove schedules force => (s.run (remove schedules force)).1
  | .addRule rule => (s.run (addRule rule)).1.map fun _ => ()
  | .updateRule rule => (s.run (updateRule rule)).1
  | .removeRule id => (s.run (removeRule id)).1
  | .addRecorded r => (s.run (addRecorded r)).1.map fun _ => ()

theorem error_of_map {r : Except Fault α} {fault : Fault}
    (h : r.map (fun _ => ()) = .error fault) : r = .error fault := by
  cases r with
  | error _ => exact congrArg Except.error (Except.error.inj h)
  | ok _ => cases h

/-- A call that fails, at whichever write, leaves all that can be read of the store as it was,
and tells nothing. A schedule that was to change its channel is such a failure too, in a build with
debug assertions. -/
theorem unseen_of_refused (s : Store) (e : Edit) {fault : Fault}
    (h : s.answer e = .error fault) : LooksLike s (s.edit e) := by
  cases e with
  | load now => exact failsUnseen_load now s fault (error_of_map h)
  | add schedules => exact failsUnseen_add schedules s fault (error_of_map h)
  | update schedules => exact failsUnseen_update schedules s fault h
  | changeState id state => exact failsUnseen_changeState id state s fault h
  | remove schedules force => exact failsUnseen_remove schedules force s fault h
  | addRule rule => exact failsUnseen_addRule rule s fault (error_of_map h)
  | updateRule rule => exact failsUnseen_updateRule rule s fault h
  | removeRule id => exact failsUnseen_removeRule id s fault h
  | addRecorded r => exact failsUnseen_addRecorded r s fault (error_of_map h)

/-- A rule with one schedule that waits and one that is being recorded. The archive drops the
first one and refuses the other. A schedule that is to move to another channel is refused before
any write. -/
theorem unseen_of_refused_half_taken :
    let member : Schedule :=
      { Schedule.timed 0 1 20 30 5 with programId := some 7, ruleId := some 1 }
    let s := [.addRule (.ofKey "show" "tuner" 1), .add [member, member],
      .changeState 2 .inProgress].foldl edit { archive := { refuses := (· == 4) } }
    let half := s.edit (.removeRule 1)
    let moved : Schedule := .timed 1 2 20 30 5
    s.answer (.removeRule 1) = .error .writeRefused ∧
      (half.archive.schedules.keys = [2] ∧ half.archive.rules.keys = [1]) ∧
      half.live.keys = [1, 2] ∧ LooksLike s half ∧
      s.answer (.update [moved]) = .error (channelMoved member moved) ∧
      LooksLike s (s.edit (.update [moved])) := by
  intro member s half moved
  have hhalf : s.answer (.removeRule 1) = .error .writeRefused := rfl
  have hmoved : s.answer (.update [moved]) = .error (channelMoved member moved) := rfl
  exact ⟨hhalf, by decide +kernel, by decide +kernel, unseen_of_refused s _ hhalf, hmoved,
    unseen_of_refused s _ hmoved⟩

end Store

end Timeshift
