import Timeshift.Admission.Pass
import Timeshift.Proofs.Tables

/-!
# The books of a desk

Both tables of a desk are by schedule id. Every part of a step keeps them so.
-/

namespace Timeshift

namespace Admission

variable {a : Admission}

/-- Every entry stands under the id of its schedule. -/
structure IsKeyed (a : Admission) : Prop where
  waiting : ∀ (id : ScheduleId) (s : Schedule), a.waiting[id]? = some s → s.id = id
  active : ∀ (id : ScheduleId) (t : Running), a.active[id]? = some t → t.schedule.id = id

namespace IsKeyed

theorem openDesk (inputId : InputId) (lead : Int64) : IsKeyed { inputId, lead } where
  waiting id s h := by simp at h
  active id t h := by simp at h

/-- The tables alone count. -/
theorem congr {b : Admission} (h : a.IsKeyed) (hw : b.waiting = a.waiting)
    (ha : b.active = a.active) : b.IsKeyed where
  waiting id s hs := h.waiting id s (by rwa [hw] at hs)
  active id t ht := h.active id t (by rwa [ha] at ht)

theorem enqueue (h : a.IsKeyed) (s : Schedule) : (a.enqueue s).IsKeyed where
  waiting id x hx := by
    rw [Admission.enqueue, get_insert] at hx
    split at hx
    · next heq => exact Option.some.inj hx ▸ heq
    · exact h.waiting id x hx
  active := h.active

theorem dismiss (h : a.IsKeyed) (id : ScheduleId) : (a.dismiss id).IsKeyed where
  waiting k x hx := by
    rw [Admission.dismiss, get_erase] at hx
    split at hx
    · cases hx
    · exact h.waiting k x hx
  active := h.active

theorem waitForNothing (h : a.IsKeyed) (next : Option Instant) :
    IsKeyed { a with waiting := ∅, nextPassAt := next } where
  waiting id s hs := by simp at hs
  active := h.active

theorem setActive (h : a.IsKeyed) (t : Running) (seq : Nat) :
    IsKeyed { a with active := a.active.insert t.schedule.id t, lastSeq := seq } where
  waiting := h.waiting
  active id x hx := by
    rw [get_insert] at hx
    split at hx
    · next heq => exact Option.some.inj hx ▸ heq
    · exact h.active id x hx

theorem eraseActive (h : a.IsKeyed) (id : ScheduleId) (due : Bool) :
    IsKeyed { a with active := a.active.erase id, passDue := due } where
  waiting := h.waiting
  active k x hx := by
    rw [get_erase] at hx
    split at hx
    · cases hx
    · exact h.active k x hx

theorem tellEnd (h : a.IsKeyed) (t : Running) (order : Order) :
    (a.tellEnd t order).1.IsKeyed :=
  h.setActive { t with isStopping := true } a.lastSeq

theorem begin (h : a.IsKeyed) (s : Schedule) (channel : Channel) :
    (a.begin s channel).1.IsKeyed :=
  h.setActive ⟨{ s with state := .inProgress }, a.lastSeq + 1, false⟩ (a.lastSeq + 1)

end IsKeyed

theorem dismissAll_keeps (h : a.IsKeyed) (late : List Schedule) :
    (late.foldl (fun a s => a.dismiss s.id) a).IsKeyed ∧
    (late.foldl (fun a s => a.dismiss s.id) a).inputId = a.inputId ∧
    (late.foldl (fun a s => a.dismiss s.id) a).active = a.active := by
  induction late generalizing a with
  | nil => exact ⟨h, rfl, rfl⟩
  | cons s rest ih => exact ih (h.dismiss s.id)

/-! ## Starts -/

def Effect.startedId? : Effect → Option ScheduleId
  | .start _ s _ => some s.id
  | _ => none

/-- The schedules whose recordings are started, in order. -/
def startedIds (effects : List Effect) : List ScheduleId := effects.filterMap (·.startedId?)

@[simp] theorem startedIds_nil : startedIds [] = [] := rfl

@[simp] theorem startedIds_append (es fs : List Effect) :
    startedIds (es ++ fs) = startedIds es ++ startedIds fs := List.filterMap_append

@[simp] theorem startedIds_start (seq : Nat) (s : Schedule) (channel : Channel)
    (es : List Effect) : startedIds (.start seq s channel :: es) = s.id :: startedIds es := rfl

@[simp] theorem startedIds_report (r : Report) (es : List Effect) :
    startedIds (.report r :: es) = startedIds es := rfl

theorem startedIds_failures (a : Admission) (late : List Schedule) (reason : String) :
    startedIds (late.map (a.failure · reason)) = [] := by
  induction late with
  | nil => rfl
  | cons s rest ih => exact ih

/-! ## Quiet turns -/

/-- A turn that puts nothing new on the books. -/
structure IsQuiet (a : Admission) (turn : Turn) : Prop where
  keyed : turn.1.IsKeyed
  inputId : turn.1.inputId = a.inputId
  active : ∀ id, id ∈ turn.1.active → id ∈ a.active
  starts : startedIds turn.2 = []

namespace IsQuiet

theorem none (h : a.IsKeyed) : IsQuiet a (a, []) := ⟨h, rfl, fun _ hid => hid, rfl⟩

theorem andThen {b c : Admission} {es fs : List Effect} (h : IsQuiet a (b, es))
    (h' : IsQuiet b (c, fs)) : IsQuiet a (c, es ++ fs) where
  keyed := h'.keyed
  inputId := h'.inputId.trans h.inputId
  active id hid := h.active id (h'.active id hid)
  starts := by rw [startedIds_append, h.starts, h'.starts, List.append_nil]

theorem forEach {step : Admission → ScheduleId → Turn}
    (hstep : ∀ (a : Admission) (id : ScheduleId), a.IsKeyed → IsQuiet a (step a id))
    (ids : List ScheduleId) (h : a.IsKeyed) : IsQuiet a (forEach step ids a) := by
  induction ids generalizing a with
  | nil => exact none h
  | cons id rest ih => exact (hstep a id h).andThen (ih (hstep a id h).keyed)

end IsQuiet

/-- A running recording that is told to end stays on the books. -/
theorem mem_tellEnd (h : a.IsKeyed) {id : ScheduleId} {t : Running}
    (ht : a.active[id]? = some t) (order : Order) (k : ScheduleId) :
    k ∈ (a.tellEnd t order).1.active ↔ k ∈ a.active := by
  have hid : t.schedule.id = id := h.active id t ht
  simp only [tellEnd, Std.TreeMap.mem_insert, Std.LawfulEqOrd.compare_eq_iff_eq, hid]
  refine ⟨?_, Or.inr⟩
  rintro (rfl | hk)
  · exact mem_of_get ht
  · exact hk

theorem isQuiet_tellEnd (h : a.IsKeyed) {id : ScheduleId} {t : Running}
    (ht : a.active[id]? = some t) (order : Order) : IsQuiet a (a.tellEnd t order) where
  keyed := h.tellEnd t order
  inputId := rfl
  active k := (mem_tellEnd h ht order k).mp
  starts := rfl

/-! ## Messages put nothing on the books -/

theorem isQuiet_handleAdd (h : a.IsKeyed) (s : Schedule) : IsQuiet a (a.handleAdd s) := by
  rw [handleAdd]
  split
  · exact .none h
  · exact ⟨(h.enqueue s).congr rfl rfl, rfl, fun _ hid => hid, rfl⟩

theorem isQuiet_handleRemove (h : a.IsKeyed) (id : ScheduleId) :
    IsQuiet a (a.handleRemove id) := by
  simp only [handleRemove]
  split
  · next t ht =>
    exact ⟨(h.dismiss id).tellEnd t .cancel, rfl, fun k => (mem_tellEnd h ht .cancel k).mp, rfl⟩
  · refine ⟨?_, ?_, ?_, rfl⟩ <;> split
    · exact (h.dismiss id).congr rfl rfl
    · exact h.dismiss id
    all_goals first | rfl | exact fun _ hid => hid

theorem isQuiet_handleUpdate (h : a.IsKeyed) (now : Instant) (s : Schedule) :
    IsQuiet a (a.handleUpdate now s) := by
  rw [handleUpdate]
  split
  · exact ⟨(h.enqueue s).congr rfl rfl, rfl, fun _ hid => hid, rfl⟩
  · split
    · exact .none h
    · next t ht =>
      split
      · exact ⟨(h.enqueue s).tellEnd t .cancel, rfl,
          fun k => (mem_tellEnd h ht .cancel k).mp, rfl⟩
      · refine ⟨h.setActive { t with schedule := s } a.lastSeq, rfl, fun k hk => ?_, rfl⟩
        simp only [Std.TreeMap.mem_insert, Std.LawfulEqOrd.compare_eq_iff_eq] at hk
        rcases hk with rfl | hk
        · exact mem_of_get ht
        · exact hk

theorem isQuiet_reconcileOne (now : Instant) (pending : Std.TreeMap ScheduleId Schedule)
    (a : Admission) (id : ScheduleId) (h : a.IsKeyed) :
    IsQuiet a (reconcileOne now pending a id) := by
  rw [reconcileOne]
  split
  · exact isQuiet_handleRemove h id
  · split
    · exact isQuiet_handleUpdate h now _
    · exact .none h

theorem isQuiet_handleFinished (h : a.IsKeyed) (id : ScheduleId) (seq : Nat)
    (outcome : Outcome) : IsQuiet a (a.handleFinished id seq outcome) := by
  rw [handleFinished]
  split
  · exact .none h
  · split
    · refine ⟨h.eraseActive id true, rfl, fun k hk => Std.TreeMap.mem_of_mem_erase hk, ?_⟩
      dsimp only
      split <;> rfl
    · exact .none h

theorem isQuiet_handleStopTask (a : Admission) (id : ScheduleId) (h : a.IsKeyed) :
    IsQuiet a (a.handleStopTask id) := by
  rw [handleStopTask]
  split
  · exact .none h
  · next t ht => exact isQuiet_tellEnd h ht .stop

theorem isQuiet_shutdown (h : a.IsKeyed) : IsQuiet a a.shutdown :=
  have hq := IsQuiet.forEach isQuiet_handleStopTask a.active.keys (h.waitForNothing none)
  ⟨hq.keyed, hq.inputId, hq.active, hq.starts⟩

end Admission

end Timeshift
