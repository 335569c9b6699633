import Timeshift.Proofs.Admission.Asking

/-!
# The timer of a desk

Only a pass sets the timer, and messages come in between. One that brings a schedule which may
need a pass sooner asks for the pass itself, so while none is due the timer is early enough for
everything that waits for a tuner.
-/

namespace Timeshift

namespace Admission

variable {a b : Admission} {now : Instant} {s : Schedule} {id : ScheduleId}
  {last : Option Instant}

/-! ## The earliest instant of a list -/

theorem min?_le {l : List Instant} {t : Instant} (h : t ∈ l) : ∃ u, l.min? = some u ∧ u ≤ t := by
  cases hmin : l.min? with
  | none =>
    rw [List.min?_eq_none_iff] at hmin
    exact absurd (hmin ▸ h) List.not_mem_nil
  | some u => exact ⟨u, rfl, (List.min?_eq_some_iff.mp hmin).2 t h⟩

/-! ## Messages leave the timer alone -/

theorem nextPassAt_handleRemove (a : Admission) (id : ScheduleId) :
    (a.handleRemove id).1.nextPassAt = a.nextPassAt := by
  unfold handleRemove
  split
  · rfl
  · split <;> rfl

theorem nextPassAt_handleUpdate (a : Admission) (now : Instant) (s : Schedule) :
    (a.handleUpdate now s).1.nextPassAt = a.nextPassAt := by
  unfold handleUpdate
  split
  · rfl
  · split
    · rfl
    · split <;> rfl

theorem nextPassAt_reconcileOne (now : Instant) (pending : Std.TreeMap ScheduleId Schedule)
    (a : Admission) (id : ScheduleId) :
    (reconcileOne now pending a id).1.nextPassAt = a.nextPassAt := by
  unfold reconcileOne
  split
  · apply nextPassAt_handleRemove
  · split
    · apply nextPassAt_handleUpdate
    · rfl

theorem nextPassAt_forEach {step : Admission → ScheduleId → Turn}
    (hstep : ∀ a id, (step a id).1.nextPassAt = a.nextPassAt) (ids : List ScheduleId)
    (a : Admission) : (forEach step ids a).1.nextPassAt = a.nextPassAt := by
  induction ids generalizing a with
  | nil => rfl
  | cons id rest ih => exact (ih _).trans (hstep a id)

theorem nextPassAt_handle (m : Occasion) (message : Message)
    (hfree : (m.hearing message).makesPass a = false) :
    ((m.hearing message).step a).1.nextPassAt = a.nextPassAt := by
  change (a.handle m.catalog m.now message).1.nextPassAt = a.nextPassAt
  cases message with
  | add s =>
    simp only [handle, handleAdd]
    split <;> rfl
  | remove id => apply nextPassAt_handleRemove
  | update s => apply nextPassAt_handleUpdate
  | reconcile pending => exact nextPassAt_forEach (nextPassAt_reconcileOne m.now _) _ a
  | rebuild => rfl
  | finished id seq outcome =>
    simp only [handle, handleFinished]
    split
    · rfl
    · split <;> rfl
  | stopTask id =>
    simp only [handle, handleStopTask]
    split <;> rfl
  | stop => rfl
  | askView asker =>
    have hdue : a.passDue = false := hfree
    simp [handle, passIfDue, hdue]

theorem waiting_handleStopTask (a : Admission) (id : ScheduleId) :
    (a.handleStopTask id).1.waiting = a.waiting := by
  unfold handleStopTask
  split <;> rfl

theorem waiting_shutdown (a : Admission) : a.shutdown.1.waiting = ∅ := by
  unfold shutdown
  generalize a.active.keys = ids
  suffices h : ∀ b : Admission, (forEach handleStopTask ids b).1.waiting = b.waiting from h _
  induction ids with
  | nil => exact fun b => rfl
  | cons id rest ih => exact fun b => (ih _).trans (waiting_handleStopTask b id)

/-! ## The timer after a pass -/

theorem lt_needsPassAt (hlasts : now < s.ends) : now < a.needsPassAt now s := by
  unfold needsPassAt
  split
  · assumption
  · exact hlasts

/-- A pass sets the timer for everything that it leaves waiting, and for nothing else. -/
theorem pass_nextPassAt (h : a.IsKeyed) (catalog : Catalog) (now : Instant) :
    (a.pass catalog now).1.nextPassAt = ((a.pass catalog now).1.waiting.values.map
      ((a.pass catalog now).1.needsPassAt now)).min? := by
  rw [pass_eq h]
  rfl

theorem nextPassAt_eq_none_iff (h : a.IsKeyed) (catalog : Catalog) (now : Instant) :
    (a.pass catalog now).1.nextPassAt = none ↔
      (a.pass catalog now).1.waiting.isEmpty = true := by
  rw [pass_nextPassAt h, List.min?_eq_none_iff, List.map_eq_nil_iff, ← List.length_eq_zero_iff,
    length_values, Std.TreeMap.isEmpty_eq_size_eq_zero, beq_iff_eq]

theorem lt_of_nextPassAt (h : a.IsKeyed) (catalog : Catalog) {t : Instant}
    (ht : (a.pass catalog now).1.nextPassAt = some t) : now < t := by
  rw [pass_nextPassAt h] at ht
  obtain ⟨s, hs, rfl⟩ := List.mem_map.mp (List.min?_mem ht)
  obtain ⟨id, hid⟩ := mem_values.mp hs
  exact lt_needsPassAt ((isDecided_pass h catalog now).lasts id s hid)

/-! ## The timer between passes -/

/-- The timer is early enough for every schedule that waits for a tuner, as the pass at `last`
saw it. -/
def IsWatched (last : Option Instant) (a : Admission) : Prop :=
  ∀ (id : ScheduleId) (s : Schedule), a.waiting[id]? = some s → id ∉ a.active →
    ∃ pass t, last = some pass ∧ a.nextPassAt = some t ∧ t ≤ a.needsPassAt pass s

theorem isWatched_pass (h : a.IsKeyed) (catalog : Catalog) (now : Instant) :
    IsWatched (some now) (a.pass catalog now).1 := by
  intro id s hs _
  rw [pass_nextPassAt h]
  obtain ⟨t, ht, hle⟩ := min?_le (List.mem_map_of_mem (mem_values.mpr ⟨id, hs⟩))
  exact ⟨now, t, rfl, ht, hle⟩

theorem IsWatched.keep (h : IsWatched last a) (hsame : SameLine a b)
    (htimer : b.nextPassAt = a.nextPassAt) : IsWatched last b := by
  intro id s hs hoff
  have hoff' : id ∉ a.active := mt (hsame.active id).mpr hoff
  obtain ⟨pass, t, hlast, ht, hle⟩ := h id s (hsame.waiting id hoff' ▸ hs) hoff'
  refine ⟨pass, t, hlast, htimer.trans ht, ?_⟩
  unfold needsPassAt admitsAt at hle ⊢
  rwa [hsame.lead]

theorem isWatched_step (h : a.IsKeyed) (m : Occasion)
    (hwatched : a.passDue = false → IsWatched last a) (hdue : (m.step a).1.passDue = false) :
    IsWatched (if m.makesPass a then some m.now else last) (m.step a).1 := by
  split
  · next hpass =>
    rw [Occasion.step_makesPass hpass]
    exact isWatched_pass h m.catalog m.now
  · next hfree =>
    rw [Bool.not_eq_true] at hfree
    cases hmove : m.move with
    | pass => simp [Occasion.makesPass, hmove] at hfree
    | shutdown =>
      intro id s hs
      simp [Occasion.step, hmove, waiting_shutdown] at hs
    | message message =>
      -- A message that asks for no pass leaves both the line and the timer as they were.
      have hm : m.hearing message = m := by rw [Occasion.hearing, ← hmove]
      rw [← hm] at hfree hdue ⊢
      obtain ⟨hbefore, hsame⟩ := heeds_handle h m message hfree hdue
      exact (hwatched hbefore).keep hsame (nextPassAt_handle m message hfree)

/-! ## The timer along a run -/

/-- When the desk makes its last pass of the course. -/
def lastPass (a : Admission) : List Occasion → Option Instant
  | [] => none
  | m :: rest => (lastPass (m.step a).1 rest).or (if m.makesPass a then some m.now else none)

theorem lastPass_concat (a : Admission) (course : List Occasion) (m : Occasion) :
    lastPass a (course ++ [m]) =
      if m.makesPass (run a course) then some m.now else lastPass a course := by
  induction course generalizing a with
  | nil => rfl
  | cons first rest ih =>
    rw [List.cons_append, lastPass, lastPass, ih]
    change _ = if m.makesPass (run (first.step a).1 rest) then _ else _
    split <;> rfl

theorem isWatched_run (inputId : InputId) (lead : Int64) (course : List Occasion)
    (hdue : (run { inputId, lead } course).passDue = false) :
    IsWatched (lastPass { inputId, lead } course) (run { inputId, lead } course) := by
  induction course using List.reverseRecOn with
  | nil =>
    intro id s hs
    simp [run] at hs
  | append_singleton before m ih =>
    rw [lastPass_concat]
    rw [run_append] at hdue ⊢
    exact isWatched_step (isKeyed_run inputId lead before).1 m ih hdue

theorem lead_step (m : Occasion) (h : a.IsKeyed) : (m.step a).1.lead = a.lead := by
  refine (changes_step m h).keeps (P := fun b => b.lead = a.lead) (fun hb hchange => ?_) rfl
  cases hchange <;> exact hb

theorem lead_run (inputId : InputId) (lead : Int64) (course : List Occasion) :
    (run { inputId, lead } course).lead = lead := by
  refine (run_induct (P := fun a => a.IsKeyed ∧ a.lead = lead) ?_
    ⟨.openDesk inputId lead, rfl⟩ course).2
  rintro a m ⟨h, hlead⟩
  exact ⟨isKeyed_step m h, (lead_step m h).trans hlead⟩

/-- While no pass is due, the timer is set for every schedule that waits for a tuner: no later
than it may take one, or than its end if it might already at the last pass. After a pass the
timer is off if nothing waits, and in the future if something does. -/
theorem timer_covers_waiting (inputId : InputId) (lead : Int64) (course : List Occasion) :
    let a := run { inputId, lead } course
    (a.passDue = false →
      ∀ (id : ScheduleId) (s : Schedule), a.waiting[id]? = some s → id ∉ a.active →
        ∃ last t, lastPass { inputId, lead } course = some last ∧ a.nextPassAt = some t ∧
          (last < boundedSub s.starts lead → t ≤ boundedSub s.starts lead) ∧
          (boundedSub s.starts lead ≤ last → t ≤ s.ends)) ∧
    ∀ m : Occasion, m.makesPass a = true →
      let b := (m.step a).1
      (b.nextPassAt = none ↔ b.waiting.isEmpty = true) ∧
        ∀ t, b.nextPassAt = some t → m.now < t := by
  intro a
  have hkeyed : a.IsKeyed := (isKeyed_run inputId lead course).1
  refine ⟨fun hdue id s hs hoff => ?_, fun m hpass => ?_⟩
  · obtain ⟨last, t, hlast, ht, hle⟩ := isWatched_run inputId lead course hdue id s hs hoff
    refine ⟨last, t, hlast, ht, ?_⟩
    unfold needsPassAt admitsAt at hle
    rw [lead_run] at hle
    constructor
    · intro hlater
      rwa [if_pos hlater] at hle
    · intro hopen
      rwa [if_neg (Int64.not_lt.mpr hopen)] at hle
  · intro b
    have hstep : b = (a.pass m.catalog m.now).1 := Occasion.step_makesPass hpass
    rw [hstep]
    exact ⟨nextPassAt_eq_none_iff hkeyed m.catalog m.now,
      fun t ht => lt_of_nextPassAt hkeyed m.catalog ht⟩

/-- One schedule may start already but is held up by the recording, one waits for its time, and
the recorded one waits again because its start has moved later. -/
theorem timer_covers_waiting_three :
    let catalog := ((Catalog.putInput {} ⟨"tuner", 1, true⟩).putChannel
      ⟨7, "tuner", "Seven", none⟩).putChannel ⟨8, "tuner", "Eight", none⟩
    let course : List Occasion :=
      [⟨catalog, 0, .message (.add (.timed 1 7 20 100 0))⟩, ⟨catalog, 0, .pass⟩,
        ⟨catalog, 60, .message (.add (.timed 2 8 100 200 0))⟩,
        ⟨catalog, 60, .message (.add (.timed 3 8 300 400 0))⟩, ⟨catalog, 60, .pass⟩,
        ⟨catalog, 60, .message (.update (.timed 1 7 70 90 0))⟩]
    let a := run { inputId := "tuner", lead := 50 } course
    let third : Schedule := .timed 3 8 300 400 0
    let m : Occasion := ⟨catalog, 190, .pass⟩
    a.passDue = false ∧ a.waiting.keys = [1, 2, 3] ∧ a.active.keys = [1] ∧
      lastPass { inputId := "tuner", lead := 50 } course = some 60 ∧ a.nextPassAt = some 200 ∧
      (∃ last t, lastPass { inputId := "tuner", lead := 50 } course = some last ∧
        a.nextPassAt = some t ∧
        (last < boundedSub third.starts 50 → t ≤ boundedSub third.starts 50) ∧
        (boundedSub third.starts 50 ≤ last → t ≤ third.ends)) ∧
      m.makesPass a = true ∧ (m.step a).1.waiting.keys = [2, 3] ∧
      ((m.step a).1.nextPassAt = none ↔ (m.step a).1.waiting.isEmpty = true) ∧
      ∀ t, (m.step a).1.nextPassAt = some t → m.now < t := by
  intro catalog course a third m
  have ha : run { inputId := "tuner", lead := 50 } course = a := rfl
  obtain ⟨hcovers, hspins⟩ := timer_covers_waiting "tuner" 50 course
  rw [ha] at hcovers hspins
  have hdue : a.passDue = false := by decide
  have hwaits : a.waiting[(3 : ScheduleId)]? = some third := by decide
  have hoff : (3 : ScheduleId) ∉ a.active := by decide
  have hpass : m.makesPass a = true := rfl
  exact ⟨hdue, by decide, by decide, by decide, by decide, hcovers hdue 3 third hwaits hoff, hpass,
    by decide, hspins m hpass⟩

end Admission

end Timeshift
