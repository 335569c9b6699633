import Timeshift.Proofs.Station.Retaining
import Timeshift.Proofs.Store.LastWord

/-!
# Removing schedules through the station

A recording that runs is to be stopped, not removed. Which of the two happens is decided by the
copy of the schedule that the client hands over, and this copy may be old.
-/

namespace Timeshift

namespace Store

variable {s t : Store} {l : List Schedule} {force : Bool} {id : ScheduleId}

/-! ## What a removal takes out of use -/

/-- The stored copies tell whether a mark is left, but the ids alone tell what goes. -/
theorem mem_ids_deleted (h : s.IsKeyed) (l : List Schedule) (force : Bool) (hid : id ∈ s.live) :
    id ∈ (s.struck l force ++ s.buried l force).map (·.id) ↔ ∃ x ∈ l, x.id = id := by
  have hnamed : (∃ x ∈ s.named l, x.id = id) ↔ ∃ x ∈ l, x.id = id := by
    simp only [named, List.mem_filterMap]
    constructor
    · rintro ⟨y, ⟨x, hx, hy⟩, rfl⟩
      exact ⟨x, hx, (h x.id y hy).symm⟩
    · rintro ⟨x, hx, rfl⟩
      obtain ⟨y, hy⟩ := mem_iff_get.mp hid
      exact ⟨y, ⟨x, hx, hy⟩, h x.id y hy⟩
  rw [← hnamed]
  simp only [struck, buried, List.map_append, List.map_map, List.mem_append, List.mem_map,
    List.mem_filter]
  constructor
  · rintro (⟨x, ⟨hx, -⟩, rfl⟩ | ⟨x, ⟨hx, -⟩, rfl⟩) <;> exact ⟨x, hx, rfl⟩
  · rintro ⟨x, hx, rfl⟩
    cases hmark : !force && leavesMark x with
    | true => exact .inr ⟨x, ⟨hx, hmark⟩, rfl⟩
    | false => exact .inl ⟨x, ⟨hx, by rw [hmark]; rfl⟩, rfl⟩

/-- A removal that fails takes nothing out of use, and one that succeeds all that it names. -/
theorem mem_live_remove (h : s.IsKeyed) (hid : id ∈ s.live) :
    id ∈ (s.run (remove l force)).2.live ↔
      (∃ fault, (s.run (remove l force)).1 = .error fault) ∨ ∀ x ∈ l, x.id ≠ id := by
  rcases hrun : s.run (remove l force) with ⟨answer, t⟩
  cases answer with
  | error fault =>
    have hlike := failsUnseen_remove l force s fault (congrArg Prod.fst hrun)
    rw [hrun] at hlike
    exact iff_of_true (hlike.live ▸ hid) (.inl ⟨fault, rfl⟩)
  | ok =>
    rw [live_remove hrun, mem_iff_get, get_release]
    simp only [mem_ids_deleted h l force hid, reduceCtorEq, exists_false, false_or]
    split
    · next hsome =>
      obtain ⟨x, hx, hxid⟩ := hsome
      exact iff_of_false (fun h => nomatch h.choose_spec) fun hnone => hnone x hx hxid
    · next hnone => exact iff_of_true (mem_iff_get.mp hid) fun x hx hxid => hnone ⟨x, hx, hxid⟩

end Store

namespace Station

variable {α β : Type} {id : ScheduleId} {s : Station} {copies : List Schedule}

/-! ## Asking for a removal -/

theorem run_onStore (op : Store.Op α) : (onStore op).run = withStore op := rfl

theorem IsRetaining.requireLoaded : IsRetaining (onStore Booking.requireLoaded).run := by
  rw [run_onStore]
  refine .withStore ?_
  rw [Booking.requireLoaded]
  refine .bind .get fun store => ?_
  split
  · exact .pure _
  · exact .throw _

/-- What fails midway fails as a whole, and what comes last decides otherwise. -/
theorem leads_deed {act : Deed α} {next : α → Deed β} {Q : Except Fault β → Station → Prop}
    {st : Store} (h : IsRetaining act.run) (hfail : ∀ fault s, Retains st s → Q (.error fault) s)
    (h' : ∀ a, Leads (Retains st) (next a).run Q) : Leads (Retains st) (act >>= next).run Q := by
  rw [ExceptT.run_bind]
  refine (h st).bind fun answer => ?_
  cases answer with
  | ok a => exact h' a
  | error fault => exact .pure (hfail fault)

/-- A schedule in use, be it recorded or not, stays in use just in case that the removal fails or
every copy of it that the client hands over says that it is being recorded. -/
theorem stays_in_use_iff (h : s.IsOrderly) (hid : id ∈ s.store.live) (copies : List Schedule) :
    let called := s.run (removeSchedules copies).run
    id ∈ called.2.store.live ↔
      (∃ fault, called.1 = .error fault) ∨ ∀ c ∈ copies, c.id = id → c.isInProgress = true := by
  let Q (answer : Except Fault Unit) (after : Station) : Prop :=
    id ∈ after.store.live ↔
      (∃ fault, answer = .error fault) ∨ ∀ c ∈ copies, c.id = id → c.isInProgress = true
  have hfail : ∀ fault after, Retains s.store after → Q (.error fault) after :=
    fun fault after hafter => iff_of_true (hafter.2.live id hid) (.inl ⟨fault, rfl⟩)
  suffices hall : Leads (Retains s.store) (removeSchedules copies).run Q from hall s (.refl h)
  rw [removeSchedules]
  refine leads_deed .requireLoaded hfail fun _ => ?_
  dsimp only
  rw [List.partition_eq_filter_filter]
  refine leads_deed (.forEach isRetaining_stopTask _) hfail fun _ => ?_
  have hidle : (∀ c ∈ copies.filter (!·.isInProgress), c.id ≠ id) ↔
      ∀ c ∈ copies, c.id = id → c.isInProgress = true := by
    simp only [List.mem_filter, and_imp, Bool.not_eq_true', ← Bool.not_eq_true]
    exact ⟨fun hall c hc hcid => by_contra fun hrunning => hall c hc hrunning hcid,
      fun hall c hc hrunning hcid => hrunning (hall c hc hcid)⟩
  have hlast : ∀ t, Retains s.store t →
      Q (t.store.run (Store.remove (copies.filter (!·.isInProgress)) false)).1
        (t.run (withStore (Store.remove (copies.filter (!·.isInProgress)) false))).2 := by
    intro t ht
    have hafter := (leads_withStore (Store.remove (copies.filter (!·.isInProgress)) false)
      t ht.1.2).store
    change id ∈ Store.live _ ↔ _
    rw [← hidle, hafter]
    exact Store.mem_live_remove ht.1.1 (ht.2.live id hid)
  split
  · next hnone =>
    intro t ht
    have hempty : copies.filter (!·.isInProgress) = [] := List.isEmpty_iff.mp hnone
    rw [hempty] at hidle
    have hall := hidle.mp fun c hc => absurd hc List.not_mem_nil
    exact iff_of_true (ht.2.live id hid) (.inr hall)
  · exact hlast

theorem IsOrderly.proceed (h : s.IsOrderly) (happenings : List Happening) :
    (s.proceed happenings).IsOrderly := by
  induction happenings generalizing s with
  | nil => exact h
  | cons happening rest ih => exact ih (h.next happening)

/-- The first of two schedules is being recorded, and its start has been written. -/
def recordingFirst : Station :=
  let around : Surroundings :=
    { catalog := (Catalog.putInput {} ⟨"tuner", 1, true⟩).putChannel ⟨1, "tuner", "One", none⟩ }
  (opening {} around {} 0 {}).proceed [.startControl, .write (.load 0),
    .write (.add [.timed 0 1 30000 90000 5, .timed 0 1 95000 99000 5]), .follow, .follow, .desk 1,
    .passTime 35000, .desk 1, .take 1, .follow]

/-- A copy that says so keeps the recording in use, also beside one of the other schedule. -/
theorem stays_in_use_iff_recording :
    let copies : List Schedule :=
      [{ Schedule.timed 1 1 30000 90000 5 with state := .inProgress }, .timed 2 1 95000 99000 5]
    let called := recordingFirst.run (removeSchedules copies).run
    recordingFirst.IsOrderly ∧ 1 ∈ recordingFirst.store.live ∧ 2 ∈ recordingFirst.store.live ∧
      1 ∈ called.2.store.live ∧ 2 ∉ called.2.store.live := by
  intro copies called
  have horderly : recordingFirst.IsOrderly := (isOrderly_opening ..).proceed _
  have hfirst : 1 ∈ recordingFirst.store.live := by decide +kernel
  have hsecond : 2 ∈ recordingFirst.store.live := by decide +kernel
  have hok : called.1.isOk = true := by decide +kernel
  have hkept := (stays_in_use_iff horderly hfirst copies).mpr (.inr (by decide))
  have hgone : 2 ∉ called.2.store.live := by
    refine mt (stays_in_use_iff horderly hsecond copies).mp ?_
    rintro (⟨fault, hfault⟩ | hall)
    · rw [hfault] at hok
      cases hok
    · exact absurd (hall (.timed 2 1 95000 99000 5) (by decide) rfl) (by decide)
  exact ⟨horderly, hfirst, hsecond, hkept, hgone⟩

/-- A recording has begun since the client has read the schedule. Its old copy deletes it. -/
theorem not_in_use_after_old_copy :
    let called := recordingFirst.run (removeSchedules [.timed 1 1 30000 90000 5]).run
    recordingFirst.store.isLoaded = true ∧
      recordingFirst.store.stateOf? 1 = some .inProgress ∧
      called.1.isOk = true ∧ 1 ∉ called.2.store.live := by
  decide +kernel

end Station

end Timeshift
