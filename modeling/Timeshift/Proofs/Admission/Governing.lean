import Timeshift.Proofs.Admission.Holding
import Timeshift.Proofs.Admission.Reconciling

/-!
# The latest copy governs

A new copy of a tracked schedule may come at any time: while the schedule waits, while it is
recorded, or while it waits again beside a recording that is being ended. The copy that the schedule
goes by always has the times and the priority of the latest one.
-/

namespace Timeshift

namespace Admission

variable {l : License} {a : Admission} {id : ScheduleId} {s : Schedule} {latest : Option Schedule}
  {e e' : Entry}

/-! ## Copies -/

/-- The copy of a schedule that a move brings to a desk. An added copy counts if the schedule is new
there, and any other copy if the schedule is tracked. -/
def copyFrom (a : Admission) (id : ScheduleId) : Move → Option Schedule
  | .message (.add s) => if s.id = id ∧ a.isTracked id = false then some s else none
  | .message (.update s) => if s.id = id ∧ a.isTracked id = true then some s else none
  | .message (.reconcile pending) => if a.isTracked id then copyIn pending id else none
  | _ => none

/-- The copies of a schedule that some moves bring, in order. -/
def copiesFor (id : ScheduleId) (a : Admission) : List Occasion → List Schedule
  | [] => []
  | m :: rest => (a.copyFrom id m.move).toList ++ copiesFor id (m.step a).1 rest

theorem copiesFor_concat (id : ScheduleId) (a : Admission) (course : List Occasion) (m : Occasion) :
    copiesFor id a (course ++ [m]) =
      copiesFor id a course ++ ((run a course).copyFrom id m.move).toList := by
  induction course generalizing a with
  | nil => exact List.append_nil _
  | cons first rest ih =>
    rw [List.cons_append, copiesFor, ih, copiesFor, List.append_assoc]
    rfl

/-- The copy that a schedule goes by: the one that waits, or else that of its recording, unless the
recording has been told to end. -/
def governing (a : Admission) (id : ScheduleId) : Option Schedule :=
  match a.waiting[id]?, a.active[id]? with
  | some s, _ => some s
  | none, some t => if t.isStopping then none else some t.schedule
  | none, none => none

/-! ## Entries that go by a copy -/

/-- What waits is the latest copy. A recording that runs on has nothing waiting beside it, and
follows the latest copy. -/
structure GoesBy (latest : Option Schedule) (e : Entry) : Prop where
  waiting : ∀ s, e.waiting = some s → latest = some s
  running : ∀ t, e.active = some t → t.isStopping = false →
    e.waiting = none ∧ ∃ s, latest = some s ∧ t.Follows s

namespace GoesBy

/-- Less may wait, and less may run on. -/
theorem less (h : GoesBy latest e) (hwaiting : ∀ s, e'.waiting = some s → e.waiting = some s)
    (hrunning : ∀ t, e'.active = some t → t.isStopping = false → e.active = some t) :
    GoesBy latest e' where
  waiting s hs := h.waiting s (hwaiting s hs)
  running t ht hon := by
    obtain ⟨hnone, hfollows⟩ := h.running t (hrunning t ht hon) hon
    refine ⟨Option.eq_none_iff_forall_ne_some.mpr fun s hs => ?_, hfollows⟩
    rw [hwaiting s hs] at hnone
    cases hnone

theorem dismiss (h : GoesBy latest (a.entry id)) (k : ScheduleId) :
    GoesBy latest ((a.dismiss k).entry id) := by
  rw [entry_dismiss]
  refine h.less (fun s hs => ?_) fun t ht _ => ht
  dsimp only at hs
  split at hs
  · cases hs
  · exact hs

theorem tellEnd (h : GoesBy latest (a.entry id)) (t : Running) (order : Order) :
    GoesBy latest ((a.tellEnd t order).1.entry id) := by
  rw [entry_tellEnd]
  refine h.less (fun s hs => hs) fun u hu hon => ?_
  dsimp only at hu
  split at hu
  · obtain rfl := Option.some.inj hu
    cases hon
  · exact hu

/-- The schedule that gets the tuner goes on with the copy that has waited. -/
theorem begin (h : GoesBy latest (a.entry id)) (hs : a.waiting[s.id]? = some s)
    (channel : Channel) : GoesBy latest (((a.dismiss s.id).begin s channel).1.entry id) := by
  by_cases hid : s.id = id
  · subst hid
    refine ⟨fun x hx => ?_, fun t ht _ => ?_⟩
    · have hgone : (a.dismiss s.id).waiting[s.id]? = none := by
        rw [Admission.dismiss, get_erase, if_pos rfl]
      exact absurd (hx.symm.trans hgone) (by simp)
    · have hnew : some t = some ⟨{ s with state := .inProgress }, a.lastSeq + 1, false⟩ := by
        rw [← ht]
        exact get_insert.trans (if_pos rfl)
      obtain rfl := Option.some.inj hnew
      exact ⟨get_erase.trans (if_pos rfl), s, h.waiting s hs, rfl, rfl, rfl⟩
  · have hentry : ((a.dismiss s.id).begin s channel).1.entry id = (a.dismiss s.id).entry id :=
      congrArg (Entry.mk _) (get_insert.trans (if_neg hid))
    rw [hentry]
    exact h.dismiss s.id

/-- Where no copy is taken over, the schedule goes on by the copy it has gone by. -/
theorem change (h : GoesBy latest (a.entry id)) (hl : ∀ s, ¬ l.takes s) {turn : Turn}
    (hchange : Change l a turn) : GoesBy latest (turn.1.entry id) := by
  cases hchange with
  | note | answer => exact h
  | join s hs | replace s hs | requeue s t hs | follow s t hs => exact absurd hs (hl s)
  | drop k => exact h.dismiss k
  | callOff k t => exact (h.dismiss k).tellEnd t .cancel
  | clear => exact h.less (fun s hs => by simp [entry] at hs) fun t ht _ => ht
  | stop k t => exact h.tellEnd t .stop
  | close k t =>
    refine h.less (fun s hs => hs) fun u hu _ => ?_
    simp only [entry, get_erase] at hu
    split at hu
    · cases hu
    · exact hu
  | fail s => exact h.dismiss s.id
  | start s channel hs => exact h.begin hs channel

theorem changes (h : GoesBy latest (a.entry id)) (hl : ∀ s, ¬ l.takes s) {turn : Turn}
    (hall : Changes l a turn) : GoesBy latest (turn.1.entry id) :=
  hall.keeps (P := fun b => GoesBy latest (b.entry id)) (fun hb => hb.change hl) h

theorem empty (latest : Option Schedule) : GoesBy latest ⟨none, none⟩ where
  waiting _ hs := nomatch hs
  running _ ht := nomatch ht

/-- A copy waits, and what is on the books is being ended. -/
theorem waits (s : Schedule) {active : Option Running}
    (hactive : ∀ t, active = some t → t.isStopping = true) : GoesBy (some s) ⟨some s, active⟩ where
  waiting _ hx := hx
  running t ht hon := by
    rw [hactive t ht] at hon
    cases hon

theorem runs {t : Running} (h : t.Follows s) : GoesBy (some s) ⟨none, some t⟩ where
  waiting _ hs := nomatch hs
  running _ ht _ := ⟨rfl, s, rfl, Option.some.inj ht ▸ h⟩

/-- What waits beside a recording waits for its end. -/
theorem isStopping {old : Schedule} {active : Option Running}
    (h : GoesBy latest ⟨some old, active⟩) (t : Running) (ht : active = some t) :
    t.isStopping = true := by
  by_contra hon
  cases (h.running t ht (by simpa using hon)).1

/-- A reconciliation leaves nothing behind that goes by an older copy. -/
theorem reconciled (h : GoesBy latest e) (now : Instant) (copy : Option Schedule) :
    GoesBy (copy.or latest) (e.reconciled now copy) := by
  obtain ⟨waiting, active⟩ := e
  cases copy with
  | none =>
    refine h.less (fun _ hs => nomatch hs) fun t ht hon => ?_
    obtain ⟨u, -, rfl⟩ := Option.map_eq_some_iff.mp ht
    cases hon
  | some s =>
    cases waiting with
    | some old => exact waits s h.isStopping
    | none =>
      cases active with
      | none => exact empty _
      | some t =>
        by_cases hsame : t.Follows s
        · simp only [Entry.reconciled, if_pos hsame]
          exact runs hsame
        · by_cases hlater : movesLater now t s = true
          · simp only [Entry.reconciled, if_neg hsame, if_pos hlater]
            exact waits s fun u hu => Option.some.inj hu ▸ rfl
          · simp only [Entry.reconciled, if_neg hsame, if_neg hlater]
            exact runs ⟨rfl, rfl, rfl⟩

end GoesBy

/-! ## Moves -/

theorem handleUpdate_of_untracked (h : ¬ a.isTracked s.id = true) (now : Instant) :
    a.handleUpdate now s = (a, []) := by
  obtain ⟨hwait, hon⟩ := not_or.mp (mt isTracked_iff.mpr h)
  simp only [handleUpdate, if_neg (mt Std.TreeMap.contains_iff_mem.mp hwait),
    Std.TreeMap.getElem?_eq_none hon]

theorem goesBy_handleAdd (h : GoesBy latest (a.entry id)) (s : Schedule) :
    GoesBy ((a.copyFrom id (.message (.add s))).or latest) ((a.handleAdd s).1.entry id) := by
  rw [handleAdd]
  by_cases hid : s.id = id
  · subst hid
    by_cases htracked : a.isTracked s.id = true
    · rw [if_pos htracked, copyFrom, if_neg (by simp [htracked])]
      exact h
    · have hentry : (a.enqueue s).entry s.id = ⟨some s, none⟩ := by
        rw [entry_enqueue, if_pos rfl]
        exact congrArg (Entry.mk _ ∘ Entry.active) (entry_of_untracked htracked)
      rw [if_neg htracked, copyFrom, if_pos ⟨rfl, by simpa using htracked⟩]
      exact hentry ▸ GoesBy.waits s fun t ht => absurd ht.symm (Option.some_ne_none t)
  · have hentry : (a.enqueue s).entry id = a.entry id := by
      rw [entry_enqueue, if_neg hid, entry]
    rw [copyFrom, if_neg fun hboth => hid hboth.1]
    split
    · exact h
    · exact hentry ▸ h

theorem goesBy_handleUpdate (hkeyed : a.IsKeyed) (h : GoesBy latest (a.entry id)) (now : Instant)
    (s : Schedule) : GoesBy ((a.copyFrom id (.message (.update s))).or latest)
      ((a.handleUpdate now s).1.entry id) := by
  by_cases hid : s.id = id
  · subst hid
    by_cases htracked : a.isTracked s.id = true
    · rw [copyFrom, if_pos ⟨rfl, htracked⟩, Option.some_or]
      by_cases hwait : s.id ∈ a.waiting
      · obtain ⟨old, hold⟩ := mem_iff_get.mp hwait
        rw [entry_handleUpdate_waiting hwait]
        rw [entry, hold] at h
        exact GoesBy.waits s h.isStopping
      · obtain ⟨t, ht⟩ := mem_iff_get.mp ((isTracked_iff.mp htracked).resolve_left hwait)
        rw [entry_handleUpdate_active hkeyed (Std.TreeMap.getElem?_eq_none hwait) ht]
        split
        · exact GoesBy.waits s fun u hu => Option.some.inj hu ▸ rfl
        · exact GoesBy.runs ⟨rfl, rfl, rfl⟩
    · rw [copyFrom, if_neg fun hboth => htracked hboth.2, handleUpdate_of_untracked htracked]
      exact h
  · rw [copyFrom, if_neg fun hboth => hid hboth.1, entry_handleUpdate_of_ne hkeyed now hid]
    exact h

theorem goesBy_handleReconcile (hkeyed : a.IsKeyed) (h : GoesBy latest (a.entry id)) (now : Instant)
    (pending : List Schedule) :
    GoesBy ((a.copyFrom id (.message (.reconcile pending))).or latest)
      ((a.handleReconcile now pending).1.entry id) := by
  rw [(entry_handleReconcile hkeyed now pending id).1, copyFrom]
  split
  · exact h.reconciled now (copyIn pending id)
  · next hnew =>
    rw [entry_of_untracked hnew]
    cases copyIn pending id <;> exact GoesBy.empty _

/-- With every move a desk goes by the copy that the move brings, and else by the one before. -/
theorem goesBy_step (m : Occasion) (hkeyed : a.IsKeyed) (h : GoesBy latest (a.entry id)) :
    GoesBy ((a.copyFrom id m.move).or latest) ((m.step a).1.entry id) := by
  obtain ⟨catalog, now, move⟩ := m
  have hchanges := changes_step ⟨catalog, now, move⟩ hkeyed
  cases move with
  | message message =>
    cases message with
    | add s => exact goesBy_handleAdd h s
    | update s => exact goesBy_handleUpdate hkeyed h now s
    | reconcile pending => exact goesBy_handleReconcile hkeyed h now pending
    | remove | rebuild | finished | stopTask | askView | stop =>
      exact h.changes (fun _ hno => hno) hchanges
  | pass | shutdown => exact h.changes (fun _ hno => hno) hchanges

/-- After a run a desk goes by the last one of all copies that it has been brought. -/
theorem goesBy_run (inputId : InputId) (lead : Int64) (course : List Occasion) (id : ScheduleId) :
    GoesBy (copiesFor id { inputId, lead } course).getLast?
      ((run { inputId, lead } course).entry id) := by
  induction course using List.reverseRecOn with
  | nil =>
    have hfresh : ¬ isTracked ({ inputId, lead } : Admission) id = true := by
      rw [isTracked_iff]
      exact not_or.mpr ⟨Std.TreeMap.not_mem_emptyc, Std.TreeMap.not_mem_emptyc⟩
    exact (entry_of_untracked hfresh).symm ▸ GoesBy.empty _
  | append_singleton course m ih =>
    have hlast : ∀ copy : Option Schedule, copy.toList.getLast? = copy := by
      intro copy
      cases copy <;> rfl
    rw [copiesFor_concat, List.getLast?_append, hlast, run_append]
    exact goesBy_step m (isKeyed_run inputId lead course).1 ih

/-- A held schedule goes by the times and the priority of the latest copy that its desk has been
brought, whatever became of the earlier ones. -/
theorem latest_copy_governs (inputId : InputId) (lead : Int64) (course : List Occasion)
    (id : ScheduleId) (h : (run { inputId, lead } course).Holds id) :
    ∃ governing latest, (run { inputId, lead } course).governing id = some governing ∧
      (copiesFor id { inputId, lead } course).getLast? = some latest ∧
      governing.starts = latest.starts ∧ governing.ends = latest.ends ∧
      governing.priority = latest.priority := by
  obtain ⟨hwaiting, hrunning⟩ := goesBy_run inputId lead course id
  generalize run { inputId, lead } course = a at h hwaiting hrunning ⊢
  by_cases hwait : id ∈ a.waiting
  · obtain ⟨s, hs⟩ := mem_iff_get.mp hwait
    exact ⟨s, s, by rw [governing, hs], hwaiting s hs, rfl, rfl, rfl⟩
  · obtain ⟨t, ht, hon⟩ := h.resolve_left hwait
    obtain ⟨hnone, latest, hlatest, hfollows⟩ := hrunning t ht hon
    have hruns : a.governing id = some t.schedule := by
      simp only [governing, Std.TreeMap.getElem?_eq_none hwait, ht, hon, if_neg, Bool.false_eq_true,
        not_false_iff]
    exact ⟨t.schedule, latest, hruns, hlatest, hfollows⟩

/-- The schedule moves later while it is recorded, and once more while the recording winds down. It
is recorded anew by the last copy. -/
theorem latest_copy_governs_requeued :
    let catalog := (Catalog.putInput {} ⟨"tuner", 1, true⟩).putChannel ⟨7, "tuner", "Seven", none⟩
    let handle (now : Instant) (m : Message) : Occasion := ⟨catalog, now, .message m⟩
    let course : List Occasion :=
      [handle 0 (.add (.timed 1 7 0 90 5)), ⟨catalog, 10, .pass⟩,
        handle 20 (.update (.timed 1 7 50 90 5)), handle 30 (.update (.timed 1 7 60 95 6)),
        handle 40 (.finished 1 1 .canceled), ⟨catalog, 60, .pass⟩]
    let a := run { inputId := "tuner", lead := 0 } course
    a.Holds 1 ∧
      copiesFor 1 { inputId := "tuner", lead := 0 } course =
        [.timed 1 7 0 90 5, .timed 1 7 50 90 5, .timed 1 7 60 95 6] ∧
      (a.active.values.map fun t => (t.schedule.starts, t.seq)) = [(60, 2)] ∧
      ∃ governing, a.governing 1 = some governing ∧ governing.starts = 60 ∧ governing.ends = 95 ∧
        governing.priority = 6 := by
  intro catalog handle course a
  have hholds : a.Holds 1 := by decide
  have hcopies : copiesFor 1 { inputId := "tuner", lead := 0 } course =
      [.timed 1 7 0 90 5, .timed 1 7 50 90 5, .timed 1 7 60 95 6] := by decide
  obtain ⟨governing, latest, hgoverning, hlatest, hstarts, hends, hpriority⟩ :=
    latest_copy_governs "tuner" 0 course 1 hholds
  rw [hcopies] at hlatest
  obtain rfl := Option.some.inj hlatest
  exact ⟨hholds, hcopies, by decide, governing, hgoverning, hstarts, hends, hpriority⟩

end Admission

end Timeshift
