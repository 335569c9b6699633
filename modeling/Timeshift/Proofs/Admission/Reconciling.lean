import Timeshift.Proofs.Admission.Capacity
import Timeshift.Proofs.Admission.Account
import Timeshift.Proofs.Store.Success

/-!
# Reconciliation

A reconciliation goes through the tracked schedules and brings each of them in line with the
wanted copies, on its own. What a desk has on one schedule is its entry, so a reconciliation is
known by what it makes of one entry.
-/

namespace Timeshift

/-- The recording goes by a copy: nothing that it needs to know is different there. -/
def Running.Follows (t : Running) (s : Schedule) : Prop :=
  t.schedule.starts = s.starts ∧ t.schedule.ends = s.ends ∧ t.schedule.priority = s.priority

instance (t : Running) (s : Schedule) : Decidable (t.Follows s) :=
  inferInstanceAs (Decidable (t.schedule.starts = s.starts ∧ t.schedule.ends = s.ends ∧
    t.schedule.priority = s.priority))

namespace Admission

variable {a : Admission} {id k : ScheduleId} {now : Instant} {pending : List Schedule}
  {wanted : Std.TreeMap ScheduleId Schedule} {s : Schedule} {t : Running}

/-! ## Entries -/

/-- What a desk has on one schedule. -/
structure Entry where
  waiting : Option Schedule
  active : Option Running
  deriving DecidableEq

def entry (a : Admission) (id : ScheduleId) : Entry := ⟨a.waiting[id]?, a.active[id]?⟩

/-- What a reconciliation makes of an entry, given the wanted copy of the schedule. -/
def Entry.reconciled (now : Instant) (copy : Option Schedule) (e : Entry) : Entry :=
  match copy, e with
  | none, ⟨_, active⟩ => ⟨none, active.map ({ · with isStopping := true })⟩
  | some s, ⟨some _, active⟩ => ⟨some s, active⟩
  | some s, ⟨none, some t⟩ =>
    if t.Follows s then ⟨none, some t⟩
    else if movesLater now t s then ⟨some s, some { t with isStopping := true }⟩
    else ⟨none, some { t with schedule := s }⟩
  | some _, ⟨none, none⟩ => ⟨none, none⟩

theorem entry_of_untracked (h : ¬ a.isTracked id = true) : a.entry id = ⟨none, none⟩ := by
  obtain ⟨hwait, hon⟩ := not_or.mp (mt isTracked_iff.mpr h)
  exact congrArg₂ Entry.mk (Std.TreeMap.getElem?_eq_none hwait) (Std.TreeMap.getElem?_eq_none hon)

theorem entry_enqueue (a : Admission) (s : Schedule) (id : ScheduleId) :
    (a.enqueue s).entry id = ⟨if s.id = id then some s else a.waiting[id]?, a.active[id]?⟩ := by
  rw [entry, enqueue, get_insert]

theorem entry_dismiss (a : Admission) (k id : ScheduleId) :
    (a.dismiss k).entry id = ⟨if k = id then none else a.waiting[id]?, a.active[id]?⟩ := by
  rw [entry, dismiss, get_erase]

theorem entry_tellEnd (a : Admission) (t : Running) (order : Order) (id : ScheduleId) :
    (a.tellEnd t order).1.entry id = ⟨a.waiting[id]?,
      if t.schedule.id = id then some { t with isStopping := true } else a.active[id]?⟩ := by
  simp only [entry, tellEnd, get_insert]

/-! ## One schedule -/

/-- A change of one schedule leaves the entries of all others alone. -/
theorem entry_handleRemove_of_ne (h : a.IsKeyed) (hne : k ≠ id) :
    (a.handleRemove k).1.entry id = a.entry id := by
  simp only [handleRemove]
  split
  · next t ht =>
    rw [entry_tellEnd, h.active k t ht, if_neg hne]
    exact (entry_dismiss a k id).trans (by rw [if_neg hne, entry])
  · have hrest : (a.dismiss k).entry id = a.entry id := by rw [entry_dismiss, if_neg hne, entry]
    split <;> exact hrest

theorem entry_handleUpdate_of_ne (h : a.IsKeyed) (now : Instant) (hne : s.id ≠ id) :
    (a.handleUpdate now s).1.entry id = a.entry id := by
  have hqueue : (a.enqueue s).entry id = a.entry id := by rw [entry_enqueue, if_neg hne, entry]
  rw [handleUpdate]
  split
  · exact hqueue
  · split
    · rfl
    · next t ht =>
      split
      · rw [entry_tellEnd, h.active s.id t ht, if_neg hne]
        exact hqueue
      · simp only [entry, get_insert, if_neg hne]

theorem entry_reconcileOne_of_ne (h : a.IsKeyed)
    (hwanted : ∀ (k : ScheduleId) (s : Schedule), wanted[k]? = some s → s.id = k)
    (hne : k ≠ id) : (reconcileOne now wanted a k).1.entry id = a.entry id := by
  rw [reconcileOne]
  split
  · exact entry_handleRemove_of_ne h hne
  · next s hs =>
    split
    · exact entry_handleUpdate_of_ne h now (hwanted k s hs ▸ hne)
    · rfl

theorem entry_handleRemove (h : a.IsKeyed) (id : ScheduleId) :
    (a.handleRemove id).1.entry id = (a.entry id).reconciled now none := by
  have hentry : ∀ active, a.active[id]? = active →
      (a.entry id).reconciled now none = ⟨none, active.map ({ · with isStopping := true })⟩ := by
    rintro _ rfl
    rfl
  have hrest : (a.dismiss id).entry id = ⟨none, a.active[id]?⟩ := by
    rw [entry_dismiss, if_pos rfl]
  simp only [handleRemove]
  split
  · next t ht =>
    rw [entry_tellEnd, h.active id t ht, if_pos rfl, hentry _ ht]
    exact congrArg (Entry.mk · _) (congrArg Entry.waiting hrest)
  · next hoff =>
    rw [hentry _ hoff]
    rw [hoff] at hrest
    split <;> exact hrest

theorem entry_handleUpdate_waiting (hwait : s.id ∈ a.waiting) :
    (a.handleUpdate now s).1.entry s.id = ⟨some s, a.active[s.id]?⟩ := by
  rw [handleUpdate, if_pos (Std.TreeMap.contains_iff_mem.mpr hwait)]
  exact (entry_enqueue a s s.id).trans (by rw [if_pos rfl])

theorem entry_handleUpdate_active (h : a.IsKeyed) (hwait : a.waiting[s.id]? = none)
    (hon : a.active[s.id]? = some t) :
    (a.handleUpdate now s).1.entry s.id =
      if movesLater now t s then ⟨some s, some { t with isStopping := true }⟩
      else ⟨none, some { t with schedule := s }⟩ := by
  have hout : ¬ a.waiting.contains s.id = true := by
    rw [Std.TreeMap.contains_iff_mem, mem_iff_get]
    simp [hwait]
  simp only [handleUpdate, if_neg hout, hon]
  split
  · rw [entry_tellEnd, h.active s.id t hon, if_pos rfl]
    exact congrArg (Entry.mk · _) (by rw [enqueue, get_insert, if_pos rfl])
  · simp only [entry, hwait, get_insert, if_pos]

/-- The copy that waits is replaced if it differs in anything. -/
theorem entry_update_waiting {old : Schedule} (hold : a.waiting[s.id]? = some old) :
    (if a.differs s then a.handleUpdate now s else (a, [])).1.entry s.id =
      ⟨some s, a.active[s.id]?⟩ := by
  have hdiffers : a.differs s = decide (old ≠ s) := by simp only [differs, hold]
  rw [hdiffers]
  by_cases hsame : old = s
  · rw [if_neg (by simpa using hsame), entry, hold, hsame]
  · rw [if_pos (by simpa using hsame), entry_handleUpdate_waiting (mem_of_get hold)]

/-- A recording is told of the new copy, or gives way to it, if it does not follow it yet. -/
theorem entry_update_active (h : a.IsKeyed) (hwait : a.waiting[s.id]? = none)
    (hon : a.active[s.id]? = some t) :
    (if a.differs s then a.handleUpdate now s else (a, [])).1.entry s.id =
      (Entry.mk none (some t)).reconciled now (some s) := by
  have hdiffers : a.differs s = true ↔ ¬ t.Follows s := by
    simp only [differs, hwait, hon, Running.Follows]
    grind
  rw [Entry.reconciled]
  by_cases hsame : t.Follows s
  · rw [if_neg (by rw [hdiffers]; exact not_not_intro hsame), if_pos hsame, entry, hwait, hon]
  · rw [if_pos (hdiffers.mpr hsame), if_neg hsame, entry_handleUpdate_active h hwait hon]

/-- The turn of a schedule does to its entry what a reconciliation is to do. -/
theorem entry_reconcileOne (h : a.IsKeyed)
    (hwanted : ∀ (k : ScheduleId) (s : Schedule), wanted[k]? = some s → s.id = k)
    (now : Instant) (id : ScheduleId) :
    (reconcileOne now wanted a id).1.entry id = (a.entry id).reconciled now wanted[id]? := by
  rw [reconcileOne]
  split
  · next hnone => rw [hnone, entry_handleRemove h]
  · next s hs =>
    obtain rfl := hwanted id s hs
    rw [hs]
    cases hwait : a.waiting[s.id]? with
    | some old =>
      have hentry : a.entry s.id = ⟨some old, a.active[s.id]?⟩ := congrArg (Entry.mk · _) hwait
      rw [entry_update_waiting hwait, hentry]
      rfl
    | none =>
      cases hon : a.active[s.id]? with
      | some t =>
        have hentry : a.entry s.id = ⟨none, some t⟩ := congrArg₂ Entry.mk hwait hon
        rw [entry_update_active h hwait hon, hentry]
      | none =>
        have hentry : a.entry s.id = ⟨none, none⟩ := congrArg₂ Entry.mk hwait hon
        have hdiffers : a.differs s = false := by simp only [differs, hwait, hon]
        rw [hdiffers, hentry]
        exact hentry

theorem tell_reconcileOne (hnone : wanted[id]? = none) (ht : a.active[id]? = some t) :
    .tell t.seq .cancel ∈ (reconcileOne now wanted a id).2 := by
  simp only [reconcileOne, hnone, handleRemove, ht]
  exact List.mem_singleton.mpr rfl

/-! ## All schedules -/

theorem mem_trackedIds_iff : id ∈ a.trackedIds ↔ a.isTracked id = true := by
  simp only [trackedIds, List.mem_append, Std.TreeMap.mem_keys, List.mem_filter,
    Bool.not_eq_true', Bool.eq_false_iff, ne_eq, Std.TreeMap.contains_iff_mem, isTracked_iff]
  tauto

theorem nodup_trackedIds (a : Admission) : a.trackedIds.Nodup := by
  refine List.Nodup.append Std.TreeMap.nodup_keys (Std.TreeMap.nodup_keys.filter _) ?_
  intro id hwait hon
  rw [Std.TreeMap.mem_keys, ← Std.TreeMap.contains_iff_mem] at hwait
  simp [hwait] at hon

/-- In a round that leaves out nobody's turn and takes none twice, the entry of a schedule is
what its own turn makes of it. -/
theorem turn_in_forEach (step : Admission → ScheduleId → Turn)
    (hkeyed : ∀ (a : Admission) (id : ScheduleId), a.IsKeyed → (step a id).1.IsKeyed)
    (hothers : ∀ (a : Admission) (k id : ScheduleId), a.IsKeyed → k ≠ id →
      (step a k).1.entry id = a.entry id)
    {ids : List ScheduleId} (hids : ids.Nodup) (h : a.IsKeyed) (id : ScheduleId) :
    (id ∉ ids → (forEach step ids a).1.entry id = a.entry id) ∧
    (id ∈ ids → ∃ b : Admission, b.IsKeyed ∧ b.entry id = a.entry id ∧
      (forEach step ids a).1.entry id = (step b id).1.entry id ∧
      (step b id).2 ⊆ (forEach step ids a).2) := by
  induction ids generalizing a with
  | nil => exact ⟨fun _ => rfl, fun hno => absurd hno List.not_mem_nil⟩
  | cons k rest ih =>
    obtain ⟨hk, hrest⟩ := List.nodup_cons.mp hids
    obtain ⟨hout, hin⟩ := ih hrest (hkeyed a k h)
    constructor
    · intro hid
      obtain ⟨hne, hnot⟩ := not_or.mp (mt List.mem_cons.mpr hid)
      exact (hout hnot).trans (hothers a k id h (Ne.symm hne))
    · intro hid
      rcases List.mem_cons.mp hid with rfl | hlater
      · exact ⟨a, h, rfl, hout hk, List.subset_append_left _ _⟩
      · obtain ⟨b, hb, hbefore, hafter, hsub⟩ := hin hlater
        have hne : k ≠ id := fun heq => hk (heq ▸ hlater)
        exact ⟨b, hb, hbefore.trans (hothers a k id h hne), hafter,
          List.Subset.trans hsub (List.subset_append_right _ _)⟩

/-- The desk after a reconciliation, one entry at a time, and what it tells. -/
theorem entry_handleReconcile (h : a.IsKeyed) (now : Instant) (pending : List Schedule)
    (id : ScheduleId) :
    (a.handleReconcile now pending).1.entry id =
      (a.entry id).reconciled now (copyIn pending id) ∧
    ∀ t : Running, a.active[id]? = some t → copyIn pending id = none →
      .tell t.seq .cancel ∈ (a.handleReconcile now pending).2 := by
  have hcopy := get_wanted pending id
  have hwanted : ∀ (k : ScheduleId) (s : Schedule),
      (pending.foldl (fun m s => m.insert s.id s) (∅ : Std.TreeMap ScheduleId Schedule))[k]? =
        some s → s.id = k :=
    fun k s hs => (id_of_copyIn ((get_wanted pending k).symm.trans hs)).2
  obtain ⟨hout, hin⟩ := turn_in_forEach
    (reconcileOne now (pending.foldl (fun m s => m.insert s.id s) ∅))
    (fun a k hkeyed => (changes_reconcileOne a now pending k).keyed hkeyed)
    (fun a k id hkeyed => entry_reconcileOne_of_ne hkeyed hwanted)
    (nodup_trackedIds a) h id
  by_cases hid : id ∈ a.trackedIds
  · obtain ⟨b, hb, hbefore, hafter, hsub⟩ := hin hid
    constructor
    · rw [handleReconcile, hafter, entry_reconcileOne hb hwanted, hcopy, hbefore]
      rfl
    · intro t ht hnone
      have hbt : b.active[id]? = some t := (congrArg Entry.active hbefore).trans ht
      exact hsub (tell_reconcileOne (hcopy.trans hnone) hbt)
  · -- What is not tracked has an empty entry, and keeps it.
    have hentry := entry_of_untracked (mt mem_trackedIds_iff.mpr hid)
    constructor
    · rw [handleReconcile, hout hid, hentry]
      cases copyIn pending id <;> rfl
    · intro t ht
      rw [show a.active[id]? = none from congrArg Entry.active hentry] at ht
      cases ht

/-! ## What an entry becomes -/

namespace Entry

variable {e : Entry}

/-- Something waits or is on the books. -/
def IsTracked (e : Entry) : Prop := e.waiting.isSome ∨ e.active.isSome

/-- What waits is the wanted copy. What is not wanted is being ended, and what runs on goes by
the wanted copy. Of what is tracked, only what waited and is not wanted is given up. -/
theorem reconciled_in_line (now : Instant) (copy : Option Schedule) (e : Entry) :
    (∀ s, (e.reconciled now copy).waiting = some s → copy = some s) ∧
    (∀ t, (e.reconciled now copy).active = some t → copy = none → t.isStopping = true) ∧
    (∀ t s, (e.reconciled now copy).active = some t → (e.reconciled now copy).waiting = none →
      copy = some s → t.Follows s) ∧
    ((e.reconciled now copy).IsTracked ↔ e.IsTracked ∧ (copy.isSome ∨ e.active.isSome)) := by
  obtain ⟨waiting, active⟩ := e
  cases copy with
  | none => cases active <;> simp [reconciled, IsTracked]
  | some s =>
    cases waiting with
    | some old => simp [reconciled, IsTracked]
    | none =>
      cases active with
      | none => simp [reconciled, IsTracked]
      | some t =>
        -- What is left is a recording alone. It goes by the copy, or starts anew, or is told.
        by_cases hsame : t.Follows s
        · simp [reconciled, IsTracked, hsame]
        · by_cases hlater : movesLater now t s = true
          · simp [reconciled, IsTracked, hsame, hlater]
          · have hnew : { t with schedule := s }.Follows s := ⟨rfl, rfl, rfl⟩
            simp [reconciled, IsTracked, hsame, hlater, hnew]

end Entry

/-- After a reconciliation what waits is a wanted copy. A recording that is not wanted has been
told to cancel, and one that runs on instead of a waiting copy goes by the wanted one. Nothing
new is tracked, and of what was tracked only what waited and is not wanted is given up. -/
theorem reconcile_in_line (inputId : InputId) (lead : Int64) (course : List Occasion)
    (catalog : Catalog) (now : Instant) (pending : List Schedule)
    (hids : (pending.map (·.id)).Nodup) :
    let a := run { inputId, lead } course
    let turn := a.handle catalog now (.reconcile pending)
    (∀ (id : ScheduleId) (s : Schedule), turn.1.waiting[id]? = some s → s ∈ pending ∧ s.id = id) ∧
    (∀ (id : ScheduleId) (t : Running), turn.1.active[id]? = some t →
      (∀ s ∈ pending, s.id ≠ id) → t.isStopping = true ∧ .tell t.seq .cancel ∈ turn.2) ∧
    (∀ s ∈ pending, ∀ t : Running, turn.1.active[s.id]? = some t → s.id ∉ turn.1.waiting →
      t.schedule.starts = s.starts ∧ t.schedule.ends = s.ends ∧
      t.schedule.priority = s.priority) ∧
    ∀ id, turn.1.isTracked id = true ↔
      a.isTracked id = true ∧ ((∃ s ∈ pending, s.id = id) ∨ id ∈ a.active) := by
  intro a turn
  have hkeyed : a.IsKeyed := (isKeyed_run inputId lead course).1
  have hentry : ∀ id, turn.1.entry id = (a.entry id).reconciled now (copyIn pending id) :=
    fun id => (entry_handleReconcile hkeyed now pending id).1
  have hline := fun id => Entry.reconciled_in_line now (copyIn pending id) (a.entry id)
  have htracked : ∀ (b : Admission) (id : ScheduleId),
      (b.entry id).IsTracked ↔ b.isTracked id = true := by
    intro b id
    rw [Entry.IsTracked, entry, isTracked_iff, Std.TreeMap.mem_iff_isSome_getElem?,
      Std.TreeMap.mem_iff_isSome_getElem?]
  simp only [← hentry, htracked] at hline
  refine ⟨fun id s hs => ?_, fun id t ht hno => ?_, fun s hs t ht hwait => ?_, fun id => ?_⟩
  · exact id_of_copyIn ((hline id).1 s hs)
  · have hnone : copyIn pending id = none := copyIn_eq_none.mpr hno
    refine ⟨(hline id).2.1 t ht hnone, ?_⟩
    -- The recording on the books now is the one that was there, with the same number.
    have hended : turn.1.entry id = (a.entry id).reconciled now none := hnone ▸ hentry id
    have hboth : turn.1.active[id]? = (a.entry id).active.map ({ · with isStopping := true }) :=
      congrArg Entry.active hended
    obtain ⟨u, hu, rfl⟩ := Option.map_eq_some_iff.mp (hboth.symm.trans ht)
    exact (entry_handleReconcile hkeyed now pending id).2 u hu hnone
  · have hnone : turn.1.waiting[s.id]? = none := Std.TreeMap.getElem?_eq_none hwait
    exact (hline s.id).2.2.1 t s ht hnone (Store.copyIn_of_nodup hids hs)
  · have hwanted : (copyIn pending id).isSome = true ↔ ∃ s ∈ pending, s.id = id := by
      rw [Option.isSome_iff_ne_none, ne_eq, copyIn_eq_none]
      push Not
      rfl
    rw [(hline id).2.2.2, hwanted, Std.TreeMap.mem_iff_isSome_getElem?]
    rfl

/-- Three of the schedules run. The first is to start later, the second is not wanted any more,
and the third has a new priority. Of those that wait the fourth has a new priority too, and the
fifth is not wanted. The sixth is wanted and was never added. -/
theorem reconcile_in_line_six :
    let channel : Channel := ⟨7, "tuner", "Seven", none⟩
    let catalog := (Catalog.putInput {} ⟨"tuner", 3, true⟩).putChannel channel
    let add (s : Schedule) : Occasion := ⟨catalog, 0, .message (.add s)⟩
    let course : List Occasion :=
      [add (.timed 1 7 0 90 5), add (.timed 2 7 0 90 5), add (.timed 3 7 0 90 5),
        ⟨catalog, 10, .pass⟩, add (.timed 4 7 50 90 5), add (.timed 5 7 50 90 5)]
    let pending : List Schedule :=
      [.timed 6 7 50 90 5, .timed 4 7 50 90 6, .timed 3 7 0 90 6, .timed 1 7 50 90 5]
    let a := run { inputId := "tuner", lead := 0 } course
    let turn := a.handle catalog 10 (.reconcile pending)
    (pending.map (·.id)).Nodup ∧
      turn.1.waiting.values = [.timed 1 7 50 90 5, .timed 4 7 50 90 6] ∧
      (turn.1.active.values.map fun t => (t.schedule.id, t.schedule.priority, t.isStopping)) =
        [(1, 5, true), (2, 5, true), (3, 6, false)] ∧
      .tell 2 .cancel ∈ turn.2 ∧
      ∀ id, turn.1.isTracked id = true ↔
        a.isTracked id = true ∧ ((∃ s ∈ pending, s.id = id) ∨ id ∈ a.active) := by
  intro channel catalog add course pending a turn
  have hids : (pending.map (·.id)).Nodup := by decide
  obtain ⟨-, htold, -, htracked⟩ := reconcile_in_line "tuner" 0 course catalog 10 pending hids
  have htell := htold 2 ⟨{ Schedule.timed 2 7 0 90 5 with state := .inProgress }, 2, true⟩
    (by decide) (by decide)
  exact ⟨hids, by decide, by decide, htell.2, htracked⟩

end Admission

end Timeshift
