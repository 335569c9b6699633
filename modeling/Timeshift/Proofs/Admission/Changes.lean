import Timeshift.Proofs.Admission.Capacity

/-!
# What a move can change

Every move of a desk is a chain of small changes, and here stands all that a small change can do.
What the occasion permits limits them: a message brings the copies that may be taken over, and
tells which schedules may be given up without a report.
-/

namespace Timeshift

namespace Admission

/-! ## Small changes -/

/-- What an occasion permits. -/
structure License where
  /-- The copies that may be taken over. -/
  takes : Schedule → Prop := fun _ => False
  /-- The schedules that may be given up without a report. -/
  drops : ScheduleId → Prop := fun _ => False

inductive Change (l : License) (a : Admission) : Turn → Prop where
  | note (passDue : Bool) (nextPassAt : Option Instant) :
      Change l a ({ a with passDue, nextPassAt }, [])
  | answer (asker : Nat) (view : View) : Change l a (a, [.reply asker view])
  | join (s : Schedule) : l.takes s → a.isTracked s.id = false → Change l a (a.enqueue s, [])
  | replace (s : Schedule) : l.takes s → s.id ∈ a.waiting → Change l a (a.enqueue s, [])
  /-- The copy waits, and the recording that has begun already is called off. -/
  | requeue (s : Schedule) (t : Running) :
      l.takes s → s.id ∉ a.waiting → a.active[s.id]? = some t →
      Change l a ((a.enqueue s).tellEnd t .cancel)
  | follow (s : Schedule) (t : Running) :
      l.takes s → s.id ∉ a.waiting → a.active[s.id]? = some t →
      Change l a ({ a with active := a.active.insert s.id { t with schedule := s } },
        [.tell t.seq (.update s)])
  | drop (id : ScheduleId) : l.drops id → id ∉ a.active → Change l a (a.dismiss id, [])
  | callOff (id : ScheduleId) (t : Running) :
      l.drops id → a.active[id]? = some t → Change l a ((a.dismiss id).tellEnd t .cancel)
  | clear : (∀ id, l.drops id) → Change l a ({ a with waiting := ∅ }, [])
  | stop (id : ScheduleId) (t : Running) :
      a.active[id]? = some t → Change l a (a.tellEnd t .stop)
  /-- The recording on the books has ended. The end is reported unless the schedule waits again. -/
  | close (id : ScheduleId) (t : Running) (outcome : Outcome) :
      a.active[id]? = some t → ¬ l.drops id →
      Change l a ({ a with active := a.active.erase id, passDue := true },
        if a.waiting.contains id then [] else [a.report id outcome.state outcome.reason?])
  | fail (s : Schedule) (reason : String) :
      a.waiting[s.id]? = some s → Change l a (a.dismiss s.id, [a.failure s reason])
  | start (s : Schedule) (channel : Channel) :
      a.waiting[s.id]? = some s → s.id ∉ a.active →
      Change l a ((a.dismiss s.id).begin s channel)

/-! ## Chains -/

inductive Changes (l : License) : Admission → Turn → Prop where
  | none {a : Admission} : Changes l a (a, [])
  | step {a b c : Admission} {es fs : List Effect} :
      Change l a (b, es) → Changes l b (c, fs) → Changes l a (c, es ++ fs)

variable {l : License} {a b c : Admission} {es fs : List Effect}

namespace Changes

theorem one {turn : Turn} (h : Change l a turn) : Changes l a turn := by
  obtain ⟨b, es⟩ := turn
  have hall := Changes.step h .none
  rwa [List.append_nil] at hall

theorem andThen (h : Changes l a (b, es)) (h' : Changes l b (c, fs)) :
    Changes l a (c, es ++ fs) := by
  generalize hturn : (b, es) = turn at h
  induction h generalizing es with
  | none =>
    obtain ⟨rfl, rfl⟩ := Prod.mk.inj hturn
    exact h'
  | step hone _ ih =>
    obtain ⟨rfl, rfl⟩ := Prod.mk.inj hturn
    rw [List.append_assoc]
    exact .step hone (ih rfl)

/-- A change without effects comes first. -/
theorem after {turn : Turn} (h : Change l a (b, [])) (h' : Changes l b turn) :
    Changes l a turn := .step h h'

/-- A change without effects comes last. -/
theorem before {turn : Turn} (h : Changes l a turn) (h' : Change l turn.1 (b, [])) :
    Changes l a (b, turn.2) := by
  have hall := h.andThen (one h')
  rwa [List.append_nil] at hall

/-- What a chain keeps, if every change keeps it. -/
theorem keeps {P : Admission → Prop}
    (hchange : ∀ {a : Admission} {turn : Turn}, P a → Change l a turn → P turn.1)
    {turn : Turn} (h : Changes l a turn) (ha : P a) : P turn.1 := by
  induction h with
  | none => exact ha
  | step hone _ ih => exact ih (hchange ha hone)

end Changes

theorem IsKeyed.change (h : a.IsKeyed) {turn : Turn} (hchange : Change l a turn) :
    turn.1.IsKeyed := by
  cases hchange with
  | note | answer => exact h.congr rfl rfl
  | join s | replace s => exact h.enqueue s
  | requeue s t => exact (h.enqueue s).tellEnd t .cancel
  | follow s t => exact h.setActive { t with schedule := s } a.lastSeq
  | drop id => exact h.dismiss id
  | callOff id t => exact (h.dismiss id).tellEnd t .cancel
  | clear => exact h.waitForNothing a.nextPassAt
  | stop id t => exact h.tellEnd t .stop
  | close id t => exact h.eraseActive id true
  | fail s => exact h.dismiss s.id
  | start s channel => exact (h.dismiss s.id).begin s channel

theorem Changes.keyed {turn : Turn} (h : Changes l a turn) (ha : a.IsKeyed) : turn.1.IsKeyed :=
  h.keeps (fun hkeyed hchange => hkeyed.change hchange) ha

theorem Changes.inputId {turn : Turn} (h : Changes l a turn) : turn.1.inputId = a.inputId := by
  refine h.keeps (P := fun b => b.inputId = a.inputId) (fun hb hchange => ?_) rfl
  cases hchange <;> exact hb

theorem Changes.forEach {step : Admission → ScheduleId → Turn}
    (hstep : ∀ (a : Admission) (id : ScheduleId), a.IsKeyed → Changes l a (step a id))
    (ids : List ScheduleId) (h : a.IsKeyed) : Changes l a (forEach step ids a) := by
  induction ids generalizing a with
  | nil => exact .none
  | cons id rest ih => exact (hstep a id h).andThen (ih ((hstep a id h).keyed h))

/-! ## Messages -/

/-- A reconciliation gives up the schedules that it does not name. -/
def Message.license : Message → License
  | .add s | .update s => { takes := (· = s) }
  | .remove id => { drops := (· = id) }
  | .reconcile pending =>
    { takes := (· ∈ pending), drops := fun id => ∀ s ∈ pending, s.id ≠ id }
  | _ => {}

theorem changes_handleAdd (a : Admission) {s : Schedule} (hs : l.takes s) :
    Changes l a (a.handleAdd s) := by
  rw [handleAdd]
  split
  · exact .none
  · next hnew => exact .after (.join s hs (by simpa using hnew)) (.one (.note true _))

theorem changes_handleRemove (a : Admission) {id : ScheduleId} (hid : l.drops id) :
    Changes l a (a.handleRemove id) := by
  simp only [handleRemove]
  split
  · next t ht => exact .one (.callOff id t hid ht)
  · next hoff =>
    have hdrop : Change l a (a.dismiss id, []) :=
      .drop id hid (by rw [mem_iff_get]; simp [hoff])
    split
    · exact .after hdrop (.one (.note true _))
    · exact .one hdrop

theorem changes_handleUpdate (a : Admission) (now : Instant) {s : Schedule} (hs : l.takes s) :
    Changes l a (a.handleUpdate now s) := by
  rw [handleUpdate]
  split
  · next hold =>
    exact .after (.replace s hs (Std.TreeMap.contains_iff_mem.mp hold)) (.one (.note true _))
  · next hnew =>
    rw [Std.TreeMap.contains_iff_mem] at hnew
    split
    · exact .none
    · next t ht =>
      split
      · exact .one (.requeue s t hs hnew ht)
      · exact .one (.follow s t hs hnew ht)

/-- The wanted schedules by id: of two copies the later one. -/
theorem get_wanted (pending : List Schedule) (id : ScheduleId) :
    (pending.foldl (fun m s => m.insert s.id s) (∅ : Std.TreeMap ScheduleId Schedule))[id]? =
      (pending.filter (·.id = id)).getLast? := by
  rw [get_insertAll (·.id) pending ∅ id]
  simp

theorem changes_reconcileOne (a : Admission) (now : Instant) (pending : List Schedule)
    (id : ScheduleId) : Changes (Message.reconcile pending).license a
      (a.reconcileOne now (pending.foldl (fun m s => m.insert s.id s) ∅) id) := by
  rw [reconcileOne, get_wanted]
  split
  · next hnone =>
    refine changes_handleRemove a fun s hs hid => ?_
    rw [List.getLast?_eq_none_iff, List.filter_eq_nil_iff] at hnone
    exact hnone s hs (decide_eq_true hid)
  · next s hsome =>
    split
    · exact changes_handleUpdate a now (List.mem_filter.mp (List.mem_of_getLast? hsome)).1
    · exact .none

theorem changes_handleReconcile (h : a.IsKeyed) (now : Instant) (pending : List Schedule) :
    Changes (Message.reconcile pending).license a (a.handleReconcile now pending) :=
  .forEach (fun b id _ => changes_reconcileOne b now pending id) _ h

theorem changes_handleFinished (a : Admission) (id : ScheduleId) (seq : Nat) (outcome : Outcome)
    (hid : ¬ l.drops id) : Changes l a (a.handleFinished id seq outcome) := by
  rw [handleFinished]
  split
  · exact .none
  · next t ht =>
    split
    · exact .one (.close id t outcome ht hid)
    · exact .none

theorem changes_handleStopTask (a : Admission) (id : ScheduleId) :
    Changes l a (a.handleStopTask id) := by
  rw [handleStopTask]
  split
  · exact .none
  · next t ht => exact .one (.stop id t ht)

theorem changes_shutdown (h : a.IsKeyed) (hall : ∀ id, l.drops id) :
    Changes l a a.shutdown := by
  refine .after (.clear hall) (.after (.note a.passDue none) ?_)
  exact .forEach (fun b id _ => changes_handleStopTask b id) _ (h.waitForNothing none)

/-! ## The pass -/

/-- Schedules that wait fail one after the other. -/
theorem changes_failures (late : List Schedule) (reason : String)
    (hids : (late.map (·.id)).Nodup) (hwait : ∀ s ∈ late, a.waiting[s.id]? = some s) :
    Changes l a (late.foldl (fun a s => a.dismiss s.id) a, late.map (a.failure · reason)) := by
  induction late generalizing a with
  | nil => exact .none
  | cons s rest ih =>
    have hothers : ∀ x ∈ rest, (a.dismiss s.id).waiting[x.id]? = some x := by
      intro x hx
      have hne : s.id ≠ x.id :=
        fun heq => (List.nodup_cons.mp hids).1 (List.mem_map.mpr ⟨x, hx, heq.symm⟩)
      rw [dismiss, get_erase, if_neg hne]
      exact hwait x (List.mem_cons_of_mem s hx)
    exact .step (.fail s reason (hwait s List.mem_cons_self))
      (ih (List.nodup_cons.mp hids).2 hothers)

theorem waiting_of_mem_values (h : a.IsKeyed) {s : Schedule} (hs : s ∈ a.waiting.values) :
    a.waiting[s.id]? = some s := by
  obtain ⟨id, hid⟩ := mem_values.mp hs
  rwa [h.waiting id s hid]

theorem ids_waiting (h : a.IsKeyed) : (a.waiting.values.map (·.id)).Nodup := by
  rw [map_values_eq_keys h.waiting]
  exact Std.TreeMap.nodup_keys

theorem changes_dropExpired (h : a.IsKeyed) (now : Instant) :
    Changes l a (a.dropExpired now) := by
  refine changes_failures _ _ ((ids_waiting h).sublist (List.filter_sublist.map _)) ?_
  intro s hs
  exact waiting_of_mem_values h (List.mem_filter.mp hs).1

theorem changes_seat (catalog : Catalog) (a : Admission) {s : Schedule}
    (hs : a.waiting[s.id]? = some s) (hoff : s.id ∉ a.active) :
    Changes l a (a.seat catalog s) := by
  simp only [seat]
  split
  · next channel _ => exact .one (.start s channel hs hoff)
  · exact .one (.fail s _ hs)

theorem waiting_seat (catalog : Catalog) (a : Admission) (s : Schedule) :
    (a.seat catalog s).1.waiting = (a.dismiss s.id).waiting := by
  simp only [seat]
  split <;> rfl

theorem changes_seatDue (catalog : Catalog) (tuners : Nat) (due : List Schedule)
    (hline : IsLine a due) (hwait : ∀ s ∈ due, a.waiting[s.id]? = some s) :
    Changes l a (seatDue catalog tuners due a) := by
  induction due generalizing a with
  | nil => exact .none
  | cons s later ih =>
    -- Whatever is done about `s`, the others still wait.
    have hothers : ∀ {b : Admission}, b.waiting = (a.dismiss s.id).waiting →
        ∀ x ∈ later, b.waiting[x.id]? = some x := by
      intro b hb x hx
      have hne : s.id ≠ x.id :=
        fun heq => (List.nodup_cons.mp hline.ids).1 (List.mem_map.mpr ⟨x, hx, heq.symm⟩)
      rw [hb, dismiss, get_erase, if_neg hne]
      exact hwait x (List.mem_cons_of_mem s hx)
    have hs := hwait s List.mem_cons_self
    rw [seatDue]
    split
    · exact .none
    · split
      · have hseat : Changes l a (a.seat catalog s) :=
          changes_seat catalog a hs (hline.off s List.mem_cons_self)
        exact hseat.andThen (ih (hline.tail (mem_active_seat catalog a s))
          (hothers (waiting_seat catalog a s)))
      · split
        · next victim hvictim =>
          obtain ⟨id, hid⟩ := mem_of_weakestBelow hvictim
          split
          · exact .none
          · exact .one (.stop id victim hid)
        · have hrest := ih (hline.tail (b := a.dismiss s.id) fun _ hid => Or.inr hid) (hothers rfl)
          generalize seatDue catalog tuners later (a.dismiss s.id) = turn at hrest ⊢
          obtain ⟨b, more⟩ := turn
          have hinput : b.inputId = a.inputId := hrest.inputId
          show Changes l a (b, b.failure s "no tuner available" :: more)
          have hfail : b.failure s "no tuner available" = a.failure s "no tuner available" := by
            simp only [failure, report, hinput]
          rw [hfail]
          exact .step (.fail s "no tuner available" hs) hrest

theorem changes_pass (catalog : Catalog) (now : Instant) (h : a.IsKeyed) :
    Changes l a (a.pass catalog now) := by
  have hclear : IsKeyed { a with passDue := false, nextPassAt := none } := h.congr rfl rfl
  have hdrop := changes_dropExpired (l := l) hclear now
  simp only [pass]
  generalize dropExpired _ now = turn at hdrop ⊢
  obtain ⟨b, expired⟩ := turn
  have hb : b.IsKeyed := hdrop.keyed hclear
  have hseat : Changes l b (seatDue catalog (catalog.recordingTuners b.inputId) (b.dueNow now) b) := by
    refine changes_seatDue catalog _ _ (isLine_dueNow hb now) fun s hs => ?_
    exact waiting_of_mem_values hb (List.mem_filter.mp (mem_sortBy.mp hs)).1
  exact .after (.note false none) ((hdrop.andThen hseat).before (.note _ _))

theorem changes_passIfDue (catalog : Catalog) (now : Instant) (h : a.IsKeyed) :
    Changes l a (a.passIfDue catalog now) := by
  rw [passIfDue]
  split
  · exact changes_pass catalog now h
  · exact .none

/-! ## Every move -/

theorem changes_handle (catalog : Catalog) (now : Instant) (m : Message) (h : a.IsKeyed) :
    Changes m.license a (a.handle catalog now m) := by
  cases m with
  | add s => exact changes_handleAdd a rfl
  | remove id => exact changes_handleRemove a rfl
  | update s => exact changes_handleUpdate a now rfl
  | reconcile pending => exact changes_handleReconcile h now pending
  | rebuild => exact .one (.note true _)
  | finished id seq outcome => exact changes_handleFinished a id seq outcome fun hno => hno
  | stopTask id => exact changes_handleStopTask a id
  | stop => exact .none
  | askView asker =>
    have hpass : Changes (Message.askView asker).license a (a.passIfDue catalog now) :=
      changes_passIfDue catalog now h
    exact hpass.andThen (.one (.answer asker _))

/-- A shutdown gives up everything. -/
def Move.license : Move → License
  | .message m => m.license
  | .pass => {}
  | .shutdown => { drops := fun _ => True }

theorem changes_step (m : Occasion) (h : a.IsKeyed) : Changes m.move.license a (m.step a) := by
  obtain ⟨catalog, now, move⟩ := m
  cases move with
  | message message => exact changes_handle catalog now message h
  | pass => exact changes_pass catalog now h
  | shutdown => exact changes_shutdown h fun _ => trivial

end Admission

end Timeshift
