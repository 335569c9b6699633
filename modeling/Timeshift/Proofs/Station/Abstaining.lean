import Timeshift.Proofs.Admission.Account
import Timeshift.Proofs.Station.Acts

/-!
# Acts that leave the store alone

A desk, a take or a courier writes nothing to the store. All that it can do about the state of a
schedule is to file a report, and a report tells of a start or of an end.
-/

namespace Timeshift

/-- The report tells that a recording has begun, or how a schedule has ended. -/
def Report.IsLawful (r : Report) : Prop :=
  r.state = .inProgress ∨ r.state ∈ Admission.endStates

namespace Admission

variable {l : License} {a : Admission} {turn : Turn} {r : Report}

theorem Change.isLawful (h : Change l a turn) (hr : .report r ∈ turn.2) : r.IsLawful := by
  cases h with
  | note | join | replace | drop | clear => cases hr
  | answer | requeue | follow | callOff | stop => cases List.mem_singleton.mp hr
  | close id t outcome =>
    dsimp only at hr
    split at hr
    · cases hr
    · obtain rfl := Effect.report.inj (List.mem_singleton.mp hr)
      exact Or.inr (state_mem_endStates outcome)
  | fail s reason =>
    obtain rfl := Effect.report.inj (List.mem_singleton.mp hr)
    exact Or.inr (List.mem_cons_of_mem _ List.mem_cons_self)
  | start s channel =>
    rcases List.mem_pair.mp hr with hstart | hreport
    · cases hstart
    · obtain rfl := Effect.report.inj hreport
      exact Or.inl rfl

theorem Changes.isLawful (h : Changes l a turn) (hr : .report r ∈ turn.2) : r.IsLawful := by
  induction h with
  | none => cases hr
  | step hone _ ih => exact (List.mem_append.mp hr).elim hone.isLawful ih

end Admission

theorem Dispatch.isLawful_lostReport (id : InputId) (s : Schedule) :
    (lostReport id s).IsLawful := Or.inr (List.mem_cons_of_mem _ List.mem_cons_self)

namespace Station

open Admission (Message)

variable {α β : Type} {n : Nat} {st : Store}

/-! ## Abstaining -/

/-- The store is this one, and all reports that have not been written to it are lawful. -/
structure Awaits (st : Store) (s : Station) : Prop where
  store : s.store = st
  keyed : ∀ (n : Nat) (d : Desk), s.desks[n]? = some d → d.admission.IsKeyed
  lawful : ∀ r ∈ s.control.reports, r.IsLawful

theorem Awaits.modifyDesk {s : Station} (h : Awaits st s) {f : Desk → Desk}
    (hf : ∀ d, s.desks[n]? = some d → (f d).admission.IsKeyed) :
    Awaits st { s with desks := s.desks.modify n f } := by
  refine ⟨h.store, fun k d hd => ?_, h.lawful⟩
  rw [Std.TreeMap.getElem?_modify] at hd
  split at hd
  · obtain ⟨old, hold, rfl⟩ := Option.map_eq_some_iff.mp hd
    exact hf old hold
  · exact h.keyed k d hd

/-- The act leaves the store as it is, and files no other reports than lawful ones. -/
def Abstains (act : Act α) : Prop := ∀ st, Leads (Awaits st) act fun _ => Awaits st

namespace Abstains

theorem pure (a : α) : Abstains (Pure.pure a) := fun _ _ h => h

theorem get : Abstains MonadState.get := fun _ _ h => h

theorem bind {act : Act α} {next : α → Act β} (h : Abstains act)
    (h' : ∀ a, Abstains (next a)) : Abstains (act >>= next) :=
  fun st => (h st).bind fun a => h' a st

theorem look {next : Station → Act β}
    (h : ∀ st s, Awaits st s → Leads (· = s) (next s) fun _ => Awaits st) :
    Abstains (MonadState.get >>= next) := fun st => .look (h st)

theorem discard {act : Act α} (h : Abstains act) : Abstains (discard act) := h

theorem edit {f : Station → Station}
    (h : ∀ s, (f s).store = s.store ∧ (f s).desks = s.desks ∧
      (f s).control.reports = s.control.reports) : Abstains (modify f : Act Unit) := by
  intro st s hs
  obtain ⟨hstore, hdesks, hreports⟩ := h s
  exact ⟨hstore.trans hs.store, fun n d hd => hs.keyed n d (hdesks ▸ hd),
    fun r hr => hs.lawful r (hreports ▸ hr)⟩

theorem forM {f : β → Act Unit} {l : List β} (h : ∀ b ∈ l, Abstains (f b)) :
    Abstains (l.forM f) := by
  induction l with
  | nil => exact .pure _
  | cons b rest ih =>
    exact (h b List.mem_cons_self).bind fun _ => ih fun c hc => h c (List.mem_cons_of_mem b hc)

theorem whenSome {f : β → Act Unit} (h : ∀ b, Abstains (f b)) (o : Option β) :
    Abstains (o.forM f) := by
  cases o with
  | none => exact .pure _
  | some b => exact h b

theorem modifyDesk (n : Nat) {f : Desk → Desk} (h : ∀ d, (f d).admission = d.admission) :
    Abstains (Station.modifyDesk n f) :=
  fun _ _ hs => hs.modifyDesk fun d hd => h d ▸ hs.keyed n d hd

end Abstains

/-! ### Agenda and reports -/

theorem abstains_wake (w : Worker) : Abstains (wake w) := .edit fun _ => ⟨rfl, rfl, rfl⟩

theorem abstains_wakeAll (l : List Worker) : Abstains (wakeAll l) :=
  .forM fun w _ => abstains_wake w

theorem abstains_sleepUntil (w : Worker) (due : Nat) : Abstains (sleepUntil w due) :=
  .edit fun _ => ⟨rfl, rfl, rfl⟩

theorem abstains_rouse (w : Worker) : Abstains (rouse w) := .edit fun _ => ⟨rfl, rfl, rfl⟩

theorem abstains_modifyTake (n : Nat) (f : TakeRun → TakeRun) : Abstains (modifyTake n f) :=
  .edit fun _ => ⟨rfl, rfl, rfl⟩

theorem abstains_modifyAlarm (f : Alarm → Alarm) : Abstains (modifyAlarm f) :=
  .edit fun _ => ⟨rfl, rfl, rfl⟩

theorem abstains_modifyControl {f : Control → Control} (h : ∀ c, (f c).reports = c.reports) :
    Abstains (modifyControl f) := .edit fun s => ⟨rfl, rfl, h s.control⟩

theorem abstains_fileReport {r : Report} (hr : r.IsLawful) : Abstains (fileReport r) := by
  refine .look fun st s hs => ?_
  split
  · exact .pure fun _ heq => heq ▸ hs
  · have hfiled : Awaits st
        { s with control := { s.control with reports := s.control.reports ++ [r] } } :=
      ⟨hs.store, hs.keyed, List.forall_mem_append.mpr
        ⟨hs.lawful, List.forall_mem_singleton.mpr hr⟩⟩
    refine .bind (Q := fun _ => Awaits st) (fun _ _ => hfiled) fun _ => ?_
    split
    · exact abstains_wake _ st
    · exact Abstains.pure _ st

/-! ## Desks -/

theorem abstains_tryPost (n : Nat) (m : Message) : Abstains (tryPost n m) := by
  refine .bind .get fun s => ?_
  split
  · exact .pure _
  · split
    · exact .pure _
    · split
      · exact .pure _
      · exact .bind (.modifyDesk n fun _ => rfl) fun _ => .bind (abstains_wake _) fun _ => .pure _

theorem abstains_postOrJoin (n : Nat) (w : Worker) (m : Message) :
    Abstains (postOrJoin n w m) := by
  refine (abstains_tryPost n m).bind fun posted => ?_
  dsimp only
  split
  · exact .bind (.modifyDesk n fun _ => rfl) fun _ => .pure _
  · exact .pure _

theorem abstains_postGranted (n : Nat) (w : Worker) (m : Message) :
    Abstains (postGranted n w m) :=
  .bind (.modifyDesk n fun _ => rfl) fun _ => abstains_wake _

theorem abstains_withdraw (n : Nat) (w : Worker) : Abstains (withdraw n w) := by
  refine .bind .get fun s => ?_
  split
  · exact .bind (.modifyDesk n fun _ => rfl) fun _ => .whenSome abstains_wake _
  · exact .pure _

theorem abstains_abandonTake (take : Nat) : Abstains (abandonTake take) :=
  (abstains_modifyTake take _).bind fun _ => abstains_wake _

theorem abstains_perform (n : Nat) {e : Admission.Effect}
    (he : ∀ r, e = .report r → r.IsLawful) : Abstains (perform n e) := by
  cases e with
  | start seq s channel =>
    refine .bind .get fun s => .bind (.edit fun _ => ⟨rfl, rfl, rfl⟩) fun _ => ?_
    exact .bind (.modifyDesk n fun _ => rfl) fun _ => abstains_wake _
  | tell seq order =>
    refine .bind .get fun s => ?_
    split
    · exact .bind (abstains_modifyTake _ _) fun _ => abstains_wake _
    · exact .pure _
  | report r => exact abstains_fileReport (he r rfl)
  | reply asker view =>
    exact .bind (.edit fun _ => ⟨rfl, rfl, rfl⟩) fun _ => abstains_wake _

theorem abstains_abandonGone (n : Nat) : Abstains (abandonGone n) := by
  refine .bind .get fun s => ?_
  split
  · exact .bind (.modifyDesk n fun _ => rfl) fun _ => .forM fun _ _ => abstains_abandonTake _
  · exact .pure _

/-- The admission does nothing but what a message, a pass or a shutdown can do. -/
theorem abstains_withAdmission (n : Nat) {l : Admission.License}
    {step : Catalog → Instant → Admission → Admission.Turn}
    (hstep : ∀ catalog now (a : Admission), a.IsKeyed →
      Admission.Changes l a (step catalog now a)) : Abstains (withAdmission n step) := by
  refine .look fun st s hs => ?_
  split
  · next desk hdesk =>
    have hkeyed := hs.keyed n desk hdesk
    have hchanges := hstep s.around.catalog s.now desk.admission hkeyed
    refine .bind (Q := fun _ => Awaits st) ?_ fun _ => ?_
    · rintro _ rfl
      exact hs.modifyDesk fun _ _ => hchanges.keyed hkeyed
    · have hperformed :
          Abstains ((step s.around.catalog s.now desk.admission).2.forM (perform n)) :=
        .forM fun e he => abstains_perform n fun r heq => hchanges.isLawful (heq ▸ he)
      exact (hperformed.bind fun _ => abstains_abandonGone n) st
  · exact .pure fun _ heq => heq ▸ hs

theorem abstains_handle (n : Nat) (m : Message) :
    Abstains (withAdmission n fun catalog now a => a.handle catalog now m) :=
  abstains_withAdmission n fun catalog now _ => Admission.changes_handle catalog now m

theorem abstains_takeMessage (n : Nat) : Abstains (takeMessage n) := by
  refine .bind .get fun s => ?_
  split
  · exact .bind (.modifyDesk n fun _ => rfl) fun _ => .whenSome abstains_wake _
  · exact .pure _

theorem abstains_handleMessages (n : Nat) (l : List Message) : Abstains (handleMessages n l) := by
  induction l with
  | nil => exact .pure _
  | cons m rest ih =>
    refine (abstains_takeMessage n).bind fun _ => ?_
    split
    · exact .pure _
    · exact (abstains_handle n m).bind fun _ => ih

theorem abstains_endDesk (n : Nat) : Abstains (endDesk n) := by
  refine .bind (abstains_withAdmission n (l := { drops := fun _ => True }) fun _ _ _ ha =>
    Admission.changes_shutdown ha fun _ => trivial) fun _ => .bind .get fun s => ?_
  split
  · refine .bind (.modifyDesk n fun _ => rfl) fun _ => .bind (abstains_rouse _) fun _ => ?_
    refine .bind (abstains_wakeAll _) fun _ => ?_
    exact .bind (.forM fun _ _ => abstains_abandonTake _) fun _ => abstains_wake _
  · exact .pure _

theorem abstains_settleDesk (n : Nat) : Abstains (settleDesk n) := by
  refine .bind (abstains_withAdmission n (l := {}) fun catalog now _ =>
    Admission.changes_passIfDue catalog now) fun _ => ?_
  refine .bind (abstains_rouse _) fun _ => .bind .get fun s => ?_
  split
  · split
    · exact .modifyDesk n fun _ => rfl
    · dsimp only
      split
      · exact .bind (.modifyDesk n fun _ => rfl) fun _ => .edit fun _ => ⟨rfl, rfl, rfl⟩
      · exact .bind (.modifyDesk n fun _ => rfl) fun _ => abstains_sleepUntil _ _
  · exact .pure _

theorem abstains_runDesk (n : Nat) : Abstains (runDesk n) := by
  refine .bind .get fun s => ?_
  split
  · next desk _ =>
    split
    · exact .pure _
    · split
      · exact abstains_endDesk n
      · split
        · split
          · refine .bind (abstains_withAdmission n (l := {}) fun _ _ a _ => ?_) fun _ =>
              abstains_settleDesk n
            exact .one (.note true a.nextPassAt)
          · exact .pure _
        · refine (abstains_handleMessages n desk.mailbox.queue).bind fun stop => ?_
          split
          · exact abstains_endDesk n
          · exact abstains_settleDesk n
  · exact .pure _

theorem abstains_openDesk (input : InputId) (isSpawned : Bool) :
    Abstains (openDesk input isSpawned) := by
  refine .look fun st s hs => ?_
  dsimp only
  refine .bind (Q := fun _ => Awaits st) ?_ fun _ => ?_
  · rintro _ rfl
    refine ⟨hs.store, fun k d hd => ?_, hs.lawful⟩
    change (Std.TreeMap.insert _ _ _)[k]? = some d at hd
    rw [get_insert] at hd
    split at hd
    · obtain rfl := Option.some.inj hd
      exact .openDesk input _
    · exact hs.keyed k d hd
  · split
    · exact ((abstains_wake _).bind fun _ => .pure _) st
    · exact Abstains.pure _ st

theorem abstains_spawnDesk (n : Nat) : Abstains (spawnDesk n) := by
  refine .bind .get fun s => ?_
  split
  · exact .pure _
  · exact .bind (.modifyDesk n fun _ => rfl) fun _ => abstains_wake _

theorem abstains_discardDesk (n : Nat) : Abstains (discardDesk n) := by
  refine .bind .get fun s => ?_
  split
  · split
    · exact .pure _
    · exact .modifyDesk n fun _ => rfl
  · exact .pure _

theorem abstains_cancelDesk (n : Nat) : Abstains (cancelDesk n) :=
  .bind (.modifyDesk n fun _ => rfl) fun _ => abstains_wake _

/-! ## Takes -/

theorem abstains_closeTake (n : Nat) : Abstains (closeTake n) :=
  (abstains_modifyTake n _).bind fun _ => abstains_rouse _

theorem abstains_deliverOutcome (n : Nat) (run : TakeRun) (outcome : Outcome) :
    Abstains (deliverOutcome n run outcome) := by
  refine .bind (abstains_rouse _) fun _ => .bind (abstains_modifyTake n _) fun _ => ?_
  refine (abstains_postOrJoin _ _ _).bind fun posted => ?_
  cases posted with
  | full => exact .pure _
  | done | closed => exact abstains_closeTake n

theorem abstains_redeliverOutcome (n : Nat) (run : TakeRun) (outcome : Outcome) :
    Abstains (redeliverOutcome n run outcome) := by
  refine .bind .get fun s => ?_
  split
  · exact (abstains_postGranted _ _ _).bind fun _ => abstains_closeTake n
  · split
    · exact abstains_closeTake n
    · exact .pure _

theorem abstains_advanceTake (n : Nat) (run : TakeRun) : Abstains (advanceTake n run) := by
  refine .bind .get fun s => ?_
  generalize run.take.advance s.now = r
  obtain ⟨notes, take, outcome⟩ := r
  dsimp only
  generalize s.deadlineOf { run with take } = deadline
  refine .bind (.edit fun _ => ⟨rfl, rfl, rfl⟩) fun _ =>
    .bind (abstains_modifyTake n _) fun _ => ?_
  cases outcome with
  | some outcome => exact abstains_deliverOutcome n run outcome
  | none =>
    dsimp only
    split
    · exact abstains_deliverOutcome n run _
    · refine .bind (.whenSome (abstains_sleepUntil _) _) fun _ => ?_
      split
      · exact abstains_sleepUntil _ _
      · exact .pure _

theorem abstains_runTake (n : Nat) : Abstains (runTake n) := by
  refine .bind .get fun s => ?_
  split
  · next run _ =>
    split
    · exact .pure _
    · split
      · exact abstains_redeliverOutcome n run _
      · split
        · exact abstains_advanceTake n run
        · refine .bind ?_ fun run => abstains_advanceTake n run
          exact .bind .get fun s => .bind (.edit fun _ => ⟨rfl, rfl, rfl⟩) fun _ => .pure _
  · exact .pure _

theorem abstains_callOff (id : ScheduleId) (outcome : Outcome) :
    Abstains (callOff id outcome) := by
  refine .bind .get fun s => ?_
  dsimp only
  split
  · exact .pure _
  · exact .bind (abstains_modifyTake _ _) fun _ => .bind (abstains_wake _) fun _ => .pure _

/-! ## Couriers -/

theorem abstains_deskFor (id : InputId) : Abstains (deskFor id) := by
  refine .bind .get fun s => ?_
  split
  · exact .pure _
  · split
    · exact .pure _
    · refine (abstains_openDesk id true).bind fun n => ?_
      exact .bind (abstains_modifyControl fun _ => rfl) fun _ => .pure _

theorem abstains_reportLost (id : InputId) (p : Parcel) : Abstains (reportLost id p) :=
  .whenSome (fun s => abstains_fileReport (Dispatch.isLawful_lostReport id s)) _

theorem abstains_giveUp (p : Parcel) : Abstains (giveUp p) := by
  refine .bind .get fun s => .bind (.bind .get fun s => ?_) fun _ => abstains_reportLost _ p
  split
  · exact abstains_modifyControl fun _ => rfl
  · exact .pure _

theorem abstains_addressee (p : Parcel) : Abstains (addressee p) := by
  refine .bind .get fun s => ?_
  have hwarn : ∀ (id : InputId) (desk : Option Nat), Abstains (do
      if desk.isNone && !s.control.isStopped then reportLost id p
      return desk) := by
    intro id desk
    split
    · exact (abstains_reportLost id p).bind fun _ => .pure _
    · exact .pure _
  cases p with
  | offer x =>
    dsimp only
    split
    · exact abstains_deskFor _
    · exact .pure _
  | align id pending => exact .pure _
  | update x | remove x => exact hwarn _ _

theorem abstains_deliver (w : Worker) (p : Parcel) : Abstains (deliver w p) := by
  refine (abstains_addressee p).bind fun desk => ?_
  cases desk with
  | none => exact .pure _
  | some n =>
    refine (abstains_postOrJoin n w p.message).bind fun posted => ?_
    cases posted with
    | done | full => exact .pure _
    | closed => exact (abstains_giveUp p).bind fun _ => .pure _

theorem abstains_deliverAll (w : Worker) (l : List Parcel) : Abstains (deliverAll w l) := by
  induction l with
  | nil => exact .pure _
  | cons p rest ih =>
    refine (abstains_deliver w p).bind fun held => ?_
    cases held with
    | some n => exact .pure _
    | none => exact ih

theorem abstains_redeliver (w : Worker) (n : Nat) (p : Parcel) : Abstains (redeliver w n p) := by
  refine .bind .get fun s => ?_
  split
  · exact (abstains_postGranted n w _).bind fun _ => .pure _
  · split
    · exact (abstains_giveUp p).bind fun _ => .pure _
    · exact .pure _

theorem abstains_setAlarm (t : Instant) : Abstains (setAlarm t) := by
  refine .bind .get fun s => ?_
  dsimp only
  split
  case' isTrue => refine .bind (.edit fun _ => ⟨rfl, rfl, rfl⟩) fun _ => ?_
  all_goals
    split
    · exact .bind (.edit fun _ => ⟨rfl, rfl, rfl⟩) fun _ =>
        .bind (abstains_modifyAlarm _) fun _ => abstains_wake _
    · exact .pure _

theorem abstains_runSleeper (n : Nat) : Abstains (runSleeper n) := by
  have htick : Abstains (tick n) :=
    .bind (.edit fun _ => ⟨rfl, rfl, rfl⟩) fun _ =>
      .bind (abstains_modifyAlarm _) fun _ => abstains_wake _
  refine .bind .get fun s => ?_
  split
  · split
    · exact abstains_rouse _
    · split
      · split
        · exact htick
        · exact .pure _
      · split
        · exact htick
        · exact .bind (.edit fun _ => ⟨rfl, rfl, rfl⟩) fun _ => abstains_sleepUntil _ _
  · exact .pure _

theorem abstains_carry (w : Worker) (c : Courier) : Abstains (carry w c) := by
  refine (abstains_deliverAll w c.parcels).bind fun r => ?_
  dsimp only
  split
  · exact .pure _
  · refine .bind .get fun s => ?_
    split
    · exact .bind (.whenSome abstains_setAlarm _) fun _ => .pure _
    · split
      · refine (abstains_deliverAll w _).bind fun r => ?_
        split
        · exact .pure _
        · exact .bind .get fun st => .bind (.whenSome abstains_setAlarm _) fun _ => .pure _
      · exact .pure _

theorem abstains_resume (w : Worker) (c : Courier) : Abstains (resume w c) := by
  rw [resume]
  split
  · refine (abstains_redeliver w _ _).bind fun arrived => ?_
    cases arrived with
    | true => exact abstains_carry w _
    | false => exact .pure _
  · exact abstains_carry w c

theorem abstains_carryControl (c : Courier) : Abstains (carryControl c) :=
  (abstains_resume .control c).bind fun _ =>
    .bind (abstains_modifyControl fun _ => rfl) fun _ => .pure _

/-! ## The watcher -/

theorem abstains_watchLoop (bound : Nat) : Abstains (watchLoop bound) := by
  induction bound with
  | zero => exact .pure _
  | succ bound ih =>
    refine .bind .get fun s => ?_
    split
    · exact .bind (abstains_modifyAlarm _) fun _ => abstains_wake _
    · split
      · refine .bind (abstains_modifyAlarm _) fun _ =>
          .bind (abstains_resume .watcher _) fun c => .bind (abstains_modifyAlarm _) fun _ => ?_
        split
        · exact ih
        · exact .pure _
      · exact .pure _

theorem abstains_runWatcher : Abstains runWatcher := by
  refine .bind .get fun s => ?_
  split
  · refine .bind (abstains_resume .watcher _) fun c => .bind (abstains_modifyAlarm _) fun _ => ?_
    split
    · exact abstains_watchLoop patience
    · exact .pure _
  · exact .pure _

/-! ## Starting and stopping -/

theorem abstains_startControl : Abstains startControl := by
  refine .bind ?_ fun _ => .bind (abstains_modifyControl fun _ => rfl) fun _ => abstains_wake _
  exact .bind .get fun s => .bind (.edit fun _ => ⟨rfl, rfl, rfl⟩) fun _ => .pure _

theorem abstains_watchAlarm : Abstains watchAlarm := by
  refine .bind .get fun s => ?_
  split
  · exact .bind (abstains_modifyAlarm _) fun _ => abstains_wake _
  · exact .pure _

theorem abstains_beginStop : Abstains beginStop := by
  refine .bind .get fun s => .bind (abstains_modifyControl fun _ => rfl) fun _ => ?_
  refine .bind (.forM fun n _ => (abstains_tryPost n .stop).discard) fun _ => ?_
  exact .bind (.forM fun n _ => abstains_cancelDesk n) fun _ => abstains_wakeAll _

end Station

end Timeshift
