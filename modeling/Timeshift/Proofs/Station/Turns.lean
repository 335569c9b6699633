import Timeshift.Proofs.Station.Delivery
import Timeshift.Proofs.Station.Hearing

/-!
# Turns of the workers

A turn of a desk or of a take keeps the flow as it is. The control loop and the watcher have
something else to deliver after a turn.
-/

namespace Timeshift

namespace Station

open Admission (Message)

variable {α β : Type} {home : ScheduleId → InputId} {base t : Traffic} {ps : List Parcel} {n : Nat}

/-- The act keeps the flow, whatever the control loop has left to deliver. -/
def KeepsFlow (home : ScheduleId → InputId) (act : Act α) : Prop :=
  ∀ (base : Traffic) (ps : List Parcel),
    Leads (fun s => Flows home base ps s.traffic) act fun _ s => Flows home base ps s.traffic

namespace KeepsFlow

theorem of_quiet {act : Act α} (h : IsQuiet act) : KeepsFlow home act :=
  fun base ps => h.leads (Flows home base ps)

theorem pure (a : α) : KeepsFlow home (Pure.pure a : Act α) := of_quiet (.pure a)

theorem get : KeepsFlow home (MonadState.get : Act Station) := of_quiet .get

theorem bind {act : Act α} {next : α → Act β} (h : KeepsFlow home act)
    (h' : ∀ a, KeepsFlow home (next a)) : KeepsFlow home (act >>= next) :=
  fun base ps => (h base ps).bind fun a => h' a base ps

end KeepsFlow

/-! ## Desks -/

namespace Traffic

theorem alter_congr {f g : Books → Books} (h : ∀ b, t.desks n = some b → f b = g b) :
    t.alter n f = t.alter n g := by
  have hdesks : (fun k => if n = k then (t.desks k).map f else t.desks k) =
      fun k => if n = k then (t.desks k).map g else t.desks k := by
    funext k
    split
    · next heq =>
      subst heq
      cases hb : t.desks n with
      | none => rfl
      | some b => simp [h b hb]
    · rfl
  rw [alter, hdesks, alter]

theorem alter_alter (f g : Books → Books) : (t.alter n f).alter n g = t.alter n (g ∘ f) := by
  have hdesks : (fun k => if n = k then (if n = k then (t.desks k).map f else t.desks k).map g
      else if n = k then (t.desks k).map f else t.desks k) =
      fun k => if n = k then (t.desks k).map (g ∘ f) else t.desks k := by
    funext k
    split <;> simp
  exact congrArg (fun desks => { t with desks }) hdesks

theorem desks_alter (f : Books → Books) : (t.alter n f).desks n = (t.desks n).map f :=
  if_pos rfl

end Traffic

theorem run_withAdmission (s : Station) (n : Nat)
    (step : Catalog → Instant → Admission → Admission.Turn) :
    (s.run (withAdmission n step)).2.traffic = s.traffic.alter n fun b =>
      { b with admission := (step s.around.catalog s.now b.admission).1 } := by
  have hnone (f : Books → Books) (hd : s.desks[n]? = none) : s.traffic.alter n f = s.traffic := by
    rw [Traffic.alter_congr (g := id), Traffic.alter_id]
    intro b hb
    simp [traffic, hd] at hb
  simp only [withAdmission, run_bind, run_get]
  split
  · next desk hdesk =>
    have hset := run_modifyDesk s n
      (f := fun d => { d with admission := (step s.around.catalog s.now desk.admission).1 })
      (g := fun b => { b with admission := (step s.around.catalog s.now desk.admission).1 })
      fun d _ => rfl
    simp only [run_bind]
    rw [quiet_abandonGone, IsQuiet.forM (quiet_perform n), hset]
    refine Traffic.alter_congr fun b hb => ?_
    obtain ⟨d, hd, rfl⟩ := Option.map_eq_some_iff.mp hb
    obtain rfl := Option.some.inj (hdesk.symm.trans hd)
    rfl
  · next hno =>
    rw [hnone]
    · rfl
    · exact Option.eq_none_iff_forall_ne_some.mpr fun d hd => hno d hd

theorem take?_spec {d : Desk} {m : Message} {next : Option Worker}
    {mailbox : Mailbox Worker Message} (h : d.mailbox.take? = some (m, next, mailbox)) :
    mailbox.queue = d.mailbox.queue.tail ∧ mailbox.isClosed = d.mailbox.isClosed := by
  rw [Mailbox.take?] at h
  split at h
  · cases h
  · next first rest hqueue =>
    simp only [Option.some.injEq, Prod.mk.injEq] at h
    obtain ⟨-, h⟩ := h
    have hmailbox : (Mailbox.grantNext { d.mailbox with queue := rest }).2 = mailbox := by rw [h]
    rw [hqueue, ← hmailbox, Mailbox.grantNext]
    split <;> exact ⟨rfl, rfl⟩

theorem run_takeMessage (s : Station) (n : Nat) :
    (s.run (takeMessage n)).2.traffic =
      s.traffic.alter n fun b => { b with queue := b.queue.tail } := by
  simp only [takeMessage, run_bind, run_get]
  split
  · next m next mailbox hsome =>
    obtain ⟨d, hd, htake⟩ := Option.bind_eq_some_iff.mp hsome
    obtain ⟨hqueue, hclosed⟩ := take?_spec htake
    have hset := run_modifyDesk s n (f := fun d => { d with mailbox })
      (g := fun b => { b with queue := b.queue.tail }) fun c hc => by
        obtain rfl := Option.some.inj (hd.symm.trans hc)
        simp [Desk.books, hqueue, hclosed]
    simp only [run_bind]
    rw [quiet_wakeNext, hset]
  · next hnone =>
    rw [run_pure, Traffic.alter_congr (g := id), Traffic.alter_id]
    intro b hb
    obtain ⟨d, hd, rfl⟩ := Option.map_eq_some_iff.mp hb
    have hempty : d.mailbox.queue = [] := by
      rw [← Mailbox.take?_eq_none_iff, Option.eq_none_iff_forall_ne_some]
      rintro ⟨m, next, mailbox⟩ htake
      exact hnone m next mailbox (Option.bind_eq_some_iff.mpr ⟨d, hd, htake⟩)
    simp [Desk.books, hempty]

/-- The mailbox of a desk holds these messages. -/
def Queues (n : Nat) (l : List Message) (t : Traffic) : Prop :=
  ∀ b, t.desks n = some b → b.queue = l

/-- The first message has left the mailbox, and is handled next. -/
theorem leads_handle (n : Nat) (m : Message) (rest : List Message) :
    Leads (fun s => ∃ t, s.traffic = (t.alter n fun b => { b with queue := b.queue.tail }) ∧
        Flows home base ps t ∧ Queues n (m :: rest) t)
      (withAdmission n fun catalog now a => a.handle catalog now m)
      fun _ s => Flows home base ps s.traffic ∧ Queues n rest s.traffic := by
  rintro s ⟨t, htraffic, hflows, hqueue⟩
  have hhandled := run_withAdmission s n fun catalog now a => a.handle catalog now m
  rw [htraffic, Traffic.alter_alter, Traffic.alter_congr (g := fun b =>
    { b with
      admission := (b.admission.handle s.around.catalog s.now m).1
      queue := rest }) fun b hb => by simp [hqueue b hb]] at hhandled
  rw [hhandled]
  refine ⟨hflows.handle hqueue s.around.catalog s.now, fun b hb => ?_⟩
  rw [Traffic.desks_alter] at hb
  obtain ⟨c, -, rfl⟩ := Option.map_eq_some_iff.mp hb
  rfl

theorem leads_handleMessages (n : Nat) (l : List Message) (hstop : .stop ∉ l) :
    Leads (fun s => Flows home base ps s.traffic ∧ Queues n l s.traffic) (handleMessages n l)
      fun stop s => stop = false ∧ Flows home base ps s.traffic := by
  induction l with
  | nil => exact fun s h => ⟨rfl, h.1⟩
  | cons m rest ih =>
    have hgoes : m ≠ .stop := fun heq => hstop (heq ▸ List.mem_cons_self)
    refine Leads.bind (Q := fun _ s => ∃ t,
      s.traffic = (t.alter n fun b => { b with queue := b.queue.tail }) ∧
        Flows home base ps t ∧ Queues n (m :: rest) t) ?_ fun _ => ?_
    · exact fun s h => ⟨s.traffic, run_takeMessage s n, h⟩
    · rw [if_neg hgoes]
      exact (leads_handle n m rest).bind fun _ => ih fun hmem => hstop (List.mem_cons_of_mem m hmem)

/-! ### Passes -/

theorem keeps_withAdmission (n : Nat) {step : Catalog → Instant → Admission → Admission.Turn}
    (hstep : ∀ catalog now (a : Admission), a.IsKeyed →
      (step catalog now a).1.IsKeyed ∧ (step catalog now a).1.inputId = a.inputId ∧
        ∀ id, (step catalog now a).1.Holds id → a.Holds id) :
    KeepsFlow home (withAdmission n step) := by
  intro base ps s h
  rw [run_withAdmission]
  exact h.settle fun a => hstep s.around.catalog s.now a

theorem quiet_restDesk (n : Nat) (rest : DeskRest) :
    IsQuiet (modifyDesk n fun d => { d with rest }) := .modifyDesk n fun _ => rfl

theorem keeps_settleDesk (n : Nat) : KeepsFlow home (settleDesk n) := by
  refine (keeps_withAdmission n fun catalog now a ha => ?_).bind fun _ => .of_quiet ?_
  · have hchanges := Admission.changes_passIfDue (l := {}) catalog now ha
    exact ⟨hchanges.keyed ha, hchanges.inputId, fun id => Admission.holds_passIfDue ha⟩
  · refine (quiet_rouse _).bind fun _ => .bind .get fun s => ?_
    split
    · split
      · exact quiet_restDesk n _
      · dsimp only
        split
        · exact (quiet_restDesk n _).bind fun _ => quiet_stepAside _
        · exact (quiet_restDesk n _).bind fun _ => quiet_sleepUntil _ _
    · exact .pure _

theorem keeps_passDesk (n : Nat) :
    KeepsFlow home (do withAdmission n fun _ _ a => (a.wantPass, []); settleDesk n) :=
  (keeps_withAdmission n fun _ _ _ ha => ⟨ha.congr rfl rfl, rfl, fun _ hid => hid⟩).bind
    fun _ => keeps_settleDesk n

/-- A desk with messages handles all of them, and never stops. -/
theorem keeps_runDesk (n : Nat) : KeepsFlow home (runDesk n) := by
  intro base ps
  refine .look fun s h => ?_
  split
  · next d hd =>
    have hdesk : s.traffic.desks n = some d.books := by simp [traffic, hd]
    have hsound := (h.desks n _ hdesk).1
    have hopen := hsound.isOpen
    simp only [Desk.books, Bool.not_eq_true', Bool.or_eq_false_iff] at hopen
    obtain ⟨⟨-, hcancelled⟩, hended⟩ := hopen
    rw [hended, hcancelled]
    split
    · exact .pure fun s' heq => heq ▸ h
    · rw [if_neg Bool.false_ne_true]
      split
      · split
        · exact (keeps_passDesk n base ps).here h
        · exact .pure fun s' heq => heq ▸ h
      · have hqueue : Queues n d.mailbox.queue s.traffic := by
          intro b hb
          obtain rfl := Option.some.inj (hdesk.symm.trans hb)
          rfl
        refine ((leads_handleMessages n d.mailbox.queue hsound.goesOn).here ⟨h, hqueue⟩).bind
          fun stop => ?_
        cases stop with
        | false => exact (keeps_settleDesk n base ps).strengthen fun _ h => h.2
        | true => exact fun _ h => absurd h.1 Bool.noConfusion
  · exact .pure fun s' heq => heq ▸ h

/-! ## Messages of takes and clients -/

theorem Flows.posts (h : Flows home base ps t) {m : Message} (hstop : m ≠ .stop)
    (hsilent : ∀ id, m.wordOn id = none) {posted : Posted} {t' : Traffic}
    (hposts : Posts n m t posted t') : Flows home base ps t' := by
  cases hposts with
  | done => exact h.postSilently n hstop hsilent
  | full | closed => exact h

section Silent

variable {m : Message} (hstop : m ≠ .stop) (hsilent : ∀ id, m.wordOn id = none)

include hstop hsilent

theorem keeps_postOrJoin (n : Nat) (w : Worker) : KeepsFlow home (postOrJoin n w m) :=
  fun _ _ s h => h.posts hstop hsilent (posts_postOrJoin s n w m)

theorem keeps_postGranted (n : Nat) (w : Worker) : KeepsFlow home (postGranted n w m) := by
  intro base ps s h
  rw [run_postGranted]
  exact h.postSilently n hstop hsilent

end Silent

theorem queue_withdraw (mailbox : Mailbox Worker Message) (w : Worker) :
    (mailbox.withdraw w).2.queue = mailbox.queue ∧
      (mailbox.withdraw w).2.isClosed = mailbox.isClosed := by
  rw [Mailbox.withdraw]
  split
  · rw [Mailbox.grantNext]
    split <;> exact ⟨rfl, rfl⟩
  · exact ⟨rfl, rfl⟩

theorem quiet_withdraw (n : Nat) (w : Worker) : IsQuiet (withdraw n w) := by
  refine .look fun s => ?_
  split
  · next d hd =>
    obtain ⟨hqueue, hclosed⟩ := queue_withdraw d.mailbox w
    have hset := run_modifyDesk s n (f := fun c => { c with mailbox := (d.mailbox.withdraw w).2 })
      (g := id) fun c hc => by
        obtain rfl := Option.some.inj (hd.symm.trans hc)
        simp [Desk.books, hqueue, hclosed]
    simp only [run_bind]
    rw [quiet_wakeNext, hset, Traffic.alter_id]
  · rfl

/-! ### Takes -/

theorem keeps_deliverOutcome (n : Nat) (run : TakeRun) (outcome : Outcome) :
    KeepsFlow home (deliverOutcome n run outcome) := by
  refine .bind (.of_quiet (quiet_rouse _)) fun _ =>
    .bind (.of_quiet (quiet_modifyTake n _)) fun _ => ?_
  refine (keeps_postOrJoin Message.noConfusion (fun _ => rfl) _ _).bind fun posted => ?_
  cases posted with
  | full => exact .pure _
  | done | closed => exact .of_quiet (quiet_closeTake n)

theorem keeps_redeliverOutcome (n : Nat) (run : TakeRun) (outcome : Outcome) :
    KeepsFlow home (redeliverOutcome n run outcome) := by
  refine .bind .get fun s => ?_
  split
  · exact (keeps_postGranted Message.noConfusion (fun _ => rfl) _ _).bind fun _ =>
      .of_quiet (quiet_closeTake n)
  · split
    · exact .of_quiet (quiet_closeTake n)
    · exact .pure _

theorem keeps_advanceTake (n : Nat) (run : TakeRun) : KeepsFlow home (advanceTake n run) := by
  refine .bind .get fun s => ?_
  generalize run.take.advance s.now = r
  obtain ⟨notes, take, outcome⟩ := r
  dsimp only
  generalize s.deadlineOf { run with take } = deadline
  refine .bind (.of_quiet (.edit fun _ => rfl)) fun _ =>
    .bind (.of_quiet (quiet_modifyTake n _)) fun _ => ?_
  cases outcome with
  | some outcome => exact keeps_deliverOutcome n run outcome
  | none =>
    dsimp only
    split
    · exact keeps_deliverOutcome n run _
    · have hdeadline : IsQuiet (deadline.forM (sleepUntil (.take n))) := by
        cases deadline with
        | none => exact .pure _
        | some due => exact quiet_sleepUntil _ _
      refine .of_quiet (hdeadline.bind fun _ => ?_)
      split
      · exact quiet_sleepUntil _ _
      · exact .pure _

theorem keeps_runTake (n : Nat) : KeepsFlow home (runTake n) := by
  refine .bind .get fun s => ?_
  split
  · next run hrun =>
    split
    · exact .pure _
    · split
      · exact keeps_redeliverOutcome n run _
      · split
        · exact keeps_advanceTake n run
        · exact .bind (.of_quiet (quiet_beginTake n run)) fun run => keeps_advanceTake n run
  · exact .pure _

end Station

end Timeshift
