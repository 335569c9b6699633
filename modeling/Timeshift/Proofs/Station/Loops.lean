import Timeshift.Proofs.Station.Delivery
import Timeshift.Proofs.Station.Hearing

/-!
# The loops

The control loop writes the reports of the desks, and follows the store. The watcher follows the
alarm. After each of their turns the flow is as before, with what they have left to deliver.
-/

namespace Timeshift

namespace Store

variable {s s' : Store} {es : List StoreEvent} {x : Schedule}

/-- The copy differs from a schedule in use in its state only. -/
def Restates (s : Store) (x : Schedule) : Prop :=
  ∃ (id : ScheduleId) (old : Schedule),
    s.live[id]? = some old ∧ x = { old with state := x.state }

theorem mem_knownUpdates {l updates : List Schedule} (h : s.knownUpdates l = .ok updates)
    (hx : x ∈ updates) : x ∈ l :=
  List.mem_of_mem_filter (eq_filter_of_knownUpdates h ▸ hx)

theorem tells_applyReport (s : Store) (r : Report) :
    TellsOnly (fun e => ∃ l, e = .changed l ∧ ∀ x ∈ l, s.Restates x) s (Dispatch.applyReport r) := by
  refine .look ?_
  split
  · split
    · exact IsHonest.pure _ s
    · refine .look ?_
      split
      · next old hold =>
        split
        · exact IsHonest.pure _ s
        · obtain ⟨es, hes, hE⟩ := tells_update s [{ old with state := r.state }]
          refine ⟨es, hes, fun e he => ?_⟩
          obtain ⟨l, hl, rfl⟩ := hE e he
          refine ⟨l, rfl, fun x hx => ⟨_, old, hold, ?_⟩⟩
          rw [List.mem_singleton.mp (mem_knownUpdates hl hx)]
      · exact IsHonest.pure _ s
  · exact IsHonest.pure _ s

end Store

namespace Station

open Admission (Message)

variable {home : ScheduleId → InputId} {base t : Traffic} {ps qs : List Parcel} {p : Parcel}
  {n : Nat} {c : Courier}

/-! ## Writing -/

theorem run_tellEvents (s : Station) :
    (s.run tellEvents).2.traffic = s.traffic.write s.store s.store.journal := by
  rw [tellEvents, run_look]
  by_cases hempty : s.store.journal.isEmpty = true
  · have hjournal : s.store.journal = [] := List.isEmpty_iff.mp hempty
    rw [if_pos hempty, run_pure, Traffic.write, Store.passOn_eq_self hjournal, hjournal]
    rfl
  · rw [if_neg hempty, run_bind, run_set, quiet_wakeAll]
    rfl

theorem run_withStore {α : Type} (s : Station) (op : Store.Op α) :
    (s.run (withStore op)).2.traffic =
      s.traffic.write (s.store.run op).2 (s.store.run op).2.journal :=
  run_tellEvents { s with store := (s.store.run op).2 }

namespace Flows

theorem route_restated (h : Flows home base ps t) {x : Schedule} (hx : t.store.Restates x) :
    Dispatch.route t.catalog x = home x.id := by
  obtain ⟨id, old, hold, heq⟩ := hx
  rw [heq]
  exact h.stored id old hold

theorem restate (h : Flows home base ps t) {store : Store} {es : List StoreEvent}
    (htells : t.store.Tells es store)
    (hes : ∀ e ∈ es, ∃ l, e = .changed l ∧ ∀ x ∈ l, t.store.Restates x) :
    Flows home base ps (t.write store es) := by
  refine h.write htells (Store.settles_of_plain htells ?_ ?_) ?_ ?_
  · intro hload
    obtain ⟨l, heq, -⟩ := hes _ hload
    cases heq
  · intro l hadd
    obtain ⟨l, heq, -⟩ := hes _ hadd
    cases heq
  · intro id x hx
    by_cases hsilent : AreSilent es id
    · exact h.stored id x (htells.silent id hsilent ▸ hx)
    · obtain ⟨pre, e, post, rfl, he, hpost⟩ := Store.exists_lastSpeaking hsilent
      obtain ⟨l, rfl, hl⟩ := hes e (List.mem_append_right pre List.mem_cons_self)
      obtain ⟨y, hy⟩ : ∃ y, copyIn l id = some y := by
        refine Option.ne_none_iff_exists'.mp fun hnone => he ⟨StoreEvent.noConfusion, ?_⟩
        exact Option.map_eq_none_iff.mpr hnone
      have hlive := htells.isTrue pre (.changed l) post id (some y) rfl
        (Option.map_eq_some_iff.mpr ⟨y, hy, rfl⟩) hpost
      obtain rfl := Option.some.inj (hx.symm.trans hlive)
      exact h.route_restated (hl x (id_of_copyIn hy).1)
  · intro p hp
    obtain ⟨e, he, hparcel⟩ := List.mem_flatMap.mp hp
    obtain ⟨pre, hpre⟩ := (h.follows_write es).unheard
    have hmem : e ∈ t.unheard ++ es := hpre ▸ List.mem_append_right pre he
    rcases List.mem_append.mp hmem with hold | hnew
    · exact h.routed p (List.mem_append_right ps (List.mem_flatMap.mpr ⟨e, hold, hparcel⟩))
    · obtain ⟨l, rfl, hl⟩ := hes e hnew
      obtain ⟨x, hx, hparcel⟩ := List.mem_flatMap.mp hparcel
      have hroute := h.route_restated (hl x hx)
      rw [Dispatch.parcelsOf] at hparcel
      split at hparcel
      · rcases List.mem_pair.mp hparcel with rfl | rfl <;> exact hroute
      · rw [List.mem_singleton.mp hparcel]
        exact hroute

end Flows

theorem leads_applyReport (r : Report) :
    Leads (fun s => Flows home base ps s.traffic) (withStore (Dispatch.applyReport r)) fun _ s =>
      Flows home base ps s.traffic := by
  intro s h
  obtain ⟨es, hes, hE⟩ := Store.tells_applyReport s.store r
  have htold : s.store.journal = [] := h.told
  rw [run_withStore, hes.journal, htold, List.nil_append]
  exact h.restate hes hE

/-! ## The control loop -/

/-- Between two turns of the control loop. -/
structure Serves (home : ScheduleId → InputId) (base t : Traffic) : Prop where
  flows : Flows home { base with control := t.control } t.control.parcels t
  resting : IsResting home t t.control

/-- The control loop has nothing left to deliver. -/
def Listens (home : ScheduleId → InputId) (base t : Traffic) : Prop :=
  Serves home base t ∧ t.control.heldAt = none

theorem Serves.flows_listens (h : Serves home base t) (hidle : t.control.heldAt = none) :
    Flows home { base with control := t.control } [] t :=
  h.resting.idle hidle ▸ h.flows

theorem Flows.listens_of_idle (h : Flows home { base with control := c } [] t) (hidle : c.heldAt = none)
    (hparcels : c.parcels = []) : Listens home base t := by
  have hcontrol : t.control = c := h.control
  subst hcontrol
  refine ⟨⟨hparcels.symm ▸ h, fun _ => hparcels, fun n hn => ?_⟩, hidle⟩
  cases hidle.symm.trans hn

theorem leads_carryControl (c k : Courier) :
    Leads (fun s => Flows home { base with control := k } c.parcels s.traffic ∧
        ∀ n, c.heldAt = some n → WaitsAt home s.traffic c.parcels n)
      (carryControl c) fun r s =>
        Serves home base s.traffic ∧ (r = true → Listens home base s.traffic) := by
  have hresume : Leads (fun s => Flows home { base with control := k } c.parcels s.traffic ∧
        ∀ n, c.heldAt = some n → WaitsAt home s.traffic c.parcels n)
      (resume .control c) fun c' s =>
        Rests home { base with control := k } [] c.parcels c' s.traffic :=
    (leads_resume .control c).strengthen fun s h => by rwa [List.append_nil]
  refine hresume.bind fun c' s h => ?_
  have hflows := h.flows
  rw [List.append_nil] at hflows
  have hserves : Serves home base
      (s.run (modifyControl fun x => { x with courier := c' })).2.traffic :=
    ⟨{ hflows with control := rfl }, h.resting.idle, h.resting.waits⟩
  exact ⟨hserves, fun hidle => ⟨hserves, Option.isNone_iff_eq_none.mp hidle⟩⟩

theorem parcels_courierFor (e : StoreEvent) : (courierFor e).parcels = e.parcels := by
  rw [courierFor, StoreEvent.parcels]
  cases Dispatch.parcelsFor e <;> rfl

theorem heldAt_courierFor (e : StoreEvent) : (courierFor e).heldAt = none := by
  rw [courierFor]
  cases Dispatch.parcelsFor e <;> rfl

/-- What the control loop has to deliver after what it has heard. -/
def Hears (home : ScheduleId → InputId) (base : Traffic) (alignments : List Parcel) (t : Traffic) :
    Received StoreEvent → Prop
  | .event e => Flows home base e.parcels t
  | .missed _ => Flows home base alignments t
  | .nothing => Flows home base [] t
  | .gone => False

theorem leads_receive (s : Station) (h : Flows home base [] s.traffic) :
    Leads (· = s) (receive s.control.listener) fun r s' =>
      Hears home base (courierAfterMiss s).parcels s'.traffic r := by
  rintro _ rfl
  exact h.hear

/-- The control loop delivers something, and then goes on. -/
theorem leads_carryOn {bound : Nat} (hloop : Leads (fun s => Listens home base s.traffic)
      (controlLoop bound) fun _ s => Serves home base s.traffic) (c k : Courier) :
    Leads (fun s => Flows home { base with control := k } c.parcels s.traffic ∧
        ∀ n, c.heldAt = some n → WaitsAt home s.traffic c.parcels n)
      (do if (← carryControl c) then controlLoop bound)
      fun _ s => Serves home base s.traffic := by
  refine (leads_carryControl c k).bind fun r => ?_
  cases r with
  | true => exact hloop.strengthen fun _ h => h.2 rfl
  | false => exact .pure fun _ h => h.1

theorem leads_controlLoop (bound : Nat) :
    Leads (fun s => Listens home base s.traffic) (controlLoop bound) fun _ s =>
      Serves home base s.traffic := by
  -- On the bound. Nothing is left to deliver whenever the loop begins again.
  induction bound with
  | zero => exact .pure fun s h => h.1
  | succ bound ih =>
    refine .look fun s h => ?_
    obtain ⟨hserves, hidle⟩ := h
    have hflows := hserves.flows_listens hidle
    have hparcels := hserves.resting.idle hidle
    have hgoes : s.control.isStopped = false := hflows.goesOn
    rw [hgoes, if_neg Bool.false_ne_true]
    split
    · next r rest hreports =>
      refine Leads.here (P := fun s' =>
        Flows home { base with control := s.traffic.control } [] s'.traffic) ?_ hflows
      refine IsQuiet.andThen (.edit fun _ => rfl) fun _ => ?_
      refine (leads_applyReport r).discard.bind fun _ => ?_
      exact ih.strengthen fun s' h => h.listens_of_idle hidle hparcels
    · refine (leads_receive s hflows).bind fun r => ?_
      cases r with
      | event e =>
        refine (leads_carryOn ih (courierFor e) s.traffic.control).strengthen
          fun s' h => ⟨?_, fun n hn => ?_⟩
        · rw [parcels_courierFor]
          exact h
        · cases (heldAt_courierFor e).symm.trans hn
      | missed n =>
        exact (leads_carryOn ih (courierAfterMiss s) s.traffic.control).strengthen
          fun s' h => ⟨h, fun n hn => nomatch hn⟩
      | nothing =>
        refine ((quiet_listen .control).leads _).strengthen fun s' h => ?_
        exact (Flows.listens_of_idle h hidle hparcels).1
      | gone => exact fun _ h => h.elim

theorem leads_runControl :
    Leads (fun s => Serves home base s.traffic) runControl fun _ s => Serves home base s.traffic := by
  refine .look fun s h => ?_
  split
  · refine Leads.here (P := fun s' => s'.traffic = s.traffic) ?_ rfl
    refine (quiet_stopListening .control).andThen (P := (· = s.traffic)) fun _ => ?_
    refine (leads_carryOn (leads_controlLoop patience) s.control.courier
      s.control.courier).strengthen fun s' heq => ?_
    rw [heq]
    exact ⟨h.flows, h.resting.waits⟩
  · exact .pure fun s' heq => heq ▸ h

/-! ## The watcher -/

/-- Between two turns of the watcher. -/
structure Watches (home : ScheduleId → InputId) (base : Traffic) (ps : List Parcel) (t : Traffic) :
    Prop where
  flows : Flows home { base with watcher := t.watcher } ps t
  offering : IsOffering home t t.watcher

theorem leads_watchOn {bound : Nat} (hloop : Leads (fun s => Watches home base ps s.traffic)
      (watchLoop bound) fun _ s => Watches home base ps s.traffic) (c k : Courier)
    (hoffers : ∀ p ∈ c.parcels, ∃ s, p = .offer s) :
    Leads (fun s => Flows home { base with watcher := k } (c.parcels ++ ps) s.traffic ∧
        ∀ n, c.heldAt = some n → WaitsAt home s.traffic c.parcels n)
      (do
        let c ← resume .watcher c
        modifyAlarm fun a => { a with courier := c }
        if c.isIdle then watchLoop bound)
      fun _ s => Watches home base ps s.traffic := by
  refine (leads_resume .watcher c).bind fun c' => ?_
  refine Leads.bind (Q := fun _ s => Watches home base ps s.traffic) ?_ fun _ => ?_
  · intro s h
    have hoffers' : ∀ p ∈ c'.parcels, ∃ s, p = .offer s :=
      fun p hp => (h.known p hp).elim (hoffers p) id
    have hflows := h.flows.unoffer hoffers'
    exact ⟨{ hflows with watcher := rfl }, ⟨h.resting.idle, h.resting.waits⟩, hoffers'⟩
  · split
    · exact hloop
    · exact .pure fun _ h => h

theorem leads_watchLoop (bound : Nat) :
    Leads (fun s => Watches home base ps s.traffic) (watchLoop bound) fun _ s =>
      Watches home base ps s.traffic := by
  induction bound with
  | zero => exact .pure fun _ h => h
  | succ bound ih =>
    refine .look fun s h => ?_
    have hgoes : s.control.isStopped = false := h.flows.goesOn
    rw [hgoes, if_neg Bool.false_ne_true]
    split
    · refine Leads.here (P := fun s' => s'.traffic = s.traffic) ?_ rfl
      refine IsQuiet.andThen (P := (· = s.traffic)) (.edit fun _ => rfl) fun _ => ?_
      refine (leads_watchOn ih { roundDue := true } s.traffic.watcher fun p hp => ?_).strengthen
        fun s' heq => ?_
      · cases hp
      · rw [heq]
        exact ⟨h.flows, fun n hn => nomatch hn⟩
    · exact .pure fun s' heq => heq ▸ h

/-- The watcher may go on with a round as long as it still offers what is wanted. -/
theorem leads_runWatcher :
    Leads (fun s => Watches home base ps s.traffic ∧ ∀ x, .offer x ∈ s.traffic.watcher.parcels →
        s.store.Wants x.id ∧ Dispatch.route s.around.catalog x = home x.id)
      runWatcher fun _ s => Watches home base ps s.traffic := by
  refine .look fun s h => ?_
  obtain ⟨hwatches, hwanted⟩ := h
  split
  · refine (leads_watchOn (leads_watchLoop patience) s.alarm.courier s.alarm.courier
      hwatches.offering.offers).here ?_
    refine ⟨hwatches.flows.offer fun p hp => ?_, hwatches.offering.resting.waits⟩
    obtain ⟨x, rfl⟩ := hwatches.offering.offers p hp
    exact ⟨x, rfl, hwanted x hp⟩
  · exact .pure fun s' heq => heq ▸ hwatches

end Station

end Timeshift
