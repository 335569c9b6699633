import Timeshift.Proofs.Station.Loops
import Timeshift.Proofs.Station.Turns

/-!
# Runs of the recording service

The control loop, the watcher, the desks and the takes move in any order. In between a client
makes rounds, writes to the store and asks the desks for something, time passes, and what
surrounds the station changes.
-/

namespace Timeshift

namespace Station

open Admission (Message)

variable {α : Type}

/-! ## Acts of a client -/

/-- Makes a call of one of the operations of the store. -/
def write : Store.Edit → Act Unit
  | .load now => discard (withStore (Store.load now))
  | .add l => discard (withStore (Store.add l))
  | .update l => discard (withStore (Store.update l))
  | .changeState id state => discard (withStore (Store.changeState id state))
  | .remove l force => discard (withStore (Store.remove l force))
  | .addRule rule => discard (withStore (Store.addRule rule))
  | .updateRule rule => discard (withStore (Store.updateRule rule))
  | .removeRule id => discard (withStore (Store.removeRule id))
  | .addRecorded r => discard (withStore (Store.addRecorded r))

theorem run_write (s : Station) (e : Store.Edit) :
    (s.run (write e)).2.traffic = s.traffic.write (s.store.edit e) (s.store.edit e).journal := by
  cases e with
  | addRecorded r => exact run_withStore s (Store.addRecorded r)
  | _ => exact run_withStore s _

/-- What a client asks a desk for. -/
inductive Query where
  | stopTask (id : ScheduleId)
  | askView (asker : Nat)

def Query.message : Query → Message
  | .stopTask id => .stopTask id
  | .askView asker => .askView asker

theorem Query.message_ne_stop (q : Query) : q.message ≠ .stop := by
  cases q <;> exact Message.noConfusion

theorem Query.wordOn_message (q : Query) (id : ScheduleId) : q.message.wordOn id = none := by
  cases q <;> rfl

theorem quiet_callOff (id : ScheduleId) (outcome : Outcome) : IsQuiet (callOff id outcome) := by
  refine .bind .get fun s => ?_
  dsimp only
  split
  · exact .pure _
  · exact .bind (quiet_modifyTake _ _) fun _ => .bind (quiet_wake _) fun _ => .pure _

/-! ## The start -/

/-- Nobody listens to the store, and nothing is delivered. -/
structure IsDormant (t : Traffic) : Prop where
  keyed : t.store.IsKeyed
  told : t.store.journal = []
  events : t.events.listeners = ∅ ∧ t.events.kept = []
  goesOn : t.isStopped = false
  control : t.control = {}
  watcher : t.watcher = {}
  registered : t.registered = ∅
  desks : ∀ n, t.desks n = none

theorem leads_write_dormant (e : Store.Edit) :
    Leads (fun s => IsDormant s.traffic) (write e) fun _ s => IsDormant s.traffic := by
  intro s h
  obtain ⟨es, htells⟩ := Store.tells_edit s.store e
  rw [run_write, Traffic.write, Broadcast.publishAll_unheard h.events.1]
  exact { h with keyed := (htells.keyed h.keyed).congr rfl, told := rfl }

theorem leads_startControl (home : ScheduleId → InputId) :
    Leads (fun s => IsDormant s.traffic) startControl fun _ s =>
      (∀ (id : ScheduleId) (x : Schedule),
        s.store.live[id]? = some x → Dispatch.route s.around.catalog x = home x.id) →
      Flows home s.traffic [] s.traffic ∧ s.traffic.control = {} ∧ s.traffic.watcher = {} := by
  intro s h hstored
  have hcoming : (s.run startControl).2.traffic.coming = [] := by
    rw [Traffic.coming, List.flatMap_eq_nil_iff]
    intro e he
    have hkept : (s.run startControl).2.traffic.events.kept = [] := h.events.2
    exact absurd (hkept ▸ Broadcast.unheard_subset e he) List.not_mem_nil
  refine ⟨?_, h.control, h.watcher⟩
  exact {
    control := rfl
    watcher := rfl
    grows := fun _ _ hn => hn
    runs := rfl
    goesOn := h.goesOn
    keyed := h.keyed
    told := h.told
    sound := Broadcast.isSound_subscribe h.events.1 h.events.2
    listens := Std.TreeMap.mem_insert_self
    desks := fun n b hb => by
      cases (h.desks n).symm.trans hb
    named := fun input n hn => by
      have hnone : (s.run startControl).2.traffic.registered = ∅ := h.registered
      simp [hnone] at hn
    stored := hstored
    routed := fun p hp => by
      rw [hcoming] at hp
      cases hp
    settled := fun id _ _ hmay => by
      rw [hcoming] at hmay
      obtain ⟨n, b, hb, -⟩ := hmay
      cases (h.desks n).symm.trans hb
    kept := fun id _ hmay => by
      have hkept : (s.run startControl).2.traffic.events.kept = [] := h.events.2
      rw [hkept] at hmay
      exact hmay }

theorem isDormant_opening (settings : Settings) (around : Surroundings) (archive : Archive)
    (now : Instant) (ticks : Bool) :
    IsDormant (opening settings around archive now { ticks }).traffic where
  keyed id x hx := by simp [traffic, opening] at hx
  told := rfl
  events := ⟨rfl, rfl⟩
  goesOn := rfl
  control := rfl
  watcher := rfl
  registered := rfl
  desks n := by simp [traffic, opening]

theorem quiet_watchAlarm : IsQuiet watchAlarm := by
  refine .bind .get fun s => ?_
  split
  · exact .bind (.edit fun _ => rfl) fun _ => quiet_wake _
  · exact .pure _

end Station

/-- A station, and the round that a client makes. -/
structure Service where
  station : Station
  client : Courier := {}

namespace Service

open Station (Act Query Traffic Flows IsResting IsOffering Serves Watches Leads)

inductive Move where
  | desk (n : Nat)
  | take (n : Nat)
  | control
  | watcher
  | sleeper (n : Nat)
  /-- The client begins a round, or goes on with the one in which it has to wait. -/
  | client
  | write (e : Store.Edit)
  | change (f : Surroundings → Surroundings)
  /-- The client asks a desk for something, or waits in line for a slot. -/
  | ask (n : Nat) (q : Query)
  | askGranted (n : Nat) (q : Query)
  | giveUp (n : Nat)
  /-- A recording of the schedule ends by itself. -/
  | callOff (id : ScheduleId) (outcome : Outcome)
  | passTime (elapsed : Nat)
  | jump (delta : Int64)
  /-- Whose turn it is changes. -/
  | reorder (f : Agenda → Agenda)

variable {α : Type}

def act (c : Service) (a : Act α) : Service := { c with station := (c.station.run a).2 }

/-- What the client has to deliver when it goes on. -/
def nextRound (c : Service) : Courier := if c.client.isIdle then { roundDue := true } else c.client

def step (c : Service) : Move → Service
  | .desk n => c.act (Station.runDesk n)
  | .take n => c.act (Station.runTake n)
  | .control => c.act Station.runControl
  | .watcher => c.act Station.runWatcher
  | .sleeper n => c.act (Station.runSleeper n)
  | .client =>
    let (client, station) := c.station.run (Station.resume .client c.nextRound)
    { station, client }
  | .write e => c.act (Station.write e)
  | .change f => c.act (Station.changeAround f)
  | .ask n q => c.act (Station.postOrJoin n .client q.message)
  | .askGranted n q => c.act (Station.postGranted n .client q.message)
  | .giveUp n => c.act (Station.withdraw n .client)
  | .callOff id outcome => c.act (Station.callOff id outcome)
  | .passTime elapsed => c.act (Station.passTime elapsed)
  | .jump delta => c.act (Station.jump delta)
  | .reorder f => { c with station := { c.station with agenda := f c.station.agenda } }

def run (c : Service) (moves : List Move) : Service := moves.foldl step c

/-- The control loop starts, and the watcher if there is an alarm. The store has been used before. -/
def start (settings : Settings) (around : Surroundings) (archive : Archive) (now : Instant)
    (alarmTicks : Bool) (earlier : List Store.Edit) : Service where
  station := ((Station.opening settings around archive now { ticks := alarmTicks }).run do
    earlier.forM Station.write
    Station.startControl
    Station.watchAlarm).2

/-! ## Copies go home -/

/-- What is under way to the desks. -/
def parcels (c : Service) : List Parcel :=
  c.station.control.courier.parcels ++ c.station.traffic.coming ++
    c.station.alarm.courier.parcels ++ c.client.parcels

/-- All copies of a schedule go to its home. -/
structure AtHome (home : ScheduleId → InputId) (c : Service) : Prop where
  stored : ∀ x ∈ c.station.store.schedules, Dispatch.route c.station.around.catalog x = home x.id
  carried : ∀ p ∈ c.parcels, p.IsRouted home c.station.around.catalog

instance (home : ScheduleId → InputId) (c : Service) : Decidable (c.AtHome home) :=
  decidable_of_iff (_ ∧ _) ⟨fun h => ⟨h.1, h.2⟩, fun h => ⟨h.1, h.2⟩⟩

/-- What is offered is wanted. -/
def IsWanted (store : Store) : Parcel → Prop
  | .offer x => store.Wants x.id
  | _ => True

instance (store : Store) : (p : Parcel) → Decidable (IsWanted store p)
  | .offer x => inferInstanceAs (Decidable (store.Wants x.id))
  | .update _ | .remove _ | .align _ _ => inferInstanceAs (Decidable True)

/-- All that the courier still offers is wanted. -/
def IsCurrent (store : Store) (c : Courier) : Prop := ∀ p ∈ c.parcels, IsWanted store p

instance (store : Store) (c : Courier) : Decidable (IsCurrent store c) :=
  inferInstanceAs (Decidable (∀ p ∈ c.parcels, _))

/-- Ids are not given out again, and nobody goes on to offer what is wanted no longer. -/
def IsFit (c : Service) : Move → Prop
  | .write e => e.IsNew c.station.store
  | .watcher => IsCurrent c.station.store c.station.alarm.courier
  | .client => IsCurrent c.station.store c.client
  | _ => True

instance (c : Service) : (m : Move) → Decidable (c.IsFit m)
  | .write e => inferInstanceAs (Decidable (e.IsNew c.station.store))
  | .watcher => inferInstanceAs (Decidable (IsCurrent _ _))
  | .client => inferInstanceAs (Decidable (IsCurrent _ _))
  | .desk _ | .take _ | .control | .sleeper _ | .change _ | .ask _ _ | .askGranted _ _ | .giveUp _
  | .callOff _ _ | .passTime _ | .jump _ | .reorder _ => inferInstanceAs (Decidable True)

/-- All moves are fit, and no schedule changes its home. -/
def Keeps (home : ScheduleId → InputId) (c : Service) : List Move → Prop
  | [] => c.AtHome home
  | m :: rest => c.AtHome home ∧ c.IsFit m ∧ (c.step m).Keeps home rest

def decideKeeps (home : ScheduleId → InputId) :
    (c : Service) → (moves : List Move) → Decidable (c.Keeps home moves)
  | c, [] => inferInstanceAs (Decidable (c.AtHome home))
  | c, m :: rest =>
    have := decideKeeps home (c.step m) rest
    inferInstanceAs (Decidable (c.AtHome home ∧ c.IsFit m ∧ (c.step m).Keeps home rest))

instance (home : ScheduleId → InputId) (c : Service) (moves : List Move) :
    Decidable (c.Keeps home moves) := decideKeeps home c moves

variable {home : ScheduleId → InputId} {c c' : Service} {t : Traffic} {k : Courier}

theorem AtHome.watched (h : c.AtHome home) {x : Schedule}
    (hx : .offer x ∈ c.station.alarm.courier.parcels) :
    Dispatch.route c.station.around.catalog x = home x.id :=
  h.carried (.offer x) (by simp [parcels, hx])

theorem AtHome.offered (h : c.AtHome home) {x : Schedule} (hx : .offer x ∈ c.client.parcels) :
    Dispatch.route c.station.around.catalog x = home x.id :=
  h.carried (.offer x) (by simp [parcels, hx])

theorem AtHome.controlled (h : c.AtHome home) :
    ∀ p ∈ c.station.control.courier.parcels ++ c.station.traffic.coming,
      p.IsRouted home c.station.around.catalog :=
  fun p hp => h.carried p (List.mem_append_left _ (List.mem_append_left _ hp))

theorem AtHome.stored_live (h : c.AtHome home) {id : ScheduleId} {x : Schedule}
    (hx : c.station.store.live[id]? = some x) :
    Dispatch.route c.station.around.catalog x = home x.id :=
  h.stored x (mem_values.mpr ⟨id, hx⟩)

theorem Keeps.atHome {moves : List Move}
    (h : c.Keeps home moves) : c.AtHome home := by
  cases moves with
  | nil => exact h
  | cons m rest => exact h.1

/-! ## Between the moves -/

structure IsSound (home : ScheduleId → InputId) (c : Service) : Prop where
  flows : Flows home c.station.traffic c.station.control.courier.parcels c.station.traffic
  control : IsResting home c.station.traffic c.station.control.courier
  watcher : IsOffering home c.station.traffic c.station.alarm.courier
  client : IsOffering home c.station.traffic c.client

namespace IsSound

/-- The control loop has nothing new to deliver. The client may have. -/
theorem flowing (h : c.IsSound home)
    (hflows : Flows home c.station.traffic c.station.control.courier.parcels c'.station.traffic)
    (hclient : IsOffering home c'.station.traffic c'.client) : c'.IsSound home := by
  have hcontrol : c'.station.control.courier = c.station.control.courier := hflows.control
  have hwatcher : c'.station.alarm.courier = c.station.alarm.courier := hflows.watcher
  constructor
  · rw [hcontrol]
    exact hflows.rebase
  · rw [hcontrol]
    exact h.control.grow hflows.grows
  · rw [hwatcher]
    exact h.watcher.grow hflows.grows
  · exact hclient

theorem act {a : Act α} (h : c.IsSound home) (ha : Station.KeepsFlow home a) :
    (c.act a).IsSound home := by
  have hflows := ha _ _ _ h.flows
  exact h.flowing hflows (h.client.grow hflows.grows)

theorem quiet {a : Act α} (h : c.IsSound home) (ha : Station.IsQuiet a) :
    (c.act a).IsSound home := h.act (.of_quiet ha)

/-! ### Rounds and loops -/

theorem runControl (h : c.IsSound home) : (c.act Station.runControl).IsSound home := by
  have hserves : Serves home c.station.traffic c.station.traffic := ⟨h.flows, h.control⟩
  have hafter := Station.leads_runControl c.station hserves
  have hwatcher : (c.act Station.runControl).station.alarm.courier = c.station.alarm.courier :=
    hafter.flows.watcher
  have hgrows : ∀ (input : InputId) (n : Nat), c.station.traffic.registered[input]? = some n →
      (c.act Station.runControl).station.traffic.registered[input]? = some n := hafter.flows.grows
  refine ⟨hafter.flows.rebase, hafter.resting, ?_, h.client.grow hgrows⟩
  rw [hwatcher]
  exact h.watcher.grow hgrows

theorem runWatcher (h : c.IsSound home) (hhome : c.AtHome home)
    (hcurrent : IsCurrent c.station.store c.station.alarm.courier) :
    (c.act Station.runWatcher).IsSound home := by
  have hwatches : Watches home c.station.traffic c.station.control.courier.parcels
      c.station.traffic := ⟨h.flows, h.watcher⟩
  have hafter := Station.leads_runWatcher c.station
    ⟨hwatches, fun x hx => ⟨hcurrent _ hx, hhome.watched hx⟩⟩
  have hcontrol : (c.act Station.runWatcher).station.control.courier = c.station.control.courier :=
    hafter.flows.control
  have hgrows : ∀ (input : InputId) (n : Nat), c.station.traffic.registered[input]? = some n →
      (c.act Station.runWatcher).station.traffic.registered[input]? = some n := hafter.flows.grows
  refine ⟨?_, ?_, hafter.offering, h.client.grow hgrows⟩
  · rw [hcontrol]
    exact hafter.flows.rebase
  · rw [hcontrol]
    exact h.control.grow hgrows

theorem client_turn (h : c.IsSound home) (hhome : c.AtHome home)
    (hcurrent : IsCurrent c.station.store c.client) : (c.step .client).IsSound home := by
  have hround : (∀ p ∈ c.nextRound.parcels, p ∈ c.client.parcels) ∧
      ∀ n, c.nextRound.heldAt = some n →
        Station.WaitsAt home c.station.traffic c.nextRound.parcels n := by
    rw [nextRound]
    split
    · exact ⟨fun p hp => absurd hp List.not_mem_nil, fun n hn => nomatch hn⟩
    · exact ⟨fun p hp => hp, h.client.resting.waits⟩
  obtain ⟨hold, hwaits⟩ := hround
  have hoffered : Flows home c.station.traffic
      (c.nextRound.parcels ++ c.station.control.courier.parcels) c.station.traffic := by
    refine h.flows.offer fun p hp => ?_
    obtain ⟨x, rfl⟩ := h.client.offers p (hold p hp)
    exact ⟨x, rfl, hcurrent _ (hold _ hp), hhome.offered (hold _ hp)⟩
  have hafter := Station.leads_resume .client c.nextRound c.station ⟨hoffered, hwaits⟩
  have hoffers : ∀ p ∈ (c.step .client).client.parcels, ∃ x, p = .offer x :=
    fun p hp => (hafter.known p hp).elim (fun hp => h.client.offers p (hold p hp)) id
  exact h.flowing (hafter.flows.unoffer hoffers) ⟨hafter.resting, hoffers⟩

/-! ### Changes from outside -/

theorem write (h : c.IsSound home) {e : Store.Edit} (hnew : e.IsNew c.station.store)
    (hhome : (c.step (.write e)).AtHome home) : (c.step (.write e)).IsSound home := by
  obtain ⟨es, htells, hsettles⟩ : ∃ es, c.station.store.Tells es (c.station.store.edit e) ∧
      Store.Settles home c.station.store es (c.station.store.edit e) := Store.settles_edit hnew
  have htold : c.station.store.journal = [] := h.flows.told
  have hrun : (c.step (.write e)).station.traffic =
      c.station.traffic.write (c.station.store.edit e) es := by
    rw [show es = (c.station.store.edit e).journal by rw [htells.journal, htold, List.nil_append]]
    exact Station.run_write c.station e
  have hlive : (c.step (.write e)).station.store.live = (c.station.store.edit e).live :=
    congrArg (·.store.live) hrun
  have hcatalog : (c.step (.write e)).station.around.catalog = c.station.around.catalog :=
    congrArg (·.catalog) hrun
  have hflows : Flows home c.station.traffic c.station.control.courier.parcels
      (c.step (.write e)).station.traffic := by
    rw [hrun]
    refine h.flows.write htells hsettles (fun id x hx => ?_) fun p hp => ?_
    · rw [← hlive] at hx
      have hroute := hhome.stored_live hx
      rwa [hcatalog] at hroute
    · rw [← hrun] at hp
      have hrouted := hhome.controlled p (List.mem_append_right _ hp)
      rwa [hcatalog] at hrouted
  exact h.flowing hflows (h.client.grow hflows.grows)

theorem change (h : c.IsSound home) {f : Surroundings → Surroundings}
    (hhome : (c.step (.change f)).AtHome home) : (c.step (.change f)).IsSound home := by
  have hflows : Flows home c.station.traffic c.station.control.courier.parcels
      (c.step (.change f)).station.traffic :=
    { h.flows with
      stored := fun id x hx => hhome.stored_live hx
      routed := hhome.controlled }
  exact h.flowing hflows (h.client.grow hflows.grows)

end IsSound

theorem IsSound.step (h : c.IsSound home) (hhome : c.AtHome home) {m : Move} (hfit : c.IsFit m)
    (hafter : (c.step m).AtHome home) : (c.step m).IsSound home := by
  cases m with
  | desk n => exact h.act (Station.keeps_runDesk n)
  | take n => exact h.act (Station.keeps_runTake n)
  | control => exact h.runControl
  | watcher => exact h.runWatcher hhome hfit
  | sleeper n => exact h.quiet (Station.quiet_runSleeper n)
  | client => exact h.client_turn hhome hfit
  | write e => exact h.write hfit hafter
  | change f => exact h.change hafter
  | ask n q => exact h.act (Station.keeps_postOrJoin q.message_ne_stop q.wordOn_message n .client)
  | askGranted n q =>
    exact h.act (Station.keeps_postGranted q.message_ne_stop q.wordOn_message n .client)
  | giveUp n => exact h.quiet (Station.quiet_withdraw n .client)
  | callOff id outcome => exact h.quiet (Station.quiet_callOff id outcome)
  | passTime elapsed => exact h.quiet (.edit fun _ => rfl)
  | jump delta => exact h.quiet (.edit fun _ => rfl)
  | reorder f => exact h.flowing h.flows h.client

theorem IsSound.run {moves : List Move} (h : c.IsSound home) (hkeeps : c.Keeps home moves) :
    (c.run moves).IsSound home := by
  induction moves generalizing c with
  | nil => exact h
  | cons m rest ih =>
    obtain ⟨hhome, hfit, hrest⟩ := hkeeps
    exact ih (h.step hhome hfit hrest.atHome) hrest

theorem isSound_start {settings : Settings} {around : Surroundings} {archive : Archive}
    {now : Instant} {alarmTicks : Bool} {earlier : List Store.Edit}
    (hhome : (start settings around archive now alarmTicks earlier).AtHome home) :
    (start settings around archive now alarmTicks earlier).IsSound home := by
  have hstart : Leads (fun s => Station.IsDormant s.traffic)
      (do
        earlier.forM Station.write
        Station.startControl
        Station.watchAlarm)
      fun _ s => (∀ (id : ScheduleId) (x : Schedule),
          s.traffic.store.live[id]? = some x → Dispatch.route s.traffic.catalog x = home x.id) →
        Flows home s.traffic [] s.traffic ∧ s.traffic.control = {} ∧ s.traffic.watcher = {} := by
    refine (Leads.forM Station.leads_write_dormant earlier).bind fun _ => ?_
    refine (Station.leads_startControl home).bind fun _ => ?_
    exact Station.quiet_watchAlarm.leads fun t => (∀ (id : ScheduleId) (x : Schedule),
      t.store.live[id]? = some x → Dispatch.route t.catalog x = home x.id) →
        Flows home t [] t ∧ t.control = {} ∧ t.watcher = {}
  obtain ⟨hflows, hcontrol, hwatcher⟩ :=
    hstart _ (Station.isDormant_opening settings around archive now alarmTicks)
      fun id x hx => hhome.stored_live hx
  have hnone : (start settings around archive now alarmTicks earlier).station.control.courier = {} :=
    hcontrol
  have hidle : (start settings around archive now alarmTicks earlier).station.alarm.courier = {} :=
    hwatcher
  constructor
  · rw [hnone]
    exact hflows
  · exact hnone ▸ .nothing
  · exact hidle ▸ .nothing
  · exact .nothing

end Service

end Timeshift
