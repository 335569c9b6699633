import Timeshift.Proofs.Station.Service

/-!
# No recording is orphaned or tracked twice

As long as every schedule keeps its home, only the desk there tracks it. What is tracked when
everything has been handled is stored, and waits or is being recorded.
-/

namespace Timeshift

namespace Service

open Station (Books Flows Traffic)

variable {home : ScheduleId → InputId} {c : Service} {n : Nat} {id : ScheduleId}

/-- The schedule waits at the desk, or has a recording that was not told to end. -/
def Tracks (c : Service) (n : Nat) (id : ScheduleId) : Prop :=
  ∃ d, c.station.desks[n]? = some d ∧ d.admission.Holds id

instance (c : Service) (n : Nat) (id : ScheduleId) : Decidable (c.Tracks n id) :=
  inferInstanceAs (Decidable (∃ d ∈ c.station.desks[n]?, d.admission.Holds id))

/-- Every event, every report and every message has been handled. -/
structure IsHandled (c : Service) : Prop where
  heard : (c.station.storeEvents.receive c.station.control.listener).1 = .nothing
  reported : c.station.control.reports = []
  delivered : c.parcels = []
  emptied : ∀ d ∈ c.station.desks.values, d.mailbox.queue = []

instance (c : Service) : Decidable c.IsHandled :=
  have : Decidable (c.parcels = []) := decidable_of_iff _ List.isEmpty_iff
  have : Decidable (c.station.control.reports = []) := decidable_of_iff _ List.isEmpty_iff
  decidable_of_iff (_ ∧ _ ∧ _ ∧ _)
    ⟨fun h => ⟨h.1, h.2.1, h.2.2.1, h.2.2.2⟩, fun h => ⟨h.1, h.2, h.3, h.4⟩⟩

theorem Tracks.registered (h : c.Tracks n id) (hsound : c.IsSound home) :
    c.station.control.desks[home id]? = some n := by
  obtain ⟨d, hd, hholds⟩ := h
  exact hsound.flows.registered_home (b := d.books) (by simp [Station.traffic, hd]) (Or.inl hholds)

/-- When everything has been handled there is nothing that a desk may yet let go. -/
theorem IsHandled.wants (h : c.IsHandled) (hsound : c.IsSound home) (htracks : c.Tracks n id) :
    c.station.store.Wants id := by
  obtain ⟨d, hd, hholds⟩ := htracks
  by_contra hid
  have hmissed : ¬ c.station.traffic.HasMissed := by
    have hhears := (Broadcast.receive_spec hsound.flows.sound hsound.flows.listens).1
    generalize (c.station.traffic.events.receive c.station.traffic.listener).2 = b at hhears
    rw [show (c.station.traffic.events.receive c.station.traffic.listener).1 = .nothing
      from h.heard] at hhears
    cases hhears with
    | nothing _ hup => exact hup
  obtain ⟨⟨⟨hcontrol, hcoming⟩, -⟩, -⟩ : ((c.station.control.courier.parcels = [] ∧
      c.station.traffic.coming = []) ∧ c.station.alarm.courier.parcels = []) ∧
        c.client.parcels = [] := by simpa [parcels, and_assoc] using h.delivered
  -- With nothing on its way and nothing in the mailbox, what may be held is what is held.
  refine hsound.flows.settled id hid hmissed ?_
  rw [hcontrol, hcoming]
  have hqueue : d.mailbox.queue = [] := h.emptied d (mem_values.mpr ⟨n, hd⟩)
  refine ⟨n, d.books, by simp [Station.traffic, hd], ?_⟩
  rw [Books.MayHold, show d.books.queue = [] from hqueue]
  exact hholds

/-- In a run where every schedule keeps its home no two desks ever track the same one. Whatever is
tracked when everything has been handled is in use, and waits or is being recorded. -/
theorem tracked_once_and_wanted {settings : Settings} {around : Surroundings} {archive : Archive}
    {now : Instant} {alarmTicks : Bool} {earlier : List Store.Edit} {moves : List Move}
    (hkeeps : (start settings around archive now alarmTicks earlier).Keeps home moves) :
    let c := (start settings around archive now alarmTicks earlier).run moves
    (∀ n m id, c.Tracks n id → c.Tracks m id → n = m) ∧
      (c.IsHandled → ∀ n id, c.Tracks n id → c.station.store.Wants id) := by
  intro c
  have hsound : c.IsSound home := (isSound_start hkeeps.atHome).run hkeeps
  refine ⟨fun n m id hn hm => ?_, fun h n id => h.wants hsound⟩
  exact Option.some.inj ((hn.registered hsound).symm.trans (hm.registered hsound))

/-- Two inputs, and a channel that the first one brings. -/
def twoInputs : Surroundings where
  catalog := ((({} : Catalog).putInput ⟨"tuner", 1, true⟩).putInput ⟨"other", 1, true⟩).putChannel
    ⟨1, "tuner", "One", none⟩

def begun : Service := start {} twoInputs {} 0 false [.load 0]

/-- Of two schedules that overlap the first one is recorded, and the other one waits. -/
theorem tracked_once_and_wanted_overlapping :
    let moves : List Move := [.client,
      .write (.add [.timed 0 1 30000 90000 5, .timed 0 1 40000 95000 5]), .control, .desk 1,
      .passTime 35000, .desk 1, .take 1, .control, .desk 1]
    let c := begun.run moves
    begun.Keeps (fun _ => "tuner") moves ∧ c.IsHandled ∧ c.Tracks 1 1 ∧ c.Tracks 1 2 ∧
      c.station.store.Wants 1 ∧ c.station.store.Wants 2 ∧
      ∀ n m id, c.Tracks n id → c.Tracks m id → n = m := by
  intro moves c
  have hkeeps : begun.Keeps (fun _ => "tuner") moves := by decide +kernel
  have hhandled : c.IsHandled := by decide +kernel
  have hfirst : c.Tracks 1 1 := by decide +kernel
  have hsecond : c.Tracks 1 2 := by decide +kernel
  obtain ⟨honce, hwants⟩ := tracked_once_and_wanted hkeeps
  exact ⟨hkeeps, hhandled, hfirst, hsecond, hwants hhandled 1 1 hfirst, hwants hhandled 1 2 hsecond,
    honce⟩

/-- A schedule waits when its channel moves to the other input. If it is removed then, its desk
does not hear of it, and records what nobody wants. If it is offered again instead, both desks
record it. -/
theorem not_once_nor_wanted_after_move :
    let before : List Move :=
      [.client, .write (.add [.timed 0 1 30000 90000 5]), .control, .desk 1,
        .change fun a => { a with catalog := a.catalog.putChannel ⟨1, "other", "One", none⟩ }]
    let removed := begun.run (before ++ [.write (.remove [.timed 1 1 30000 90000 5] false),
      .control, .passTime 40000, .desk 1, .take 1, .control])
    let offered := begun.run (before ++ [.client, .desk 2, .passTime 40000, .desk 1, .desk 2,
      .take 1, .take 2, .control, .desk 1, .desk 2])
    (removed.IsHandled ∧ removed.Tracks 1 1 ∧ ¬ removed.station.store.Wants 1) ∧
      (offered.IsHandled ∧ offered.Tracks 1 1 ∧ offered.Tracks 2 1) := by
  decide +kernel

end Service

end Timeshift
