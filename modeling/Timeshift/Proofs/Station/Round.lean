import Timeshift.Proofs.Station.Offers
import Timeshift.Proofs.Station.Turns

/-!
# Rounds

A round that has to wait at a full mailbox goes on when it has its slot there, and everybody else
goes on meanwhile. So a round is a row of goes, with whatever the others do in between.
-/

namespace Timeshift

namespace Station

open Dispatch (route isSoon alarmAfter)

variable {s : Station} {set : List Instant} {x : Schedule} {n : Nat} {w : Worker} {since : Instant}
  {l : List Schedule}

/-! ## A row of goes -/

/-- What the others may do while a worker is in line at a desk, until it has its slot. Nobody stops
the station, changes the catalog or sets the clock back. -/
structure Meanwhile (w : Worker) (n : Nat) (s next : Station) : Prop where
  settings : next.settings = s.settings
  catalog : next.around.catalog = s.around.catalog
  now : s.now ≤ next.now
  isStopped : next.control.isStopped = false
  isLogged : next.alarm.isLogged = s.alarm.isLogged
  desks : ∀ input k, s.IsOpenFor input k → next.IsOpenFor input k
  slot : next.isGranted n w = true

/-- A courier that goes on at a station. -/
structure Go where
  before : Station
  courier : Courier

namespace Go

variable {g : Go} {later : List Station}

/-- The go in which a round begins. -/
def round (s : Station) : Go := ⟨s, { roundDue := true }⟩

def after (w : Worker) (g : Go) : Station := (g.before.run (resume w g.courier)).2

def left (w : Worker) (g : Go) : Courier := (g.before.run (resume w g.courier)).1

/-- What the alarm is set to in a go, from its notes. -/
def alarms (w : Worker) (g : Go) : List Instant :=
  (g.after w).alarmNotes.drop g.before.alarmNotes.length

def next (w : Worker) (g : Go) (s : Station) : Go := ⟨s, g.left w⟩

/-- The goes from this one on, if the courier goes on at some later stations. -/
def row (w : Worker) (g : Go) : List Station → List Go
  | [] => [g]
  | s :: later => g :: (g.next w s).row w later

def last (w : Worker) (g : Go) : List Station → Go
  | [] => g
  | s :: later => (g.next w s).last w later

/-- Between two goes the courier waits at a desk, and this is what happens there. -/
def Waits (w : Worker) (happens : Nat → Station → Station → Prop) (g : Go) : List Station → Prop
  | [] => True
  | s :: later => (∃ n, (g.left w).heldAt = some n ∧ happens n (g.after w) s) ∧
      (g.next w s).Waits w happens later

theorem alarms_of_carries (h : Carries set g.before (g.after w)) : g.alarms w = set := by
  unfold alarms
  rw [h.alarms, List.drop_left]

/-- What a row of goes has done when it has come to its last one. -/
structure Comes (w : Worker) (since : Instant) (l : List Schedule) (g : Go)
    (later : List Station) : Prop where
  few : later.length ≤ (g.left w).parcels.length
  waits : ((g.last w later).left w).isIdle = false →
    ∃ n, ((g.last w later).left w).heldAt = some n ∧ ((g.last w later).after w).InLine n w
  brought : ((g.last w later).left w).isIdle = true →
    ∀ x ∈ l, isSoon g.before.now g.before.settings.wakeBefore x = true →
      ∃ go ∈ g.row w later, Brought x go.before (go.after w)
  alarms : ((g.last w later).left w).isIdle = true → (g.row w later).flatMap (·.alarms w) =
    (alarmAfter (g.last w later).before.store since g.before.settings.wakeBefore).toList

/-- The next go takes up the round where this one has left it, and gets further. -/
theorem went_next {more : List Schedule} (hleft : g.left w = heldCourier n (x :: more) since)
    (hopen : (g.after w).IsOpenFor (route (g.after w).around.catalog x) n)
    (hlogged : (g.after w).alarm.isLogged = true) (hmean : Meanwhile w n (g.after w) s) :
    Went w since (x :: more) s ((g.next w s).after w) ((g.next w s).left w) ∧
      ((g.next w s).left w).parcels.length ≤ more.length := by
  have hopen' : s.IsOpenFor (route s.around.catalog x) n :=
    hmean.catalog ▸ hmean.desks _ n hopen
  have hgo : s.run (resume w (g.left w)) = s.run (resume w (heldCourier n (x :: more) since)) := by
    rw [hleft]
  have hresume : Leads (· = s) (resume w (heldCourier n (x :: more) since)) _ :=
    leads_resume_held hmean.isStopped (hmean.isLogged.trans hlogged) hopen' hmean.slot
  obtain ⟨t, hput, hbrought, hwent⟩ := hresume s rfl
  rw [← hgo] at hwent
  exact ⟨hwent.cons hput hbrought, hwent.length_le⟩

theorem comes_of_went (hlogged : g.before.alarm.isLogged = true)
    (h : Went w since l g.before (g.after w) (g.left w)) (hwaits : g.Waits w (Meanwhile w) later) :
    g.Comes w since l later := by
  induction later generalizing g l with
  | nil =>
    refine ⟨Nat.zero_le _, fun hbusy => ?_, fun hidle x hx hsoon => ?_, fun hidle => ?_⟩
    · obtain ⟨n, hheld⟩ : ∃ n, (g.left w).heldAt = some n := by
        rw [← Option.isSome_iff_exists, ← Option.not_isNone]
        simpa [last, Courier.isIdle] using hbusy
      obtain ⟨-, -, -, -, -, -, -, -, hline⟩ := h.held hheld
      exact ⟨n, hheld, hline⟩
    · exact ⟨g, List.mem_singleton_self g, (h.idle hidle).2 x hx hsoon⟩
    · simp only [row, List.flatMap_singleton, last]
      exact alarms_of_carries (h.idle hidle).1
  | cons s later ih =>
    -- The next go takes up what this one has left, and no time has been set back in between.
    obtain ⟨⟨n, hheld, hmean⟩, hrest⟩ := hwaits
    obtain ⟨done, x, more, hleft, rfl, hcarries, hdone, hopen, hline⟩ := h.held hheld
    have hlogged' : (g.after w).alarm.isLogged = true := hcarries.isLogged.trans hlogged
    obtain ⟨hwent, hfewer⟩ := went_next hleft hopen hlogged' hmean
    have hcomes : (g.next w s).Comes w since (x :: more) later :=
      ih (hmean.isLogged.trans hlogged') hwent hrest
    have hsettings : s.settings = g.before.settings := hmean.settings.trans hcarries.settings
    refine ⟨?_, hcomes.waits, fun hidle y hy hsoon => ?_, fun hidle => ?_⟩
    · rw [hleft, heldCourier, List.length_map]
      exact Nat.succ_le_succ (Nat.le_trans hcomes.few hfewer)
    · rcases List.mem_append.mp hy with hy | hy
      · exact ⟨g, List.mem_cons_self, hdone y hy hsoon⟩
      · have hlater : isSoon s.now s.settings.wakeBefore y = true := by
          rw [hsettings]
          exact Dispatch.isSoon_mono (hcarries.now ▸ hmean.now) hsoon
        obtain ⟨go, hgo, hbrought⟩ := hcomes.brought hidle y hy hlater
        exact ⟨go, List.mem_cons_of_mem g hgo, hbrought⟩
    · have halarms := hcomes.alarms hidle
      change _ = (alarmAfter _ since s.settings.wakeBefore).toList at halarms
      rw [hsettings] at halarms
      rw [row, List.flatMap_cons, alarms_of_carries hcarries, List.nil_append, halarms]
      rfl

end Go

/-! ## Every round -/

theorem mem_waitingList {x : Schedule} : x ∈ s.waitingList ↔
    x ∈ s.store.schedules ∧ x.isNotStarted = true ∧ s.now < x.ends := by
  unfold waitingList Store.available
  simp only [List.mem_filter, Bool.and_eq_true, decide_eq_true_eq]
  constructor
  · rintro ⟨⟨hx, -, hends⟩, hwaits⟩
    exact ⟨hx, hwaits, hends⟩
  · rintro ⟨hx, hwaits, hends⟩
    exact ⟨⟨hx, Store.isPending_of_isNotStarted hwaits, hends⟩, hwaits⟩

/-- A round waits no more often than it has schedules to offer, and only in line at a full mailbox.
When it is over, whatever waited and starts by `now + wakeBefore` has come to the desk of its
input. For what starts later the alarm has been set, once, to the first of these starts less
`wakeBefore`. All this holds of the exact numbers. -/
theorem round_offers_or_sets_alarm (w : Worker) (s : Station) (later : List Station)
    (hwake : 0 ≤ s.settings.wakeBefore) (hgoes : s.control.isStopped = false)
    (hlogged : s.alarm.isLogged = true) (hwaits : (Go.round s).Waits w (Meanwhile w) later) :
    let last := (Go.round s).last w later
    let alarms := ((Go.round s).row w later).flatMap (·.alarms w)
    let wake := s.settings.wakeBefore
    later.length ≤ s.waitingList.length ∧
    ((last.left w).isIdle = false →
      ∃ n, (last.left w).heldAt = some n ∧ (last.after w).InLine n w) ∧
    ((last.left w).isIdle = true →
      (∀ x ∈ s.store.schedules, x.isNotStarted = true → s.now < x.ends →
        x.starts.toInt ≤ s.now.toInt + wake.toInt →
          ∃ go ∈ (Go.round s).row w later, Brought x go.before (go.after w)) ∧
      (∀ x ∈ last.before.store.schedules, Dispatch.StartsLater s.now wake x →
        ∃ t, alarms = [t] ∧ s.now < t ∧ t.toInt ≤ x.starts.toInt - wake.toInt ∧
          ∃ y ∈ last.before.store.schedules,
            Dispatch.AlarmIsFor last.before.store s.now wake t y) ∧
      ((∀ x ∈ last.before.store.schedules, ¬ Dispatch.StartsLater s.now wake x) →
        alarms = [])) := by
  intro last alarms wake
  have hwent : Went w s.now s.waitingList s ((Go.round s).after w) ((Go.round s).left w) :=
    leads_carry_round hgoes hlogged w s rfl
  have hcomes : (Go.round s).Comes w s.now s.waitingList later :=
    Go.comes_of_went hlogged hwent hwaits
  refine ⟨Nat.le_trans hcomes.few hwent.length_le, hcomes.waits, fun hidle => ⟨?_, ?_, ?_⟩⟩
  · intro x hx hnew hends hstarts
    apply hcomes.brought hidle x (mem_waitingList.mpr ⟨hx, hnew, hends⟩)
    exact Bool.and_eq_true_iff.mpr ⟨hnew, (Dispatch.startsWithin_iff hwake).mpr hstarts⟩
  · intro x hx hlater
    obtain ⟨t, ht, y, hy, hfor⟩ := Dispatch.exists_alarmAfter hwake hx hlater
    refine ⟨t, ?_, hfor.lt, hfor.le hx hlater, y, hy, hfor⟩
    exact (hcomes.alarms hidle).trans (congrArg Option.toList ht)
  · intro hnone
    exact (hcomes.alarms hidle).trans
      (congrArg Option.toList (Dispatch.alarmAfter_eq_none hwake hnone))

/-- The mailbox of one of two desks is full. The first of two schedules that start soon has to wait
there, until the desk has taken its message. A third schedule is left to the alarm. -/
theorem round_offers_or_sets_alarm_waiting :
    let inputs := (Catalog.putInput {} ⟨"tuner", 1, true⟩).putInput ⟨"other", 1, true⟩
    let catalog := (inputs.putChannel ⟨7, "tuner", "Seven", none⟩).putChannel
      ⟨8, "other", "Eight", none⟩
    let soon : Schedule := .timed 1 7 100 200 0
    let also : Schedule := .timed 2 8 110 200 0
    let late : Schedule := .timed 3 7 500 600 0
    let desk : Desk :=
      { admission := { inputId := "tuner", lead := 0 }
        mailbox := { capacity := 1, queue := [.rebuild] }
        isSpawned := true }
    let s : Station :=
      { settings := { wakeBefore := 50 }, epoch := 60, around := { catalog }
        store := { live := ((Std.TreeMap.empty.insert 1 soon).insert 2 also).insert 3 late }
        desks := Std.TreeMap.empty.insert 1 desk
        control := { desks := Std.TreeMap.empty.insert "tuner" 1 } }
    let first := Go.round s
    let next := ((first.after .client).run (takeMessage 1)).2
    let last := first.last .client [next]
    first.Waits .client (Meanwhile .client) [next] ∧ (last.left .client).isIdle = true ∧
      (∃ go ∈ first.row .client [next], Brought soon go.before (go.after .client)) ∧
      (∃ go ∈ first.row .client [next], Brought also go.before (go.after .client)) ∧
      ∃ t, (first.row .client [next]).flatMap (·.alarms .client) = [t] ∧ s.now < t ∧
        t.toInt ≤ late.starts.toInt - 50 := by
  intro inputs catalog soon also late desk s first next last
  have hnamed : (first.after .client).control.desks.toList = [("tuner", 1)] := by decide +kernel
  have hheld : (first.left .client).heldAt = some 1 := by decide +kernel
  have hcatalog (st : Station) :
      (st.run (takeMessage 1)).2.around.catalog = st.around.catalog :=
    congrArg Traffic.catalog (run_takeMessage st 1)
  have hmean : Meanwhile .client 1 (first.after .client) next := by
    refine ⟨by decide +kernel, ?_, by decide +kernel, by decide +kernel, by decide +kernel, ?_,
      by decide +kernel⟩
    · simp only [next, hcatalog]
    · rintro input k ⟨hreg, -⟩
      rw [← Std.TreeMap.mem_toList_iff_getElem?_eq_some, hnamed, List.mem_singleton] at hreg
      obtain ⟨rfl, rfl⟩ := Prod.mk.inj hreg
      exact ⟨by decide +kernel, by decide +kernel⟩
  have hwaits : first.Waits .client (Meanwhile .client) [next] := ⟨⟨1, hheld, hmean⟩, trivial⟩
  have hidle : (last.left .client).isIdle = true := by decide +kernel
  obtain ⟨-, -, hdone⟩ := round_offers_or_sets_alarm .client s [next] (by decide) rfl rfl hwaits
  obtain ⟨hoffers, halarm, -⟩ := hdone hidle
  have hsoon := hoffers soon (by decide +kernel) (by decide) (by decide) (by decide)
  have halso := hoffers also (by decide +kernel) (by decide) (by decide) (by decide)
  obtain ⟨t, hset, hnow, hle, -⟩ := halarm late (by decide +kernel) (by decide)
  exact ⟨hwaits, hidle, hsoon, halso, t, hset, hnow, hle⟩

/-! ## The round of a client -/

/-- Meanwhile the workers run, until the client has its slot. -/
def ClientWaits (n : Nat) (s next : Station) : Prop :=
  next = (s.run (waitUntil fun s => s.isGranted n .client || s.isClosed n)).2

theorem row_of_carryWithin (bound : Nat) (g : Go) :
    ∃ later, g.Waits .client ClientWaits later ∧
      (((g.last .client later).left .client).isIdle = true ∧
          (g.before.run (carryWithin g.courier bound)).2 = (g.last .client later).after .client ∨
        later.length = bound) := by
  induction bound generalizing g with
  | zero => exact ⟨[], trivial, Or.inr rfl⟩
  | succ bound ih =>
    rw [carryWithin, run_bind]
    cases hheld : (g.before.run (resume .client g.courier)).1.heldAt with
    | none =>
      exact ⟨[], trivial, Or.inl ⟨by simp [Go.last, Go.left, Courier.isIdle, hheld], rfl⟩⟩
    | some n =>
      obtain ⟨later, hwaits, hend⟩ := ih (g.next .client ((g.after .client).run
        (waitUntil fun s => s.isGranted n .client || s.isClosed n)).2)
      refine ⟨_ :: later, ⟨⟨n, hheld, rfl⟩, hwaits⟩, hend.imp_right fun hlength => ?_⟩
      rw [List.length_cons, hlength]

/-- The round of a client is such a row of goes, unless the client runs out of patience. -/
theorem row_of_makeRound (s : Station) :
    ∃ later, (Go.round s).Waits .client ClientWaits later ∧
      ((((Go.round s).last .client later).left .client).isIdle = true ∧
          (s.run makeRound).2 = ((Go.round s).last .client later).after .client ∨
        later.length = patience) :=
  row_of_carryWithin patience (Go.round s)

end Station

end Timeshift
