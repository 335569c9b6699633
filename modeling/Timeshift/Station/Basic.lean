import Std.Data.TreeMap
import Timeshift.Admission.Pass
import Timeshift.Broadcast
import Timeshift.Dispatch
import Timeshift.Docket.Query
import Timeshift.Expansion.Engine
import Timeshift.Mailbox
import Timeshift.Recording.Take
import Timeshift.Settings
import Timeshift.Station.Agenda

/-!
# The station

A station holds the store, the docket, the desks of the inputs, the recordings and the series
engines, and the clock that all of them read. They run by turns, one at a time. A turn ends when
its worker has to wait for a message, for an event, for a slot in a mailbox, or for a time.
-/

namespace Timeshift

/-! ## Desks and takes -/

/-- What a desk waits for, besides messages. -/
inductive DeskRest where
  | nothing
  | sleeping (due : Nat)
  /-- A pass is due as soon as nobody else can run. -/
  | aside
  deriving DecidableEq

def DeskRest.isOver (rest : DeskRest) (elapsed : Nat) : Bool :=
  match rest with
  | .nothing => false
  | .sleeping due => due ≤ elapsed
  | .aside => true

structure Desk where
  admission : Admission
  mailbox : Mailbox Worker Admission.Message
  /-- The takes of the recordings on the books, by their numbers there. -/
  takes : Std.TreeMap Nat Nat := ∅
  rest : DeskRest := .nothing
  isSpawned : Bool := false
  isCancelled : Bool := false
  hasEnded : Bool := false

structure TakeRun where
  desk : Nat
  /-- The number of the recording on the books of the desk. -/
  seq : Nat
  take : Take
  isStarted : Bool := false
  /-- When the take is given up, because it was told to stop and has not ended. -/
  deadline : Option Nat := none
  /-- How the take has ended, while the desk does not know it yet. -/
  outcome : Option Outcome := none
  hasEnded : Bool := false

/-! ## Dispatch -/

/-- A round through the schedules that start soon. The parcels are delivered one by one, and
the carrier may have to wait for a slot in a mailbox. -/
structure Courier where
  parcels : List Parcel := []
  /-- The desk at which the first parcel waits for a slot. -/
  heldAt : Option Nat := none
  /-- A round follows when these parcels are delivered. -/
  roundDue : Bool := false
  /-- When the round began that has to set the alarm at its end. -/
  alarmSince : Option Instant := none

def Courier.isIdle (c : Courier) : Bool := c.heldAt.isNone

inductive ControlState where
  | waiting
  | running
  | ended
  deriving DecidableEq

/-- Follows the store, and knows the desks. -/
structure Control where
  state : ControlState := .waiting
  courier : Courier := {}
  /-- The reports that have not been written to the store. -/
  reports : List Report := []
  listener : Nat := 0
  /-- The desk that was opened last for each input. -/
  desks : Std.TreeMap InputId Nat := ∅
  isStarted : Bool := false
  isStopped : Bool := false

structure Alarm where
  /-- Every setting of the alarm is written down. -/
  isLogged : Bool := true
  ticks : Bool := false
  pending : Option Nat := none
  /-- How often the alarm has gone off unheard. -/
  unheard : Nat := 0
  isWatched : Bool := false
  watcherEnded : Bool := false
  courier : Courier := {}

structure Sleeper where
  delay : Nat
  due : Option Nat := none
  isAborted : Bool := false
  hasFired : Bool := false

/-! ## Listeners -/

structure Follower where
  listener : Nat
  /-- The follower stops when the station shuts down. -/
  isOwned : Bool
  isCancelled : Bool := false
  hasEnded : Bool := false

structure EngineListener where
  engine : Nat
  listener : Nat
  isCancelled : Bool := false
  hasEnded : Bool := false

inductive JobKind where
  | update (id : Nat) (rules : List SeriesRule)
  | fetchInfo (rule : SeriesRule)
  | expand (rule : SeriesRule)

/-- The job tries a rule, and belongs to no era. -/
def JobKind.isTrial : JobKind → Bool
  | .expand _ => true
  | _ => false

/-- What a search has found, with the filter that was set up for it. -/
structure Found where
  filter : CandidateFilter
  programs : Except Fault (List Program)

structure Job where
  engine : Nat
  era : Nat
  kind : JobKind
  isCancelled : Bool := false
  /-- The result of the search, while the gate holds it back. -/
  held : Option Found := none
  isReleased : Bool := false
  hasEnded : Bool := false

def Job.isUpdate (j : Job) (e id : Nat) : Bool :=
  match j.kind with
  | .update other _ => j.engine == e && other == id
  | _ => false

/-! ## The station -/

/-- What is decided elsewhere, as far as the station can see it. -/
structure Surroundings where
  catalog : Catalog := {}
  /-- The order of the searches in a store that is new. -/
  listings : Nat → Listing := fun _ => .byAge
  manner : Manner := .manual
  manners : Std.TreeMap ScheduleId Manner := ∅
  searchFails : Bool := false
  infoFails : Bool := false
  /-- A closed gate holds back the results of searches. -/
  gateIsOpen : Bool := true
  gateQueue : List Nat := []

/-- The manner of a recording of the schedule that begins now. -/
def Surroundings.mannerOf (a : Surroundings) (id : ScheduleId) : Manner :=
  (a.manners[id]?).getD a.manner

structure Station where
  settings : Settings := {}
  /-- The clock shows this instant and what has elapsed since. -/
  epoch : Instant := 0
  elapsed : Nat := 0
  agenda : Agenda := {}
  around : Surroundings := {}
  store : Store := {}
  storeEvents : Broadcast StoreEvent := .empty 256
  /-- The workers that wait for an event of the store, in the order they began to. -/
  listening : List Worker := []
  docket : Docket := {}
  docketEvents : Broadcast DocketEvent := .empty 256
  followers : Std.TreeMap Nat Follower := ∅
  desks : Std.TreeMap Nat Desk := ∅
  takes : Std.TreeMap Nat TakeRun := ∅
  control : Control := {}
  alarm : Alarm := {}
  sleepers : Std.TreeMap Nat Sleeper := ∅
  engines : Std.TreeMap Nat Engine := ∅
  engineListeners : Std.TreeMap Nat EngineListener := ∅
  jobs : Std.TreeMap Nat Job := ∅
  isShuttingDown : Bool := false
  /-- The views that desks have shown on request. -/
  replies : Std.TreeMap Nat Admission.View := ∅
  nextAsker : Nat := 0
  /-- What takes have written down since it was read last. -/
  takeNotes : List (ScheduleId × TakeNote) := []
  /-- What the alarm was set to since it was read last. -/
  alarmNotes : List Instant := []
  /-- What trials of rules have found since it was read last. -/
  trials : List (List Program) := []

namespace Station

instance : Inhabited Station := ⟨{}⟩

abbrev Act := StateM Station

/-- The bound on the number of turns in one go. -/
def patience : Nat := 1000000

/-- The number of the next thing in a table. -/
def fresh {α : Type} (table : Std.TreeMap Nat α) : Nat :=
  table.keys.foldl (fun n k => max n (k + 1)) 1

/-! ## Clock and turns -/

def now (s : Station) : Instant := s.epoch + Int64.ofNat s.elapsed

/-- The milliseconds from now until `t`, and none if that is past. -/
def untilInstant (s : Station) (t : Instant) : Nat := (boundedSub t s.now).toInt.toNat

def wake (w : Worker) : Act Unit := modify fun s => { s with agenda := s.agenda.wake w }

def wakeAll (l : List Worker) : Act Unit := l.forM wake

def sleepUntil (w : Worker) (due : Nat) : Act Unit :=
  modify fun s => { s with agenda := s.agenda.sleep w due }

def rouse (w : Worker) : Act Unit := modify fun s => { s with agenda := s.agenda.rouse w }

def stepAside (w : Worker) : Act Unit := modify fun s => { s with agenda := s.agenda.stepAside w }

/-! ## The store and its listeners -/

def listen (w : Worker) : Act Unit :=
  modify fun s => { s with listening := s.listening.erase w ++ [w] }

def stopListening (w : Worker) : Act Unit :=
  modify fun s => { s with listening := s.listening.erase w }

/-- Tells the listeners what is new in the journal of the store. -/
def tellEvents : Act Unit := do
  let s ← get
  unless s.store.journal.isEmpty do
    set { s with
      storeEvents := s.store.journal.foldl (·.publish ·) s.storeEvents
      store := s.store.passOn
      listening := [] }
    wakeAll s.listening

/-- Does something with the store, and tells the listeners of it. -/
def withStore {α : Type} (op : Store.Op α) : Act (Except Fault α) := do
  let (result, store) := (← get).store.run op
  modify ({ · with store })
  tellEvents
  return result

def receive (listener : Nat) : Act (Received StoreEvent) := do
  let (found, storeEvents) := (← get).storeEvents.receive listener
  modify ({ · with storeEvents })
  return found

def subscribe : Act Nat := do
  let (listener, storeEvents) := (← get).storeEvents.subscribe
  modify ({ · with storeEvents })
  return listener

def leave (listener : Nat) : Act Unit :=
  modify fun s => { s with storeEvents := s.storeEvents.leave listener }

/-! ## The docket -/

/-- Takes over a step of the docket, and tells its listeners. -/
def withDocket (step : Catalog → List Schedule → Docket → Docket.Step) : Act Unit :=
  modify fun s =>
    let (docket, events) := step s.around.catalog s.store.schedules s.docket
    { s with docket, docketEvents := events.foldl (·.publish ·) s.docketEvents }

end Station

end Timeshift
