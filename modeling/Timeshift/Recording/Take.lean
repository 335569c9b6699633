import Timeshift.Channel
import Timeshift.Recording.Basic

/-!
# Takes

A take is one attempt to record a schedule. Orders reach it through a queue of its own, and an
order that finds the queue full is lost. How a take reacts depends on its manner. What happens
to it is written down in notes.
-/

namespace Timeshift

/-- How a recording reacts to orders, and when it ends by itself. -/
inductive Manner where
  | manual
  /-- Obeys stop and cancel. -/
  | obedient
  /-- Obeys stop and cancel, and ends when the schedule ends. -/
  | untilEnd
  /-- Ends at once, and has everything. -/
  | instant
  /-- Ends at once, and misses a part. -/
  | clip
  /-- Fails at once. -/
  | fail
  /-- Reads no order until it is called off. -/
  | deaf
  /-- Waits for the signal to stop, and then looks at one order. -/
  | signal
  deriving DecidableEq, Repr, Inhabited

/-- What is written down about a take. -/
inductive TakeNote where
  | started (channel : ChannelId) (s : Schedule)
  | told (order : Order)
  /-- A request to stop had come in before the end. -/
  | stopRequested
  | ended (state : RecordingState)
  deriving DecidableEq

structure Take where
  /-- The latest copy of the schedule that the take has read. -/
  schedule : Schedule
  channel : Channel
  manner : Manner
  orders : List Order := []
  /-- A stop or a cancel was ordered, whether it has been read or not. -/
  stopSignal : Bool := false
  isAbandoned : Bool := false
  /-- The take was called off with this outcome. -/
  called : Option Outcome := none

/-- What a take has written down, and its outcome if it is over. -/
abbrev Take.Progress := List TakeNote × Take × Option Outcome

namespace Take

def queueCapacity : Nat := 16

def tell (t : Take) (order : Order) : Take :=
  let t :=
    if t.orders.length < queueCapacity && !t.isAbandoned then
      { t with orders := t.orders ++ [order] }
    else t
  match order with
  | .update _ => t
  | .stop | .cancel => { t with stopSignal := true }

def finish (notes : List TakeNote) (t : Take) (outcome : Outcome) : Progress :=
  (notes ++ [.ended outcome.state], t, some outcome)

def outcomeOf : Order → Option Outcome
  | .update _ => none
  | .stop => some .clipped
  | .cancel => some .canceled

/-- Reads orders and writes them down, up to one that ends an obedient take. -/
def readOrders (obeys : Bool) (t : Take) : List Order → Progress
  | [] => ([], { t with orders := [] }, none)
  | order :: rest =>
    let t := match order with
      | .update s => { t with schedule := s }
      | _ => t
    match if obeys then outcomeOf order else none with
    | some outcome => finish [.told order] { t with orders := rest } outcome
    | none =>
      let (notes, t, outcome) := t.readOrders obeys rest
      (.told order :: notes, t, outcome)

/-- Reads all orders, and then looks whether there is a reason to end. -/
def attend (obeys stopsAtEnd : Bool) (now : Instant) (t : Take) : Progress :=
  match t.readOrders obeys t.orders with
  | (notes, t, some outcome) => (notes, t, some outcome)
  | (notes, t, none) =>
    match t.called with
    | some outcome => finish notes t outcome
    | none =>
      if t.isAbandoned then finish notes t (.failed "no more orders")
      else if stopsAtEnd && t.schedule.ends ≤ now then finish notes t .finished
      else (notes, t, none)

/-- Ends with all unread orders written down, if the take was called off. -/
def attendCall (t : Take) : Progress :=
  match t.called with
  | none => ([], t, none)
  | some outcome =>
    let request := if t.stopSignal then [.stopRequested] else []
    finish (request ++ t.orders.map .told) { t with orders := [] } outcome

/-- Ends at the signal to stop. The first unread order tells how. -/
def attendSignal (t : Take) : Progress :=
  if t.stopSignal then
    finish [] t (if t.orders.head? = some .cancel then .canceled else .clipped)
  else ([], t, none)

/-- Lets a take react to what has happened. -/
def advance (now : Instant) (t : Take) : Progress :=
  match t.manner with
  | .manual => t.attend false false now
  | .obedient => t.attend true false now
  | .untilEnd => t.attend true true now
  | .instant => finish [] t .finished
  | .clip => finish [] t .clipped
  | .fail => finish [] t (.failed "no signal")
  | .deaf => t.attendCall
  | .signal => t.attendSignal

/-- The instant at which the take wants to look at the clock again. -/
def looksAt (t : Take) : Option Instant :=
  match t.manner with
  | .untilEnd => some t.schedule.ends
  | _ => none

end Take

end Timeshift
