import Std.Data.TreeMap

/-!
# Broadcasts

Events for any number of listeners. A broadcast keeps its last events, as many as its capacity
rounded up to a power of two. A listener that is further behind is told how many events it has
missed, and goes on with the oldest one that is kept.
-/

namespace Timeshift

structure Broadcast (α : Type) where
  capacity : Nat
  /-- How many events have been published so far. -/
  count : Nat := 0
  /-- The events that are kept, the oldest first. -/
  kept : List α := []
  /-- For each listener the number of events that lie behind it. -/
  listeners : Std.TreeMap Nat Nat := ∅
  nextListener : Nat := 0

inductive Received (α : Type) where
  | event (e : α)
  | missed (n : Nat)
  | nothing
  | gone
  deriving DecidableEq, Repr

namespace Broadcast

variable {α : Type}

def empty (capacity : Nat) : Broadcast α := { capacity := capacity.nextPowerOfTwo }

instance : Inhabited (Broadcast α) := ⟨empty 256⟩

/-- A new listener, which hears all events from now on. -/
def subscribe (b : Broadcast α) : Nat × Broadcast α :=
  (b.nextListener,
    { b with
      listeners := b.listeners.insert b.nextListener b.count
      nextListener := b.nextListener + 1 })

def leave (b : Broadcast α) (listener : Nat) : Broadcast α :=
  { b with listeners := b.listeners.erase listener }

def listenerCount (b : Broadcast α) : Nat := b.listeners.size

/-- Publishes an event. An event that nobody listens to is not kept. -/
def publish (b : Broadcast α) (e : α) : Broadcast α :=
  if b.listeners.isEmpty then b
  else
    let kept := b.kept ++ [e]
    { b with count := b.count + 1, kept := kept.drop (kept.length - b.capacity) }

def forgotten (b : Broadcast α) : Nat := b.count - b.kept.length

/-- What a listener finds next. -/
def receive (b : Broadcast α) (listener : Nat) : Received α × Broadcast α :=
  match b.listeners[listener]? with
  | none => (.gone, b)
  | some heard =>
    if heard < b.forgotten then
      (.missed (b.forgotten - heard),
        { b with listeners := b.listeners.insert listener b.forgotten })
    else
      match b.kept[heard - b.forgotten]? with
      | none => (.nothing, b)
      | some e => (.event e, { b with listeners := b.listeners.insert listener (heard + 1) })

/-- Takes a listener to the end of what is kept. -/
def catchUp (b : Broadcast α) (listener : Nat) : Broadcast α :=
  { b with listeners := b.listeners.insert listener b.count }

/-- Everything that a listener finds until there is nothing more. -/
def receiveAll (b : Broadcast α) (listener : Nat) : List (Received α) × Broadcast α :=
  let (first, b) := b.receive listener
  match first with
  | .nothing | .gone => ([], b)
  | .missed _ => (first :: (b.kept.map .event), b.catchUp listener)
  | .event _ =>
    let rest := b.kept.drop ((b.listeners[listener]?).getD b.count - b.forgotten)
    (first :: rest.map .event, b.catchUp listener)

theorem length_kept_publish {b : Broadcast α} (h : b.kept.length ≤ b.capacity) (e : α) :
    (b.publish e).kept.length ≤ (b.publish e).capacity := by
  unfold publish
  split
  · exact h
  · simp
    omega

end Broadcast

end Timeshift
