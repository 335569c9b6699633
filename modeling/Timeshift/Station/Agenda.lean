/-!
# Who runs next

Workers take turns. A worker that has been woken stands in a queue, once at most. A worker that
steps aside comes back when the queue is empty. A worker that sleeps is woken when its time has
come, and those with the same time are woken in the order they went to sleep.
-/

namespace Timeshift

/-- Everything that runs by turns. The numbers tell apart workers of one kind. -/
inductive Worker where
  | desk (n : Nat)
  | take (n : Nat)
  /-- The loop that follows the store and writes reports to it. -/
  | control
  | watcher
  | follower (n : Nat)
  | listener (n : Nat)
  | job (n : Nat)
  | sleeper (n : Nat)
  /-- Whoever uses the station from outside. -/
  | client
  deriving DecidableEq, Repr

structure Timer where
  due : Nat
  worker : Worker
  deriving DecidableEq, Repr

structure Agenda where
  /-- The workers that can run, the next one first. -/
  ready : List Worker := []
  aside : List Worker := []
  /-- The workers that sleep, by the time they are woken at. -/
  timers : List Timer := []
  deriving Repr, Inhabited

namespace Agenda

/-- Lets a worker run when its turn comes. -/
def wake (a : Agenda) (w : Worker) : Agenda :=
  if a.ready.contains w then a else { a with ready := a.ready ++ [w] }

/-- Lets a worker run when nobody else can. -/
def stepAside (a : Agenda) (w : Worker) : Agenda := { a with aside := a.aside ++ [w] }

def comeBack (a : Agenda) : Agenda := a.aside.foldl wake { a with aside := [] }

/-- Puts a timer behind all that are due no later. -/
def insertTimer (t : Timer) : List Timer → List Timer
  | [] => [t]
  | u :: rest => if u.due ≤ t.due then u :: insertTimer t rest else t :: u :: rest

def sleep (a : Agenda) (w : Worker) (due : Nat) : Agenda :=
  if a.timers.contains ⟨due, w⟩ then a else { a with timers := insertTimer ⟨due, w⟩ a.timers }

def rouse (a : Agenda) (w : Worker) : Agenda :=
  { a with timers := a.timers.filter (·.worker ≠ w) }

def nextDue? (a : Agenda) : Option Nat := a.timers.head?.map (·.due)

def wakeDue (a : Agenda) (elapsed : Nat) : Agenda :=
  let (due, later) := a.timers.partition (·.due ≤ elapsed)
  (due.map (·.worker)).foldl wake { a with timers := later }

theorem mem_ready_wake (a : Agenda) (w : Worker) : w ∈ (a.wake w).ready := by
  unfold wake
  split <;> simp_all

end Agenda

end Timeshift
