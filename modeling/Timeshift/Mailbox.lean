/-!
# Mailboxes

A mailbox holds messages, up to its capacity, and hands them out in the order they came. A
sender that finds it full can wait in line. Each message taken out frees a slot, and the slot
goes to the first sender in line: it is kept for this sender, and nobody else can use it.
-/

namespace Timeshift

structure Mailbox (σ μ : Type) where
  capacity : Nat
  /-- The messages, the oldest first. -/
  queue : List μ := []
  line : List σ := []
  granted : List σ := []
  /-- Nobody reads the messages any more. -/
  isClosed : Bool := false

namespace Mailbox

variable {σ μ : Type}

/-- An empty mailbox. It holds one message at least. -/
def empty (capacity : Nat) : Mailbox σ μ := { capacity := max capacity 1 }

def isFull (m : Mailbox σ μ) : Bool := m.capacity ≤ m.queue.length + m.granted.length

def put (m : Mailbox σ μ) (message : μ) : Mailbox σ μ :=
  { m with queue := m.queue ++ [message] }

def join (m : Mailbox σ μ) (sender : σ) : Mailbox σ μ :=
  { m with line := m.line ++ [sender] }

def isGranted [DecidableEq σ] (m : Mailbox σ μ) (sender : σ) : Bool := m.granted.contains sender

def putGranted [DecidableEq σ] (m : Mailbox σ μ) (sender : σ) (message : μ) :
    Mailbox σ μ :=
  { m with granted := m.granted.erase sender, queue := m.queue ++ [message] }

/-- Keeps one free slot for the first sender in line, and names it. -/
def grantNext (m : Mailbox σ μ) : Option σ × Mailbox σ μ :=
  match m.line with
  | [] => (none, m)
  | sender :: rest => (some sender, { m with line := rest, granted := m.granted ++ [sender] })

/-- Takes out the oldest message, and names the sender that gets its slot. -/
def take? (m : Mailbox σ μ) : Option (μ × Option σ × Mailbox σ μ) :=
  match m.queue with
  | [] => none
  | message :: rest => some (message, { m with queue := rest }.grantNext)

/-- A sender gives up. The slot that was kept for it goes to the next one, which is named. -/
def withdraw [DecidableEq σ] (m : Mailbox σ μ) (sender : σ) :
    Option σ × Mailbox σ μ :=
  if m.isGranted sender then { m with granted := m.granted.erase sender }.grantNext
  else (none, { m with line := m.line.erase sender })

/-- Closes the mailbox. Its messages are lost, and the senders in line have to go. -/
def close (m : Mailbox σ μ) : Mailbox σ μ :=
  { m with queue := [], line := [], granted := [], isClosed := true }

theorem take?_eq_none_iff {m : Mailbox σ μ} : m.take? = none ↔ m.queue = [] := by
  unfold take?
  split <;> simp_all

/-- A message that is put in comes out after all that were there before. -/
theorem queue_put (m : Mailbox σ μ) (message : μ) :
    (m.put message).queue = m.queue ++ [message] := rfl

end Mailbox

end Timeshift
