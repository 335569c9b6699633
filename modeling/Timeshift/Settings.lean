import Timeshift.Fault
import Timeshift.Text.Numeral

/-!
# Settings

Settings start from their defaults, and the variables of the environment override them one by
one. Numbers are read first, all of them, and only then the values are checked.
-/

namespace Timeshift

structure Settings where
  /-- How long before its start a recording may take a tuner, in milliseconds. -/
  earlyStart : Int64 := 3000
  /-- How long before a start the machine wakes up, in milliseconds. -/
  wakeBefore : Int64 := 60000
  /-- How many messages the mailbox of an input holds. -/
  mailboxCapacity : Nat := 256
  /-- How many events a listener may fall behind. -/
  eventCapacity : Nat := 256
  /-- How long a sender waits for room in a full mailbox, in milliseconds. -/
  sendTimeout : Nat := 100
  /-- How long a task may ignore that it was told to stop, in milliseconds. -/
  stopTimeout : Option Nat := none
  deriving DecidableEq, Repr, Inhabited

namespace Settings

/-- The first thing that is wrong with the settings. -/
def complaint? (s : Settings) : Option String :=
  if s.earlyStart < 0 then some "recording_early_start_offset_ms must not be negative"
  else if s.wakeBefore < 0 then some "wake_before_start_ms must not be negative"
  else if s.mailboxCapacity = 0 then some "mailbox_capacity must be greater than 0"
  else if s.eventCapacity = 0 then some "event_channel_capacity must be greater than 0"
  else none

/-- Settings that can be used, or what is wrong with them. -/
def check (s : Settings) : Except Fault Unit :=
  match s.complaint? with
  | some detail => .error (.settings detail)
  | none => .ok ()

/-! ## The environment -/

/-- A setting that a variable of the environment overrides. -/
structure Variable where
  name : String
  range : Text.NumeralRange
  assign : Int → Settings → Settings

/-- The variables, in the order they are read in. -/
def allVariables : List Variable :=
  [ { name := "DVR_RECORDING_EARLY_START_OFFSET_MS", range := .signed
      assign := fun n s => { s with earlyStart := .ofInt n } },
    { name := "DVR_WAKE_BEFORE_START_MS", range := .signed
      assign := fun n s => { s with wakeBefore := .ofInt n } },
    { name := "DVR_MAILBOX_CAPACITY", range := .unsigned
      assign := fun n s => { s with mailboxCapacity := n.toNat } },
    { name := "DVR_EVENT_CHANNEL_CAPACITY", range := .unsigned
      assign := fun n s => { s with eventCapacity := n.toNat } },
    { name := "DVR_SEND_TIMEOUT_MS", range := .unsigned
      assign := fun n s => { s with sendTimeout := n.toNat } },
    { name := "DVR_TASK_STOP_TIMEOUT_MS", range := .unsigned
      assign := fun n s => { s with stopTimeout := some n.toNat } } ]

/-- The settings with one variable read, if the environment has it. -/
def override (lookup : String → Option String) (s : Settings) (v : Variable) :
    Except Fault Settings :=
  match lookup v.name with
  | none => .ok s
  | some text =>
    match Text.numeral v.range text with
    | .ok n => .ok (v.assign n s)
    | .error e => .error (.settings ("invalid value for " ++ v.name ++ ": " ++ e.message))

/-- The settings that an environment asks for. -/
def ofEnvironment (lookup : String → Option String) : Except Fault Settings := do
  let s ← allVariables.foldlM (override lookup) {}
  s.check
  return s

end Settings

end Timeshift
