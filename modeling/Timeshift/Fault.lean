/-!
# What can go wrong

Every operation that can be refused answers with a fault. A fault names its cause, and
`Fault.message` is the text that a user gets to read.
-/

namespace Timeshift

/-- Why a message did not reach the mailbox of an input. -/
inductive PostFault where
  | stopped
  | full
  | timedOut
  deriving DecidableEq, Repr

def PostFault.message : PostFault → String
  | .stopped => "input scheduler has stopped"
  | .full => "input scheduler mailbox is full"
  | .timedOut => "timed out waiting for input scheduler mailbox space"

inductive Fault where
  /-- The archive did not take a write. -/
  | storage (detail : String)
  | transition (before after : String)
  | notFound (thing id : String)
  | invalid (detail : String)
  | settings (detail : String)
  | unreachable (cause : PostFault)
  | outside (detail : String)
  /-- The caller has broken a rule that all callers keep. A build with debug assertions stops there,
  and so does everything here. A release build writes a line to its log and goes on. -/
  | misuse (detail : String)
  deriving DecidableEq, Repr

namespace Fault

def message : Fault → String
  | storage detail => "Storage error: " ++ detail
  | transition before after =>
    "Invalid state transition: cannot transition from " ++ before ++ " to " ++ after
  | notFound thing id => "Entity not found: " ++ thing ++ " with id " ++ id
  | invalid detail => "Validation error: " ++ detail
  | settings detail => "Configuration error: " ++ detail
  | unreachable cause => "Actor unavailable: " ++ cause.message
  | outside detail => detail
  | misuse detail => detail

def writeRefused : Fault := storage "repository rejected the write"

def notLoaded : Fault := invalid "schedules are not loaded yet"

end Fault

end Timeshift
