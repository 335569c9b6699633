/-!
# Channels and inputs

An input is a device with tuners. Every channel comes in over one input.
-/

namespace Timeshift

abbrev ChannelId := Int64

abbrev InputId := String

structure Channel where
  id : ChannelId
  inputId : InputId
  displayName : String
  displayNumber : Option String
  deriving DecidableEq, Repr, Inhabited

structure Input where
  id : InputId
  tunerCount : Nat
  canRecord : Bool
  deriving DecidableEq, Repr, Inhabited

/-- The tuners that may record right now: none while the input cannot record. -/
def Input.recordingTuners (i : Input) : Nat := if i.canRecord then i.tunerCount else 0

theorem Input.recordingTuners_le (i : Input) : i.recordingTuners ≤ i.tunerCount := by
  unfold recordingTuners
  split <;> simp

end Timeshift
