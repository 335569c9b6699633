import Timeshift.Schedule.Basic
import Timeshift.Sort

/-!
# Conflicts

Which schedules will not be recorded, for a number of tuners. The schedules that compete are
scanned by their end. Each one that has not lost yet meets all later ones that start before it
ends: this is the group that runs at its last instant. Of the group, the best of every channel
stays, and of these the best stay, as many as there are tuners. The others lose.

The answer lists the losers by rank, so the schedule that is least likely to be recorded comes
first.
-/

namespace Timeshift

/-- A schedule in the scan, with its place in the order of ends. -/
structure Contender where
  place : Nat
  schedule : Schedule
  deriving DecidableEq, Repr

namespace Conflict

/-! ## One group -/

def bestFirst (group : List Contender) : List Contender :=
  sortBy (fun a b => b.schedule.rankLE a.schedule) group

/-- Splits a group into the first schedule of each channel and the others. The channels in
`taken` have had their first one. -/
def firstOfChannels (taken : List ChannelId) :
    List Contender → List Contender × List Contender
  | [] => ([], [])
  | c :: cs =>
    if c.schedule.channelId ∈ taken then
      let (first, doubled) := firstOfChannels taken cs
      (first, c :: doubled)
    else
      let (first, doubled) := firstOfChannels (c.schedule.channelId :: taken) cs
      (c :: first, doubled)

def losers (tuners : Nat) (group : List Contender) : List Contender :=
  let (first, doubled) := firstOfChannels [] (bestFirst group)
  doubled ++ first.drop tuners

/-! ## The scan -/

/-- The contenders that run at the last instant of `c`: itself and the later ones that start
before it ends, without those that have lost. -/
def groupAt (lost : List Nat) (c : Contender) (later : List Contender) : List Contender :=
  c :: later.filter fun d => d.place ∉ lost && d.schedule.starts < c.schedule.ends

/-- The places of all that lose. The ones in `lost` have lost before the scan comes here. -/
def scan (tuners : Nat) (lost : List Nat) : List Contender → List Nat
  | [] => lost
  | c :: later =>
    if c.place ∈ lost then scan tuners lost later
    else scan tuners ((losers tuners (groupAt lost c later)).map (·.place) ++ lost) later

/-- The schedules that compete: those with some length that overlap one of the windows. -/
def competing (schedules : List Schedule) (windows : List TimeRange) : List Schedule :=
  schedules.filter fun s => s.starts < s.ends && windows.any s.overlaps

/-- The schedules with their places, by end. -/
def contenders (schedules : List Schedule) : List Contender :=
  (sortBy Schedule.endLE schedules).zipIdx.map fun (s, n) => ⟨n, s⟩

/-! ## The answer -/

/-- The id of the entries that stand for live viewing and tuning. No answer lists them. -/
def reservedId : ScheduleId := Int64.minValue

/-- The schedules that will not be recorded, where only those that overlap one of the windows
compete. -/
def within (windows : List TimeRange) (tuners : Nat) (schedules : List Schedule) :
    List Schedule :=
  let field := contenders (competing schedules windows)
  let lost := scan tuners [] field
  sortBy Schedule.rankLE
    ((field.filter fun c => c.place ∈ lost && c.schedule.id ≠ reservedId).map (·.schedule))

/-- The schedules that will not be recorded. -/
def among (tuners : Nat) (schedules : List Schedule) : List Schedule :=
  within [TimeRange.all] tuners schedules

/-! ## Conflicts of a plan -/

/-- The conflicts around `added` if they joined `current`. A current schedule of the same
recording gives way to the added one. -/
def ifAdded (added current : List Schedule) (tuners : Nat) : List Schedule :=
  let others := current.filter fun s => !added.any (·.sameRecording s)
  within (added.map (·.range)) tuners (others ++ added)

/-- An entry that stands for live viewing. -/
def liveEntry (inputId : InputId) (channelId : ChannelId) (range : TimeRange)
    (priority : Priority) : Schedule :=
  { Schedule.ofRange inputId channelId range with id := reservedId, priority := priority }

/-- The conflicts if a channel is watched from `now` on, without end. The schedules of this
channel share the tuner of the viewer, and the others compete with the viewer. -/
def ifWatching (inputId : InputId) (channelId : ChannelId) (now : Instant) (priority : Priority)
    (schedules : List Schedule) (tuners : Nat) : List Schedule :=
  let (same, others) := schedules.partition (·.channelId == channelId)
  let viewer := liveEntry inputId channelId ⟨now, Instant.last⟩ priority
  sortBy Schedule.rankLE (among 1 same ++ among tuners (others ++ [viewer]))

/-- The conflicts among running recordings if a channel is tuned now. A channel that is being
recorded takes no further tuner. -/
def ifTuned (inputId : InputId) (channelId : ChannelId) (now : Instant) (priority : Priority)
    (running : List Schedule) (tuners : Nat) : List Schedule :=
  if running.any (·.channelId == channelId) then among tuners running
  else
    let viewer := liveEntry inputId channelId ⟨now, boundedAdd now 1⟩ priority
    among tuners (running ++ [viewer])

end Conflict

end Timeshift
