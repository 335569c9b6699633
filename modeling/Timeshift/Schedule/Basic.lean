import Timeshift.Priority
import Timeshift.Program
import Timeshift.Schedule.State
import Timeshift.Time.Calendar

/-!
# Schedules

A schedule stands for one recording: of a program of the guide, or of a stretch of time on a
channel. Schedules have three orders. By rank, the lowest priority comes first and an older
schedule ranks below a newer one of the same priority. By start, the higher priority comes
first among those that start together. By end, only the end counts.
-/

namespace Timeshift

abbrev ScheduleId := Int64

abbrev RuleId := Int64

structure Schedule where
  id : ScheduleId
  inputId : InputId
  channelId : ChannelId
  programId : Option ProgramId
  starts : Instant
  ends : Instant
  priority : Priority
  state : RecordingState
  ruleId : Option RuleId
  title : Option String
  episodeTitle : Option String
  season : Option String
  episode : Option String
  description : Option String
  poster : Option String
  thumbnail : Option String
  deriving DecidableEq, Repr, Inhabited

namespace Schedule

/-! ## New schedules -/

/-- Records a channel over a stretch of time. -/
def ofRange (inputId : InputId) (channelId : ChannelId) (range : TimeRange) : Schedule where
  id := unassigned
  inputId
  channelId
  programId := none
  starts := range.starts
  ends := range.ends
  priority := 0
  state := .notStarted
  ruleId := none
  title := none
  episodeTitle := none
  season := none
  episode := none
  description := none
  poster := none
  thumbnail := none

/-- Records a program of the guide. -/
def ofProgram (inputId : InputId) (p : Program) : Schedule :=
  { ofRange inputId p.channelId p.range with
    programId := some p.id
    title := p.title
    episodeTitle := p.episodeTitle
    season := p.season
    episode := p.episode
    description := p.description
    poster := p.poster
    thumbnail := p.thumbnail }

/-- Stands for a recording that has already been made. -/
def ofRecorded (r : RecordedProgram) : Schedule :=
  { ofRange r.inputId r.channelId ⟨r.starts, r.ends⟩ with
    programId := r.programId
    state := .finished
    title := r.title
    episodeTitle := r.episodeTitle
    season := r.season
    episode := r.episode }

/-! ## Questions about one schedule -/

inductive Kind where
  | program
  | timed
  deriving DecidableEq, Repr

def kind (s : Schedule) : Kind := if s.programId.isSome then .program else .timed

def range (s : Schedule) : TimeRange := ⟨s.starts, s.ends⟩

def duration (s : Schedule) : Int64 := s.range.duration

def overlaps (s : Schedule) (r : TimeRange) : Bool := s.range.overlaps r

def isNotStarted (s : Schedule) : Bool := s.state == .notStarted

def isInProgress (s : Schedule) : Bool := s.state == .inProgress

def isCanceled (s : Schedule) : Bool := s.state == .canceled

def isPending (s : Schedule) : Bool := s.state.isPending

/-- The schedule stands for the recording that `other` stands for: the same program, or,
without a program, the same channel and time. -/
def sameRecording (s other : Schedule) : Bool :=
  match s.kind with
  | .program => s.programId == other.programId
  | .timed =>
    s.channelId == other.channelId && s.starts == other.starts && s.ends == other.ends

def startText (s : Schedule) : String := s.starts.text

/-! ## Orders -/

/-- By priority, then by id. -/
def compareRank (a b : Schedule) : Ordering :=
  (compare a.priority b.priority).then (compare a.id b.id)

/-- By start, then by falling priority, then by id. -/
def compareStart (a b : Schedule) : Ordering :=
  (compare a.starts b.starts).then
    ((compare b.priority a.priority).then (compare a.id b.id))

def compareEnd (a b : Schedule) : Ordering := compare a.ends b.ends

/-- `a` ranks no higher than `b`. -/
def rankLE (a b : Schedule) : Bool := (compareRank a b).isLE

/-- `a` starts no later than `b`. -/
def startLE (a b : Schedule) : Bool := (compareStart a b).isLE

/-- `a` ends no later than `b`. -/
def endLE (a b : Schedule) : Bool := (compareEnd a b).isLE

end Schedule

end Timeshift
