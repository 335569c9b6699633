import Timeshift.Channel
import Timeshift.Time.Range

/-! # Programs of the guide, and recordings that have been made -/

namespace Timeshift

abbrev ProgramId := Int64

abbrev RecordedId := Int64

/-- The id of something that has no id yet. -/
def unassigned : Int64 := 0

/-- What the guide says about one program on a channel. -/
structure Program where
  id : ProgramId
  channelId : ChannelId
  /-- The key that all episodes of a show share. -/
  seriesKey : Option String
  title : Option String
  episodeTitle : Option String
  season : Option String
  episode : Option String
  description : Option String
  poster : Option String
  thumbnail : Option String
  starts : Instant
  ends : Instant
  /-- The broadcaster does not allow a recording. -/
  prohibited : Bool
  deriving DecidableEq, Repr, Inhabited

namespace Program

def range (p : Program) : TimeRange := ⟨p.starts, p.ends⟩

/-- A program can be scheduled if it has an id and some length. -/
def isValid (p : Program) : Bool := p.id ≠ unassigned && p.starts < p.ends

/-- The guide gives a season or an episode, even if it is an empty text. -/
def hasEpisodeNumber (p : Program) : Bool := p.season.isSome || p.episode.isSome

/-- Programs by start, and by id where they start together. -/
def airing (p : Program) : Instant × ProgramId := (p.starts, p.id)

/-- `a` comes no later than `b` in the order of airing. -/
def airsBy (a b : Program) : Bool :=
  ((compare a.starts b.starts).then (compare a.id b.id)).isLE

end Program

structure RecordedProgram where
  id : RecordedId
  inputId : InputId
  channelId : ChannelId
  programId : Option ProgramId
  seriesKey : Option String
  title : Option String
  episodeTitle : Option String
  season : Option String
  episode : Option String
  starts : Instant
  ends : Instant
  /-- Part of the program is missing. -/
  clipped : Bool
  deriving DecidableEq, Repr, Inhabited

end Timeshift
