import Timeshift.Schedule.Basic

/-! # Series rules: record every episode of a show -/

namespace Timeshift

inductive RuleState where
  | normal
  | canceled
  deriving DecidableEq, Repr, Inhabited

def RuleState.name : RuleState → String
  | normal => "NORMAL"
  | canceled => "CANCELED"

/-- The state with exactly this name. -/
def RuleState.ofName? (text : String) : Option RuleState :=
  [normal, canceled].find? (·.name == text)

/-- Which channels a rule records from. -/
inductive ChannelOption where
  | one
  /-- Every channel that carries the show. -/
  | all
  deriving DecidableEq, Repr, Inhabited

def ChannelOption.name : ChannelOption → String
  | one => "ONE"
  | all => "ALL"

/-- The option with exactly this name. -/
def ChannelOption.ofName? (text : String) : Option ChannelOption :=
  [one, all].find? (·.name == text)

/-- What an outside source says about a show. -/
structure SeriesInfo where
  seriesKey : String
  title : Option String
  description : Option String
  longDescription : Option String
  genres : List String
  poster : Option String
  photo : Option String
  deriving DecidableEq, Repr, Inhabited

/-- A standing order to record every episode of a show. -/
structure SeriesRule where
  id : RuleId
  /-- The key that all episodes of the show share. -/
  seriesKey : String
  inputId : InputId
  channelId : ChannelId
  channelOption : ChannelOption
  priority : SeriesPriority
  state : RuleState
  title : Option String
  description : Option String
  longDescription : Option String
  genres : List String
  poster : Option String
  photo : Option String
  deriving DecidableEq, Inhabited

namespace SeriesRule

/-- A rule for one channel, in the middle of the band. -/
def ofKey (seriesKey : String) (inputId : InputId) (channelId : ChannelId) : SeriesRule where
  id := unassigned
  seriesKey
  inputId
  channelId
  channelOption := .one
  priority := .middle
  state := .normal
  title := none
  description := none
  longDescription := none
  genres := []
  poster := none
  photo := none

/-- The rule for the show that a program belongs to, if it belongs to one. -/
def ofProgram? (inputId : InputId) (p : Program) : Option SeriesRule :=
  p.seriesKey.map fun key =>
    { ofKey key inputId p.channelId with
      title := p.title
      description := p.description
      poster := p.poster }

def isCanceled (r : SeriesRule) : Bool := r.state == .canceled

def takesAllChannels (r : SeriesRule) : Bool := r.channelOption == .all

/-- The program is an episode of the show, on a channel of the rule. -/
def matchesProgram (r : SeriesRule) (p : Program) : Bool :=
  p.seriesKey == some r.seriesKey && (r.takesAllChannels || p.channelId == r.channelId)

/-- Takes over what is said about the show, also what is missing. -/
def withInfo (r : SeriesRule) (info : SeriesInfo) : SeriesRule :=
  { r with
    title := info.title
    description := info.description
    longDescription := info.longDescription
    genres := info.genres
    poster := info.poster
    photo := info.photo }

end SeriesRule

end Timeshift
