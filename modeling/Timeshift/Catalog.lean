import Std.Data.TreeMap
import Timeshift.Series
import Timeshift.Sort

/-!
# The catalog

What is known about channels, inputs, the programs of the guide and the shows they belong to.
-/

namespace Timeshift

/-- A search in the guide for programs of some shows. -/
structure GuideQuery where
  seriesKeys : List String
  startsAfter : Instant
  /-- Only programs on this channel, if there is one. -/
  channelId : Option ChannelId
  deriving DecidableEq, Repr

namespace GuideQuery

def admits (q : GuideQuery) (p : Program) : Bool :=
  q.startsAfter < p.starts && q.channelId.all (· == p.channelId) &&
    p.seriesKey.any (q.seriesKeys.contains ·)

end GuideQuery

structure Catalog where
  channels : Std.TreeMap ChannelId Channel := ∅
  inputs : Std.TreeMap InputId Input := ∅
  guide : List Program := []
  shows : Std.TreeMap String SeriesInfo := ∅
  isLoaded : Bool := false
  deriving Inhabited

namespace Catalog

/-! ## Reading -/

def channel? (c : Catalog) (id : ChannelId) : Option Channel := c.channels[id]?

def input? (c : Catalog) (id : InputId) : Option Input := c.inputs[id]?

def show? (c : Catalog) (seriesKey : String) : Option SeriesInfo := c.shows[seriesKey]?

def channelList (c : Catalog) : List Channel := c.channels.values

def inputList (c : Catalog) : List Input := c.inputs.values

/-- The input that a channel comes in over, if both are known. -/
def inputOf? (c : Catalog) (id : ChannelId) : Option Input :=
  (c.channel? id).bind fun channel => c.input? channel.inputId

/-- The tuners of an input that may record now. An unknown input has none. -/
def recordingTuners (c : Catalog) (id : InputId) : Nat :=
  ((c.input? id).map Input.recordingTuners).getD 0

/-- The programs that a query finds, in the order of airing. -/
def search (c : Catalog) (q : GuideQuery) : List Program :=
  sortBy Program.airsBy (c.guide.filter q.admits)

/-- The program that runs on a channel, the first one listed if there are several. -/
def onAir? (c : Catalog) (id : ChannelId) (now : Instant) : Option Program :=
  c.guide.find? fun p => p.channelId == id && p.range.contains now

/-! ## Writing -/

def putChannel (c : Catalog) (channel : Channel) : Catalog :=
  { c with channels := c.channels.insert channel.id channel }

def dropChannel (c : Catalog) (id : ChannelId) : Catalog :=
  { c with channels := c.channels.erase id }

def putInput (c : Catalog) (input : Input) : Catalog :=
  { c with inputs := c.inputs.insert input.id input }

def dropInput (c : Catalog) (id : InputId) : Catalog :=
  { c with inputs := c.inputs.erase id }

def putShow (c : Catalog) (info : SeriesInfo) : Catalog :=
  { c with shows := c.shows.insert info.seriesKey info }

theorem recordingTuners_of_input {c : Catalog} {id : InputId} {i : Input}
    (h : c.input? id = some i) : c.recordingTuners id = i.recordingTuners := by
  simp [recordingTuners, h]

end Catalog

end Timeshift
