import Timeshift.Admission.Basic
import Timeshift.Broadcast
import Timeshift.Docket.Basic
import Timeshift.Expansion.Episode
import Timeshift.Recording.Take
import Timeshift.Wire.Entity

/-!
# Short forms

Schedules, rules, desks and what happens to them, written as short lists for a log. These
forms are only written and never read.
-/

namespace Timeshift.Wire

open Form

def textOrNull (s : Option String) : Value := text.optional.write s

def signedOrNull (n : Option Int64) : Value := signed.optional.write n

/-! ## Things -/

def brief (s : Schedule) : Value :=
  .list [signed.write s.id, .text s.inputId, signed.write s.channelId, signedOrNull s.programId,
    signed.write s.starts, signed.write s.ends, signed.write s.priority,
    recordingState.write s.state, signedOrNull s.ruleId]

def briefs (l : List Schedule) : Value := .list (l.map brief)

def ruleBrief (r : SeriesRule) : Value :=
  .list [signed.write r.id, .text r.seriesKey, ruleState.write r.state,
    seriesPriority.write r.priority, channelOption.write r.channelOption, textOrNull r.title]

def ruleBriefs (l : List SeriesRule) : Value := .list (l.map ruleBrief)

def numbers (l : List Int64) : Value := .list (l.map signed.write)

def programIds (l : List Program) : Value := numbers (l.map (·.id))

def episode (e : Episode) : Value :=
  .list [signed.write e.ruleId, textOrNull e.season, textOrNull e.number]

def view (v : Admission.View) : Value :=
  .list [numbers v.waiting, numbers v.active, numbers v.stopping, signedOrNull v.nextPassAt]

def report (r : Report) : Value :=
  .list [signed.write r.scheduleId, recordingState.write r.state, textOrNull r.reason]

/-! ## What happens -/

/-- What a take has written down, together with the id of its schedule. -/
def note (id : ScheduleId) (n : TakeNote) : Value :=
  let entry (name : String) (more : List Value) : Value :=
    .list (signed.write id :: .text name :: more)
  match n with
  | .started channel s =>
    entry "start" [.list [signed.write channel, recordingState.write s.state,
      signed.write s.starts, signed.write s.ends, signed.write s.priority]]
  | .told (.update s) =>
    entry "update" [.list [signed.write s.starts, signed.write s.ends, signed.write s.priority,
      recordingState.write s.state]]
  | .told .stop => entry "stop" []
  | .told .cancel => entry "cancel" []
  | .stopRequested => entry "stop_requested" []
  | .ended state => entry "end" [recordingState.write state]

def storeEvent : StoreEvent → Value
  | .loaded => .list [.text "LoadFinished"]
  | .added l => .list [.text "SchedulesAdded", briefs l]
  | .removed l => .list [.text "SchedulesRemoved", briefs l]
  | .changed l => .list [.text "SchedulesStatusChanged", briefs l]
  | .rulesAdded l => .list [.text "SeriesAdded", ruleBriefs l]
  | .rulesRemoved l => .list [.text "SeriesRemoved", ruleBriefs l]
  | .rulesChanged l => .list [.text "SeriesChanged", ruleBriefs l]

/-- The event of this name, with these schedules. One about rules has none. -/
def storeEventOf? (name : String) (l : List Schedule) (rules : List SeriesRule) :
    Option StoreEvent :=
  match name with
  | "LoadFinished" => some .loaded
  | "SchedulesAdded" => some (.added l)
  | "SchedulesRemoved" => some (.removed l)
  | "SchedulesStatusChanged" => some (.changed l)
  | "SeriesAdded" => some (.rulesAdded rules)
  | "SeriesRemoved" => some (.rulesRemoved rules)
  | "SeriesChanged" => some (.rulesChanged rules)
  | _ => none

/-- The name of an event of the docket, and its schedules. -/
def docketEventParts : DocketEvent → String × List Schedule
  | .added l => ("SchedulesAdded", l)
  | .removed l => ("SchedulesRemoved", l)
  | .changed l => ("SchedulesStatusChanged", l)
  | .conflicting l => ("Conflicting", l)
  | .resolved l => ("Resolved", l)

def docketEvent (e : DocketEvent) : Value :=
  let (name, l) := docketEventParts e
  .list [.text name, numbers (l.map (·.id))]

/-- What a listener has found, if it has found anything. -/
def heard {α : Type} (event : α → Value) : Received α → Value
  | .event e => event e
  | .missed n => .list [.text "Lagged", unsigned.write n]
  | .nothing | .gone => .null

/-! ## What happens to each schedule -/

/-- What an event of the store does to each of its schedules. -/
def changesIn : StoreEvent → List (ScheduleId × Value)
  | .added l => l.map fun s => (s.id, change "added" s)
  | .removed l => l.map fun s => (s.id, change "removed" s)
  | .changed l => l.map fun s => (s.id, change "changed" s)
  | _ => []
where
  change (name : String) (s : Schedule) : Value :=
    .list [.text name, recordingState.write s.state]

/-- Which event of the docket is about each of its schedules. -/
def mentionsIn (e : DocketEvent) : List (ScheduleId × Value) :=
  let (name, l) := docketEventParts e
  l.map fun s => (s.id, .text name)

/-- Puts together what belongs to one schedule, by id. -/
def bySchedule (l : List (ScheduleId × Value)) : Value :=
  let ids := sortOn id ((l.map (·.1)).eraseDups)
  .list (ids.map fun id =>
    .list [signed.write id, .list ((l.filter (·.1 == id)).map (·.2))])

/-! ## Manners and outcomes -/

def mannerOfName? : String → Option Manner
  | "manual" => some .manual
  | "ack" => some .obedient
  | "until_end" => some .untilEnd
  | "instant" => some .instant
  | "clip" => some .clip
  | "fail" => some .fail
  | "deaf" => some .deaf
  | "token" => some .signal
  | _ => none

/-- The outcome that leads to a state. The reason counts only for a failure. -/
def outcomeOf? (state : RecordingState) (reason : String) : Option Outcome :=
  match state with
  | .finished => some .finished
  | .clipped => some .clipped
  | .canceled => some .canceled
  | .failed => some (.failed reason)
  | _ => none

end Timeshift.Wire
