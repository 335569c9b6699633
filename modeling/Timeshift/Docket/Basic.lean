import Timeshift.Catalog
import Timeshift.Conflict
import Timeshift.Store.Event

/-!
# The docket

The docket follows the store. For every input it lists the schedules that still want a tuner,
and those of them that will not get one. It starts only when both the schedules and the
channels are loaded. Every step tells which conflicts are over and which are new.
-/

namespace Timeshift

inductive DocketEvent where
  | added (schedules : List Schedule)
  | removed (schedules : List Schedule)
  | changed (schedules : List Schedule)
  /-- These schedules will not be recorded any more. -/
  | conflicting (schedules : List Schedule)
  /-- These schedules will be recorded after all. -/
  | resolved (schedules : List Schedule)
  deriving DecidableEq

structure Docket where
  schedulesLoaded : Bool := false
  channelsLoaded : Bool := false
  isInitialized : Bool := false
  /-- The schedules that want a tuner, by input. No list is empty. -/
  tracked : Std.TreeMap InputId (List Schedule) := ∅
  /-- The schedules that will not be recorded, by input. No list is empty. -/
  conflicts : Std.TreeMap InputId (List Schedule) := ∅

namespace Docket

instance : Inhabited Docket := ⟨{}⟩

/-- A docket after a step, and what the step has to tell. -/
abbrev Step := Docket × List DocketEvent

/-! ## The lists -/

/-- Puts a schedule at the end of the list of its channel's input. A schedule on an unknown
channel is left out. The input itself need not be known. -/
def track (catalog : Catalog) (d : Docket) (s : Schedule) : Docket :=
  match catalog.channel? s.channelId with
  | none => d
  | some channel =>
    let list := (d.tracked[channel.inputId]?).getD []
    { d with tracked := d.tracked.insert channel.inputId (list ++ [s]) }

def untrack (d : Docket) (id : ScheduleId) : Docket :=
  { d with
    tracked := d.tracked.filterMap fun _ list =>
      let rest := list.filter (·.id ≠ id)
      if rest.isEmpty then none else some rest }

/-- Puts a schedule on its list if it wants a tuner. -/
def trackPending (catalog : Catalog) (d : Docket) (s : Schedule) : Docket :=
  if s.isPending then d.track catalog s else d

/-- Puts the new copy of a schedule in the place of the old one. -/
def retrack (catalog : Catalog) (d : Docket) (s : Schedule) : Docket :=
  (d.untrack s.id).trackPending catalog s

/-! ## Conflicts -/

/-- The conflicts of every input that is known. -/
def findConflicts (catalog : Catalog) (d : Docket) : Std.TreeMap InputId (List Schedule) :=
  d.tracked.filterMap fun id list =>
    (catalog.input? id).bind fun input =>
      let losers := Conflict.among input.tunerCount list
      if losers.isEmpty then none else some losers

/-- The schedules of all lists by id, one for each id. -/
def merged (lists : Std.TreeMap InputId (List Schedule)) : Std.TreeMap ScheduleId Schedule :=
  lists.values.flatten.foldl (fun m s => m.insert s.id s) ∅

/-- The schedules that `a` has and `b` lacks, by id. -/
def newlyIn (a b : Std.TreeMap ScheduleId Schedule) : List Schedule :=
  a.values.filter fun s => !b.contains s.id

/-- Looks for conflicts again, and tells what is over and then what is new. -/
def reviewed (catalog : Catalog) (d : Docket) : Step :=
  let conflicts := d.findConflicts catalog
  let before := merged d.conflicts
  let after := merged conflicts
  let settled := newlyIn before after
  let fresh := newlyIn after before
  ({ d with conflicts },
    (if settled.isEmpty then [] else [.resolved settled]) ++
      if fresh.isEmpty then [] else [.conflicting fresh])

/-! ## Steps -/

/-- Makes all lists anew from the schedules in use. -/
def rebuilt (catalog : Catalog) (stored : List Schedule) (d : Docket) : Step :=
  let d := stored.foldl (trackPending catalog) { d with tracked := ∅, isInitialized := true }
  d.reviewed catalog

def onSchedulesLoaded (catalog : Catalog) (stored : List Schedule) (d : Docket) : Step :=
  let d := { d with schedulesLoaded := true }
  if d.channelsLoaded then d.rebuilt catalog stored else (d, [])

def onChannelsLoaded (catalog : Catalog) (stored : List Schedule) (d : Docket) : Step :=
  let d := { d with channelsLoaded := true }
  if d.schedulesLoaded then d.rebuilt catalog stored else (d, [])

def onChannelsChanged (catalog : Catalog) (stored : List Schedule) (d : Docket) : Step :=
  if d.schedulesLoaded then d.rebuilt catalog stored else (d, [])

/-- Makes all lists anew, if everything is loaded. -/
def rebuild (catalog : Catalog) (stored : List Schedule) (d : Docket) : Step :=
  if d.schedulesLoaded && d.channelsLoaded then d.rebuilt catalog stored else (d, [])

/-- A step that changes the lists and tells `news` at its end. Nothing happens before the
lists have been made once. -/
def amend (catalog : Catalog) (edit : Docket → Docket) (news : DocketEvent) (d : Docket) : Step :=
  if d.isInitialized then
    let (d, events) := (edit d).reviewed catalog
    (d, events ++ [news])
  else (d, [])

def handle (catalog : Catalog) (stored : List Schedule) (event : StoreEvent) (d : Docket) : Step :=
  match event with
  | .loaded => d.onSchedulesLoaded catalog stored
  | .added l => d.amend catalog (fun d => l.foldl (trackPending catalog) d) (.added l)
  | .removed l => d.amend catalog (fun d => l.foldl (fun d s => d.untrack s.id) d) (.removed l)
  | .changed l => d.amend catalog (fun d => l.foldl (retrack catalog) d) (.changed l)
  | .rulesAdded _ | .rulesRemoved _ | .rulesChanged _ => (d, [])

end Docket

end Timeshift
