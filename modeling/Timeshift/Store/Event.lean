import Timeshift.Series

/-! # What the store tells its listeners -/

namespace Timeshift

inductive StoreEvent where
  | loaded
  | added (schedules : List Schedule)
  | removed (schedules : List Schedule)
  | changed (schedules : List Schedule)
  | rulesAdded (rules : List SeriesRule)
  | rulesRemoved (rules : List SeriesRule)
  | rulesChanged (rules : List SeriesRule)
  deriving DecidableEq

def StoreEvent.description : StoreEvent → String
  | loaded => "Store load finished"
  | added l => s!"{l.length} schedule(s) added"
  | removed l => s!"{l.length} schedule(s) removed"
  | changed l => s!"{l.length} schedule(s) changed"
  | rulesAdded l => s!"{l.length} series added"
  | rulesRemoved l => s!"{l.length} series removed"
  | rulesChanged l => s!"{l.length} series changed"

end Timeshift
