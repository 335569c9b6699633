import Mathlib.Data.List.Nodup
import Timeshift.Store.Writing
import Timeshift.Proofs.Tables

/-!
# What the journal tells

Every operation tells what it does to the schedules in use: the last event that speaks of a
schedule gives its copy, or says that it is gone, and a schedule that no event speaks of has
not changed. A loading may change everything, so it takes back all words before it.
-/

namespace Timeshift

/-- The last copy of a schedule in a list. -/
def copyIn (schedules : List Schedule) (id : ScheduleId) : Option Schedule :=
  (schedules.filter (·.id = id)).getLast?

theorem copyIn_cons (s : Schedule) (rest : List Schedule) (id : ScheduleId) :
    copyIn (s :: rest) id = (copyIn rest id).or (if s.id = id then some s else none) := by
  by_cases h : s.id = id
  · have hfilter : (s :: rest).filter (·.id = id) = s :: rest.filter (·.id = id) :=
      List.filter_cons_of_pos (decide_eq_true h)
    rw [copyIn, hfilter, List.getLast?_cons, if_pos h, copyIn]
    cases (rest.filter (·.id = id)).getLast? <;> rfl
  · have hfilter : (s :: rest).filter (·.id = id) = rest.filter (·.id = id) :=
      List.filter_cons_of_neg (by simpa using h)
    rw [copyIn, hfilter, if_neg h, Option.or_none, copyIn]

theorem copyIn_eq_none {schedules : List Schedule} {id : ScheduleId} :
    copyIn schedules id = none ↔ ∀ s ∈ schedules, s.id ≠ id := by
  simp [copyIn]

theorem id_of_copyIn {schedules : List Schedule} {id : ScheduleId} {s : Schedule}
    (h : copyIn schedules id = some s) : s ∈ schedules ∧ s.id = id := by
  have hmem := List.mem_filter.mp (List.mem_of_getLast? h)
  exact ⟨hmem.1, of_decide_eq_true hmem.2⟩

theorem copyIn_map {f : Schedule → Schedule} (hf : ∀ s, (f s).id = s.id)
    (schedules : List Schedule) (id : ScheduleId) :
    copyIn (schedules.map f) id = (copyIn schedules id).map f := by
  rw [copyIn, List.filter_map, List.getLast?_map, copyIn]
  simp only [Function.comp_def, hf]

/-- In a table by id a schedule has one copy at most. -/
theorem copyIn_filter_values {table : Std.TreeMap ScheduleId Schedule}
    (h : ∀ (id : ScheduleId) (s : Schedule), table[id]? = some s → s.id = id)
    (p : Schedule → Bool) (id : ScheduleId) :
    copyIn (table.values.filter p) id = (table[id]?).filter p := by
  have hcopy : table.values.filter (·.id = id) = (table[id]?).toList := filter_values_key h id
  rw [copyIn, List.filter_filter]
  simp only [Bool.and_comm]
  rw [← List.filter_filter, hcopy]
  cases table[id]? with
  | none => rfl
  | some s => cases hs : p s <;> simp [Option.filter, hs]

/-! ## Words -/

namespace StoreEvent

/-- What an event says of a schedule: its copy, or that it is gone. -/
def wordOn (e : StoreEvent) (id : ScheduleId) : Option (Option Schedule) :=
  match e with
  | .added l | .changed l => (copyIn l id).map some
  | .removed l => if l.any (·.id = id) then some none else none
  | .loaded | .rulesAdded _ | .rulesRemoved _ | .rulesChanged _ => none

/-- The event leaves what is known of a schedule as it is. -/
def IsSilent (e : StoreEvent) (id : ScheduleId) : Prop := e ≠ .loaded ∧ e.wordOn id = none

end StoreEvent

/-- None of the events speaks of the schedule. -/
def AreSilent (events : List StoreEvent) (id : ScheduleId) : Prop := ∀ e ∈ events, e.IsSilent id

theorem areSilent_append {es fs : List StoreEvent} {id : ScheduleId} :
    AreSilent (es ++ fs) id ↔ AreSilent es id ∧ AreSilent fs id := List.forall_mem_append

theorem areSilent_cons {e : StoreEvent} {rest : List StoreEvent} {id : ScheduleId} :
    AreSilent (e :: rest) id ↔ e.IsSilent id ∧ AreSilent rest id := List.forall_mem_cons

/-- The last word on every schedule is true of the schedules in use. -/
def AreTrue (events : List StoreEvent) (live : Std.TreeMap ScheduleId Schedule) : Prop :=
  ∀ pre e post id word, events = pre ++ e :: post → e.wordOn id = some word → AreSilent post id →
    live[id]? = word

namespace AreTrue

variable {es fs : List StoreEvent} {live live' : Std.TreeMap ScheduleId Schedule}

theorem nil (live : Std.TreeMap ScheduleId Schedule) : AreTrue [] live :=
  fun pre _ _ _ _ heq => absurd heq.symm (by simp)

theorem of_append (h : AreTrue (es ++ fs) live) : AreTrue fs live :=
  fun pre e post id word heq => h (es ++ pre) e post id word (by simp [heq])

theorem tail {e : StoreEvent} (h : AreTrue (e :: es) live) : AreTrue es live :=
  fun pre x post id word heq => h (e :: pre) x post id word (by rw [heq, List.cons_append])

theorem drop (h : AreTrue es live) (n : Nat) : AreTrue (es.drop n) live := by
  rw [← List.take_append_drop n es] at h
  exact h.of_append

/-- Later events may leave a schedule alone, or have the last word on it. -/
theorem append (h : AreTrue es live) (h' : AreTrue fs live')
    (hsilent : ∀ id, AreSilent fs id → live'[id]? = live[id]?) : AreTrue (es ++ fs) live' := by
  intro pre e post id word heq hword hpost
  rcases List.append_eq_append_iff.mp heq with ⟨mid, rfl, hfs⟩ | ⟨mid, rfl, hes⟩
  · exact h' mid e post id word hfs hword hpost
  · cases mid with
    | nil => exact h' [] e post id word hes.symm hword hpost
    | cons x mid =>
      obtain ⟨rfl, rfl⟩ := List.cons.inj hes
      obtain ⟨hmid, hfs⟩ := areSilent_append.mp hpost
      rw [hsilent id hfs]
      exact h pre e mid id word rfl hword hmid

end AreTrue

namespace Store

/-! ## The schedules in use -/

variable {s s' : Store}

/-- Every schedule in use stands under its id. -/
def IsKeyed (s : Store) : Prop :=
  ∀ (id : ScheduleId) (x : Schedule), s.live[id]? = some x → x.id = id

theorem get_hold (s : Store) (l : List Schedule) (id : ScheduleId) :
    (s.hold l).live[id]? = (copyIn l id).or s.live[id]? := get_insertAll Schedule.id l s.live id

theorem get_release (s : Store) (ids : List ScheduleId) (id : ScheduleId) :
    (s.release ids).live[id]? = if id ∈ ids then none else s.live[id]? :=
  get_eraseAll ids s.live id

theorem IsKeyed.hold (h : s.IsKeyed) (l : List Schedule) : (s.hold l).IsKeyed := by
  intro id x hx
  rw [get_hold, Option.or_eq_some_iff] at hx
  rcases hx with hx | ⟨-, hx⟩
  · exact (id_of_copyIn hx).2
  · exact h id x hx

theorem IsKeyed.release (h : s.IsKeyed) (ids : List ScheduleId) : (s.release ids).IsKeyed := by
  intro id x hx
  rw [get_release] at hx
  split at hx
  · cases hx
  · exact h id x hx

theorem IsKeyed.congr (h : s.IsKeyed) (hlive : s'.live = s.live) : s'.IsKeyed :=
  fun id x hx => h id x (hlive ▸ hx)

theorem IsKeyed.ids_schedules (h : s.IsKeyed) : (s.schedules.map (·.id)).Nodup := by
  rw [schedules, map_values_eq_keys h]
  exact Std.TreeMap.nodup_keys

/-- Only one schedule in use has a given id. -/
theorem IsKeyed.filter_id (h : s.IsKeyed) (id : ScheduleId) :
    s.schedules.filter (·.id = id) = (s.live[id]?).toList := filter_values_key h id

end Store

end Timeshift
