import Timeshift.Docket.Query
import Timeshift.Proofs.Conflict.Order
import Timeshift.Proofs.Store.Journal

/-!
# The lists of a docket

What each step does to the list of one input, and to the copies of one schedule in it.
-/

namespace Timeshift

/-- The schedule wants a tuner of this input: it is pending, and its channel comes in over it. -/
def Schedule.wants (s : Schedule) (catalog : Catalog) (input : InputId) : Bool :=
  s.isPending && (catalog.channel? s.channelId).any (·.inputId == input)

namespace Docket

variable {catalog : Catalog} {d : Docket} {s : Schedule} {id : ScheduleId} {input : InputId}

/-! ## Lists -/

theorem schedulesOf_trackPending (catalog : Catalog) (d : Docket) (s : Schedule)
    (input : InputId) :
    (d.trackPending catalog s).schedulesOf input =
      d.schedulesOf input ++ if s.wants catalog input then [s] else [] := by
  unfold trackPending track Schedule.wants
  cases s.isPending with
  | false => simp
  | true =>
    cases catalog.channel? s.channelId with
    | none => simp
    | some channel =>
      by_cases h : channel.inputId = input
      · simp [schedulesOf, h]
      · simp [schedulesOf, h, get_insert]

theorem schedulesOf_trackAll (catalog : Catalog) (l : List Schedule) (d : Docket)
    (input : InputId) :
    (l.foldl (trackPending catalog) d).schedulesOf input =
      d.schedulesOf input ++ l.filter (·.wants catalog input) := by
  induction l generalizing d with
  | nil => simp
  | cons s rest ih =>
    rw [List.foldl_cons, ih, schedulesOf_trackPending, List.append_assoc, List.filter_cons]
    split <;> rfl

theorem schedulesOf_untrack (d : Docket) (id : ScheduleId) (input : InputId) :
    (d.untrack id).schedulesOf input = (d.schedulesOf input).filter (·.id ≠ id) := by
  simp only [schedulesOf, untrack, Std.TreeMap.getElem?_filterMap']
  cases d.tracked[input]? with
  | none => rfl
  | some list =>
    simp only [Option.bind_some, Option.getD_some]
    split
    · next h => exact (List.isEmpty_iff.mp h).symm
    · rfl

/-! ## Copies of one schedule -/

/-- The copies of a schedule on the list of an input. -/
def copies (d : Docket) (id : ScheduleId) (input : InputId) : List Schedule :=
  (d.schedulesOf input).filter (·.id = id)

/-- The copy that the list should hold of a schedule whose newest copy is known. -/
def wanted (catalog : Catalog) (newest : Option Schedule) (input : InputId) : List Schedule :=
  (newest.filter (·.wants catalog input)).toList

/-- Some list has the schedule. -/
def lists (d : Docket) (id : ScheduleId) : Bool :=
  d.tracked.values.any fun list => list.any (·.id == id)

theorem lists_iff : d.lists id = true ↔ ∃ input, d.copies id input ≠ [] := by
  simp only [lists, List.any_eq_true, beq_iff_eq, mem_values]
  constructor
  · rintro ⟨list, ⟨input, hlist⟩, s, hs, hid⟩
    refine ⟨input, List.ne_nil_of_mem (List.mem_filter.mpr ⟨?_, decide_eq_true hid⟩)⟩
    rw [schedulesOf, hlist]
    exact hs
  · rintro ⟨input, hne⟩
    obtain ⟨s, hs⟩ := List.exists_mem_of_ne_nil _ hne
    obtain ⟨hs, hid⟩ := List.mem_filter.mp hs
    rw [schedulesOf] at hs
    cases hlist : d.tracked[input]? with
    | none => simp [hlist] at hs
    | some list =>
      rw [hlist] at hs
      exact ⟨list, ⟨input, hlist⟩, s, hs, of_decide_eq_true hid⟩

theorem copies_eq_nil (h : d.lists id = false) (input : InputId) : d.copies id input = [] := by
  by_contra hne
  rw [lists_iff.mpr ⟨input, hne⟩] at h
  cases h

theorem copies_trackPending (catalog : Catalog) (d : Docket) (s : Schedule) (id : ScheduleId)
    (input : InputId) :
    (d.trackPending catalog s).copies id input =
      d.copies id input ++ if s.id = id then wanted catalog (some s) input else [] := by
  rw [copies, schedulesOf_trackPending, List.filter_append, wanted, Option.filter_some, copies]
  congr 1
  by_cases hw : s.wants catalog input = true <;> by_cases hid : s.id = id <;> simp [hw, hid]

theorem copies_untrack (d : Docket) (gone id : ScheduleId) (input : InputId) :
    (d.untrack gone).copies id input = if gone = id then [] else d.copies id input := by
  rw [copies, schedulesOf_untrack, List.filter_filter]
  split
  · next h =>
    subst h
    simp
  · next h =>
    refine List.filter_congr fun s _ => ?_
    by_cases hid : s.id = id
    · simp [hid, Ne.symm h]
    · simp [hid]

theorem copies_retrack (catalog : Catalog) (d : Docket) (s : Schedule) (id : ScheduleId)
    (input : InputId) :
    (d.retrack catalog s).copies id input =
      if s.id = id then wanted catalog (some s) input else d.copies id input := by
  rw [retrack, copies_trackPending, copies_untrack]
  split <;> simp

/-! ## Many schedules, one after the other -/

theorem copies_untrackAll (l : List Schedule) (d : Docket) (id : ScheduleId) (input : InputId) :
    (l.foldl (fun d s => d.untrack s.id) d).copies id input =
      if l.any (·.id = id) then [] else d.copies id input := by
  induction l generalizing d with
  | nil => rfl
  | cons s rest ih =>
    rw [List.foldl_cons, ih, copies_untrack, List.any_cons]
    by_cases hid : s.id = id <;> simp [hid]

/-- The last copy counts. -/
theorem copies_retrackAll (catalog : Catalog) (l : List Schedule) (d : Docket) (id : ScheduleId)
    (input : InputId) :
    (l.foldl (retrack catalog) d).copies id input =
      match copyIn l id with
      | some s => wanted catalog (some s) input
      | none => d.copies id input := by
  induction l generalizing d with
  | nil => rfl
  | cons s rest ih =>
    rw [List.foldl_cons, ih, copyIn_cons]
    cases copyIn rest id with
    | some x => rfl
    | none =>
      rw [copies_retrack, Option.none_or]
      by_cases hid : s.id = id <;> simp [hid]

theorem copies_trackAll (catalog : Catalog) (l : List Schedule) (d : Docket) (id : ScheduleId)
    (input : InputId) :
    (l.foldl (trackPending catalog) d).copies id input =
      d.copies id input ++ (l.filter (·.wants catalog input)).filter (·.id = id) := by
  rw [copies, schedulesOf_trackAll, List.filter_append, copies]

/-! ## Flags -/

/-- Only the lists may differ. -/
structure HasSameFlags (d d' : Docket) : Prop where
  schedulesLoaded : d'.schedulesLoaded = d.schedulesLoaded
  channelsLoaded : d'.channelsLoaded = d.channelsLoaded
  isInitialized : d'.isInitialized = d.isInitialized

namespace HasSameFlags

theorem trans {d' d'' : Docket} (h : HasSameFlags d d') (h' : HasSameFlags d' d'') :
    HasSameFlags d d'' where
  schedulesLoaded := h'.schedulesLoaded.trans h.schedulesLoaded
  channelsLoaded := h'.channelsLoaded.trans h.channelsLoaded
  isInitialized := h'.isInitialized.trans h.isInitialized

theorem foldl {step : Docket → Schedule → Docket} (hstep : ∀ d s, HasSameFlags d (step d s))
    (l : List Schedule) (d : Docket) : HasSameFlags d (l.foldl step d) := by
  induction l generalizing d with
  | nil => exact ⟨rfl, rfl, rfl⟩
  | cons s rest ih => exact (hstep d s).trans (ih (step d s))

theorem untrack (d : Docket) (id : ScheduleId) : HasSameFlags d (d.untrack id) := ⟨rfl, rfl, rfl⟩

theorem trackPending (catalog : Catalog) (d : Docket) (s : Schedule) :
    HasSameFlags d (d.trackPending catalog s) := by
  unfold Docket.trackPending track
  split
  · split <;> exact ⟨rfl, rfl, rfl⟩
  · exact ⟨rfl, rfl, rfl⟩

theorem retrack (catalog : Catalog) (d : Docket) (s : Schedule) :
    HasSameFlags d (d.retrack catalog s) :=
  (untrack d s.id).trans (trackPending catalog _ s)

end HasSameFlags

/-! ## Conflicts -/

/-- The conflicts of a list, if its input is known. -/
def losersOf (catalog : Catalog) (input : InputId) (list : List Schedule) : List Schedule :=
  (catalog.input? input).elim [] fun i => Conflict.among i.tunerCount list

theorem conflictsOf_reviewed (catalog : Catalog) (d : Docket) (input : InputId) :
    (d.reviewed catalog).1.conflictsOf input = losersOf catalog input (d.schedulesOf input) := by
  simp only [reviewed, conflictsOf, findConflicts, schedulesOf, losersOf,
    Std.TreeMap.getElem?_filterMap']
  cases catalog.input? input with
  | none => cases d.tracked[input]? <;> rfl
  | some i =>
    cases d.tracked[input]? with
    | none => rfl
    | some list =>
      simp only [Option.bind_some, Option.getD_some, Option.elim_some]
      split
      · next h => exact (List.isEmpty_iff.mp h).symm
      · rfl

theorem losersOf_perm (catalog : Catalog) (input : InputId) {list list' : List Schedule}
    (hids : (list.map (·.id)).Nodup) (hperm : list.Perm list') :
    losersOf catalog input list = losersOf catalog input list' := by
  unfold losersOf
  cases catalog.input? input with
  | none => rfl
  | some i => exact Conflict.among_perm hids hperm

end Docket

end Timeshift
