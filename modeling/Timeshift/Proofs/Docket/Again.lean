import Timeshift.Proofs.Docket.Lists

/-!
# Schedules that are added again

An added schedule goes on its list without a look at what the list has. A schedule that is added
while some list has it stands twice from then on, or beside a copy that is out of date.
-/

namespace Timeshift

namespace Docket

variable {catalog : Catalog} {d : Docket} {l : List Schedule} {s : Schedule} {id : ScheduleId}

/-- The schedules that some list has when their turn to be added comes. -/
def again (catalog : Catalog) : Docket → List Schedule → List ScheduleId
  | _, [] => []
  | d, s :: rest =>
    (if d.lists s.id then [s.id] else []) ++ again catalog (d.trackPending catalog s) rest

theorem lists_trackPending (h : d.lists id = true) (s : Schedule) :
    (d.trackPending catalog s).lists id = true := by
  obtain ⟨input, hne⟩ := lists_iff.mp h
  refine lists_iff.mpr ⟨input, ?_⟩
  rw [copies_trackPending]
  exact List.append_ne_nil_of_left_ne_nil hne _

theorem lists_trackAll (h : d.lists id = true) (l : List Schedule) :
    (l.foldl (trackPending catalog) d).lists id = true := by
  induction l generalizing d with
  | nil => exact h
  | cons s rest ih => exact ih (lists_trackPending h s)

theorem lists_of_mem_again (h : id ∈ again catalog d l) :
    (l.foldl (trackPending catalog) d).lists id = true := by
  induction l generalizing d with
  | nil => exact absurd h List.not_mem_nil
  | cons s rest ih =>
    rcases List.mem_append.mp h with hs | hrest
    · split at hs
      · next hlists =>
        rw [List.mem_singleton] at hs
        exact lists_trackAll (hs ▸ hlists) (s :: rest)
      · exact absurd hs List.not_mem_nil
    · exact ih hrest

theorem copyIn_of_mem_again (h : id ∈ again catalog d l) : copyIn l id ≠ none := by
  rw [ne_eq, copyIn_eq_none]
  induction l generalizing d with
  | nil => exact absurd h List.not_mem_nil
  | cons s rest ih =>
    intro hnone
    rcases List.mem_append.mp h with hs | hrest
    · split at hs
      · exact hnone s List.mem_cons_self (List.mem_singleton.mp hs).symm
      · exact absurd hs List.not_mem_nil
    · exact ih hrest fun x hx => hnone x (List.mem_cons_of_mem s hx)

/-- What a list has of a schedule stays there when the schedule is added again. -/
theorem exists_copies_ne (h : d.lists id = true) (hs : copyIn l id = some s) :
    ∃ input, (l.foldl (trackPending catalog) d).copies id input ≠
      wanted catalog (some s) input := by
  obtain ⟨input, hne⟩ := lists_iff.mp h
  obtain ⟨hmem, hid⟩ := id_of_copyIn hs
  refine ⟨input, ?_⟩
  rw [copies_trackAll, wanted, Option.filter_some]
  split
  · next hw =>
    have hnew : (l.filter (·.wants catalog input)).filter (·.id = id) ≠ [] :=
      List.ne_nil_of_mem
        (List.mem_filter.mpr ⟨List.mem_filter.mpr ⟨hmem, hw⟩, decide_eq_true hid⟩)
    intro heq
    have hlen := congrArg List.length heq
    rw [List.length_append, Option.toList_some, List.length_singleton] at hlen
    have hold := List.length_pos_of_ne_nil hne
    have hmore := List.length_pos_of_ne_nil hnew
    omega
  · exact List.append_ne_nil_of_left_ne_nil hne _

theorem exists_copies_ne_of_again (h : id ∈ again catalog d l) (hs : copyIn l id = some s) :
    ∃ input, (l.foldl (trackPending catalog) d).copies id input ≠
      wanted catalog (some s) input := by
  induction l generalizing d with
  | nil => exact absurd h List.not_mem_nil
  | cons x rest ih =>
    rcases List.mem_append.mp h with hx | hrest
    · split at hx
      · next hlists =>
        rw [List.mem_singleton] at hx
        exact exists_copies_ne (hx ▸ hlists) hs
      · exact absurd hx List.not_mem_nil
    · refine ih hrest ?_
      obtain ⟨y, hy⟩ := Option.ne_none_iff_exists'.mp (copyIn_of_mem_again hrest)
      rw [copyIn_cons, hy] at hs
      exact hy.trans hs

/-- A schedule that no list has is there in its last copy alone. -/
theorem copies_of_not_again (h : id ∉ again catalog d l) (hs : copyIn l id = some s)
    (input : InputId) :
    (l.foldl (trackPending catalog) d).copies id input = wanted catalog (some s) input := by
  induction l generalizing d with
  | nil => cases hs
  | cons x rest ih =>
    obtain ⟨hx, hrest⟩ := not_or.mp (mt List.mem_append.mpr h)
    rw [List.foldl_cons]
    cases hlast : copyIn rest id with
    | some y =>
      refine ih hrest ?_
      rw [copyIn_cons, hlast] at hs
      exact hlast.trans hs
    | none =>
      rw [copyIn_cons, hlast, Option.none_or] at hs
      split at hs
      · next hid =>
        have hnew : d.lists id = false := by
          by_contra hlists
          rw [Bool.not_eq_false] at hlists
          exact hx (by simp [hid, hlists])
        have hothers : (rest.filter (·.wants catalog input)).filter (·.id = id) = [] := by
          refine List.filter_eq_nil_iff.mpr fun y hy => ?_
          simpa using copyIn_eq_none.mp hlast y (List.mem_filter.mp hy).1
        rw [copies_trackAll, hothers, copies_trackPending, copies_eq_nil hnew, if_pos hid, hs]
        simp
      · cases hs

end Docket

end Timeshift
