import Timeshift.Proofs.Admission.Due
import Timeshift.Proofs.Conflict.Survivors

/-!
# A plan without conflicts gets its tuners

The conflicts of a plan are counted at instants, from the ends of its schedules. A pass goes by
starts, and counts what is on the books. If the recordings on the books and the schedules whose
time has come are free of conflicts, a pass takes no tuner away and fails nobody for want of one.
-/

namespace Timeshift

namespace Admission

variable {a b : Admission} {tuners : Nat} {catalog : Catalog} {now : Instant} {s : Schedule}
  {later : List Schedule}

/-- The schedules of the recordings on the books. -/
def booked (a : Admission) : List Schedule := a.active.values.map (·.schedule)

/-! ## Room for all that are still to come -/

/-- At every instant there are tuners for all that run then, on the books or still to come. Those
on the books start first. -/
structure HasRoom (tuners : Nat) (a : Admission) (later : List Schedule) : Prop where
  fits : ∀ t, (a.booked ++ later).countP (·.range.contains t) ≤ tuners
  length : ∀ s ∈ later, s.starts < s.ends
  begun : ∀ r ∈ a.booked, ∀ s ∈ later, r.starts ≤ s.starts
  inOrder : later.Pairwise fun x y => x.starts ≤ y.starts

/-- When nothing ends before `s` starts, everything on the books runs at this start. -/
theorem HasRoom.size_lt (h : HasRoom tuners a (s :: later))
    (hlasts : ¬ a.someEndsBy s.starts = true) : a.active.size < tuners := by
  have hfits := h.fits s.starts
  have hbooked : a.booked.countP (·.range.contains s.starts) = a.booked.length := by
    refine List.countP_eq_length.mpr fun r hr => ?_
    obtain ⟨t, ht, rfl⟩ := List.mem_map.mp hr
    refine TimeRange.contains_iff.mpr ⟨h.begun _ hr s List.mem_cons_self, ?_⟩
    by_contra hends
    exact hlasts (List.any_eq_true.mpr ⟨t, ht, decide_eq_true (Int64.not_lt.mp hends)⟩)
  have hself : s.range.contains s.starts = true :=
    TimeRange.contains_iff.mpr ⟨Int64.le_refl _, h.length s List.mem_cons_self⟩
  have hsize : a.booked.length = a.active.size := by rw [booked, List.length_map, length_values]
  rw [List.countP_append, hbooked, hsize, List.countP_cons, if_pos hself] at hfits
  omega

/-- `s` may come on the books, as a schedule with the same range. -/
theorem HasRoom.next (h : HasRoom tuners a (s :: later)) {x : Schedule} (hrange : x.range = s.range)
    (hbooked : b.booked.Subperm (x :: a.booked)) : HasRoom tuners b later where
  fits t := by
    have hless := hbooked.countP_le (·.range.contains t)
    have hfits := h.fits t
    rw [List.countP_cons, hrange] at hless
    rw [List.countP_append, List.countP_cons] at hfits
    rw [List.countP_append]
    omega
  length x hx := h.length x (List.mem_cons_of_mem s hx)
  begun r hr y hy := by
    rcases List.mem_cons.mp (hbooked.subset hr) with rfl | hr
    · have hstarts : r.starts = s.starts := congrArg TimeRange.starts hrange
      exact hstarts ▸ List.rel_of_pairwise_cons h.inOrder hy
    · exact h.begun r hr y (List.mem_cons_of_mem s hy)
  inOrder := h.inOrder.of_cons

theorem HasRoom.seat (h : HasRoom tuners a (s :: later)) :
    HasRoom tuners (a.seat catalog s).1 later := by
  simp only [Admission.seat]
  split
  · obtain ⟨rest, hrest, hperm⟩ := perm_values_insert a.active s.id
      ⟨{ s with state := .inProgress }, a.lastSeq + 1, false⟩
    refine h.next (x := { s with state := .inProgress }) rfl ?_
    exact (hperm.map _).subperm.trans ((hrest.map _).cons_cons _).subperm
  · exact h.next rfl (List.sublist_cons_self s _).subperm

/-! ## What a pass then does -/

/-- The effect tells no recording anything, and fails nobody for want of a tuner. -/
def Effect.IsGentle : Effect → Prop
  | .tell _ _ => False
  | .report r => r.reason ≠ some "no tuner available"
  | .start _ _ _ | .reply _ _ => True

theorem isGentle_seat (catalog : Catalog) (a : Admission) (s : Schedule) :
    ∀ e ∈ (a.seat catalog s).2, e.IsGentle := by
  simp only [seat]
  split
  · have hstarted : (a.report s.id .inProgress none).IsGentle := by
      simp [Effect.IsGentle, report]
    exact List.forall_mem_cons.mpr ⟨trivial, List.forall_mem_singleton.mpr hstarted⟩
  · exact List.forall_mem_singleton.mpr (by simp [Effect.IsGentle, failure, report])

/-- Each schedule gets a tuner at its turn, or all that are left wait for a recording to end. -/
theorem isGentle_seatDue {due : List Schedule} (h : HasRoom tuners a due) :
    ∀ e ∈ (seatDue catalog tuners due a).2, e.IsGentle := by
  -- The books change at each turn, and the room for those still to come is what is kept.
  induction due generalizing a with
  | nil => exact List.forall_mem_nil _
  | cons s later ih =>
    rw [seatDue]
    split
    · exact List.forall_mem_nil _
    · next hlasts =>
      rw [if_pos (h.size_lt hlasts)]
      exact List.forall_mem_append.mpr ⟨isGentle_seat catalog a s, ih h.seat⟩

theorem isGentle_pass (h : a.IsKeyed)
    (hroom : HasRoom (catalog.recordingTuners a.inputId) a (a.dueNow now)) :
    ∀ e ∈ (a.pass catalog now).2, e.IsGentle := by
  have hcleared : HasRoom (catalog.recordingTuners a.inputId) (a.cleared now) (a.dueNow now) := by
    have hbooked : (a.cleared now).booked = a.booked := by
      rw [booked, (cleared_keeps h now).2.2.1, booked]
    exact ⟨hbooked ▸ hroom.fits, hroom.length, hbooked ▸ hroom.begun, hroom.inOrder⟩
  rw [pass_eq h]
  refine List.forall_mem_append.mpr ⟨?_, isGentle_seatDue hcleared⟩
  simp only [List.forall_mem_map]
  exact fun s _ => by simp [Effect.IsGentle, failure, report]

/-! ## Without conflicts there is room -/

theorem ids_booked_due (h : a.IsKeyed) (now : Instant) :
    ((a.booked ++ a.dueNow now).map (·.id)).Nodup := by
  have hkeys : a.booked.map (·.id) = a.active.keys := by
    rw [booked, List.map_map]
    exact map_values_eq_keys h.active
  rw [List.map_append, hkeys, List.nodup_append']
  refine ⟨Std.TreeMap.nodup_keys, (isLine_dueNow h now).ids, fun id hon hdue => ?_⟩
  obtain ⟨s, hs, rfl⟩ := List.mem_map.mp hdue
  exact (isLine_dueNow h now).off s hs (Std.TreeMap.mem_keys.mp hon)

/-- The recordings on the books and the due schedules have some length, those on the books start
first, and together they are free of conflicts. Then a pass tells no recording to stop, and no
schedule fails because there is no tuner. -/
theorem conflict_free_pass (h : a.IsKeyed) (catalog : Catalog) (now : Instant)
    (hlength : ∀ s ∈ a.booked ++ a.dueNow now, s.starts < s.ends)
    (hreserved : ∀ s ∈ a.booked ++ a.dueNow now, s.id ≠ Conflict.reservedId)
    (hbegun : ∀ r ∈ a.booked, ∀ s ∈ a.dueNow now, r.starts ≤ s.starts)
    (hnone : Conflict.among (catalog.recordingTuners a.inputId) (a.booked ++ a.dueNow now) = []) :
    (∀ seq order, .tell seq order ∉ (a.pass catalog now).2) ∧
      ∀ r, .report r ∈ (a.pass catalog now).2 → r.reason ≠ some "no tuner available" := by
  have hroom : HasRoom (catalog.recordingTuners a.inputId) a (a.dueNow now) :=
    { fits := Conflict.running_le_of_among_nil (ids_booked_due h now) hreserved hlength hnone
      length := fun s hs => hlength s (List.mem_append_right _ hs)
      begun := hbegun
      inOrder := (sorted_dueNow a now).imp Schedule.starts_le_of_startLE }
  have hgentle := isGentle_pass h hroom
  exact ⟨fun seq order => hgentle (.tell seq order), fun r => hgentle (.report r)⟩

/-- Two tuners: one records, one is free, and of two due schedules the later one begins when the
earlier one ends. -/
theorem conflict_free_pass_three :
    let catalog := ((Catalog.putInput {} ⟨"tuner", 2, true⟩).putChannel
      ⟨7, "tuner", "Seven", none⟩).putChannel ⟨8, "tuner", "Eight", none⟩
    let course : List Occasion :=
      [⟨catalog, 0, .message (.add (.timed 1 7 0 100 5))⟩, ⟨catalog, 0, .pass⟩,
        ⟨catalog, 10, .message (.add (.timed 2 8 10 50 1))⟩,
        ⟨catalog, 10, .message (.add (.timed 3 8 50 90 9))⟩]
    let a := run { inputId := "tuner", lead := 45 } course
    a.booked.map (·.id) = [1] ∧ (a.dueNow 10).map (·.id) = [2, 3] ∧
      (∀ s ∈ a.booked ++ a.dueNow 10, s.starts < s.ends) ∧
      (∀ s ∈ a.booked ++ a.dueNow 10, s.id ≠ Conflict.reservedId) ∧
      (∀ r ∈ a.booked, ∀ s ∈ a.dueNow 10, r.starts ≤ s.starts) ∧
      Conflict.among (catalog.recordingTuners a.inputId) (a.booked ++ a.dueNow 10) = [] ∧
      startedIds (a.pass catalog 10).2 = [2] ∧
      (∀ seq order, .tell seq order ∉ (a.pass catalog 10).2) ∧
      ∀ r, .report r ∈ (a.pass catalog 10).2 → r.reason ≠ some "no tuner available" := by
  intro catalog course a
  have hkeyed : a.IsKeyed := (isKeyed_run "tuner" 45 course).1
  exact ⟨by decide, by decide, by decide, by decide, by decide, by decide, by decide,
    conflict_free_pass hkeyed catalog 10 (by decide) (by decide) (by decide) (by decide)⟩

end Admission

end Timeshift
