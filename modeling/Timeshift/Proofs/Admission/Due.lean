import Timeshift.Proofs.Admission.Changes

/-!
# The schedules whose time has come

A pass decides on the due schedules in the order of their start. The order is strict, so the list
is known by its members.
-/

namespace Timeshift

namespace Schedule

/-! ## The order by start -/

theorem startLE_iff (a b : Schedule) : a.startLE b = true ↔
    a.starts < b.starts ∨ a.starts = b.starts ∧
      (b.priority < a.priority ∨ b.priority = a.priority ∧ a.id ≤ b.id) := by
  unfold startLE compareStart
  rw [Ordering.isLE_then_iff_or, Ordering.isLE_then_iff_or, Std.compare_eq_lt, Std.compare_eq_lt,
    Std.LawfulEqOrd.compare_eq_iff_eq, Std.LawfulEqOrd.compare_eq_iff_eq, Std.isLE_compare]

theorem startLE_total (a b : Schedule) : (a.startLE b || b.startLE a) = true := by
  rw [Bool.or_eq_true, startLE_iff, startLE_iff]
  grind

theorem startLE_trans (a b c : Schedule) (hab : a.startLE b = true) (hbc : b.startLE c = true) :
    a.startLE c = true := by
  rw [startLE_iff] at *
  grind

theorem id_eq_of_startLE {a b : Schedule} (hab : a.startLE b = true) (hba : b.startLE a = true) :
    a.id = b.id := by
  rw [startLE_iff] at *
  grind

theorem starts_le_of_startLE {a b : Schedule} (h : a.startLE b = true) : a.starts ≤ b.starts := by
  rw [startLE_iff] at h
  grind

end Schedule

namespace Admission

variable {a b : Admission} {now : Instant} {s : Schedule} {id : ScheduleId}

/-! ## The list of the due -/

theorem mem_dueNow (h : a.IsKeyed) :
    s ∈ a.dueNow now ↔ a.waiting[s.id]? = some s ∧ a.isDue now s = true := by
  rw [dueNow, mem_sortBy, List.mem_filter]
  exact and_congr_left fun _ => ⟨waiting_of_mem_values h, fun hs => mem_values.mpr ⟨s.id, hs⟩⟩

theorem sorted_dueNow (a : Admission) (now : Instant) :
    (a.dueNow now).Pairwise fun x y => x.startLE y = true :=
  pairwise_sortBy Schedule.startLE_total Schedule.startLE_trans _

/-- The members of the list and their order tell which list it is. -/
theorem dueNow_eq (h : a.IsKeyed) {due : List Schedule}
    (hsorted : due.Pairwise fun x y => x.startLE y = true) (hids : (due.map (·.id)).Nodup)
    (hmem : ∀ s, s ∈ due ↔ a.waiting[s.id]? = some s ∧ a.isDue now s = true) :
    a.dueNow now = due := by
  have hsame : (a.dueNow now).Perm due :=
    (List.perm_ext_iff_of_nodup (isLine_dueNow h now).ids.of_map hids.of_map).mpr fun s =>
      (mem_dueNow h).trans (hmem s).symm
  refine hsame.eq_of_pairwise (fun x y hx hy hxy hyx => ?_) (sorted_dueNow a now) hsorted
  exact List.inj_on_of_nodup_map hids (hsame.subset hx) hy (Schedule.id_eq_of_startLE hxy hyx)

theorem isDue_congr (hlead : b.lead = a.lead) (hactive : s.id ∈ b.active ↔ s.id ∈ a.active) :
    b.isDue now s = a.isDue now s := by
  have hsame : b.active.contains s.id = a.active.contains s.id := by
    rw [Bool.eq_iff_iff, Std.TreeMap.contains_iff_mem, Std.TreeMap.contains_iff_mem, hactive]
  have hadmits : b.admitsAt s = a.admitsAt s := by rw [admitsAt, admitsAt, hlead]
  rw [isDue, isDue, hadmits, hsame]

theorem not_mem_active_of_isDue (h : a.isDue now s = true) : s.id ∉ a.active := by
  simp only [isDue, Bool.and_eq_true, Bool.not_eq_true',
    ← Bool.not_eq_true (Std.TreeMap.contains _ _), Std.TreeMap.contains_iff_mem] at h
  exact h.2

theorem lt_ends_of_isDue (h : a.isDue now s = true) : now < s.ends := by
  simp only [isDue, Bool.and_eq_true, decide_eq_true_eq] at h
  exact h.1.2

/-! ## Schedules that have ended -/

theorem waiting_dismissAll (late : List Schedule) (a : Admission) (id : ScheduleId) :
    (late.foldl (fun a s => a.dismiss s.id) a).waiting[id]? =
      if id ∈ late.map (·.id) then none else a.waiting[id]? := by
  induction late generalizing a with
  | nil => rfl
  | cons s rest ih =>
    rw [List.foldl_cons, ih, dismiss, get_erase]
    by_cases hid : s.id = id
    · simp [hid]
    · simp [hid, Ne.symm hid]

theorem lead_dismissAll (late : List Schedule) (a : Admission) :
    (late.foldl (fun a s => a.dismiss s.id) a).lead = a.lead := by
  induction late generalizing a with
  | nil => rfl
  | cons s rest ih => exact ih (a.dismiss s.id)

/-- The desk when a pass begins to give out tuners. -/
def cleared (a : Admission) (now : Instant) : Admission :=
  ({ a with passDue := false, nextPassAt := none }.dropExpired now).1

theorem cleared_keeps (h : a.IsKeyed) (now : Instant) :
    (a.cleared now).IsKeyed ∧ (a.cleared now).inputId = a.inputId ∧
      (a.cleared now).active = a.active ∧ (a.cleared now).lead = a.lead := by
  have hclear : IsKeyed { a with passDue := false, nextPassAt := none } := h.congr rfl rfl
  obtain ⟨hkeyed, hinput, hactive⟩ :=
    dismissAll_keeps hclear (a.waiting.values.filter (isExpired now))
  exact ⟨hkeyed, hinput, hactive, lead_dismissAll _ _⟩

theorem waiting_cleared (h : a.IsKeyed) :
    (a.cleared now).waiting[id]? = some s ↔ a.waiting[id]? = some s ∧ now < s.ends := by
  have hlate : id ∈ (a.waiting.values.filter (isExpired now)).map (·.id) ↔
      ∃ x, a.waiting[id]? = some x ∧ x.ends ≤ now := by
    simp only [List.mem_map, List.mem_filter, isExpired, decide_eq_true_eq]
    constructor
    · rintro ⟨x, ⟨hx, hends⟩, rfl⟩
      exact ⟨x, waiting_of_mem_values h hx, hends⟩
    · rintro ⟨x, hx, hends⟩
      exact ⟨x, ⟨mem_values.mpr ⟨id, hx⟩, hends⟩, h.waiting id x hx⟩
  have hwaiting : (a.cleared now).waiting[id]? =
      if id ∈ (a.waiting.values.filter (isExpired now)).map (·.id) then none else a.waiting[id]? :=
    waiting_dismissAll _ _ id
  rw [hwaiting]
  split
  · next hmem =>
    obtain ⟨x, hx, hends⟩ := hlate.mp hmem
    refine ⟨nofun, fun ⟨hs, hlasts⟩ => ?_⟩
    obtain rfl := Option.some.inj (hx.symm.trans hs)
    exact absurd hlasts (Int64.not_lt.mpr hends)
  · next hmem =>
    refine ⟨fun hs => ⟨hs, ?_⟩, And.left⟩
    by_contra hends
    exact hmem (hlate.mpr ⟨s, hs, Int64.not_lt.mp hends⟩)

theorem dueNow_cleared (h : a.IsKeyed) (now : Instant) :
    (a.cleared now).dueNow now = a.dueNow now := by
  obtain ⟨hkeyed, -, hactive, hlead⟩ := cleared_keeps h now
  refine dueNow_eq hkeyed (sorted_dueNow a now) (isLine_dueNow h now).ids fun s => ?_
  rw [mem_dueNow h, waiting_cleared h, isDue_congr hlead (by rw [hactive])]
  exact ⟨fun ⟨hs, hdue⟩ => ⟨⟨hs, lt_ends_of_isDue hdue⟩, hdue⟩, fun ⟨hs, hdue⟩ => ⟨hs.1, hdue⟩⟩

/-- A pass fails what has ended and then decides on the due. -/
theorem pass_eq (h : a.IsKeyed) (catalog : Catalog) (now : Instant) :
    a.pass catalog now =
      let seated :=
        seatDue catalog (catalog.recordingTuners a.inputId) (a.dueNow now) (a.cleared now)
      (seated.1.setNextPass now,
        (a.waiting.values.filter (isExpired now)).map
          (a.failure · "ended before a tuner was available") ++ seated.2) := by
  rw [← dueNow_cleared h now, ← (cleared_keeps h now).2.1]
  rfl

end Admission

end Timeshift
