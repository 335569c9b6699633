import Timeshift.Proofs.Admission.Due

/-!
# When there is nothing left to decide

A pass goes on until the books hold the next due schedule up, so a second pass at the same moment
finds nothing to do.
-/

namespace Timeshift

namespace Admission

variable {a b c : Admission} {catalog : Catalog} {now : Instant} {tuners : Nat} {s : Schedule}
  {id : ScheduleId} {t : Running}

/-! ## The weakest recording on the books -/

theorem mem_values_active (h : a.IsKeyed) :
    t ∈ a.active.values ↔ a.active[t.schedule.id]? = some t := by
  rw [mem_values]
  refine ⟨fun ⟨id, ht⟩ => ?_, fun ht => ⟨_, ht⟩⟩
  rwa [h.active id t ht]

theorem weakestBelow_iff (h : a.IsKeyed) {p : Priority} :
    a.weakestBelow p = some t ↔ t ∈ a.active.values ∧ t.schedule.priority < p ∧
      ∀ u ∈ a.active.values, u.schedule.priority < p → t.schedule.rankLE u.schedule = true := by
  generalize hweaker : a.active.values.filter (·.schedule.priority < p) = weaker
  have hmem : ∀ u, u ∈ weaker ↔ u ∈ a.active.values ∧ u.schedule.priority < p := by
    intro u
    rw [← hweaker, List.mem_filter, decide_eq_true_eq]
  -- Of two recordings with one id there is only one on the books.
  have hstrict : ∀ x ∈ weaker, ∀ y ∈ weaker, x.schedule.rankLE y.schedule = true →
      y.schedule.rankLE x.schedule = true → x = y := by
    intro x hx y hy hxy hyx
    have hid : x.schedule.id = y.schedule.id := by
      by_contra hne
      rw [Schedule.rankLE_iff] at hxy hyx
      exact (Schedule.ranksAbove_total hne).elim hxy hyx
    have hsame := (mem_values_active h).mp ((hmem x).mp hx).1
    rw [hid, (mem_values_active h).mp ((hmem y).mp hy).1] at hsame
    exact (Option.some.inj hsame).symm
  have htotal : ∀ x y : Running,
      (x.schedule.rankLE y.schedule || y.schedule.rankLE x.schedule) = true :=
    fun x y => Schedule.rankLE_total x.schedule y.schedule
  have htrans : ∀ x y z : Running, x.schedule.rankLE y.schedule = true →
      y.schedule.rankLE z.schedule = true → x.schedule.rankLE z.schedule = true :=
    fun x y z => Schedule.rankLE_trans x.schedule y.schedule z.schedule
  rw [weakestBelow, hweaker, head?_sortBy htotal htrans hstrict, hmem, and_assoc]
  simp only [hmem, and_imp]

/-! ## A schedule that is held up -/

/-- A recording on the books ends in time for the schedule, or one is being ended for it. -/
def HoldsUp (tuners : Nat) (a : Admission) (s : Schedule) : Prop :=
  a.someEndsBy s.starts = true ∨
    tuners ≤ a.active.size ∧ ∃ t, a.weakestBelow s.priority = some t ∧ t.isStopping = true

theorem HoldsUp.congr (h : HoldsUp tuners a s) (hactive : b.active = a.active) :
    HoldsUp tuners b s := by
  simpa only [HoldsUp, someEndsBy, weakestBelow, hactive] using h

theorem seatDue_of_holdsUp {later : List Schedule} (h : HoldsUp tuners a s) :
    seatDue catalog tuners (s :: later) a = (a, []) := by
  rw [seatDue]
  rcases h with hends | ⟨hfull, t, ht, hstopping⟩
  · rw [if_pos hends]
  · split
    · rfl
    · rw [if_neg (Nat.not_lt.mpr hfull), ht]
      exact if_pos hstopping

/-- The recording that is told to stop is still the weakest one. -/
theorem holdsUp_tellEnd (h : a.IsKeyed) (hfull : ¬ a.active.size < tuners)
    (ht : a.weakestBelow s.priority = some t) :
    HoldsUp tuners (a.tellEnd t .stop).1 s := by
  obtain ⟨hmem, hpriority, hleast⟩ := (weakestBelow_iff h).mp ht
  have hon := (mem_values_active h).mp hmem
  have hkeyed : (a.tellEnd t .stop).1.IsKeyed := h.tellEnd t .stop
  refine Or.inr ⟨?_, { t with isStopping := true }, ?_, rfl⟩
  · have hsize : a.active.size ≤ (a.tellEnd t .stop).1.active.size :=
      size_le_of_keys fun id hid => (mem_tellEnd h hon .stop id).mpr hid
    omega
  · refine (weakestBelow_iff hkeyed).mpr ⟨?_, hpriority, fun u hu hp => ?_⟩
    · rw [mem_values_active hkeyed]
      simp only [tellEnd, get_insert, if_true]
    · rw [mem_values_active hkeyed] at hu
      simp only [tellEnd, get_insert] at hu
      split at hu
      · obtain rfl := Option.some.inj hu
        simpa using Schedule.rankLE_total t.schedule t.schedule
      · exact hleast u ((mem_values_active h).mpr hu) hp

/-! ## How far a pass goes -/

/-- From `a` to `b` a pass has decided on `done`, and it stops before `rest`. -/
structure StopsAt (tuners : Nat) (a : Admission) (done rest : List Schedule) (b : Admission) :
    Prop where
  lead : b.lead = a.lead
  waiting : ∀ id : ScheduleId,
    b.waiting[id]? = if id ∈ done.map (·.id) then none else a.waiting[id]?
  active : ∀ id : ScheduleId, id ∉ done.map (·.id) → (id ∈ b.active ↔ id ∈ a.active)
  heldUp : ∀ s, rest.head? = some s → HoldsUp tuners b s

namespace StopsAt

theorem here {rest : List Schedule} (h : ∀ s, rest.head? = some s → HoldsUp tuners a s) :
    StopsAt tuners a [] rest a :=
  ⟨rfl, fun _ => rfl, fun _ _ => Iff.rfl, h⟩

theorem cons {done rest : List Schedule} (h : StopsAt tuners b done rest c)
    (hlead : b.lead = a.lead) (hwaiting : b.waiting = (a.dismiss s.id).waiting)
    (hactive : ∀ id, id ≠ s.id → (id ∈ b.active ↔ id ∈ a.active)) :
    StopsAt tuners a (s :: done) rest c where
  lead := h.lead.trans hlead
  waiting id := by
    rw [h.waiting, hwaiting, dismiss, get_erase]
    by_cases hid : s.id = id
    · simp [hid]
    · simp [hid, Ne.symm hid]
  active id hid := by
    rw [List.map_cons, List.mem_cons, not_or] at hid
    exact (h.active id hid.2).trans (hactive id hid.1)
  heldUp := h.heldUp

end StopsAt

theorem seat_keeps (h : a.IsKeyed) (catalog : Catalog) (s : Schedule) :
    (a.seat catalog s).1.IsKeyed ∧ (a.seat catalog s).1.lead = a.lead ∧
      ∀ id, id ≠ s.id → (id ∈ (a.seat catalog s).1.active ↔ id ∈ a.active) := by
  simp only [seat]
  split
  · refine ⟨(h.dismiss s.id).begin s _, rfl, fun id hid => ?_⟩
    simp only [Admission.begin, Std.TreeMap.mem_insert, Std.LawfulEqOrd.compare_eq_iff_eq]
    exact or_iff_right (Ne.symm hid)
  · exact ⟨h.dismiss s.id, rfl, fun _ _ => Iff.rfl⟩

theorem seatDue_stopsAt (catalog : Catalog) (tuners : Nat) (due : List Schedule)
    (h : a.IsKeyed) : ∃ done rest, due = done ++ rest ∧
      StopsAt tuners a done rest (seatDue catalog tuners due a).1 := by
  induction due generalizing a with
  | nil => exact ⟨[], [], rfl, .here fun s hs => nomatch hs⟩
  | cons s later ih =>
    -- The schedule at the head is held up, by the books as they are then.
    have hhead : ∀ {c : Admission}, HoldsUp tuners c s →
        ∀ x, (s :: later).head? = some x → HoldsUp tuners c x := by
      intro c hc x hx
      obtain rfl := Option.some.inj hx
      exact hc
    by_cases hends : a.someEndsBy s.starts = true
    · rw [seatDue_of_holdsUp (Or.inl hends)]
      exact ⟨[], s :: later, rfl, .here (hhead (Or.inl hends))⟩
    · rw [seatDue, if_neg hends]
      split
      · obtain ⟨hkeyed, hlead, hactive⟩ := seat_keeps h catalog s
        obtain ⟨done, rest, rfl, hstops⟩ := ih hkeyed
        exact ⟨s :: done, rest, rfl, hstops.cons hlead (waiting_seat catalog a s) hactive⟩
      · next hfull =>
        split
        · next victim hvictim =>
          split
          · next hstopping =>
            have hheld : HoldsUp tuners a s :=
              Or.inr ⟨Nat.not_lt.mp hfull, victim, hvictim, hstopping⟩
            exact ⟨[], s :: later, rfl, .here (hhead hheld)⟩
          · obtain ⟨id, hid⟩ := mem_of_weakestBelow hvictim
            exact ⟨[], s :: later, rfl, rfl, fun _ => rfl, fun k _ => mem_tellEnd h hid .stop k,
              hhead (holdsUp_tellEnd h hfull hvictim)⟩
        · obtain ⟨done, rest, rfl, hstops⟩ := ih (h.dismiss s.id)
          exact ⟨s :: done, rest, rfl, hstops.cons rfl rfl fun _ _ => Iff.rfl⟩

/-! ## Nothing left to decide -/

/-- Nothing that waits has ended, and the books hold the first due schedule up. -/
structure IsDecided (catalog : Catalog) (now : Instant) (a : Admission) : Prop where
  lasts : ∀ (id : ScheduleId) s, a.waiting[id]? = some s → now < s.ends
  heldUp : ∀ s, (a.dueNow now).head? = some s →
    HoldsUp (catalog.recordingTuners a.inputId) a s

theorem IsDecided.pass_nil (h : IsDecided catalog now a) (hkeyed : a.IsKeyed) :
    (a.pass catalog now).2 = [] := by
  have hnone : a.waiting.values.filter (isExpired now) = [] := by
    refine List.filter_eq_nil_iff.mpr fun s hs => ?_
    obtain ⟨id, hid⟩ := mem_values.mp hs
    simpa [isExpired] using h.lasts id s hid
  have hactive : (a.cleared now).active = a.active := (cleared_keeps hkeyed now).2.2.1
  rw [pass_eq hkeyed, hnone]
  cases hdue : a.dueNow now with
  | nil => rfl
  | cons s later =>
    have hheld : HoldsUp (catalog.recordingTuners a.inputId) (a.cleared now) s :=
      (h.heldUp s (by rw [hdue, List.head?_cons])).congr hactive
    rw [seatDue_of_holdsUp hheld]
    rfl

/-- What waits after a pass has waited before, and was not decided on. -/
theorem StopsAt.waited {done rest : List Schedule} (h : a.IsKeyed)
    (hstops : StopsAt tuners (a.cleared now) done rest b) :
    b.waiting[id]? = some s ↔
      id ∉ done.map (·.id) ∧ a.waiting[id]? = some s ∧ now < s.ends := by
  rw [hstops.waiting, ← waiting_cleared h]
  split <;> simp [*]

/-- A pass leaves the rest of the line as it was. -/
theorem StopsAt.dueNow {done rest : List Schedule} (ha : a.IsKeyed) (hb : b.IsKeyed)
    (hstops : StopsAt tuners (a.cleared now) done rest b) (hline : a.dueNow now = done ++ rest) :
    b.dueNow now = rest := by
  obtain ⟨-, -, hactive, hlead⟩ := cleared_keeps ha now
  have hids : (done.map (·.id) ++ rest.map (·.id)).Nodup := by
    rw [← List.map_append, ← hline]
    exact (isLine_dueNow ha now).ids
  have hsame : ∀ s : Schedule, s.id ∉ done.map (·.id) → b.isDue now s = a.isDue now s :=
    fun s hnot =>
      isDue_congr (hstops.lead.trans hlead) ((hstops.active s.id hnot).trans (by rw [hactive]))
  refine dueNow_eq hb ?_ (List.nodup_append'.mp hids).2.1 fun s => ?_
  · exact (hline ▸ sorted_dueNow a now).sublist (List.sublist_append_right done rest)
  · rw [hstops.waited ha]
    constructor
    · intro hs
      have hnot : s.id ∉ done.map (·.id) := fun hin =>
        (List.nodup_append'.mp hids).2.2 hin (List.mem_map_of_mem hs)
      obtain ⟨hwait, hdue⟩ := (mem_dueNow ha).mp (hline ▸ List.mem_append_right done hs)
      exact ⟨⟨hnot, hwait, lt_ends_of_isDue hdue⟩, (hsame s hnot).trans hdue⟩
    · rintro ⟨⟨hnot, hwait, -⟩, hdue⟩
      have hs : s ∈ a.dueNow now := (mem_dueNow ha).mpr ⟨hwait, (hsame s hnot).symm.trans hdue⟩
      rw [hline, List.mem_append] at hs
      exact hs.resolve_left fun hin => hnot (List.mem_map_of_mem hin)

theorem isDecided_pass (h : a.IsKeyed) (catalog : Catalog) (now : Instant) :
    IsDecided catalog now (a.pass catalog now).1 := by
  obtain ⟨done, rest, hline, hstops⟩ :=
    seatDue_stopsAt catalog (catalog.recordingTuners a.inputId) (a.dueNow now)
      (cleared_keeps h now).1
  have hinput : (a.pass catalog now).1.inputId = a.inputId := inputId_step ⟨catalog, now, .pass⟩ h
  have hafter : (a.pass catalog now).1.IsKeyed := isKeyed_step ⟨catalog, now, .pass⟩ h
  rw [pass_eq h] at hinput hafter ⊢
  dsimp only at hinput hafter ⊢
  generalize (seatDue catalog _ (a.dueNow now) (a.cleared now)).1 = b at hstops hinput hafter ⊢
  change b.inputId = a.inputId at hinput
  -- When the next pass is due changes neither the line nor the books.
  have hkeyed : b.IsKeyed := hafter.congr rfl rfl
  have hrest : (b.setNextPass now).dueNow now = rest :=
    show b.dueNow now = rest from hstops.dueNow h hkeyed hline
  refine ⟨fun id s hs => ((hstops.waited h).mp hs).2.2, fun s hs => ?_⟩
  rw [hrest] at hs
  show HoldsUp (catalog.recordingTuners b.inputId) (b.setNextPass now) s
  rw [hinput]
  exact (hstops.heldUp s hs).congr rfl

end Admission

end Timeshift
