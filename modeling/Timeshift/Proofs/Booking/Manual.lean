import Timeshift.Proofs.Booking.Added
import Timeshift.Proofs.Conflict.Best
import Timeshift.Proofs.Store.Counting

/-!
# A recording that is booked by hand

Such a booking wins against everything that is in use. Its priority is a step above the highest one,
but it cannot go past the end of the numbers. There it is as high as the others, and it still ranks
above them because it has the largest id.
-/

namespace Timeshift

namespace Booking

variable {s s' : Store} {catalog : Catalog} {docket : Docket} {x added : Schedule}

/-! ## Requests -/

/-- What is to be recorded, if no rule asks for it. -/
inductive Request where
  | program (p : Program)
  | range (id : ChannelId) (range : TimeRange)

namespace Request

def book (catalog : Catalog) (docket : Docket) : Request → Store.Op Schedule
  | program p => addProgram catalog docket p
  | range id r => addRange catalog docket id r

/-- No rule is for the show of the program. -/
def IsManual (s : Store) : Request → Prop
  | program p => ∀ rule ∈ s.ruleList, p.seriesKey ≠ some rule.seriesKey
  | range _ _ => True

end Request

theorem ruleFor?_eq_none {p : Program}
    (h : ∀ rule ∈ s.ruleList, p.seriesKey ≠ some rule.seriesKey) : ruleFor? s p = none := by
  rw [ruleFor?, Option.bind_eq_none_iff]
  intro key hkey
  refine List.find?_eq_none.mpr fun rule hrule heq =>
    h rule ((s.listing.rules_perm s.ruleList).mem_iff.mp hrule) ?_
  rw [hkey, beq_iff_eq.mp heq]

theorem books_of_request {r : Request} (hmanual : r.IsManual s)
    (h : s.run (r.book catalog docket) = (.ok added, s')) :
    ∃ x, Books s x added s' ∧ x.priority = (docket.newPriority s.schedules).value := by
  cases r with
  | program p =>
    obtain ⟨input, hbooks⟩ := books_of_addProgram (ruleFor?_eq_none hmanual) h
    exact ⟨_, hbooks, rfl⟩
  | range id r =>
    obtain ⟨input, hbooks⟩ := books_of_addRange h
    exact ⟨_, hbooks, rfl⟩

/-! ## The new priority -/

theorem le_above {inUse : Option Priority} {p : Priority} (h : p ∈ inUse) :
    p ≤ (EpisodePriority.above inUse).value := by
  obtain rfl := Option.mem_def.mp h
  have hstep : Priority.step.toInt = 1024 := by decide
  have hhi := p.toInt_lt
  have hle : p ≤ max p (Priority.episodeFloor - Priority.step) := Std.left_le_max
  rw [Int64.le_iff_toInt_le] at hle
  rw [Int64.le_iff_toInt_le, EpisodePriority.above, toInt_boundedAdd, Option.getD_some, hstep]
  omega

/-- Nothing in use has a higher priority than a new schedule. -/
theorem le_newPriority (hready : docket.isInitialized = true) {stored : List Schedule}
    (hx : x ∈ stored) : x.priority ≤ (docket.newPriority stored).value := by
  have hmem : x.priority ∈ stored.map (·.priority) := List.mem_map_of_mem hx
  rw [Docket.newPriority, if_pos hready]
  cases hmax : (stored.map (·.priority)).max? with
  | none =>
    rw [List.max?_eq_none_iff.mp hmax] at hmem
    cases hmem
  | some highest =>
    have hle := (List.max?_eq_some_iff.mp hmax).2 x.priority hmem
    exact Int64.le_trans hle (le_above rfl)

/-! ## The rank -/

theorem id_lt_of_stored (hreached : s.Reached) (hbooks : Books s x added s') {y : Schedule}
    (hy : y ∈ s.schedules) : y.id < added.id := by
  obtain ⟨k, hk⟩ := mem_values.mp hy
  rw [hbooks.id_added]
  exact hreached.countsTo.live_lt hreached.isKeyed hk

theorem mem_schedules_booked (hbooks : Books s x added s') {y : Schedule} (hy : y ∈ s'.schedules) :
    y = added ∨ y ∈ s.schedules := by
  obtain ⟨k, hk⟩ := mem_values.mp hy
  rw [hbooks.get_live] at hk
  split at hk
  · exact Or.inl (Option.some.inj hk).symm
  · exact Or.inr (mem_values.mpr ⟨k, hk⟩)

/-- With the same priority the id decides. -/
theorem ranksAbove_booked (hreached : s.Reached) (hbooks : Books s x added s')
    (hpriority : ∀ y ∈ s.schedules, y.priority ≤ added.priority) :
    ∀ y ∈ s'.schedules, y ≠ added → added.RanksAbove y := by
  intro y hy hne
  have hold := (mem_schedules_booked hbooks hy).resolve_left hne
  rcases Int64.lt_or_eq_of_le (hpriority y hold) with hlt | heq
  · exact Or.inl hlt
  · exact Or.inr ⟨heq, id_lt_of_stored hreached hbooks hold⟩

theorem isKeyed_booked (hreached : s.Reached) (hbooks : Books s x added s') : s'.IsKeyed := by
  intro id y hy
  rw [hbooks.get_live] at hy
  split at hy
  · next hid => rw [← Option.some.inj hy, hid]
  · exact hreached.isKeyed id y hy

/-- A recording is booked by hand in a store whose ids have not come to their end. It is in use
then, has a priority for single recordings, and ranks above all others. So it is recorded in every
plan of schedules in use, if there is a tuner at all. -/
theorem manual_booking_wins (catalog : Catalog) (docket : Docket) (r : Request)
    (hreached : s.Reached) (hready : docket.isInitialized = true) (hmanual : r.IsManual s)
    (hrun : s.run (r.book catalog docket) = (.ok added, s')) :
    s'.schedule? added.id = some added ∧ added.priority.isEpisodeBand = true ∧
      (∀ y ∈ s'.schedules, y ≠ added → added.RanksAbove y) ∧
      ∀ (tuners : Nat) (plan : List Schedule), 1 ≤ tuners → plan.Nodup → plan ⊆ s'.schedules →
        added ∈ plan → added ∉ Conflict.among tuners plan := by
  obtain ⟨x, hbooks, hx⟩ := books_of_request hmanual hrun
  have hadded : added.priority = (docket.newPriority s.schedules).value := by
    rw [hbooks.numbered, ← hx]
  have hband : added.priority.isEpisodeBand = true := by
    rw [hadded]
    exact decide_eq_true (docket.newPriority s.schedules).floor_le
  have hranks := ranksAbove_booked hreached hbooks fun y hy => by
    rw [hadded]
    exact le_newPriority hready hy
  refine ⟨hbooks.stored, hband, hranks, fun tuners plan htuners hplan hsub _ => ?_⟩
  have hids : (plan.map (·.id)).Nodup := by
    have hall := (isKeyed_booked hreached hbooks).ids_schedules
    exact List.Nodup.map_on (fun y hy z hz heq =>
      List.inj_on_of_nodup_map hall (hsub hy) (hsub hz) heq) hplan
  refine Conflict.not_mem_within_of_best hids (fun y hy habove => ?_) htuners
  by_cases hsame : y = added
  · exact Schedule.RanksAbove.irrefl added (hsame ▸ habove)
  · exact (hranks y (hsub hy) hsame).asymm habove

/-- A stored schedule has the highest priority of all and the id 4. The booking has the same
priority and the id 5. -/
theorem manual_booking_wins_highest :
    let archive := Archive.ofSnapshot { schedules := [.timed 4 1 20 30 .highest] }
    let s := ({ archive } : Store).edit (.load 0)
    let catalog :=
      (Catalog.putInput {} ⟨"tuner", 1, true⟩).putChannel ⟨3, "tuner", "Three", none⟩
    let docket : Docket := { isInitialized := true }
    let booked := s.run (Request.book catalog docket (.range 3 ⟨20, 50⟩))
    let added : Schedule := .timed 5 3 20 50 .highest
    s.Reached ∧ docket.isInitialized = true ∧ (Request.range 3 ⟨20, 50⟩).IsManual s ∧
      booked = (.ok added, booked.2) ∧ booked.2.schedule? 5 = some added ∧
      added.RanksAbove (.timed 4 1 20 30 .highest) ∧
      added ∉ Conflict.among 1 [.timed 4 1 20 30 .highest, added] := by
  intro archive s catalog docket booked added
  have hrows : Store.RowsBelow archive := by
    unfold Store.RowsBelow
    decide +kernel
  have hreached : s.Reached :=
    .edit (.load 0) (.start archive _ hrows) fun x hx => absurd hx List.not_mem_nil
  have hok : booked.1 = .ok added := by decide +kernel
  have hrun : booked = (.ok added, booked.2) := by rw [← hok]
  have hstored : booked.2.schedules = [.timed 4 1 20 30 .highest, added] := by decide +kernel
  obtain ⟨hin, -, hranks, hwins⟩ :=
    manual_booking_wins catalog docket (.range 3 ⟨20, 50⟩) hreached rfl trivial hrun
  rw [hstored] at hranks hwins
  exact ⟨hreached, rfl, trivial, hrun, hin, hranks _ (by decide) (by decide),
    hwins 1 _ (by decide) (by decide) (List.Subset.refl _) (by decide)⟩

end Booking

end Timeshift
