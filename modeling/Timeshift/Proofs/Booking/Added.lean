import Timeshift.Booking
import Timeshift.Proofs.Store.Success

/-!
# A booking that succeeds

A booking comes to one schedule that is added: it gets the next id and is in use under it. A booking
that joins no rule differs from the others in its priority alone.
-/

namespace Timeshift

namespace Store

variable {s s' : Store} {l fresh : List Schedule}

/-- The schedules that have been added are those that have got numbers. -/
theorem eq_number_of_add (h : s.run (add l) = (.ok fresh, s')) :
    fresh = (number s.scheduleIds l).1 := by
  rw [add] at h
  split at h
  · next hnone =>
    obtain rfl := Except.ok.inj (congrArg Prod.fst h)
    rw [List.isEmpty_iff.mp hnone]
    rfl
  · split at h
    · cases h
    · rw [run_bind, run_get] at h
      obtain ⟨_, t, hids, h⟩ := run_bind_ok h
      obtain ⟨_, u, -, h⟩ := run_bind_ok h
      exact (Except.ok.inj (congrArg Prod.fst h)).symm

end Store

namespace Booking

variable {s s' : Store} {catalog : Catalog} {docket : Docket} {p : Program} {x added : Schedule}

/-- `x` has been booked: it is in use under the next id, and nothing else has changed. -/
structure Books (s : Store) (x added : Schedule) (s' : Store) : Prop where
  numbered : added = { x with id := s.scheduleIds.next }
  takes : Store.Takes (s.numbered [x]) [added] s'

namespace Books

theorem id_added (h : Books s x added s') : added.id = s.scheduleIds.next := by rw [h.numbered]

theorem get_live (h : Books s x added s') (id : ScheduleId) :
    s'.live[id]? = if id = added.id then some added else s.live[id]? := by
  rw [h.takes.live, Store.get_hold]
  by_cases hid : id = added.id
  · simp [copyIn, hid]
  · simp [copyIn, hid, Ne.symm hid, Store.numbered]

theorem stored (h : Books s x added s') : s'.schedule? added.id = some added := by
  rw [Store.schedule?, h.get_live, if_pos rfl]

end Books

theorem books_of_addOne (h : s.run (addOne x) = (.ok added, s')) : Books s x added s' := by
  rw [addOne] at h
  obtain ⟨fresh, t, hadd, h⟩ := Store.run_bind_ok h
  obtain rfl := Store.eq_number_of_add hadd
  obtain rfl := Except.ok.inj (congrArg Prod.fst h)
  obtain rfl := congrArg Prod.snd h
  exact ⟨rfl, Store.takes_add hadd⟩

theorem run_requireLoaded (s : Store) :
    s.run requireLoaded = (if s.isLoaded then .ok () else .error .notLoaded, s) := by
  rw [requireLoaded, Store.run_bind, Store.run_get]
  dsimp only
  cases s.isLoaded <;> rfl

theorem run_inputFor (s : Store) (catalog : Catalog) (id : ChannelId) :
    s.run (inputFor catalog id) = ((catalog.inputOf? id).elim
      (.error (.notFound "input for channel" (toString id))) .ok, s) := by
  rw [inputFor]
  cases catalog.inputOf? id <;> rfl

/-- A booking is made in a store that is loaded, for a channel of an input. -/
theorem run_inputFor_ok {next : Input → Store.Op Schedule} {id : ChannelId}
    (h : s.run (requireLoaded >>= fun _ => inputFor catalog id >>= next) = (.ok added, s')) :
    ∃ input, catalog.inputOf? id = some input ∧ s.run (next input) = (.ok added, s') := by
  obtain ⟨_, t, hloaded, hrest⟩ := Store.run_bind_ok h
  obtain rfl := congrArg Prod.snd ((run_requireLoaded s).symm.trans hloaded)
  obtain ⟨input, u, hinput, hlast⟩ := Store.run_bind_ok hrest
  rw [run_inputFor] at hinput
  obtain rfl := congrArg Prod.snd hinput
  cases hfound : catalog.inputOf? id with
  | none =>
    rw [hfound] at hinput
    cases congrArg Prod.fst hinput
  | some found =>
    rw [hfound] at hinput
    obtain rfl := Except.ok.inj (congrArg Prod.fst hinput)
    exact ⟨found, rfl, hlast⟩

theorem books_of_addOverriding {overrides : List Schedule}
    (h : s.run (addOverriding catalog p overrides) = (.ok added, s')) :
    ∃ input : Input,
      Books s { Schedule.ofProgram input.id p with priority := overridingPriority overrides }
        added s' := by
  obtain ⟨input, -, h⟩ := run_inputFor_ok h
  exact ⟨input, books_of_addOne h⟩

/-- A program of no recorded show gets a priority above all others. -/
theorem books_of_addProgram (hshow : ruleFor? s p = none)
    (h : s.run (addProgram catalog docket p) = (.ok added, s')) :
    ∃ input : Input, Books s
      { Schedule.ofProgram input.id p with priority := (docket.newPriority s.schedules).value }
      added s' := by
  obtain ⟨input, -, h⟩ := run_inputFor_ok h
  rw [Store.run_bind, Store.run_get] at h
  dsimp only at h
  rw [hshow] at h
  exact ⟨input, books_of_addOne h⟩

theorem books_of_addRange {id : ChannelId} {range : TimeRange}
    (h : s.run (addRange catalog docket id range) = (.ok added, s')) :
    ∃ input : Input, Books s
      { Schedule.ofRange input.id id range with priority := (docket.newPriority s.schedules).value }
      added s' := by
  obtain ⟨input, -, h⟩ := run_inputFor_ok h
  rw [Store.run_bind, Store.run_get] at h
  exact ⟨input, books_of_addOne h⟩

end Booking

end Timeshift
