import Timeshift.Proofs.Admission.Settled

/-!
# Messages that ask for a pass

A message that changes what is due asks for a pass. Two kinds of change ask for none: a
recording follows a new copy, and a schedule comes to wait beside its recording. A desk without
such a change, and without a pass to make, has nothing left to decide.
-/

namespace Timeshift

namespace Admission

variable {a b c : Admission} {catalog : Catalog} {now : Instant} {tuners : Nat} {s : Schedule}
  {id : ScheduleId} {t : Running}

/-! ## Desks with the same line -/

/-- The same schedules are on the books, with at least the same ones being ended, and the same
ones wait for a tuner. What waits beside its own recording does not count. -/
structure SameLine (a b : Admission) : Prop where
  inputId : b.inputId = a.inputId
  lead : b.lead = a.lead
  active : ∀ id : ScheduleId, id ∈ b.active ↔ id ∈ a.active
  stopping : ∀ (id : ScheduleId) (t : Running), a.active[id]? = some t → t.isStopping = true →
    ∃ u, b.active[id]? = some u ∧ u.isStopping = true
  waiting : ∀ id : ScheduleId, id ∉ a.active → b.waiting[id]? = a.waiting[id]?

namespace SameLine

theorem refl (a : Admission) : SameLine a a :=
  ⟨rfl, rfl, fun _ => Iff.rfl, fun _ t ht hstopping => ⟨t, ht, hstopping⟩, fun _ _ => rfl⟩

theorem trans (h : SameLine a b) (h' : SameLine b c) : SameLine a c where
  inputId := h'.inputId.trans h.inputId
  lead := h'.lead.trans h.lead
  active id := (h'.active id).trans (h.active id)
  stopping id t ht hstopping := by
    obtain ⟨u, hu, hstill⟩ := h.stopping id t ht hstopping
    exact h'.stopping id u hu hstill
  waiting id hoff := (h'.waiting id (mt (h.active id).mp hoff)).trans (h.waiting id hoff)

theorem dismiss (h : id ∈ a.active ∨ id ∉ a.waiting) : SameLine a (a.dismiss id) :=
  { refl a with
    waiting := fun k hoff => by
      rw [Admission.dismiss, get_erase]
      split
      · next hid =>
        subst hid
        exact (Std.TreeMap.getElem?_eq_none (h.resolve_left hoff)).symm
      · rfl }

theorem enqueue (h : s.id ∈ a.active) : SameLine a (a.enqueue s) :=
  { refl a with
    waiting := fun k hoff => by
      rw [Admission.enqueue, get_insert, if_neg]
      rintro rfl
      exact hoff h }

/-- A recording on the books may be changed, unless it is being ended: then it goes on ending. -/
theorem setActive {t u : Running} (ht : a.active[id]? = some t)
    (hstopping : t.isStopping = true → u.isStopping = true) :
    SameLine a { a with active := a.active.insert id u } :=
  { refl a with
    active := fun k => by
      simp only [Std.TreeMap.mem_insert, Std.LawfulEqOrd.compare_eq_iff_eq]
      refine ⟨?_, Or.inr⟩
      rintro (rfl | hk)
      · exact mem_of_get ht
      · exact hk
    stopping := fun k x hx hends => by
      simp only [get_insert]
      split
      · next hid =>
        subst hid
        obtain rfl := Option.some.inj (ht.symm.trans hx)
        exact ⟨u, rfl, hstopping hends⟩
      · exact ⟨x, hx, hends⟩ }

theorem tellEnd (h : a.IsKeyed) (ht : a.active[id]? = some t) (order : Order) :
    SameLine a (a.tellEnd t order).1 :=
  setActive ((h.active id t ht).symm ▸ ht) fun _ => rfl

theorem dueNow (h : SameLine a b) (ha : a.IsKeyed) (hb : b.IsKeyed) (now : Instant) :
    b.dueNow now = a.dueNow now := by
  refine dueNow_eq hb (sorted_dueNow a now) (isLine_dueNow ha now).ids fun s => ?_
  rw [mem_dueNow ha, isDue_congr h.lead (h.active s.id)]
  refine and_congr_left fun hdue => ?_
  rw [h.waiting s.id (not_mem_active_of_isDue hdue)]

end SameLine

/-- Every recording that is still on the books has kept its priority, and ends no later. -/
def KeepsPace (a b : Admission) : Prop :=
  ∀ t ∈ a.active.values, ∀ u ∈ b.active.values, u.schedule.id = t.schedule.id →
    u.schedule.ends ≤ t.schedule.ends ∧ u.schedule.priority = t.schedule.priority

instance : Decidable (KeepsPace a b) :=
  inferInstanceAs (Decidable (∀ t ∈ a.active.values, ∀ u ∈ b.active.values,
    u.schedule.id = t.schedule.id →
      u.schedule.ends ≤ t.schedule.ends ∧ u.schedule.priority = t.schedule.priority))

theorem HoldsUp.keep (h : HoldsUp tuners a s) (ha : a.IsKeyed) (hb : b.IsKeyed)
    (hsame : SameLine a b) (hpace : KeepsPace a b) : HoldsUp tuners b s := by
  -- The books are by id, so every recording of one desk has a counterpart at the other.
  have hthere : ∀ t ∈ a.active.values, ∃ u ∈ b.active.values, u.schedule.id = t.schedule.id := by
    intro t ht
    have hon : t.schedule.id ∈ a.active := mem_of_get ((mem_values_active ha).mp ht)
    obtain ⟨u, hu⟩ := mem_iff_get.mp ((hsame.active _).mpr hon)
    exact ⟨u, mem_values.mpr ⟨_, hu⟩, hb.active _ u hu⟩
  have hback : ∀ u ∈ b.active.values, ∃ t ∈ a.active.values, u.schedule.id = t.schedule.id := by
    intro u hu
    have hon : u.schedule.id ∈ b.active := mem_of_get ((mem_values_active hb).mp hu)
    obtain ⟨t, ht⟩ := mem_iff_get.mp ((hsame.active _).mp hon)
    exact ⟨t, mem_values.mpr ⟨_, ht⟩, (ha.active _ t ht).symm⟩
  rcases h with hends | ⟨hfull, t, ht, hstopping⟩
  · left
    obtain ⟨t, ht, hby⟩ := List.any_eq_true.mp hends
    obtain ⟨u, hu, hid⟩ := hthere t ht
    refine List.any_eq_true.mpr ⟨u, hu, decide_eq_true ?_⟩
    exact Int64.le_trans (hpace t ht u hu hid).1 (of_decide_eq_true hby)
  · obtain ⟨hmem, hpriority, hleast⟩ := (weakestBelow_iff ha).mp ht
    obtain ⟨u, hu, hends⟩ := hsame.stopping _ t ((mem_values_active ha).mp hmem) hstopping
    have huid : u.schedule.id = t.schedule.id := hb.active _ u hu
    have humem : u ∈ b.active.values := mem_values.mpr ⟨_, hu⟩
    have huprio := (hpace t hmem u humem huid).2
    have hsize : a.active.size ≤ b.active.size :=
      size_le_of_keys fun id => (hsame.active id).mpr
    refine Or.inr ⟨Nat.le_trans hfull hsize, u, ?_, hends⟩
    refine (weakestBelow_iff hb).mpr ⟨humem, huprio ▸ hpriority, fun v hv hbelow => ?_⟩
    obtain ⟨x, hx, hid⟩ := hback v hv
    have hprio := (hpace x hx v hv hid).2
    have hle := hleast x hx (hprio ▸ hbelow)
    rw [Schedule.rankLE_iff, Schedule.RanksAbove] at hle ⊢
    rwa [huid, huprio, hid, hprio]

theorem IsDecided.keep (h : IsDecided catalog now a) (ha : a.IsKeyed) (hb : b.IsKeyed)
    (hsame : SameLine a b) (hpace : KeepsPace a b)
    (hbeside : ∀ s ∈ b.waiting.values, s.id ∈ b.active → now < s.ends) :
    IsDecided catalog now b where
  lasts id s hs := by
    have hid : s.id = id := hb.waiting id s hs
    by_cases hon : id ∈ b.active
    · exact hbeside s (mem_values.mpr ⟨id, hs⟩) (hid ▸ hon)
    · exact h.lasts id s ((hsame.waiting id (mt (hsame.active id).mpr hon)) ▸ hs)
  heldUp s hs := by
    rw [hsame.dueNow ha hb] at hs
    rw [hsame.inputId]
    exact (h.heldUp s hs).keep ha hb hsame hpace

/-! ## Steps without a pass -/

/-- Without a pass to make, there was none to make before, and the line is the same. -/
def Heeds (a b : Admission) : Prop := b.passDue = false → a.passDue = false ∧ SameLine a b

namespace Heeds

theorem refl (a : Admission) : Heeds a a := fun h => ⟨h, .refl a⟩

theorem trans (h : Heeds a b) (h' : Heeds b c) : Heeds a c := by
  intro hc
  obtain ⟨hb, hbc⟩ := h' hc
  obtain ⟨ha, hab⟩ := h hb
  exact ⟨ha, hab.trans hbc⟩

theorem of_due (h : b.passDue = true) : Heeds a b := fun hb => absurd hb (by simp [h])

theorem of_same (h : SameLine a b) (hdue : b.passDue = a.passDue) : Heeds a b :=
  fun hb => ⟨hdue ▸ hb, h⟩

theorem forEach {step : Admission → ScheduleId → Turn}
    (hstep : ∀ (a : Admission) (id : ScheduleId), a.IsKeyed →
      (step a id).1.IsKeyed ∧ Heeds a (step a id).1)
    (ids : List ScheduleId) (h : a.IsKeyed) : Heeds a (forEach step ids a).1 := by
  induction ids generalizing a with
  | nil => exact refl a
  | cons id rest ih => exact (hstep a id h).2.trans (ih (hstep a id h).1)

end Heeds

theorem heeds_handleAdd (a : Admission) (s : Schedule) : Heeds a (a.handleAdd s).1 := by
  rw [handleAdd]
  split
  · exact .refl a
  · exact .of_due rfl

theorem heeds_handleRemove (h : a.IsKeyed) (id : ScheduleId) : Heeds a (a.handleRemove id).1 := by
  simp only [handleRemove]
  split
  · next t ht =>
    have hdismiss : SameLine a (a.dismiss id) := .dismiss (Or.inl (mem_of_get ht))
    exact .of_same (hdismiss.trans (.tellEnd (h.dismiss id) ht .cancel)) rfl
  · split
    · exact .of_due rfl
    · next hnot => exact .of_same (.dismiss (Or.inr (mt Std.TreeMap.contains_iff_mem.mpr hnot))) rfl

theorem heeds_handleUpdate (h : a.IsKeyed) (now : Instant) (s : Schedule) :
    Heeds a (a.handleUpdate now s).1 := by
  rw [handleUpdate]
  split
  · exact .of_due rfl
  · split
    · exact .refl a
    · next t ht =>
      split
      · have hbeside : SameLine a (a.enqueue s) := .enqueue (mem_of_get ht)
        exact .of_same (hbeside.trans (.tellEnd (h.enqueue s) ht .cancel)) rfl
      · exact .of_same (.setActive ht id) rfl

theorem heeds_reconcileOne (h : a.IsKeyed) (now : Instant)
    (pending : Std.TreeMap ScheduleId Schedule) (id : ScheduleId) :
    Heeds a (a.reconcileOne now pending id).1 := by
  rw [reconcileOne]
  split
  · exact heeds_handleRemove h id
  · split
    · exact heeds_handleUpdate h now _
    · exact .refl a

theorem heeds_handleFinished (a : Admission) (id : ScheduleId) (seq : Nat) (outcome : Outcome) :
    Heeds a (a.handleFinished id seq outcome).1 := by
  rw [handleFinished]
  split
  · exact .refl a
  · split
    · exact .of_due rfl
    · exact .refl a

theorem heeds_handleStopTask (h : a.IsKeyed) (id : ScheduleId) :
    Heeds a (a.handleStopTask id).1 := by
  rw [handleStopTask]
  split
  · exact .refl a
  · next t ht => exact .of_same (.tellEnd h ht .stop) rfl

namespace Occasion

/-- The desk makes a pass, of its own or because it is asked for its view. -/
def makesPass (m : Occasion) (a : Admission) : Bool :=
  match m.move with
  | .pass => true
  | .message (.askView _) => a.passDue
  | _ => false

/-- The same moment, when a message comes. -/
def hearing (m : Occasion) (message : Message) : Occasion := { m with move := .message message }

end Occasion

theorem heeds_handle (h : a.IsKeyed) (m : Occasion) (message : Message)
    (hfree : (m.hearing message).makesPass a = false) : Heeds a ((m.hearing message).step a).1 := by
  change Heeds a (a.handle m.catalog m.now message).1
  cases message with
  | add s => exact heeds_handleAdd a s
  | remove id => exact heeds_handleRemove h id
  | update s => exact heeds_handleUpdate h m.now s
  | reconcile pending =>
    refine .forEach (fun b id hb => ⟨?_, heeds_reconcileOne hb m.now _ id⟩) _ h
    exact (isQuiet_reconcileOne m.now _ b id hb).keyed
  | rebuild => exact .of_due rfl
  | finished id seq outcome => exact heeds_handleFinished a id seq outcome
  | stopTask id => exact heeds_handleStopTask h id
  | stop => exact .refl a
  | askView asker =>
    have hdue : a.passDue = false := hfree
    rw [handle, passIfDue, hdue]
    exact .refl a

/-- No message of the course makes the desk pass. -/
def isPassFree (m : Occasion) : List Message → Admission → Bool
  | [], _ => true
  | message :: rest, a =>
    !(m.hearing message).makesPass a && isPassFree m rest ((m.hearing message).step a).1

theorem heeds_run (h : a.IsKeyed) (m : Occasion) (since : List Message)
    (hfree : isPassFree m since a = true) : Heeds a (run a (since.map m.hearing)) := by
  induction since generalizing a with
  | nil => exact .refl a
  | cons message rest ih =>
    simp only [isPassFree, Bool.and_eq_true, Bool.not_eq_true'] at hfree
    exact (heeds_handle h m message hfree.1).trans (ih (isKeyed_step _ h) hfree.2)

theorem Occasion.step_makesPass {m : Occasion} (h : m.makesPass a = true) :
    (m.step a).1 = (a.pass m.catalog m.now).1 := by
  obtain ⟨catalog, now, move⟩ := m
  cases move with
  | pass => rfl
  | shutdown => cases h
  | message message =>
    cases message with
    | askView asker =>
      have hdue : a.passDue = true := h
      simp only [step, handle, passIfDue, hdue, if_true]
    | _ => cases h

/-! ## Nothing is left to decide -/

/-- A desk has made a pass, and messages have come at the same moment until no pass is due. If no
recording has come to end later or got another priority meanwhile, and nothing that has ended
waits beside its recording, then another pass has no effect. -/
theorem nothing_left_to_decide (inputId : InputId) (lead : Int64) (before : List Occasion)
    (last : Occasion) (since : List Message) :
    let a := run { inputId, lead } before
    let b := (last.step a).1
    let c := run b (since.map last.hearing)
    last.makesPass a = true → isPassFree last since b = true → c.passDue = false →
      KeepsPace b c → (∀ s ∈ c.waiting.values, s.id ∈ c.active → last.now < s.ends) →
      (c.pass last.catalog last.now).2 = [] := by
  intro a b c hpass hfree hdue hpace hbeside
  have ha : a.IsKeyed := (isKeyed_run inputId lead before).1
  have hb : b.IsKeyed := isKeyed_step last ha
  have hc : c.IsKeyed :=
    run_induct (P := IsKeyed) (fun _ m h => isKeyed_step m h) hb (since.map last.hearing)
  have hdecided : IsDecided last.catalog last.now b := by
    have hstep : b = (a.pass last.catalog last.now).1 := Occasion.step_makesPass hpass
    rw [hstep]
    exact isDecided_pass ha last.catalog last.now
  have hsame : SameLine b c := (heeds_run hb last since hfree hdue).2
  exact (hdecided.keep hb hc hsame hpace hbeside).pass_nil hc

/-- One of two tuners records, and the next schedule waits for the recording to end. Then the
recording is shortened and told to stop. -/
theorem nothing_left_to_decide_shortened :
    let catalog := ((Catalog.putInput {} ⟨"tuner", 2, true⟩).putChannel
      ⟨7, "tuner", "Seven", none⟩).putChannel ⟨8, "tuner", "Eight", none⟩
    let a := run { inputId := "tuner", lead := 50 }
      [⟨catalog, 0, .message (.add (.timed 1 7 0 100 0))⟩, ⟨catalog, 0, .pass⟩,
        ⟨catalog, 60, .message (.add (.timed 2 8 100 200 0))⟩]
    let last : Occasion := ⟨catalog, 60, .pass⟩
    let since := [.update (.timed 1 7 0 90 0), .askView 0, .stopTask 1]
    let b := (last.step a).1
    let c := run b (since.map last.hearing)
    last.makesPass a = true ∧ isPassFree last since b = true ∧ c.passDue = false ∧
      KeepsPace b c ∧ (∀ s ∈ c.waiting.values, s.id ∈ c.active → last.now < s.ends) ∧
      c.waiting.keys = [2] ∧ c.active.values.map (·.isStopping) = [true] ∧
      (c.pass last.catalog last.now).2 = [] := by
  intro catalog a last since b c
  exact ⟨by decide, by decide, by decide, by decide, by decide, by decide, by decide,
    nothing_left_to_decide "tuner" 50 _ last since (by decide) (by decide) (by decide) (by decide)
      (by decide)⟩

/-- The recording is prolonged instead. It holds the next schedule up no longer, but no pass is
due, and the next schedule waits beside a free tuner. -/
theorem not_decided_after_prolonged :
    let catalog := ((Catalog.putInput {} ⟨"tuner", 2, true⟩).putChannel
      ⟨7, "tuner", "Seven", none⟩).putChannel ⟨8, "tuner", "Eight", none⟩
    let a := run { inputId := "tuner", lead := 50 }
      [⟨catalog, 0, .message (.add (.timed 1 7 0 100 0))⟩, ⟨catalog, 0, .pass⟩,
        ⟨catalog, 60, .message (.add (.timed 2 8 100 200 0))⟩]
    let last : Occasion := ⟨catalog, 60, .pass⟩
    let since := [.update (.timed 1 7 0 150 0)]
    let b := (last.step a).1
    let c := run b (since.map last.hearing)
    last.makesPass a = true ∧ isPassFree last since b = true ∧ c.passDue = false ∧
      startedIds (c.pass last.catalog last.now).2 = [2] := by
  decide

end Admission

end Timeshift
