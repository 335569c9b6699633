import Timeshift.Dispatch
import Timeshift.Proofs.Admission.Holding
import Timeshift.Proofs.Store.Honest

/-!
# What parcels and events say of a schedule

Every schedule has a home, the input that its copies are routed to. To the desk there a parcel
says that a schedule may be held from now on, or that it is not. The parcels of an event end with
the last word on every schedule that the event speaks of.
-/

namespace Timeshift

open Admission (Word Message mayHold mayHold_append mayHold_silent held_of_mayHold take_of_mayHold)

variable {home : ScheduleId → InputId} {id : ScheduleId}

/-! ## Parcels -/

namespace Parcel

variable {p : Parcel} {catalog : Catalog}

/-- The input whose desk the parcel is meant for. -/
def address (home : ScheduleId → InputId) : Parcel → InputId
  | .offer s | .update s | .remove s => home s.id
  | .align input _ => input

/-- The copies in the parcel go to their home. -/
def IsRouted (home : ScheduleId → InputId) (catalog : Catalog) : Parcel → Prop
  | .offer s | .update s | .remove s => Dispatch.route catalog s = home s.id
  | .align input pending => ∀ s ∈ pending, home s.id = input

instance : (p : Parcel) → Decidable (p.IsRouted home catalog)
  | .offer _ | .update _ | .remove _ => inferInstanceAs (Decidable (_ = _))
  | .align _ pending => inferInstanceAs (Decidable (∀ s ∈ pending, _ = _))

/-- What the parcel says of a schedule to the desk at its home. -/
def wordOn (home : ScheduleId → InputId) (id : ScheduleId) : Parcel → Option Word
  | .offer s => if s.id = id ∧ s.isNotStarted = true then some .take else none
  | .update s => if s.id = id then some .take else none
  | .remove s => if s.id = id then some .drop else none
  | .align input pending => if home id = input then (Message.reconcile pending).wordOn id else none

theorem input_eq_address (h : p.IsRouted home catalog) : p.input catalog = p.address home := by
  cases p with
  | offer s | update s | remove s => exact h
  | align input pending => rfl

theorem address_of_wordOn {w : Word} (h : p.wordOn home id = some w) :
    p.address home = home id := by
  cases p with
  | offer s =>
    simp only [wordOn, Option.ite_none_right_eq_some] at h
    exact congrArg home h.1.1
  | update s | remove s =>
    simp only [wordOn, Option.ite_none_right_eq_some] at h
    exact congrArg home h.1
  | align input pending =>
    simp only [wordOn, Option.ite_none_right_eq_some] at h
    exact h.1.symm

/-- To other desks a parcel can only say that a schedule is not held. -/
theorem wordOn_message (h : p.IsRouted home catalog)
    (hoffer : ∀ s, p = .offer s → s.isNotStarted = true) (id : ScheduleId) :
    p.message.wordOn id = p.wordOn home id ∨ p.message.wordOn id = some .drop := by
  cases p with
  | offer s =>
    left
    simp [message, Message.wordOn, wordOn, hoffer s rfl]
  | update s | remove s => exact Or.inl rfl
  | align input pending =>
    by_cases hhome : home id = input
    · left
      simp [message, wordOn, hhome]
    · right
      have hnone : ¬ pending.any (·.id = id) = true := by
        intro hany
        obtain ⟨s, hs, hid⟩ := List.any_eq_true.mp hany
        exact hhome (of_decide_eq_true hid ▸ h s hs)
      rw [message, Message.wordOn, if_neg hnone]

end Parcel

/-! ## Events -/

/-- What the control loop has to deliver after an event, before it makes a round. -/
def StoreEvent.parcels (e : StoreEvent) : List Parcel := (Dispatch.parcelsFor e).getD []

/-- What parcels say of a schedule, in order. -/
def wordsOn (home : ScheduleId → InputId) (id : ScheduleId) (parcels : List Parcel) :
    List (Option Word) := parcels.map (·.wordOn home id)

/-- What events lead the control loop to say of a schedule, in order. -/
def eventWords (home : ScheduleId → InputId) (id : ScheduleId) (es : List StoreEvent) :
    List (Option Word) := wordsOn home id (es.flatMap (·.parcels))

theorem eventWords_append (es fs : List StoreEvent) :
    eventWords home id (es ++ fs) = eventWords home id es ++ eventWords home id fs := by
  simp [eventWords, wordsOn]

theorem eventWords_singleton (e : StoreEvent) :
    eventWords home id [e] = wordsOn home id e.parcels := by
  simp [eventWords]

theorem wordsOn_parcelsOf (s : Schedule) : wordsOn home id (Dispatch.parcelsOf s) =
    if s.isPending then
      [if s.id = id then some .take else none,
        if s.id = id ∧ s.isNotStarted = true then some .take else none]
    else [if s.id = id then some .drop else none] := by
  rw [Dispatch.parcelsOf]
  split <;> rfl

theorem parcels_silent {e : StoreEvent} (h : e.wordOn id = none) :
    ∀ w ∈ wordsOn home id e.parcels, w = none := by
  have hcopies : ∀ l : List Schedule, (copyIn l id).map some = none → ∀ s ∈ l, s.id ≠ id :=
    fun l hl => copyIn_eq_none.mp (Option.map_eq_none_iff.mp hl)
  intro w hw
  obtain ⟨p, hp, rfl⟩ := List.mem_map.mp hw
  cases e with
  | added l =>
    obtain ⟨s, hs, rfl⟩ := List.mem_map.mp hp
    simp [Parcel.wordOn, hcopies l h s hs]
  | removed l =>
    obtain ⟨s, hs, rfl⟩ := List.mem_map.mp hp
    have hne : s.id ≠ id := by
      rintro rfl
      have hany : l.any (·.id = s.id) = true :=
        List.any_eq_true.mpr ⟨s, hs, decide_eq_true rfl⟩
      simp [StoreEvent.wordOn, hany] at h
    simp [Parcel.wordOn, hne]
  | changed l =>
    obtain ⟨s, hs, hparcel⟩ := List.mem_flatMap.mp hp
    have hne := hcopies l h s hs
    rw [Dispatch.parcelsOf] at hparcel
    split at hparcel
    · rcases List.mem_pair.mp hparcel with rfl | rfl <;> simp [Parcel.wordOn, hne]
    · rw [List.mem_singleton.mp hparcel]
      simp [Parcel.wordOn, hne]
  | loaded | rulesAdded | rulesRemoved | rulesChanged => exact absurd hp List.not_mem_nil

theorem eventWords_silent {es : List StoreEvent} (h : AreSilent es id) :
    ∀ w ∈ eventWords home id es, w = none := by
  intro w hw
  obtain ⟨p, hp, rfl⟩ := List.mem_map.mp hw
  obtain ⟨e, he, hparcel⟩ := List.mem_flatMap.mp hp
  exact parcels_silent (h e he).2 _ (List.mem_map_of_mem hparcel)

/-! ## The last word -/

theorem not_mayHold_changed {held : Prop} {l : List Schedule} {s : Schedule}
    (hcopy : copyIn l id = some s) (hs : s.isPending = false) :
    ¬ mayHold held (wordsOn home id (l.flatMap Dispatch.parcelsOf)) := by
  induction l generalizing held with
  | nil => cases hcopy
  | cons x rest ih =>
    rw [List.flatMap_cons, wordsOn, List.map_append, mayHold_append]
    rw [copyIn_cons, Option.or_eq_some_iff] at hcopy
    rcases hcopy with hlater | ⟨hnone, hlast⟩
    · exact ih hlater
    · obtain ⟨hid, hsome⟩ := Option.ite_none_right_eq_some.mp hlast
      obtain rfl := Option.some.inj hsome
      have hsilent : ∀ w ∈ wordsOn home id (rest.flatMap Dispatch.parcelsOf), w = none :=
        parcels_silent (e := .changed rest) (Option.map_eq_none_iff.mpr hnone)
      have hfirst : wordsOn home id (Dispatch.parcelsOf x) = [some .drop] := by
        rw [wordsOn_parcelsOf, hs]
        simp [hid]
      rw [← wordsOn, ← wordsOn, mayHold_silent hsilent, hfirst]
      exact fun hdropped => hdropped

theorem not_mayHold_removed {held : Prop} {l : List Schedule} (h : l.any (·.id = id) = true) :
    ¬ mayHold held (wordsOn home id (l.map .remove)) := by
  obtain ⟨s, hs, hid⟩ := List.any_eq_true.mp h
  intro hheld
  have hwords : ∀ w ∈ wordsOn home id (l.map Parcel.remove), w ≠ some .take := by
    intro w hw
    obtain ⟨p, hp, rfl⟩ := List.mem_map.mp hw
    obtain ⟨x, -, rfl⟩ := List.mem_map.mp hp
    rw [Parcel.wordOn]
    split <;> simp
  have hsilent := (held_of_mayHold hwords hheld).2 ((Parcel.remove s).wordOn home id)
    (List.mem_map_of_mem (List.mem_map_of_mem hs))
  simp [Parcel.wordOn, of_decide_eq_true hid] at hsilent

namespace Store

variable {s s' : Store} {es : List StoreEvent}

theorem isPending_of_isNotStarted {x : Schedule} (h : x.isNotStarted = true) :
    x.isPending = true := by
  have hstate : x.state = .notStarted := by simpa [Schedule.isNotStarted] using h
  rw [Schedule.isPending, hstate]
  rfl

/-- The schedule is in use, and waits or is being recorded. -/
def Wants (s : Store) (id : ScheduleId) : Prop :=
  ∃ x, s.live[id]? = some x ∧ x.isPending = true

instance : Decidable (s.Wants id) :=
  inferInstanceAs (Decidable (∃ x ∈ s.live[id]?, x.isPending = true))

/-- The events give up whatever is wanted no longer. -/
def Settles (home : ScheduleId → InputId) (s : Store) (es : List StoreEvent) (s' : Store) : Prop :=
  ∀ (id : ScheduleId) (held : Prop), ¬ s'.Wants id → (¬ s.Wants id → ¬ held) →
    ¬ mayHold held (eventWords home id es)

theorem wants_congr (h : s'.live[id]? = s.live[id]?) : s'.Wants id ↔ s.Wants id := by
  simp only [Wants, h]

theorem exists_lastSpeaking (h : ¬ AreSilent es id) :
    ∃ pre e post, es = pre ++ e :: post ∧ ¬ e.IsSilent id ∧ AreSilent post id := by
  induction es with
  | nil => exact absurd (List.forall_mem_nil _) h
  | cons e rest ih =>
    by_cases hrest : AreSilent rest id
    · exact ⟨[], e, rest, rfl, fun he => h (areSilent_cons.mpr ⟨he, hrest⟩), hrest⟩
    · obtain ⟨pre, x, post, rfl, hx, hpost⟩ := ih hrest
      exact ⟨e :: pre, x, post, rfl, hx, hpost⟩

/-- The last word on a schedule that is not wanted is that it is given up. -/
theorem not_mayHold_of_speaking (htrue : AreTrue es s'.live) (hspeaks : ¬ AreSilent es id)
    (hload : .loaded ∉ es) (hadd : ∀ l, .added l ∉ es) (hid : ¬ s'.Wants id) (held : Prop) :
    ¬ mayHold held (eventWords home id es) := by
  obtain ⟨pre, e, post, rfl, he, hpost⟩ := exists_lastSpeaking hspeaks
  have hmem : e ∈ pre ++ e :: post := List.mem_append_right pre List.mem_cons_self
  obtain ⟨word, hword⟩ : ∃ word, e.wordOn id = some word := by
    refine Option.ne_none_iff_exists'.mp fun hnone => he ⟨?_, hnone⟩
    rintro rfl
    exact hload hmem
  have hlive := htrue pre e post id word rfl hword hpost
  rw [eventWords_append, ← List.singleton_append, eventWords_append, eventWords_singleton,
    mayHold_append, mayHold_append, mayHold_silent (eventWords_silent hpost)]
  cases e with
  | added l => exact absurd hmem (hadd l)
  | removed l =>
    refine not_mayHold_removed ?_
    by_contra hno
    simp [StoreEvent.wordOn, hno] at hword
  | changed l =>
    obtain ⟨x, hx, rfl⟩ := Option.map_eq_some_iff.mp hword
    refine not_mayHold_changed hx ?_
    by_contra hpending
    exact hid ⟨x, hlive, by simpa using hpending⟩
  | loaded | rulesAdded | rulesRemoved | rulesChanged => cases hword

theorem settles_of_plain (h : Tells s es s') (hload : .loaded ∉ es) (hadd : ∀ l, .added l ∉ es) :
    Settles home s es s' := by
  intro id held hid hheld
  by_cases hsilent : AreSilent es id
  · rw [mayHold_silent (eventWords_silent hsilent)]
    exact hheld (mt (wants_congr (h.silent id hsilent)).mpr hid)
  · exact not_mayHold_of_speaking h.isTrue hsilent hload hadd hid held

/-- New schedules under new ids: nothing was held of them. -/
theorem settles_of_added {l : List Schedule} (h : Tells s es s') (hes : ∀ e ∈ es, e = .added l)
    (hnodup : (l.map (·.id)).Nodup) (hnew : ∀ x ∈ l, x.id ∉ s.live) : Settles home s es s' := by
  intro id held hid hheld hmay
  by_cases hsilent : AreSilent es id
  · rw [mayHold_silent (eventWords_silent hsilent)] at hmay
    exact hheld (mt (wants_congr (h.silent id hsilent)).mpr hid) hmay
  obtain ⟨pre, e, post, rfl, he, hpost⟩ := exists_lastSpeaking hsilent
  obtain rfl := hes e (List.mem_append_right pre List.mem_cons_self)
  obtain ⟨x, hx⟩ : ∃ x, copyIn l id = some x := by
    refine Option.ne_none_iff_exists'.mp fun hnone => he ⟨StoreEvent.noConfusion, ?_⟩
    exact Option.map_eq_none_iff.mpr hnone
  obtain ⟨hxl, rfl⟩ := id_of_copyIn hx
  have hlive : s'.live[x.id]? = some x :=
    h.isTrue pre (.added l) post x.id (some x) rfl (Option.map_eq_some_iff.mpr ⟨x, hx, rfl⟩) hpost
  rcases take_of_mayHold hmay with hbefore | htake
  · refine hheld (fun ⟨y, hy, _⟩ => hnew x hxl (mem_of_get hy)) hbefore
  · obtain ⟨p, hp, hword⟩ := List.mem_map.mp htake
    obtain ⟨e, he, hparcel⟩ := List.mem_flatMap.mp hp
    obtain rfl := hes e he
    obtain ⟨y, hy, rfl⟩ := List.mem_map.mp hparcel
    simp only [Parcel.wordOn, Option.ite_none_right_eq_some] at hword
    obtain ⟨⟨hyid, hwaits⟩, -⟩ := hword
    obtain rfl : y = x := List.inj_on_of_nodup_map hnodup hy hxl hyid
    exact hid ⟨y, hlive, isPending_of_isNotStarted hwaits⟩

/-- The ids that the call gives out are new. A store that is loaded again may forget anything. -/
def Edit.IsNew (s : Store) : Edit → Prop
  | .load _ => False
  | .add l =>
    ((number s.scheduleIds l).1.map (·.id)).Nodup ∧ ∀ x ∈ (number s.scheduleIds l).1, x.id ∉ s.live
  | _ => True

instance : (e : Edit) → Decidable (e.IsNew s)
  | .load _ => inferInstanceAs (Decidable False)
  | .add _ => inferInstanceAs (Decidable (_ ∧ ∀ x ∈ _, _))
  | .update _ | .changeState _ _ | .remove _ _ | .addRule _ | .updateRule _ | .removeRule _
  | .addRecorded _ => inferInstanceAs (Decidable True)

theorem settles_edit {e : Edit} (hnew : e.IsNew s) :
    ∃ es, Tells s es (s.edit e) ∧ Settles home s es (s.edit e) := by
  obtain ⟨es, hes, hkind⟩ := tellsOnly_edit s e
  cases e with
  | load now => exact hnew.elim
  | add l =>
    obtain ⟨es, hes, hadded⟩ := tells_add s l
    exact ⟨es, hes, settles_of_added hes hadded hnew.1 hnew.2⟩
  | _ =>
    exact ⟨es, hes, settles_of_plain hes (fun h => hkind _ h) fun l h => hkind _ h⟩

end Store

end Timeshift
