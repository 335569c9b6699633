import Timeshift.Proofs.Station.Flow

/-!
# What the control loop hears

The store tells what it writes, and the control loop hears of it later. If it has missed events it
aligns all desks instead.
-/

namespace Timeshift

namespace Station

open Admission (Message mayHold mayHold_append mayHold_mono mayHold_silent mayHold_of_suffix
  held_of_mayHold)

variable {home : ScheduleId → InputId} {base t : Traffic} {ps : List Parcel}

namespace Traffic

/-- The store has been written to, and has told its listeners. -/
def write (t : Traffic) (store : Store) (es : List StoreEvent) : Traffic :=
  { t with store := store.passOn, events := es.foldl Broadcast.publish t.events }

/-- What the control loop finds next. -/
def found (t : Traffic) : Received StoreEvent := (t.events.receive t.listener).1

def heard (t : Traffic) : Traffic := { t with events := (t.events.receive t.listener).2 }

end Traffic

namespace Flows

/-! ## Writing -/

theorem follows_write (h : Flows home base ps t) (es : List StoreEvent) :
    Broadcast.Follows t.listener t.events es (es.foldl Broadcast.publish t.events) :=
  Broadcast.follows_publishAll h.sound h.listens es

theorem write (h : Flows home base ps t) {store : Store} {es : List StoreEvent}
    (htells : t.store.Tells es store) (hsettles : t.store.Settles home es store)
    (hstored : ∀ (id : ScheduleId) (x : Schedule),
      store.live[id]? = some x → Dispatch.route t.catalog x = home x.id)
    (hrouted : ∀ p ∈ (t.write store es).coming, p.IsRouted home t.catalog) :
    Flows home base ps (t.write store es) := by
  have hfollows := h.follows_write es
  refine { h with
    keyed := (htells.keyed h.keyed).congr rfl
    told := rfl
    sound := hfollows.sound
    listens := hfollows.listens
    stored := hstored
    routed := fun p hp => ?_
    settled := fun id hid hmissed => ?_
    kept := fun id hid hmay => ?_ }
  · rcases List.mem_append.mp hp with hps | hcoming
    · exact h.routed p (List.mem_append_left _ hps)
    · exact hrouted p hcoming
  · obtain ⟨hbefore, hunheard⟩ := hfollows.upToDate hmissed
    have hcoming : (t.write store es).coming = t.coming ++ es.flatMap (·.parcels) := by
      show ((es.foldl Broadcast.publish t.events).unheard t.listener).flatMap _ = _
      rw [hunheard, List.flatMap_append]
      rfl
    rw [hcoming, ← List.append_assoc, wordsOn, List.map_append, mayHold_append]
    exact hsettles id _ hid fun hgone => h.settled id hgone hbefore
  · obtain ⟨pre, hpre⟩ := hfollows.kept
    have hall : mayHold False (eventWords home id (t.events.kept ++ es)) := by
      rw [← hpre, eventWords_append]
      exact mayHold_of_suffix (List.suffix_append _ _) hmay
    rw [eventWords_append, mayHold_append] at hall
    exact hsettles id _ hid (h.kept id) hall

/-! ## Hearing -/

theorem alignments_routed (h : Flows home base ps t) (inputs : List InputId) :
    ∀ p ∈ Dispatch.alignments t.catalog t.store inputs, p.IsRouted home t.catalog := by
  intro p hp
  obtain ⟨input, -, rfl⟩ := List.mem_map.mp hp
  intro s hs
  obtain ⟨hstate, hroute⟩ := List.mem_filter.mp hs
  obtain ⟨id, hid⟩ := mem_values.mp (List.mem_filter.mp hstate).1
  rw [← h.stored id s hid]
  exact beq_iff_eq.mp hroute

theorem wants_of_mem_withState (h : Flows home base ps t) {s : Schedule}
    (hs : s ∈ t.store.withState [.notStarted, .inProgress]) : t.store.Wants s.id := by
  obtain ⟨hlive, hstate⟩ := List.mem_filter.mp hs
  obtain ⟨id, hid⟩ := mem_values.mp hlive
  refine ⟨s, by rwa [h.keyed id s hid], ?_⟩
  rcases List.mem_pair.mp (List.contains_iff_mem.mp hstate) with hs | hs <;>
    rw [Schedule.isPending, hs] <;> rfl

theorem alignments_settled (h : Flows home base ps t) (id : ScheduleId) (hid : ¬ t.store.Wants id) :
    ¬ mayHold (t.MayHold id)
      (wordsOn home id (Dispatch.alignments t.catalog t.store t.registered.keys)) := by
  let wanted (input : InputId) : List Schedule :=
    (t.store.withState [.notStarted, .inProgress]).filter fun s =>
      Dispatch.route t.catalog s == input
  have hword : ∀ input, (Parcel.align input (wanted input)).wordOn home id =
      if home id = input then some .drop else none := by
    intro input
    have hnone : ¬ (wanted input).any (·.id = id) = true := by
      intro hany
      obtain ⟨s, hs, heq⟩ := List.any_eq_true.mp hany
      obtain rfl := of_decide_eq_true heq
      exact hid (h.wants_of_mem_withState (List.mem_filter.mp hs).1)
    rw [Parcel.wordOn, Message.wordOn, if_neg hnone]
  intro hmay
  have hsilent := held_of_mayHold (fun w hw => ?_) hmay
  · obtain ⟨⟨n, b, hb, hheld⟩, hnone⟩ := hsilent
    have hhome := mem_of_get (h.registered_home hb hheld.concerns)
    have hmem : (Parcel.align (home id) (wanted (home id))).wordOn home id ∈
        wordsOn home id (Dispatch.alignments t.catalog t.store t.registered.keys) :=
      List.mem_map_of_mem (List.mem_map_of_mem (Std.TreeMap.mem_keys.mpr hhome))
    have hdrop := hnone _ hmem
    rw [hword, if_pos rfl] at hdrop
    cases hdrop
  · obtain ⟨p, hp, rfl⟩ := List.mem_map.mp hw
    obtain ⟨input, -, rfl⟩ := List.mem_map.mp hp
    have heq := hword input
    split at heq <;> exact fun htake => by cases heq.symm.trans htake

/-- After missed events all desks are aligned, and the control loop goes on with what is kept. -/
theorem hear (h : Flows home base [] t) :
    match t.found with
    | .event e => Flows home base e.parcels t.heard
    | .missed _ =>
      Flows home base (Dispatch.alignments t.catalog t.store t.registered.keys) t.heard
    | .nothing => Flows home base [] t.heard
    | .gone => False := by
  obtain ⟨hhears, hsame⟩ := Broadcast.receive_spec h.sound h.listens
  have hroutes := h.routed
  have hsettled := h.settled
  have hkept := h.kept
  have halign := h.alignments_settled
  rw [← hsame.kept] at hkept
  simp only [Traffic.coming, Traffic.unheard, Traffic.HasMissed, List.nil_append] at hroutes hsettled
  simp only [Traffic.found, Traffic.heard]
  generalize t.events.receive t.listener = r at hhears hsame hkept
  obtain ⟨r, b⟩ := r
  have hsound := hsame.sound h.sound
  cases hhears with
  | event e _ hup hfirst hup' =>
    rw [hfirst, List.flatMap_cons] at hroutes
    rw [hfirst, List.flatMap_cons] at hsettled
    exact { h with
      sound := hsound
      listens := hsame.listens
      kept := hkept
      routed := hroutes
      settled := fun id hid _ => hsettled id hid hup }
  | missed _ _ hall hrest _ =>
    refine { h with
      sound := hsound
      listens := hsame.listens
      kept := hkept
      routed := fun p hp => ?_
      settled := fun id hid _ hmay => ?_ }
    · rcases List.mem_append.mp hp with hnew | hcoming
      · exact h.alignments_routed _ p hnew
      · simp only [Traffic.coming, Traffic.unheard] at hcoming
        rw [hrest, ← hall] at hcoming
        exact hroutes p hcoming
    · rw [wordsOn, List.map_append, mayHold_append] at hmay
      have hnone := mayHold_mono (halign id hid) hmay
      refine hkept id hid ?_
      simp only [Traffic.coming, Traffic.unheard] at hnone
      rwa [hrest, ← hsame.kept] at hnone
  | nothing hnone hup => exact h

end Flows

end Station

end Timeshift
