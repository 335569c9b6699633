import Timeshift.Broadcast
import Timeshift.Proofs.Tables

/-!
# What a listener has yet to hear

A listener hears the events that are kept one by one. If older ones are gone it is told so first,
and then hears all that are kept.
-/

namespace Timeshift

namespace Broadcast

variable {α : Type} {b b' : Broadcast α} {listener : Nat} {e : α}

/-- The events that a listener has yet to hear, as far as they are kept. -/
def unheard (b : Broadcast α) (listener : Nat) : List α :=
  match b.listeners[listener]? with
  | none => []
  | some heard => b.kept.drop (heard - b.forgotten)

/-- Events that the listener has yet to hear are kept no longer. -/
def HasMissed (b : Broadcast α) (listener : Nat) : Prop :=
  ∃ heard, b.listeners[listener]? = some heard ∧ heard < b.forgotten

/-- What is kept has been published, and so has what a listener has heard. -/
structure IsSound (b : Broadcast α) : Prop where
  kept : b.kept.length ≤ b.count
  heard : ∀ listener heard : Nat, b.listeners[listener]? = some heard → heard ≤ b.count

theorem forgotten_le (b : Broadcast α) : b.forgotten ≤ b.count := Nat.sub_le _ _

theorem unheard_subset : ∀ e ∈ b.unheard listener, e ∈ b.kept := by
  intro e he
  rw [unheard] at he
  split at he
  · cases he
  · exact List.mem_of_mem_drop he

/-! ## Hearing -/

theorem IsSound.hear (h : b.IsSound) {heard : Nat} (hle : heard ≤ b.count) (listener : Nat) :
    IsSound { b with listeners := b.listeners.insert listener heard } where
  kept := h.kept
  heard k n hn := by
    rw [get_insert] at hn
    split at hn
    · obtain rfl := Option.some.inj hn
      exact hle
    · exact h.heard k n hn

/-- What a listener finds next, and what it has yet to hear then. -/
inductive Hears (b : Broadcast α) (listener : Nat) : Received α → Broadcast α → Prop where
  | event (e : α) (b' : Broadcast α) : ¬ b.HasMissed listener →
      b.unheard listener = e :: b'.unheard listener → ¬ b'.HasMissed listener →
      Hears b listener (.event e) b'
  | missed (n : Nat) (b' : Broadcast α) : b.unheard listener = b.kept →
      b'.unheard listener = b.kept → ¬ b'.HasMissed listener → Hears b listener (.missed n) b'
  | nothing : b.unheard listener = [] → ¬ b.HasMissed listener → Hears b listener .nothing b

/-- Only the place of the listener changes. -/
structure SameEvents (b b' : Broadcast α) (listener : Nat) : Prop where
  kept : b'.kept = b.kept
  sound : b.IsSound → b'.IsSound
  listens : listener ∈ b'.listeners

theorem receive_spec (h : b.IsSound) (hmem : listener ∈ b.listeners) :
    Hears b listener (b.receive listener).1 (b.receive listener).2 ∧
      SameEvents b (b.receive listener).2 listener := by
  obtain ⟨heard, hheard⟩ := mem_iff_get.mp hmem
  have hmissed : b.HasMissed listener ↔ heard < b.forgotten := by
    simp [HasMissed, hheard]
  have hunheard : b.unheard listener = b.kept.drop (heard - b.forgotten) := by
    simp [unheard, hheard]
  -- The place of the listener after it has heard up to `n`.
  have hplace : ∀ n, ({ b with listeners := b.listeners.insert listener n }.unheard listener =
        b.kept.drop (n - b.forgotten)) ∧
      ({ b with listeners := b.listeners.insert listener n }.HasMissed listener ↔
        n < b.forgotten) := by
    intro n
    simp [unheard, HasMissed, forgotten]
  have hsame : ∀ n ≤ b.count,
      SameEvents b { b with listeners := b.listeners.insert listener n } listener :=
    fun n hn => ⟨rfl, fun hb => hb.hear hn listener, by simp⟩
  simp only [receive, hheard]
  split
  · next hbehind =>
    obtain ⟨hrest, hup⟩ := hplace b.forgotten
    refine ⟨.missed _ _ ?_ ?_ ?_, hsame _ b.forgotten_le⟩
    · rw [hunheard, Nat.sub_eq_zero_of_le (Nat.le_of_lt hbehind), List.drop_zero]
    · rw [hrest, Nat.sub_self, List.drop_zero]
    · rw [hup]
      exact Nat.lt_irrefl _
  · next hup =>
    split
    · next hnone =>
      refine ⟨.nothing ?_ (mt hmissed.mp hup), rfl, id, hmem⟩
      rw [hunheard, List.drop_eq_nil_iff]
      exact List.getElem?_eq_none_iff.mp hnone
    · next e he =>
      obtain ⟨hlt, rfl⟩ := List.getElem?_eq_some_iff.mp he
      obtain ⟨hrest, hup'⟩ := hplace (heard + 1)
      have hkept := h.kept
      have hforgotten : b.forgotten = b.count - b.kept.length := rfl
      refine ⟨.event _ _ (mt hmissed.mp hup) ?_ ?_, hsame _ ?_⟩
      · rw [hunheard, hrest, Nat.succ_sub (Nat.le_of_not_lt hup)]
        exact List.drop_eq_getElem_cons hlt
      · rw [hup']
        omega
      · omega

/-! ## Publishing -/

/-- Somebody listens, so the event is kept, and some older ones may go. -/
theorem publish_of_mem (hmem : listener ∈ b.listeners) (e : α) : b.publish e =
    { b with
      count := b.count + 1
      kept := (b.kept ++ [e]).drop (b.kept.length + 1 - b.capacity) } := by
  have hsome : b.listeners.isEmpty = false :=
    Std.TreeMap.isEmpty_eq_false_iff_exists_mem.mpr ⟨_, hmem⟩
  simp [publish, hsome]

/-- The broadcast after some events, for a listener that hears nothing meanwhile. -/
structure Follows (listener : Nat) (b : Broadcast α) (es : List α) (b' : Broadcast α) : Prop where
  sound : b'.IsSound
  listens : listener ∈ b'.listeners
  kept : b'.kept <:+ b.kept ++ es
  unheard : b'.unheard listener <:+ b.unheard listener ++ es
  /-- A listener that is up to date with what is kept was so before. -/
  upToDate : ¬ b'.HasMissed listener →
    ¬ b.HasMissed listener ∧ b'.unheard listener = b.unheard listener ++ es

namespace Follows

theorem nothing (h : b.IsSound) (hmem : listener ∈ b.listeners) : Follows listener b [] b where
  sound := h
  listens := hmem
  kept := (List.append_nil b.kept).symm ▸ List.suffix_rfl
  unheard := (List.append_nil (b.unheard listener)).symm ▸ List.suffix_rfl
  upToDate hup := ⟨hup, (List.append_nil _).symm⟩

theorem one (h : b.IsSound) (hmem : listener ∈ b.listeners) (e : α) :
    Follows listener b [e] (b.publish e) := by
  obtain ⟨heard, hheard⟩ := mem_iff_get.mp hmem
  have hle := h.heard listener heard hheard
  have hlength := h.kept
  have hforgotten : b.forgotten = b.count - b.kept.length := rfl
  have hold : b.unheard listener ++ [e] = (b.kept ++ [e]).drop (heard - b.forgotten) := by
    simp only [Broadcast.unheard, hheard]
    exact (List.drop_append_of_le_length (by omega)).symm
  rw [publish_of_mem hmem]
  generalize hk : b.kept.length + 1 - b.capacity = k
  have hnew : forgotten { b with count := b.count + 1, kept := (b.kept ++ [e]).drop k } =
      b.forgotten + k := by
    simp only [forgotten, List.length_drop, List.length_append, List.length_singleton]
    omega
  have hrest : ({ b with count := b.count + 1, kept := (b.kept ++ [e]).drop k }.unheard listener) =
      (b.unheard listener ++ [e]).drop
        (k + (heard - (b.forgotten + k)) - (heard - b.forgotten)) := by
    rw [hold, List.drop_drop]
    simp only [Broadcast.unheard, hheard]
    rw [hnew, List.drop_drop]
    congr 1
    omega
  constructor
  · constructor
    · simp only [List.length_drop, List.length_append, List.length_singleton]
      omega
    · intro n m hm
      have hle := h.heard n m hm
      show m ≤ b.count + 1
      omega
  · exact hmem
  · exact List.drop_suffix _ _
  · rw [hrest]
    exact List.drop_suffix _ _
  · intro hup
    have hfar : b.forgotten + k ≤ heard := by
      by_contra hlt
      exact hup ⟨heard, hheard, by rw [hnew]; omega⟩
    constructor
    · rintro ⟨n, hn, hlt⟩
      obtain rfl := Option.some.inj (hheard.symm.trans hn)
      omega
    · rw [hrest, show k + (heard - (b.forgotten + k)) - (heard - b.forgotten) = 0 by omega,
        List.drop_zero]

theorem suffix_append {l m : List α} (h : l <:+ m) (r : List α) : l ++ r <:+ m ++ r := by
  obtain ⟨pre, rfl⟩ := h
  exact ⟨pre, (List.append_assoc _ _ _).symm⟩

theorem andThen {b'' : Broadcast α} {es fs : List α} (h : Follows listener b es b')
    (h' : Follows listener b' fs b'') : Follows listener b (es ++ fs) b'' where
  sound := h'.sound
  listens := h'.listens
  kept := List.append_assoc b.kept es fs ▸ h'.kept.trans (suffix_append h.kept fs)
  unheard := List.append_assoc _ es fs ▸ h'.unheard.trans (suffix_append h.unheard fs)
  upToDate hup := by
    obtain ⟨hmid, hrest⟩ := h'.upToDate hup
    obtain ⟨hbefore, hfirst⟩ := h.upToDate hmid
    exact ⟨hbefore, by rw [hrest, hfirst, List.append_assoc]⟩

end Follows

theorem follows_publishAll (h : b.IsSound) (hmem : listener ∈ b.listeners) (es : List α) :
    Follows listener b es (es.foldl publish b) := by
  induction es generalizing b with
  | nil => exact .nothing h hmem
  | cons e rest ih =>
    have hone := Follows.one h hmem e
    exact hone.andThen (ih hone.sound hone.listens)

/-! ## Before anybody listens -/

theorem publishAll_unheard (h : b.listeners = ∅) (es : List α) :
    es.foldl publish b = b := by
  induction es with
  | nil => rfl
  | cons e rest ih =>
    have hone : b.publish e = b := by simp [publish, h]
    rw [List.foldl_cons, hone, ih]

theorem isSound_subscribe (hlisteners : b.listeners = ∅) (hkept : b.kept = []) :
    b.subscribe.2.IsSound where
  kept := by simp [subscribe, hkept]
  heard k n hn := by
    simp only [subscribe, hlisteners, get_insert] at hn
    split at hn
    · exact Nat.le_of_eq (Option.some.inj hn).symm
    · simp at hn

end Broadcast

end Timeshift
