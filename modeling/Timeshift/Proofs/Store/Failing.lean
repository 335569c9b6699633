import Timeshift.Booking
import Timeshift.Proofs.Store.Outcome
import Timeshift.Proofs.Store.Refusal

/-!
# Calls that fail

A call that writes fails if the archive refuses one of its writes. Which of the writes to come are
refused is known beforehand.
-/

namespace Timeshift

namespace Store

variable {α β : Type} {s : Store} {l : List Schedule}

/-! ## Writes that are refused -/

/-- The archive refuses the write that comes after `n` more. -/
def refusesAfter (s : Store) (n : Nat) : Bool := s.archive.refuses (s.archive.writes + n)

def Fails (s : Store) (op : Op α) : Prop := ∃ fault, (s.run op).1 = .error fault

theorem NeverFails.not_fails {op : Op α} (h : NeverFails op) (s : Store) : ¬ s.Fails op := by
  rintro ⟨fault, hfault⟩
  obtain ⟨a, ha⟩ := h s
  cases ha.symm.trans hfault

theorem fails_bind {op : Op α} {next : α → Op β} : s.Fails (op >>= next) ↔
    s.Fails op ∨ ∃ a t, s.run op = (.ok a, t) ∧ t.Fails (next a) := by
  rw [Fails, Fails, run_bind]
  rcases s.run op with ⟨answer, t⟩
  cases answer with
  | error fault => exact iff_of_true ⟨fault, rfl⟩ (Or.inl ⟨fault, rfl⟩)
  | ok a =>
    refine ⟨fun h => Or.inr ⟨a, t, rfl, h⟩, ?_⟩
    rintro (⟨fault, h⟩ | ⟨_, _, heq, h⟩)
    · cases h
    · cases heq
      exact h

theorem not_fails_of_ok {op : Op α} {a : α} {t : Store} (h : s.run op = (.ok a, t)) :
    ¬ s.Fails op := by
  rintro ⟨fault, hfault⟩
  rw [h] at hfault
  cases hfault

theorem ok_of_not_fails {op : Op α} (h : ¬ s.Fails op) :
    ∃ a, s.run op = (.ok a, (s.run op).2) := by
  rcases hrun : s.run op with ⟨answer, t⟩
  cases answer with
  | ok a => exact ⟨a, rfl⟩
  | error fault => exact absurd ⟨fault, by rw [hrun]⟩ h

theorem fails_bind_iff {op : Op α} {next : α → Op β} (h' : ∀ a, NeverFails (next a)) :
    s.Fails (op >>= next) ↔ s.Fails op :=
  fails_bind.trans (or_iff_left fun ⟨a, t, _, h⟩ => (h' a).not_fails t h)

theorem fails_persist_iff {edit : Archive → Archive} {next : PUnit → Op β} :
    s.Fails (persist edit >>= next) ↔ s.refusesAfter 0 = true ∨
      Fails { s with archive := edit { s.archive with writes := s.archive.writes + 1 } }
        (next ()) := by
  simp only [Fails, persist, run_bind, run_get, run_modify, Archive.write]
  cases hrefuses : s.refusesAfter 0 with
  | true =>
    rw [refusesAfter, Nat.add_zero] at hrefuses
    simp only [hrefuses, if_true]
    exact iff_of_true ⟨_, rfl⟩ (Or.inl trivial)
  | false =>
    rw [refusesAfter, Nat.add_zero] at hrefuses
    simp only [hrefuses, Bool.false_eq_true, if_false, false_or]
    exact Iff.rfl

/-- Copies are taken into use in one write, and in a second one if there are marks to lift. -/
theorem fails_keep_iff (s : Store) (l : List Schedule) :
    s.Fails (keep l) ↔
      s.refusesAfter 0 = true ∨ s.marksOf l ≠ [] ∧ s.refusesAfter 1 = true := by
  rw [keep]
  change s.Fails (persist (·.putSchedules l) >>= _) ↔ _
  rw [fails_persist_iff]
  refine or_congr Iff.rfl ?_
  split
  · next hnone =>
    have hno : ¬ s.marksOf l ≠ [] := not_not_intro (List.isEmpty_iff.mp hnone)
    exact iff_of_false ((NeverFails.modify _).not_fails _) (not_and_of_not_left _ hno)
  · next hsome =>
    have hmarks : s.marksOf l ≠ [] := fun hnone => hsome (List.isEmpty_iff.mpr hnone)
    rw [fails_persist_iff, and_iff_right hmarks]
    exact or_iff_left ((NeverFails.modify _).not_fails _)

theorem knownUpdates_eq (h : ∀ x ∈ l, ∃ old, s.live[x.id]? = some old ∧
    old.channelId = x.channelId) : s.knownUpdates l = .ok l := by
  induction l with
  | nil => rfl
  | cons x rest ih =>
    obtain ⟨⟨old, hold, hchannel⟩, hrest⟩ := List.forall_mem_cons.mp h
    rw [knownUpdates, show s.schedule? x.id = some old from hold]
    dsimp only
    rw [if_pos hchannel, ih hrest]
    rfl

theorem run_update (h : s.knownUpdates l = .ok l) (hsome : l ≠ []) :
    s.run (update l) = s.run (do keep l; publish (.changed l)) := by
  rw [update, run_bind, run_get]
  dsimp only
  rw [h]
  dsimp only
  rw [if_neg fun hnone => hsome (List.isEmpty_iff.mp hnone)]

theorem not_refusesAfter (h : Refuses false s) (n : Nat) : ¬ s.refusesAfter n = true := by
  rw [refusesAfter, h]
  exact Bool.false_ne_true

theorem not_fails_keep (h : Refuses false s) (l : List Schedule) : ¬ s.Fails (keep l) := by
  rw [fails_keep_iff]
  rintro (hput | ⟨-, hdrop⟩)
  · exact not_refusesAfter h 0 hput
  · exact not_refusesAfter h 1 hdrop

/-- If the archive takes all writes, only a schedule without a length cannot be added. -/
theorem fails_add_iff (h : Refuses false s) (l : List Schedule) :
    s.Fails (add l) ↔ ∃ x ∈ l, x.ends ≤ x.starts := by
  rw [add]
  split
  · next hnone =>
    rw [List.isEmpty_iff.mp hnone]
    exact iff_of_false ((NeverFails.pure _).not_fails s) (by simp)
  · split
    · next bad hbad =>
      have hmem := List.mem_of_find?_eq_some hbad
      have hends := List.find?_some hbad
      exact iff_of_true ⟨_, rfl⟩ ⟨bad, hmem, of_decide_eq_true hends⟩
    · next hgood =>
      refine iff_of_false ?_ ?_
      · have hnumbered : Refuses false (s.numbered l) := h
        intro hfails
        refine not_fails_keep hnumbered (number s.scheduleIds l).1 ?_
        exact (fails_bind_iff fun _ => .bind (.publish _) fun _ => .pure _).mp hfails
      · rintro ⟨x, hx, hends⟩
        exact List.find?_eq_none.mp (Option.eq_none_iff_forall_ne_some.mpr hgood) x hx
          (decide_eq_true hends)

theorem not_fails_update (h : Refuses false s) (hknown : s.knownUpdates l = .ok l) :
    ¬ s.Fails (update l) := by
  by_cases hsome : l = []
  · rw [hsome]
    exact (NeverFails.pure ()).not_fails s
  · rw [Fails, run_update hknown hsome]
    exact mt (fails_bind_iff fun _ => .publish _).mp (not_fails_keep h l)

theorem failsUnseen_updateAll (l : List Schedule) : FailsUnseen (Booking.updateAll l) := by
  rw [Booking.updateAll]
  split
  · exact .pure _
  · exact failsUnseen_update l

/-- Whatever is cancelled at once is cancelled in one write, and a second one lifts its marks. -/
theorem fails_cancel_iff (h : ∀ x ∈ l, s.live[x.id]? = some x) :
    s.Fails (Booking.updateAll (l.map ({ · with state := .canceled }))) ↔
      l ≠ [] ∧ (s.refusesAfter 0 = true ∨ s.marksOf l ≠ [] ∧ s.refusesAfter 1 = true) := by
  have hmarks : s.marksOf (l.map ({ · with state := .canceled })) = s.marksOf l :=
    List.filterMap_map
  rw [Booking.updateAll, ← hmarks]
  split
  · next hnone =>
    have hl : l = [] := List.map_eq_nil_iff.mp (List.isEmpty_iff.mp hnone)
    exact iff_of_false ((NeverFails.pure _).not_fails s) fun ⟨hsome, _⟩ => hsome hl
  · next hsome =>
    rw [List.isEmpty_iff] at hsome
    have hknown : s.knownUpdates (l.map ({ · with state := .canceled })) =
        .ok (l.map ({ · with state := .canceled })) := by
      refine knownUpdates_eq fun y hy => ?_
      obtain ⟨x, hx, rfl⟩ := List.mem_map.mp hy
      exact ⟨x, h x hx, rfl⟩
    have hl : l ≠ [] := fun hnone => hsome (List.map_eq_nil_iff.mpr hnone)
    rw [and_iff_right hl, ← fails_keep_iff, Fails, run_update hknown hsome]
    exact fails_bind_iff fun _ => .publish _

/-- The store once a copy of a rule has been written. -/
def withCopy (s : Store) (rule : SeriesRule) : Store :=
  { s with
    rules := s.rules.insert rule.id rule
    archive := { s.archive with writes := s.archive.writes + 1 }.putRule rule
    journal := s.journal ++ [.rulesChanged [rule]] }

theorem run_updateRule_taken {rule : SeriesRule} (hstored : rule.id ∈ s.rules)
    (htaken : s.refusesAfter 0 = false) :
    s.run (updateRule rule) = (.ok (), s.withCopy rule) := by
  rw [refusesAfter, Nat.add_zero] at htaken
  simp only [updateRule, run_bind, run_get, Std.TreeMap.contains_iff_mem.mpr hstored, if_true,
    persist, run_modify, Archive.write, htaken, Bool.false_eq_true, if_false]
  rfl

theorem fails_updateRule {rule : SeriesRule} (hstored : rule.id ∈ s.rules)
    (hrefused : s.refusesAfter 0 = true) : s.Fails (updateRule rule) := by
  rw [Fails, updateRule, run_bind, run_get]
  dsimp only
  rw [if_pos (Std.TreeMap.contains_iff_mem.mpr hstored)]
  exact fails_persist_iff.mpr (Or.inl hrefused)

end Store

end Timeshift
