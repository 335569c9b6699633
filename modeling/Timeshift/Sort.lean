/-!
# Stable sorting

Insertion into a sorted list, one element after the other. Elements that may stand in either
order keep the order they came in.
-/

namespace Timeshift

variable {α : Type _}

/-- Puts `x` before the first element that it may precede. -/
def insertBy (le : α → α → Bool) (x : α) : List α → List α
  | [] => [x]
  | y :: ys => if le x y then x :: y :: ys else y :: insertBy le x ys

def sortBy (le : α → α → Bool) : List α → List α
  | [] => []
  | x :: xs => insertBy le x (sortBy le xs)

def sortOn {κ : Type _} [Ord κ] (key : α → κ) : List α → List α :=
  sortBy fun a b => (compare (key a) (key b)).isLE

/-! ## The sorted list has the same elements -/

theorem perm_insertBy (le : α → α → Bool) (x : α) (l : List α) :
    (insertBy le x l).Perm (x :: l) := by
  induction l with
  | nil => exact .refl _
  | cons y ys ih =>
    simp only [insertBy]
    split
    · exact .refl _
    · exact (ih.cons y).trans (.swap x y ys)

theorem perm_sortBy (le : α → α → Bool) (l : List α) : (sortBy le l).Perm l := by
  induction l with
  | nil => exact .refl _
  | cons x xs ih => exact (perm_insertBy le x _).trans (ih.cons x)

theorem mem_sortBy {le : α → α → Bool} {l : List α} {x : α} : x ∈ sortBy le l ↔ x ∈ l :=
  (perm_sortBy le l).mem_iff

theorem length_sortBy (le : α → α → Bool) (l : List α) : (sortBy le l).length = l.length :=
  (perm_sortBy le l).length_eq

/-! ## The sorted list is in order -/

theorem pairwise_insertBy {le : α → α → Bool} (total : ∀ a b, le a b || le b a)
    (trans : ∀ a b c, le a b → le b c → le a c) (x : α) {l : List α}
    (h : l.Pairwise (le · ·)) : (insertBy le x l).Pairwise (le · ·) := by
  induction l with
  | nil => simp [insertBy]
  | cons y ys ih =>
    obtain ⟨hy, hys⟩ := List.pairwise_cons.1 h
    simp only [insertBy]
    split
    · next hxy =>
      refine List.pairwise_cons.2 ⟨fun z hz => ?_, h⟩
      rcases List.mem_cons.1 hz with rfl | hz
      · exact hxy
      · exact trans _ _ _ hxy (hy z hz)
    · next hxy =>
      have hyx : le y x = true := by simpa [hxy] using total x y
      refine List.pairwise_cons.2 ⟨fun z hz => ?_, ih hys⟩
      rcases List.mem_cons.1 ((perm_insertBy le x ys).mem_iff.1 hz) with rfl | hz
      · exact hyx
      · exact hy z hz

theorem pairwise_sortBy {le : α → α → Bool} (total : ∀ a b, le a b || le b a)
    (trans : ∀ a b c, le a b → le b c → le a c) (l : List α) :
    (sortBy le l).Pairwise (le · ·) := by
  induction l with
  | nil => exact .nil
  | cons x xs ih => exact pairwise_insertBy total trans x ih

/-- The first of a sorted list is the least, if the order is strict. -/
theorem head?_sortBy {le : α → α → Bool} (total : ∀ a b, le a b || le b a)
    (trans : ∀ a b c, le a b → le b c → le a c) {l : List α}
    (strict : ∀ x ∈ l, ∀ y ∈ l, le x y = true → le y x = true → x = y) {x : α} :
    (sortBy le l).head? = some x ↔ x ∈ l ∧ ∀ y ∈ l, le x y = true := by
  have hsorted := pairwise_sortBy total trans l
  have hmem : ∀ y, y ∈ sortBy le l ↔ y ∈ l := fun y => mem_sortBy
  cases hl : sortBy le l with
  | nil =>
    rw [hl] at hmem
    exact ⟨nofun, fun hx => absurd ((hmem x).mpr hx.1) List.not_mem_nil⟩
  | cons first rest =>
    rw [hl] at hsorted hmem
    have hleast : ∀ y ∈ l, le first y = true := by
      intro y hy
      rcases List.mem_cons.mp ((hmem y).mpr hy) with rfl | hrest
      · simpa using total y y
      · exact List.rel_of_pairwise_cons hsorted hrest
    have hfirst : first ∈ l := (hmem first).mp List.mem_cons_self
    rw [List.head?_cons, Option.some_inj]
    constructor
    · rintro rfl
      exact ⟨hfirst, hleast⟩
    · exact fun hx => strict first hfirst x hx.1 (hleast x hx.1) (hx.2 first hfirst)

/-! ## Sorting what a filter leaves -/

theorem insertBy_eq_cons {le : α → α → Bool} {x : α} {l : List α} (h : ∀ y ∈ l, le x y = true) :
    insertBy le x l = x :: l := by
  cases l with
  | nil => rfl
  | cons y ys => rw [insertBy, if_pos (h y List.mem_cons_self)]

theorem filter_insertBy {le : α → α → Bool} (trans : ∀ a b c, le a b → le b c → le a c) (x : α)
    (keep : α → Bool) {l : List α} (h : l.Pairwise (le · ·)) :
    (insertBy le x l).filter keep =
      if keep x then insertBy le x (l.filter keep) else l.filter keep := by
  induction l with
  | nil => simp [insertBy, List.filter_cons]
  | cons y ys ih =>
    obtain ⟨hy, hys⟩ := List.pairwise_cons.1 h
    simp only [insertBy]
    split
    · next hxy =>
      have hleast : ∀ z ∈ (y :: ys).filter keep, le x z = true := by
        intro z hz
        rcases List.mem_cons.1 (List.mem_filter.1 hz).1 with rfl | hrest
        · exact hxy
        · exact trans _ _ _ hxy (hy z hrest)
      rw [insertBy_eq_cons hleast, List.filter_cons]
    · next hxy =>
      rw [List.filter_cons, List.filter_cons, ih hys]
      by_cases hkeep : keep y = true
      · simp only [hkeep, if_true, insertBy, hxy, Bool.false_eq_true, if_false]
        split <;> rfl
      · rw [if_neg hkeep, if_neg hkeep]

/-- It makes no difference whether a list is sorted before it is filtered or after. -/
theorem filter_sortBy {le : α → α → Bool} (total : ∀ a b, le a b || le b a)
    (trans : ∀ a b c, le a b → le b c → le a c) (keep : α → Bool) (l : List α) :
    (sortBy le l).filter keep = sortBy le (l.filter keep) := by
  induction l with
  | nil => rfl
  | cons x xs ih =>
    rw [sortBy, filter_insertBy trans x keep (pairwise_sortBy total trans xs), ih,
      List.filter_cons]
    split <;> rfl

end Timeshift
