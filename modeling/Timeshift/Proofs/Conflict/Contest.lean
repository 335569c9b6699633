import Timeshift.Proofs.Conflict.Group

/-!
# Contests at given instants

The same competition without an order among the schedules: at each of some instants, all
schedules that are left and run up to it meet, and those that are beaten leave the field. An
instant at which no schedule ends can be left out, and so can one that comes twice.
-/

namespace Timeshift

/-- The schedule runs at the last instant before `t`. -/
def Schedule.RunsUpTo (t : Instant) (s : Schedule) : Prop := s.starts < t ∧ t ≤ s.ends

instance (t : Instant) : DecidablePred (Schedule.RunsUpTo t) := fun s =>
  inferInstanceAs (Decidable (s.starts < t ∧ t ≤ s.ends))

namespace Conflict

def runningUpTo (t : Instant) (field : List Schedule) : List Schedule :=
  field.filter (Schedule.RunsUpTo t)

/-- The schedules that are left after the contest at `t`. -/
def contest (tuners : Nat) (t : Instant) (field : List Schedule) : List Schedule :=
  field.filter fun s => s.RunsUpTo t → ¬ Beaten tuners (runningUpTo t field) s

/-- The schedules that are left after the contests at some instants, one after the other. -/
def contests (tuners : Nat) (instants : List Instant) (field : List Schedule) : List Schedule :=
  instants.foldl (fun field t => contest tuners t field) field

variable {tuners : Nat} {t u : Instant} {field : List Schedule} {s : Schedule}

theorem mem_runningUpTo : s ∈ runningUpTo t field ↔ s ∈ field ∧ s.RunsUpTo t := by
  simp [runningUpTo]

theorem mem_contest : s ∈ contest tuners t field ↔
    s ∈ field ∧ (s.RunsUpTo t → ¬ Beaten tuners (runningUpTo t field) s) := by
  rw [contest, List.mem_filter, decide_eq_true_eq]

theorem contest_sublist : (contest tuners t field).Sublist field := List.filter_sublist

theorem contests_sublist (instants : List Instant) :
    (contests tuners instants field).Sublist field := by
  induction instants generalizing field with
  | nil => exact .refl _
  | cons t rest ih => exact ih.trans contest_sublist

/-! ## Settled instants -/

/-- Nobody who runs up to `t` is beaten then. -/
def IsSettled (tuners : Nat) (t : Instant) (field : List Schedule) : Prop :=
  ∀ s ∈ field, s.RunsUpTo t → ¬ Beaten tuners (runningUpTo t field) s

theorem IsSettled.sublist {left : List Schedule} (h : IsSettled tuners t field)
    (hsub : left.Sublist field) : IsSettled tuners t left :=
  fun s hs ht hb => h s (hsub.subset hs) ht (hb.mono (hsub.filter _).subset)

theorem isSettled_contest : IsSettled tuners t (contest tuners t field) := by
  intro s hs ht hb
  exact (mem_contest.mp hs).2 ht (hb.mono (contest_sublist.filter _).subset)

theorem isSettled_contests {instants : List Instant} (ht : t ∈ instants) :
    IsSettled tuners t (contests tuners instants field) := by
  induction instants generalizing field with
  | nil => exact absurd ht List.not_mem_nil
  | cons u rest ih =>
    rcases List.mem_cons.mp ht with rfl | ht
    · exact isSettled_contest.sublist (contests_sublist rest)
    · exact ih ht

theorem contest_eq_self (h : IsSettled tuners t field) : contest tuners t field = field := by
  apply List.filter_eq_self.mpr
  intro s hs
  exact decide_eq_true (h s hs)

/-! ## The order of a field does not matter -/

theorem beaten_perm {group group' : List Schedule} (hperm : group.Perm group') :
    Beaten tuners group s ↔ Beaten tuners group' s :=
  ⟨Beaten.mono hperm.subset, Beaten.mono hperm.symm.subset⟩

theorem runningUpTo_perm {field' : List Schedule} (hperm : field.Perm field') :
    (runningUpTo t field).Perm (runningUpTo t field') := hperm.filter _

theorem contest_perm {field' : List Schedule} (hperm : field.Perm field') :
    (contest tuners t field).Perm (contest tuners t field') := by
  have hsame : contest tuners t field = field.filter
      fun s => s.RunsUpTo t → ¬ Beaten tuners (runningUpTo t field') s := by
    apply List.filter_congr
    intro s _
    rw [decide_eq_decide, beaten_perm (runningUpTo_perm hperm)]
  rw [hsame]
  exact hperm.filter _

theorem contests_perm (instants : List Instant) {field' : List Schedule}
    (hperm : field.Perm field') :
    (contests tuners instants field).Perm (contests tuners instants field') := by
  induction instants generalizing field field' with
  | nil => exact hperm
  | cons t rest ih => exact ih (contest_perm hperm)

/-! ## Contests that can be left out -/

/-- A contest makes no difference if all who are in it meet again in the next one. -/
theorem contest_contest (h : ∀ s ∈ field, s.RunsUpTo t → s.RunsUpTo u) :
    contest tuners u (contest tuners t field) = contest tuners u field := by
  have hsub : runningUpTo t field ⊆ runningUpTo u field := by
    intro s hs
    rw [mem_runningUpTo] at *
    exact ⟨hs.1, h s hs.1 hs.2⟩
  have hless : runningUpTo u (contest tuners t field) ⊆ runningUpTo u field :=
    (contest_sublist.filter _).subset
  -- Who leaves at `t` is beaten at `u` too, so no winner at `u` is missing.
  have hwin : winners tuners (runningUpTo u field) ⊆ runningUpTo u (contest tuners t field) := by
    intro s hs
    simp only [winners, List.mem_filter, decide_eq_true_eq] at hs
    rw [mem_runningUpTo] at hs ⊢
    exact ⟨mem_contest.mpr ⟨hs.1.1, fun _ hb => hs.2 (hb.mono hsub)⟩, hs.1.2⟩
  have hbeaten : ∀ s, Beaten tuners (runningUpTo u (contest tuners t field)) s ↔
      Beaten tuners (runningUpTo u field) s :=
    fun s => beaten_iff_of_winners_subset hwin hless
  unfold contest at *
  simp only [hbeaten, List.filter_filter]
  apply List.filter_congr
  intro s hs
  rw [← Bool.decide_and, decide_eq_decide]
  constructor
  · exact fun hs' => hs'.1
  · exact fun hu => ⟨hu, fun ht hb => hu (h s hs ht) (hb.mono hsub)⟩

/-- The contest at `t` can be left out before others that cover the ends of all who are in it. -/
theorem contests_cons_eq {rest : List Instant} (hsorted : (t :: rest).Pairwise (· ≤ ·))
    (h : ∀ s ∈ field, s.RunsUpTo t → s.ends ∈ rest) :
    contests tuners (t :: rest) field = contests tuners rest field := by
  cases rest with
  | nil =>
    have hself : contest tuners t field = field :=
      contest_eq_self fun s hs ht => absurd (h s hs ht) List.not_mem_nil
    simp [contests, hself]
  | cons u later =>
    have hnext : ∀ s ∈ field, s.RunsUpTo t → s.RunsUpTo u := by
      intro s hs ht
      have hu : u ≤ s.ends := by
        rcases List.mem_cons.mp (h s hs ht) with he | he
        · exact he ▸ Int64.le_refl _
        · exact (List.pairwise_cons.mp hsorted.tail).1 _ he
      have htu : t ≤ u := (List.pairwise_cons.mp hsorted).1 u List.mem_cons_self
      exact ⟨Int64.lt_of_lt_of_le ht.1 htu, hu⟩
    simp only [contests, List.foldl_cons, contest_contest hnext]

/-- Only the ends of the schedules of a field matter, each of them once. -/
theorem contests_eq_dedup {instants : List Instant} (hsorted : instants.Pairwise (· ≤ ·))
    {ends : List Instant} (hends : ∀ s ∈ field, s.ends ∈ ends)
    (hcover : ∀ s ∈ field, s.ends ∈ instants ∨ ∀ t ∈ instants, s.ends < t) :
    contests tuners instants field =
      contests tuners (instants.filter (· ∈ ends)).dedup field := by
  induction instants generalizing field with
  | nil => rfl
  | cons t rest ih =>
    have hle := (List.pairwise_cons.mp hsorted).1
    -- The instant counts if something ends then and it does not come again.
    by_cases hkeep : t ∈ ends ∧ t ∉ rest
    · have hnot : t ∉ rest.filter (· ∈ ends) := fun ht => hkeep.2 (List.mem_of_mem_filter ht)
      rw [List.filter_cons_of_pos (by simpa using hkeep.1), List.dedup_cons_of_notMem hnot]
      refine ih hsorted.tail (fun s hs => hends s (contest_sublist.subset hs)) fun s hs => ?_
      rcases hcover s (contest_sublist.subset hs) with hc | hc
      · rcases List.mem_cons.mp hc with hst | hsr
        · refine Or.inr fun u hu => hst ▸ Int64.lt_of_le_of_ne (hle u hu) ?_
          rintro rfl
          exact hkeep.2 hu
        · exact Or.inl hsr
      · exact Or.inr fun u hu => hc u (List.mem_cons_of_mem _ hu)
    · have hagain : ∀ s ∈ field, s.ends = t → t ∈ rest := by
        intro s hs hst
        by_contra hnot
        exact hkeep ⟨hst ▸ hends s hs, hnot⟩
      have hskip : ∀ s ∈ field, s.RunsUpTo t → s.ends ∈ rest := by
        intro s hs ht
        rcases hcover s hs with hc | hc
        · rcases List.mem_cons.mp hc with hst | hsr
          · exact hst ▸ hagain s hs hst
          · exact hsr
        · exact absurd (hc t List.mem_cons_self) (Int64.not_lt.mpr ht.2)
      have hdrop : ((t :: rest).filter (· ∈ ends)).dedup = (rest.filter (· ∈ ends)).dedup := by
        by_cases ht : t ∈ ends
        · have hr : t ∈ rest := by simpa [ht] using hkeep
          rw [List.filter_cons_of_pos (by simpa using ht), List.dedup_cons_of_mem]
          simp [hr, ht]
        · rw [List.filter_cons_of_neg (by simpa using ht)]
      rw [contests_cons_eq hsorted hskip, hdrop]
      refine ih hsorted.tail hends fun s hs => ?_
      rcases hcover s hs with hc | hc
      · rcases List.mem_cons.mp hc with hst | hsr
        · exact Or.inl (hst ▸ hagain s hs hst)
        · exact Or.inl hsr
      · exact Or.inr fun u hu => hc u (List.mem_cons_of_mem _ hu)

/-- Two ways to go through the ends of a field come to the same. -/
theorem contests_congr {instants instants' : List Instant} (hsorted : instants.Pairwise (· ≤ ·))
    (hsorted' : instants'.Pairwise (· ≤ ·)) (hends : ∀ s ∈ field, s.ends ∈ instants)
    (hends' : ∀ s ∈ field, s.ends ∈ instants') :
    contests tuners instants field = contests tuners instants' field := by
  have hmem : ∀ s ∈ field, s.ends ∈ field.map (·.ends) := fun s hs => List.mem_map_of_mem hs
  rw [contests_eq_dedup hsorted hmem fun s hs => Or.inl (hends s hs),
    contests_eq_dedup hsorted' hmem fun s hs => Or.inl (hends' s hs)]
  congr 1
  apply List.Perm.eq_of_pairwise (fun a b _ _ => Int64.le_antisymm)
    ((hsorted.filter _).sublist (List.dedup_sublist _))
    ((hsorted'.filter _).sublist (List.dedup_sublist _))
  rw [List.perm_ext_iff_of_nodup (List.nodup_dedup _) (List.nodup_dedup _)]
  intro t
  simp only [List.mem_dedup, List.mem_filter, List.mem_map, decide_eq_true_eq]
  constructor
  · rintro ⟨-, s, hs, rfl⟩
    exact ⟨hends' s hs, s, hs, rfl⟩
  · rintro ⟨-, s, hs, rfl⟩
    exact ⟨hends s hs, s, hs, rfl⟩

/-! ## Only higher ranks matter -/

/-- The part of a field that ranks above `x`. -/
def above (x : Schedule) (field : List Schedule) : List Schedule := field.filter (·.RanksAbove x)

theorem mem_above {x : Schedule} : s ∈ above x field ↔ s ∈ field ∧ s.RanksAbove x := by
  simp [above]

/-- Whether a schedule is beaten depends on the ones above it alone. -/
theorem beaten_runningUpTo_above {x : Schedule} (hs : s.RanksAbove x) :
    Beaten tuners (runningUpTo t (above x field)) s ↔ Beaten tuners (runningUpTo t field) s := by
  constructor
  · refine Beaten.mono fun r hr => ?_
    rw [mem_runningUpTo, mem_above] at hr
    exact mem_runningUpTo.mpr ⟨hr.1.1, hr.2⟩
  · refine Beaten.of_subset (channelsAbove_mono fun r hr hrs => ?_)
    rw [mem_runningUpTo] at hr
    exact mem_runningUpTo.mpr ⟨mem_above.mpr ⟨hr.1, hrs.trans hs⟩, hr.2⟩

theorem above_contest (x : Schedule) :
    above x (contest tuners t field) = contest tuners t (above x field) := by
  calc above x (contest tuners t field)
      = (above x field).filter
          fun s => s.RunsUpTo t → ¬ Beaten tuners (runningUpTo t field) s := by
        simp only [above, contest, List.filter_filter, Bool.and_comm]
    _ = contest tuners t (above x field) := by
        apply List.filter_congr
        intro s hs
        rw [decide_eq_decide, beaten_runningUpTo_above (mem_above.mp hs).2]

theorem above_contests (x : Schedule) (instants : List Instant) :
    above x (contests tuners instants field) = contests tuners instants (above x field) := by
  induction instants generalizing field with
  | nil => rfl
  | cons t rest ih =>
    simp only [contests, List.foldl_cons] at ih ⊢
    rw [ih, above_contest]

end Conflict

end Timeshift
