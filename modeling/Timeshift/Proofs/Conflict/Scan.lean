import Timeshift.Proofs.Conflict.Contest

/-!
# The scan holds a contest at every end

The scan takes a group from the schedules that come later, and passes over those that have lost.
It still comes out as the contests at the ends of all contenders.
-/

namespace Timeshift

namespace Conflict

/-- Contenders as the scan gets them. -/
structure IsField (field : List Contender) : Prop where
  places : (field.map (·.place)).Nodup
  ids : (field.map (·.schedule.id)).Nodup
  sorted : field.Pairwise fun a b => a.schedule.ends ≤ b.schedule.ends
  long : ∀ c ∈ field, c.schedule.starts < c.schedule.ends

/-- The schedules of the contenders that have not lost. -/
def standing (lost : List Nat) (field : List Contender) : List Schedule :=
  schedulesOf (field.filter (·.place ∉ lost))

variable {tuners : Nat} {lost : List Nat} {field seen later : List Contender} {c d : Contender}

theorem mem_standing {s : Schedule} :
    s ∈ standing lost field ↔ ∃ c ∈ field, c.place ∉ lost ∧ c.schedule = s := by
  simp [standing, and_assoc]

/-- All contenders seen so far that have not lost stay if their ends come up again. -/
def SeenSettled (tuners : Nat) (lost : List Nat) (field seen : List Contender) : Prop :=
  ∀ c ∈ seen, c.place ∉ lost → IsSettled tuners c.schedule.ends (standing lost field)

/-! ## The group at one end -/

theorem mem_groupAt : d ∈ groupAt lost c later ↔
    d = c ∨ d ∈ later ∧ d.place ∉ lost ∧ d.schedule.starts < c.schedule.ends := by
  simp [groupAt]

/-- The group consists of schedules that run up to the end and have not lost. -/
theorem groupAt_spec (hfield : IsField (seen ++ c :: later)) (hc : c.place ∉ lost)
    (hd : d ∈ groupAt lost c later) :
    d ∈ seen ++ c :: later ∧ d.place ∉ lost ∧ d.schedule.RunsUpTo c.schedule.ends := by
  have hsorted := (List.pairwise_append.mp hfield.sorted).2.1
  rcases mem_groupAt.mp hd with rfl | ⟨hl, hlost, hstart⟩
  · exact ⟨by simp, hc, hfield.long d (by simp), Int64.le_refl _⟩
  · exact ⟨by simp [hl], hlost, hstart, (List.pairwise_cons.mp hsorted).1 d hl⟩

/-- Whoever runs up to the end and is not in the group has been seen, and ends just then. -/
theorem mem_groupAt_or_seen (hfield : IsField (seen ++ c :: later))
    (hd : d ∈ seen ++ c :: later) (hlost : d.place ∉ lost)
    (hrun : d.schedule.RunsUpTo c.schedule.ends) :
    d ∈ groupAt lost c later ∨ d ∈ seen ∧ d.schedule.ends = c.schedule.ends := by
  rcases List.mem_append.mp hd with hs | hcl
  · have hle := (List.pairwise_append.mp hfield.sorted).2.2 d hs c (by simp)
    exact Or.inr ⟨hs, Int64.le_antisymm hle hrun.2⟩
  · rcases List.mem_cons.mp hcl with rfl | hl
    · exact Or.inl (mem_groupAt.mpr (Or.inl rfl))
    · exact Or.inl (mem_groupAt.mpr (Or.inr ⟨hl, hlost, hrun.1⟩))

theorem groupAt_sublist : (groupAt lost c later).Sublist (c :: later) :=
  List.filter_sublist.cons_cons c

theorem ids_groupAt (hfield : IsField (seen ++ c :: later)) :
    ((groupAt lost c later).map (·.schedule.id)).Nodup :=
  hfield.ids.sublist ((groupAt_sublist.trans (List.sublist_append_right _ _)).map _)

/-- A contender leaves at an end if it is beaten among all that run up to it. -/
theorem mem_losers_groupAt (hfield : IsField (seen ++ c :: later)) (hc : c.place ∉ lost)
    (hseen : SeenSettled tuners lost (seen ++ c :: later) seen) (hd : d ∈ seen ++ c :: later)
    (hlost : d.place ∉ lost) :
    d ∈ losers tuners (groupAt lost c later) ↔ d.schedule.RunsUpTo c.schedule.ends ∧
      Beaten tuners (runningUpTo c.schedule.ends (standing lost (seen ++ c :: later)))
        d.schedule := by
  have hsub : schedulesOf (groupAt lost c later) ⊆
      runningUpTo c.schedule.ends (standing lost (seen ++ c :: later)) := by
    intro s hs
    obtain ⟨b, hb, rfl⟩ := List.mem_map.mp hs
    obtain ⟨hmem, hb', hrun⟩ := groupAt_spec hfield hc hb
    exact mem_runningUpTo.mpr ⟨mem_standing.mpr ⟨b, hmem, hb', rfl⟩, hrun⟩
  rw [mem_losers (ids_groupAt hfield)]
  constructor
  · rintro ⟨hg, hb⟩
    exact ⟨(groupAt_spec hfield hc hg).2.2, hb.mono hsub⟩
  · rintro ⟨hrun, hb⟩
    -- With a survivor seen that ends just then, this contest has been held already.
    by_cases hheld : ∃ b ∈ seen, b.place ∉ lost ∧ b.schedule.ends = c.schedule.ends
    · obtain ⟨b, hbs, hblost, hbe⟩ := hheld
      have hset := hseen b hbs hblost
      rw [hbe] at hset
      exact absurd hb (hset _ (mem_standing.mpr ⟨d, hd, hlost, rfl⟩) hrun)
    · have hin : ∀ b ∈ seen ++ c :: later, b.place ∉ lost →
          b.schedule.RunsUpTo c.schedule.ends → b ∈ groupAt lost c later := by
        intro b hb hblost hbrun
        refine (mem_groupAt_or_seen hfield hb hblost hbrun).resolve_right fun hbs => ?_
        exact hheld ⟨b, hbs.1, hblost, hbs.2⟩
      refine ⟨hin d hd hlost hrun, hb.mono fun s hs => ?_⟩
      obtain ⟨hst, hsrun⟩ := mem_runningUpTo.mp hs
      obtain ⟨b, hb, hblost, rfl⟩ := mem_standing.mp hst
      exact List.mem_map_of_mem (hin b hb hblost hsrun)

/-! ## The whole scan -/

/-- One visit of the scan holds the contest at one end. -/
theorem standing_losers (hfield : IsField (seen ++ c :: later)) (hc : c.place ∉ lost)
    (hseen : SeenSettled tuners lost (seen ++ c :: later) seen) :
    standing ((losers tuners (groupAt lost c later)).map (·.place) ++ lost)
        (seen ++ c :: later) =
      contest tuners c.schedule.ends (standing lost (seen ++ c :: later)) := by
  have hplace : ∀ d ∈ seen ++ c :: later,
      d.place ∈ (losers tuners (groupAt lost c later)).map (·.place) ↔
        d ∈ losers tuners (groupAt lost c later) := by
    intro d hd
    constructor
    · intro h
      obtain ⟨b, hb, hbd⟩ := List.mem_map.mp h
      have hbg := (mem_losers (ids_groupAt hfield)).mp hb
      have hmem := (groupAt_spec hfield hc hbg.1).1
      exact List.inj_on_of_nodup_map hfield.places hmem hd hbd ▸ hb
    · exact fun h => List.mem_map_of_mem h
  have hstay : ∀ d ∈ seen ++ c :: later,
      d.place ∉ (losers tuners (groupAt lost c later)).map (·.place) ++ lost ↔
        (d.schedule.RunsUpTo c.schedule.ends →
          ¬ Beaten tuners (runningUpTo c.schedule.ends (standing lost (seen ++ c :: later)))
            d.schedule) ∧ d.place ∉ lost := by
    intro d hd
    rw [List.mem_append, hplace d hd, not_or]
    by_cases hlost : d.place ∈ lost
    · simp [hlost]
    · rw [mem_losers_groupAt hfield hc hseen hd hlost, not_and]
  unfold contest
  rw [standing, standing, schedulesOf, schedulesOf, List.filter_map, List.filter_filter]
  congr 1
  apply List.filter_congr
  intro d hd
  rw [Function.comp_apply, ← Bool.decide_and, decide_eq_decide]
  exact hstay d hd

/-- An end whose contender has lost already needs no contest. -/
theorem contests_cons_lost (hfield : IsField (seen ++ c :: later)) (hc : c.place ∈ lost)
    (hseen : SeenSettled tuners lost (seen ++ c :: later) seen) :
    contests tuners ((c :: later).map (·.schedule.ends)) (standing lost (seen ++ c :: later)) =
      contests tuners (later.map (·.schedule.ends)) (standing lost (seen ++ c :: later)) := by
  have hsorted := (List.pairwise_append.mp hfield.sorted).2.1
  by_cases hheld : ∃ b ∈ seen, b.place ∉ lost ∧ b.schedule.ends = c.schedule.ends
  · obtain ⟨b, hb, hlost, hbe⟩ := hheld
    simp only [contests, List.map_cons, List.foldl_cons]
    rw [contest_eq_self (hbe ▸ hseen b hb hlost)]
  · refine contests_cons_eq (List.pairwise_map.mpr hsorted) fun s hs hrun => ?_
    obtain ⟨d, hd, hlost, rfl⟩ := mem_standing.mp hs
    rcases List.mem_append.mp hd with hd | hd
    · have hle := (List.pairwise_append.mp hfield.sorted).2.2 d hd c (by simp)
      exact absurd ⟨d, hd, hlost, Int64.le_antisymm hle hrun.2⟩ hheld
    · rcases List.mem_cons.mp hd with rfl | hd
      · exact absurd hc hlost
      · exact List.mem_map_of_mem hd

/-- The scan leaves the schedules that the contests at all ends leave. -/
theorem standing_scan (hfield : IsField (seen ++ later))
    (hseen : SeenSettled tuners lost (seen ++ later) seen) :
    standing (scan tuners lost later) (seen ++ later) =
      contests tuners (later.map (·.schedule.ends)) (standing lost (seen ++ later)) := by
  induction later generalizing seen lost with
  | nil => rfl
  | cons c later ih =>
    have hassoc : seen ++ c :: later = (seen ++ [c]) ++ later := by simp
    by_cases hc : c.place ∈ lost
    · rw [scan, if_pos hc, contests_cons_lost hfield hc hseen, hassoc]
      rw [hassoc] at hfield hseen
      refine ih hfield fun b hb hlost => ?_
      rcases List.mem_append.mp hb with hb | hb
      · exact hseen b hb hlost
      · rw [List.mem_singleton] at hb
        exact absurd (hb ▸ hc) hlost
    · have hstep := standing_losers hfield hc hseen
      rw [scan, if_neg hc, List.map_cons, contests, List.foldl_cons, ← hstep]
      rw [hassoc] at hfield hseen hstep ⊢
      refine ih hfield fun b hb hlost => ?_
      rw [List.mem_append, not_or] at hlost
      rw [hstep]
      rcases List.mem_append.mp hb with hb | hb
      · exact (hseen b hb hlost.2).sublist contest_sublist
      · rw [List.mem_singleton] at hb
        rw [hb]
        exact isSettled_contest

theorem standing_scan_all (hfield : IsField field) :
    standing (scan tuners [] field) field =
      contests tuners (field.map (·.schedule.ends)) (schedulesOf field) := by
  have hscan : standing (scan tuners [] field) ([] ++ field) =
      contests tuners (field.map (·.schedule.ends)) (standing [] ([] ++ field)) :=
    standing_scan hfield fun c hc => absurd hc List.not_mem_nil
  simpa [standing] using hscan

/-! ## The answer -/

theorem schedulesOf_contenders (schedules : List Schedule) :
    schedulesOf (contenders schedules) = sortBy Schedule.endLE schedules := by
  rw [schedulesOf, contenders, List.map_map]
  exact List.zipIdx_map_fst 0 _

theorem ends_contenders (schedules : List Schedule) :
    (contenders schedules).map (·.schedule.ends) =
      (sortBy Schedule.endLE schedules).map (·.ends) := by
  rw [← schedulesOf_contenders, schedulesOf, List.map_map]
  rfl

theorem sorted_ends (schedules : List Schedule) :
    ((sortBy Schedule.endLE schedules).map (·.ends)).Pairwise (· ≤ ·) := by
  have hle : ∀ a b : Schedule, a.endLE b = true ↔ a.ends ≤ b.ends := fun a b => Std.isLE_compare
  have hsorted : (sortBy Schedule.endLE schedules).Pairwise fun a b => a.endLE b = true := by
    apply pairwise_sortBy
    · exact fun a b => by simpa [hle] using Int64.le_total a.ends b.ends
    · exact fun a b c => by simpa only [hle] using Int64.le_trans
  exact List.pairwise_map.mpr (hsorted.imp fun h => (hle _ _).mp h)

theorem isField_contenders {schedules : List Schedule} (hids : (schedules.map (·.id)).Nodup)
    (hlong : ∀ s ∈ schedules, s.starts < s.ends) : IsField (contenders schedules) := by
  have hperm : (schedulesOf (contenders schedules)).Perm schedules :=
    schedulesOf_contenders schedules ▸ perm_sortBy _ _
  constructor
  · have hplaces : (contenders schedules).map (·.place) =
        List.range' 0 (sortBy Schedule.endLE schedules).length := by
      rw [contenders, List.map_map]
      exact List.zipIdx_map_snd 0 _
    rw [hplaces]
    exact List.nodup_range'
  · have hmap : (contenders schedules).map (·.schedule.id) =
        (schedulesOf (contenders schedules)).map (·.id) := by simp
    rw [hmap]
    exact (hperm.map _).nodup_iff.mpr hids
  · have hsorted := sorted_ends schedules
    rw [← ends_contenders] at hsorted
    exact List.pairwise_map.mp hsorted
  · intro c hc
    exact hlong _ (hperm.subset (List.mem_map_of_mem hc))

/-- The competing schedules that are left after the contests at all of their ends. -/
def kept (windows : List TimeRange) (tuners : Nat) (schedules : List Schedule) : List Schedule :=
  let field := sortBy Schedule.endLE (competing schedules windows)
  contests tuners (field.map (·.ends)) field

theorem mem_competing {schedules : List Schedule} {windows : List TimeRange} {s : Schedule} :
    s ∈ competing schedules windows ↔
      s ∈ schedules ∧ s.starts < s.ends ∧ ∃ w ∈ windows, s.overlaps w = true := by
  simp [competing]

theorem ids_competing {schedules : List Schedule} (hids : (schedules.map (·.id)).Nodup)
    (windows : List TimeRange) : ((competing schedules windows).map (·.id)).Nodup :=
  hids.sublist (List.filter_sublist.map _)

/-- The answer lists the competing schedules that are not kept. -/
theorem mem_within {windows : List TimeRange} {schedules : List Schedule}
    (hids : (schedules.map (·.id)).Nodup) {s : Schedule} :
    s ∈ within windows tuners schedules ↔ s ∈ competing schedules windows ∧
      s ∉ kept windows tuners schedules ∧ s.id ≠ reservedId := by
  have hlong : ∀ s ∈ competing schedules windows, s.starts < s.ends :=
    fun s hs => (mem_competing.mp hs).2.1
  have hfield := isField_contenders (ids_competing hids windows) hlong
  have hkept : kept windows tuners schedules =
      standing (scan tuners [] (contenders (competing schedules windows)))
        (contenders (competing schedules windows)) := by
    rw [standing_scan_all hfield, ends_contenders, schedulesOf_contenders, kept]
  have hmem : s ∈ competing schedules windows ↔
      ∃ c ∈ contenders (competing schedules windows), c.schedule = s := by
    rw [← List.mem_map, ← schedulesOf, schedulesOf_contenders, mem_sortBy]
  rw [within, mem_sortBy, hkept, mem_standing, hmem]
  simp only [List.mem_map, List.mem_filter, Bool.and_eq_true, decide_eq_true_eq]
  constructor
  · rintro ⟨c, ⟨hc, hlost, hid⟩, rfl⟩
    refine ⟨⟨c, hc, rfl⟩, ?_, hid⟩
    rintro ⟨d, hd, hstays, hdc⟩
    have := List.inj_on_of_nodup_map hfield.ids hd hc (congrArg (·.id) hdc)
    exact hstays (this ▸ hlost)
  · rintro ⟨⟨c, hc, rfl⟩, hgone, hid⟩
    refine ⟨c, ⟨hc, ?_, hid⟩, rfl⟩
    by_contra hlost
    exact hgone ⟨c, hc, hlost, rfl⟩

end Conflict

end Timeshift
