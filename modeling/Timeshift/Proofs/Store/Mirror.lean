import Timeshift.Proofs.Store.Journal

/-!
# The archive mirrors the store

The store and its archive change by the same steps. A schedule stands under its id on both sides,
but a mark stands under its program in the store, and its row under the id of the deleted schedule
in the archive. So a program has one mark at most, but it may have spare rows. They are never
dropped again.
-/

namespace Timeshift

namespace Store

variable {s s' : Store} {l marks : List Schedule} {ids : List ScheduleId} {id : ScheduleId}
  {p : ProgramId} {x y : Schedule} {spare : List ProgramId}

/-! ## Looking up marks -/

theorem get_mark (s : Store) (l : List Schedule) (p : ProgramId) :
    (s.mark l).marks[p]? = ((l.filter (·.programId = some p)).getLast?).or s.marks[p]? := by
  suffices h : ∀ m : Std.TreeMap ProgramId Schedule,
      (l.foldl (fun m x => x.programId.elim m (m.insert · x)) m)[p]? =
        ((l.filter (·.programId = some p)).getLast?).or m[p]? from h s.marks
  induction l with
  | nil => exact fun m => rfl
  | cons x rest ih =>
    intro m
    rw [List.foldl_cons, ih]
    by_cases hp : x.programId = some p
    · rw [List.filter_cons_of_pos (by simpa using hp), hp, Option.elim_some, get_insert, if_pos rfl,
        List.getLast?_cons]
      cases (rest.filter (·.programId = some p)).getLast? <;> rfl
    · rw [List.filter_cons_of_neg (by simpa using hp)]
      cases hx : x.programId with
      | none => rfl
      | some q =>
        have hne : q ≠ p := fun heq => hp (by rw [hx, heq])
        rw [Option.elim_some, get_insert, if_neg hne]

theorem get_unmark (s : Store) (l : List Schedule) (p : ProgramId) :
    (s.unmark l).marks[p]? = if some p ∈ l.map (·.programId) then none else s.marks[p]? := by
  suffices h : ∀ m : Std.TreeMap ProgramId Schedule,
      (l.foldl (fun m x => x.programId.elim m m.erase) m)[p]? =
        if some p ∈ l.map (·.programId) then none else m[p]? from h s.marks
  induction l with
  | nil => exact fun m => rfl
  | cons x rest ih =>
    intro m
    rw [List.foldl_cons, ih, List.map_cons]
    cases hx : x.programId with
    | none => simp
    | some q =>
      rw [Option.elim_some, get_erase]
      by_cases hq : q = p
      · simp [hq]
      · simp [hq, Ne.symm hq]

/-! ## Steps on both sides -/

def enter (s : Store) (l : List Schedule) : Store :=
  { s.hold l with archive := s.archive.putSchedules l }

/-- Gives schedules up without a mark. -/
def strike (s : Store) (ids : List ScheduleId) : Store :=
  { s.release ids with archive := s.archive.dropSchedules ids }

def lift (s : Store) (marks : List Schedule) : Store :=
  { s.unmark marks with archive := s.archive.dropSchedules (marks.map (·.id)) }

/-- Gives schedules up and leaves marks. -/
def bury (s : Store) (l : List Schedule) : Store :=
  { (s.release (l.map (·.id))).mark l with archive := s.archive.putSchedules l }

def row? (s : Store) (id : ScheduleId) : Option Schedule := s.archive.schedules[id]?

theorem row_strike (s : Store) (ids : List ScheduleId) (id : ScheduleId) :
    (s.strike ids).row? id = if id ∈ ids then none else s.row? id := get_eraseAll ids _ id

theorem row_lift (s : Store) (marks : List Schedule) (id : ScheduleId) :
    (s.lift marks).row? id = if id ∈ marks.map (·.id) then none else s.row? id :=
  get_eraseAll _ _ id

theorem row_of_strike (h : (s.strike ids).row? id = some x) : s.row? id = some x := by
  rw [row_strike] at h
  split at h
  · cases h
  · exact h

theorem row_of_lift (h : (s.lift marks).row? id = some x) : s.row? id = some x :=
  row_of_strike h

theorem row_enter (s : Store) (l : List Schedule) (id : ScheduleId) :
    (s.enter l).row? id = (copyIn l id).or (s.row? id) := get_insertAll Schedule.id l _ id

theorem row_bury (s : Store) (l : List Schedule) (id : ScheduleId) :
    (s.bury l).row? id = (copyIn l id).or (s.row? id) := get_insertAll Schedule.id l _ id

theorem eq_of_row (hx : s.row? x.id = some x) (hy : s.row? y.id = some y) (hid : x.id = y.id) :
    x = y := by
  rw [hid, hy] at hx
  exact (Option.some.inj hx).symm

/-! ## Agreement -/

/-- `x` is a row that a deleted schedule of the program has left. -/
def HasDeleted (s : Store) (p : ProgramId) (x : Schedule) : Prop :=
  s.row? x.id = some x ∧ x.state = .deleted ∧ x.programId = some p

/-- The rows are those of the schedules in use, of the rules and of the marks, and of some
deleted schedules of the programs in `spare`. -/
structure Mirrors (s : Store) (spare : List ProgramId) : Prop where
  keyed : ∀ (id : ScheduleId) (x : Schedule), s.row? id = some x → x.id = id
  live : ∀ (id : ScheduleId) (x : Schedule),
    s.live[id]? = some x ↔ s.row? id = some x ∧ x.state ≠ .deleted
  marks : ∀ (p : ProgramId) (x : Schedule), s.marks[p]? = some x → s.HasDeleted p x
  spare : ∀ p : ProgramId, p ∈ spare ↔ ∃ x, s.HasDeleted p x ∧ s.marks[p]? ≠ some x
  rules : s.archive.rules = s.rules
  ruleIds : ∀ (id : RuleId) (rule : SeriesRule), s.rules[id]? = some rule → rule.id = id

namespace Mirrors

/-- Rows that have been put or dropped are not those of deleted schedules. -/
theorem of_live (h : Mirrors s spare)
    (hkeyed : ∀ (id : ScheduleId) (x : Schedule), s'.row? id = some x → x.id = id)
    (hlive : ∀ (id : ScheduleId) (x : Schedule),
      s'.live[id]? = some x ↔ s'.row? id = some x ∧ x.state ≠ .deleted)
    (hdeleted : ∀ (id : ScheduleId) (x : Schedule), x.state = .deleted →
      (s'.row? id = some x ↔ s.row? id = some x))
    (hmarks : s'.marks = s.marks) (hrules : s'.rules = s.rules)
    (harchive : s'.archive.rules = s.archive.rules) : Mirrors s' spare := by
  have hhas : ∀ p x, s'.HasDeleted p x ↔ s.HasDeleted p x := fun p x =>
    ⟨fun ⟨hrow, hx⟩ => ⟨(hdeleted _ _ hx.1).mp hrow, hx⟩,
      fun ⟨hrow, hx⟩ => ⟨(hdeleted _ _ hx.1).mpr hrow, hx⟩⟩
  exact
    { keyed := hkeyed
      live := hlive
      marks := fun p x hx => (hhas p x).mpr (h.marks p x (hmarks ▸ hx))
      spare := fun p => by simp only [h.spare, hhas, hmarks]
      rules := by rw [harchive, hrules, h.rules]
      ruleIds := by
        rw [hrules]
        exact h.ruleIds }

theorem enter (h : Mirrors s spare) (hl : ∀ x ∈ l, x.state ≠ .deleted)
    (hids : ∀ x ∈ l, ∀ y, s.row? x.id = some y → y.state ≠ .deleted) :
    Mirrors (s.enter l) spare := by
  have hlive : ∀ id : ScheduleId, (s.enter l).live[id]? = (copyIn l id).or s.live[id]? :=
    get_hold s l
  refine h.of_live (fun id x hx => ?_) (fun id x => ?_) (fun id x hstate => ?_) rfl rfl rfl
  · rw [row_enter, Option.or_eq_some_iff] at hx
    rcases hx with hx | ⟨-, hx⟩
    · exact (id_of_copyIn hx).2
    · exact h.keyed id x hx
  · rw [row_enter, hlive]
    cases hcopy : copyIn l id with
    | none => exact h.live id x
    | some y =>
      refine ⟨fun hx => ⟨hx, ?_⟩, And.left⟩
      obtain rfl := Option.some.inj hx
      exact hl y (id_of_copyIn hcopy).1
  · rw [row_enter]
    cases hcopy : copyIn l id with
    | none => exact Iff.rfl
    | some y =>
      obtain ⟨hy, rfl⟩ := id_of_copyIn hcopy
      refine ⟨fun hx => ?_, fun hx => absurd hstate (hids y hy x hx)⟩
      obtain rfl := Option.some.inj hx
      exact absurd hstate (hl y hy)

theorem strike (h : Mirrors s spare)
    (hids : ∀ id ∈ ids, ∀ x, s.row? id = some x → x.state ≠ .deleted) :
    Mirrors (s.strike ids) spare := by
  have hlive : ∀ id : ScheduleId,
      (s.strike ids).live[id]? = if id ∈ ids then none else s.live[id]? := get_release s ids
  refine h.of_live (fun id x hx => ?_) (fun id x => ?_) (fun id x hstate => ?_) rfl rfl rfl
  · exact h.keyed id x (row_of_strike hx)
  · rw [row_strike, hlive]
    split
    · exact ⟨nofun, fun hx => nomatch hx.1⟩
    · exact h.live id x
  · rw [row_strike]
    split
    · next hmem => exact ⟨nofun, fun hx => absurd hstate (hids id hmem x hx)⟩
    · exact Iff.rfl

/-- A deleted row is dropped if it is the row of a mark that is lifted. -/
theorem mem_lifted (h : Mirrors s spare)
    (hmarks : ∀ x ∈ marks, ∃ p : ProgramId, s.marks[p]? = some x) (hx : s.HasDeleted p x) :
    x.id ∈ marks.map (·.id) ↔
      some p ∈ marks.map (·.programId) ∧ s.marks[p]? = some x := by
  simp only [List.mem_map]
  constructor
  · rintro ⟨y, hy, hid⟩
    obtain ⟨q, hq⟩ := hmarks y hy
    obtain rfl := eq_of_row (h.marks q y hq).1 hx.1 hid
    have hprogram : q = p := Option.some.inj ((h.marks q y hq).2.2.symm.trans hx.2.2)
    exact ⟨⟨y, hy, hx.2.2⟩, hprogram ▸ hq⟩
  · rintro ⟨⟨y, hy, hprogram⟩, hp⟩
    obtain ⟨q, hq⟩ := hmarks y hy
    have hsame : q = p := Option.some.inj ((h.marks q y hq).2.2.symm.trans hprogram)
    subst hsame
    exact ⟨y, hy, congrArg Schedule.id (Option.some.inj (hq.symm.trans hp))⟩

theorem hasDeleted_lift (h : Mirrors s spare)
    (hmarks : ∀ x ∈ marks, ∃ p : ProgramId, s.marks[p]? = some x) :
    (s.lift marks).HasDeleted p x ↔ s.HasDeleted p x ∧
      ¬ (some p ∈ marks.map (·.programId) ∧ s.marks[p]? = some x) := by
  have hrow : (s.lift marks).HasDeleted p x ↔ s.HasDeleted p x ∧ x.id ∉ marks.map (·.id) := by
    rw [HasDeleted, HasDeleted, row_lift]
    split <;> simp [*]
  rw [hrow]
  exact and_congr_right fun hx => not_congr (h.mem_lifted hmarks hx)

/-- A lifted mark goes with its row. The spare rows of its program stay. -/
theorem lift (h : Mirrors s spare) (hmarks : ∀ x ∈ marks, ∃ p : ProgramId, s.marks[p]? = some x) :
    Mirrors (s.lift marks) spare := by
  have hmark : ∀ p : ProgramId, (s.lift marks).marks[p]? =
      if some p ∈ marks.map (·.programId) then none else s.marks[p]? := get_unmark s marks
  exact
    { keyed := fun id x hx => h.keyed id x (row_of_lift hx)
      live := fun id x => by
        have hsame : (s.lift marks).live[id]? = s.live[id]? := rfl
        rw [hsame, h.live, row_lift]
        split
        · next hmem =>
          -- The row of a mark is that of a deleted schedule.
          refine ⟨fun ⟨hx, hstate⟩ => ?_, fun hx => nomatch hx.1⟩
          obtain ⟨y, hy, rfl⟩ := List.mem_map.mp hmem
          obtain ⟨q, hq⟩ := hmarks y hy
          obtain rfl := Option.some.inj ((h.marks q y hq).1.symm.trans hx)
          exact absurd (h.marks q y hq).2.1 hstate
        · exact Iff.rfl
      marks := fun p x hx => by
        rw [hmark] at hx
        split at hx
        · cases hx
        · next hnot =>
          exact (h.hasDeleted_lift hmarks).mpr ⟨h.marks p x hx, fun hin => hnot hin.1⟩
      spare := fun p => by
        rw [h.spare]
        refine exists_congr fun x => ?_
        rw [h.hasDeleted_lift hmarks, hmark, and_assoc]
        refine and_congr_right fun _ => ?_
        split <;> simp [*]
      rules := h.rules
      ruleIds := h.ruleIds }

end Mirrors

/-- The programs that have more deleted schedules than one when these are deleted too: they have
a mark, or two of them are deleted at once. -/
def crowded (s : Store) (l : List Schedule) : List ProgramId :=
  (l.filter fun x => x.programId.any (s.marks.contains ·) ||
    l.any fun y => y.programId == x.programId && y.id != x.id).filterMap (·.programId)

theorem mem_crowded : p ∈ s.crowded l ↔ ∃ x ∈ l, x.programId = some p ∧
    (p ∈ s.marks ∨ ∃ y ∈ l, y.programId = some p ∧ y.id ≠ x.id) := by
  simp only [crowded, List.mem_filterMap, List.mem_filter]
  refine exists_congr fun x => ?_
  rw [and_assoc]
  refine and_congr_right fun _ => and_comm.trans (and_congr_right fun hp => ?_)
  simp [hp, Std.TreeMap.contains_iff_mem]

/-! ### Schedules that leave marks -/

/-- These are deleted copies of schedules in use. -/
structure CanBury (s : Store) (l : List Schedule) : Prop where
  deleted : ∀ x ∈ l, x.state = .deleted
  live : ∀ x ∈ l, x.id ∈ s.live
  one : ∀ x ∈ l, ∀ y ∈ l, x.id = y.id → x = y

theorem CanBury.copyIn (hl : CanBury s l) (hx : x ∈ l) : copyIn l x.id = some x := by
  cases hcopy : Timeshift.copyIn l x.id with
  | none => exact absurd rfl (copyIn_eq_none.mp hcopy x hx)
  | some y =>
    obtain ⟨hy, hid⟩ := id_of_copyIn hcopy
    rw [hl.one y hy x hx hid]

/-- A schedule in use has no deleted row, so no such row is written over. -/
theorem Mirrors.copyIn_eq_none (h : Mirrors s spare) (hl : CanBury s l) (hx : s.HasDeleted p x) :
    copyIn l x.id = none := by
  refine Timeshift.copyIn_eq_none.mpr fun y hy hid => ?_
  obtain ⟨z, hz⟩ := mem_iff_get.mp (hl.live y hy)
  rw [hid, h.live, hx.1] at hz
  obtain rfl := Option.some.inj hz.1
  exact hz.2 hx.2.1

theorem hasDeleted_bury (h : Mirrors s spare) (hl : CanBury s l) :
    (s.bury l).HasDeleted p x ↔ s.HasDeleted p x ∨ x ∈ l ∧ x.programId = some p := by
  constructor
  · rintro ⟨hx, hstate, hp⟩
    rw [row_bury, Option.or_eq_some_iff] at hx
    rcases hx with hx | ⟨-, hx⟩
    · exact Or.inr ⟨(id_of_copyIn hx).1, hp⟩
    · exact Or.inl ⟨hx, hstate, hp⟩
  · rintro (hx | ⟨hx, hp⟩)
    · refine ⟨?_, hx.2⟩
      rw [row_bury, h.copyIn_eq_none hl hx, Option.none_or]
      exact hx.1
    · refine ⟨?_, hl.deleted x hx, hp⟩
      rw [row_bury, hl.copyIn hx, Option.some_or]

/-- The last of the deleted schedules of a program has its mark. -/
theorem mark_bury (hp : ∃ x ∈ l, x.programId = some p) :
    ∃ z ∈ l, z.programId = some p ∧ (s.bury l).marks[p]? = some z := by
  obtain ⟨x, hx, hp⟩ := hp
  have hmark : (s.bury l).marks[p]? =
      ((l.filter (·.programId = some p)).getLast?).or s.marks[p]? := get_mark _ l p
  rw [hmark]
  cases hlast : (l.filter (·.programId = some p)).getLast? with
  | none =>
    rw [List.getLast?_eq_none_iff, List.filter_eq_nil_iff] at hlast
    exact absurd (decide_eq_true hp) (hlast x hx)
  | some z =>
    obtain ⟨hz, hzp⟩ := List.mem_filter.mp (List.mem_of_getLast? hlast)
    exact ⟨z, hz, of_decide_eq_true hzp, rfl⟩

theorem mark_bury_of_none (hp : ¬ ∃ x ∈ l, x.programId = some p) :
    (s.bury l).marks[p]? = s.marks[p]? := by
  have hmark : (s.bury l).marks[p]? =
      ((l.filter (·.programId = some p)).getLast?).or s.marks[p]? := get_mark _ l p
  have hfilter : l.filter (·.programId = some p) = [] :=
    List.filter_eq_nil_iff.mpr fun x hx hxp => hp ⟨x, hx, of_decide_eq_true hxp⟩
  rw [hmark, hfilter, List.getLast?_nil, Option.none_or]

/-- The old rows of a program are spare when it gets a new mark. -/
theorem spare_bury (h : Mirrors s spare) (hl : CanBury s l) (p : ProgramId) :
    (∃ x, (s.bury l).HasDeleted p x ∧ (s.bury l).marks[p]? ≠ some x) ↔
      (∃ x, s.HasDeleted p x ∧ s.marks[p]? ≠ some x) ∨ p ∈ s.crowded l := by
  simp only [hasDeleted_bury h hl, mem_crowded]
  by_cases hsome : ∃ y ∈ l, y.programId = some p
  · obtain ⟨z, hz, hzp, hzmark⟩ := mark_bury (s := s) hsome
    rw [hzmark]
    have hother : ∀ x, s.HasDeleted p x → some z ≠ some x := by
      rintro x hx heq
      obtain rfl := Option.some.inj heq
      exact nomatch (hl.copyIn hz).symm.trans (h.copyIn_eq_none hl hx)
    constructor
    · rintro ⟨x, hx | ⟨hx, hxp⟩, hne⟩
      · by_cases hmarked : s.marks[p]? = some x
        · exact Or.inr ⟨z, hz, hzp, Or.inl (mem_of_get hmarked)⟩
        · exact Or.inl ⟨x, hx, hmarked⟩
      · refine Or.inr ⟨x, hx, hxp, Or.inr ⟨z, hz, hzp, fun hid => hne ?_⟩⟩
        rw [hl.one z hz x hx hid]
    · rintro (⟨x, hx, -⟩ | ⟨x, hx, hxp, hmarked | ⟨y, hy, hyp, hid⟩⟩)
      · exact ⟨x, Or.inl hx, hother x hx⟩
      · obtain ⟨w, hw⟩ := mem_iff_get.mp hmarked
        exact ⟨w, Or.inl (h.marks p w hw), hother w (h.marks p w hw)⟩
      · -- One of the two is not the last one.
        by_cases hzx : z = x
        · refine ⟨y, Or.inr ⟨hy, hyp⟩, fun heq => hid ?_⟩
          rw [← Option.some.inj heq, hzx]
        · exact ⟨x, Or.inr ⟨hx, hxp⟩, fun heq => hzx (Option.some.inj heq)⟩
  · rw [mark_bury_of_none hsome]
    constructor
    · rintro ⟨x, hx | hin, hne⟩
      · exact Or.inl ⟨x, hx, hne⟩
      · exact absurd ⟨x, hin⟩ hsome
    · rintro (⟨x, hx, hne⟩ | ⟨x, hx, hxp, -⟩)
      · exact ⟨x, Or.inl hx, hne⟩
      · exact absurd ⟨x, hx, hxp⟩ hsome

theorem Mirrors.bury (h : Mirrors s spare) (hl : CanBury s l) :
    Mirrors (s.bury l) (spare ++ s.crowded l) where
  keyed id x hx := by
    rw [row_bury, Option.or_eq_some_iff] at hx
    rcases hx with hx | ⟨-, hx⟩
    · exact (id_of_copyIn hx).2
    · exact h.keyed id x hx
  live id x := by
    have hlive : (s.bury l).live[id]? = if id ∈ l.map (·.id) then none else s.live[id]? :=
      get_release s _ id
    rw [hlive, row_bury]
    cases hcopy : Timeshift.copyIn l id with
    | none =>
      have hnot : id ∉ l.map (·.id) := by simpa using Timeshift.copyIn_eq_none.mp hcopy
      rw [if_neg hnot]
      exact h.live id x
    | some y =>
      obtain ⟨hy, rfl⟩ := id_of_copyIn hcopy
      rw [if_pos (List.mem_map_of_mem hy)]
      refine ⟨nofun, fun ⟨hx, hstate⟩ => ?_⟩
      obtain rfl := Option.some.inj hx
      exact absurd (hl.deleted y hy) hstate
  marks p x hx := by
    rw [hasDeleted_bury h hl]
    by_cases hsome : ∃ y ∈ l, y.programId = some p
    · obtain ⟨z, hz, hzp, hzmark⟩ := mark_bury (s := s) hsome
      obtain rfl := Option.some.inj (hzmark.symm.trans hx)
      exact Or.inr ⟨hz, hzp⟩
    · rw [mark_bury_of_none hsome] at hx
      exact Or.inl (h.marks p x hx)
  spare p := by rw [List.mem_append, h.spare, spare_bury h hl]
  rules := h.rules
  ruleIds := h.ruleIds

end Store

end Timeshift
