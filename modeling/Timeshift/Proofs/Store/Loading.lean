import Timeshift.Proofs.Store.Restart
import Timeshift.Proofs.Store.Success

/-!
# Loading

What was going on when the program stopped is put right when the archive is loaded again. The
rows are put right first, and then the store takes them over. A second loading finds them right.
-/

namespace Timeshift

namespace Archive

/-- The rows stand under their ids. -/
def IsKeyed (a : Archive) : Prop :=
  ∀ (id : ScheduleId) (x : Schedule), a.schedules[id]? = some x → x.id = id

theorem schedules_putRules (rules : List SeriesRule) (a : Archive) :
    (rules.foldl putRule a).schedules = a.schedules := by
  induction rules generalizing a with
  | nil => rfl
  | cons rule rest ih => exact ih (a.putRule rule)

theorem schedules_putRecorded (recorded : List RecordedProgram) (a : Archive) :
    (recorded.foldl putRecorded a).schedules = a.schedules := by
  induction recorded generalizing a with
  | nil => rfl
  | cons row rest ih => exact ih (a.putRecorded row)

theorem isKeyed_ofSnapshot (snapshot : Snapshot) : (ofSnapshot snapshot).IsKeyed := by
  intro id x hx
  rw [ofSnapshot, schedules_putRecorded, schedules_putRules] at hx
  rw [putSchedules, get_insertAll Schedule.id] at hx
  rw [Std.TreeMap.getElem?_emptyc, Option.or_none] at hx
  exact (id_of_copyIn hx).2

end Archive

namespace Store

variable {s s' t : Store} {now : Instant} {n : Nat} {rows : List Schedule}

/-! ## Rows -/

/-- The row `y` is what becomes of the row `x` when the program starts again at `now`. -/
structure Recovers (now : Instant) (x y : Schedule) : Prop where
  /-- Nothing but the state may change. -/
  same : y = { x with state := y.state }
  /-- What was being recorded waits again, unless it is over. -/
  stopped : x.state = .inProgress → y.state = if x.ends ≤ now then .failed else .notStarted
  missed : x.state = .notStarted → x.ends ≤ now → y.state = .failed
  other : x.state ≠ .inProgress → ¬ (x.state = .notStarted ∧ x.ends ≤ now) → y = x

theorem eq_restarted {x : Schedule} (h : (restarted now x).state = x.state) :
    restarted now x = x := by
  have hstate : stateAfterRestart now x = x.state := h
  rw [restarted, hstate]

theorem recovers_restarted (now : Instant) (x : Schedule) : Recovers now x (restarted now x) where
  same := rfl
  stopped hstate := by simp only [restarted, stateAfterRestart, hstate]
  missed hstate hends := by simp only [restarted, stateAfterRestart, hstate, if_pos hends]
  other hstopped hmissed := by
    refine eq_restarted ?_
    simp only [restarted, stateAfterRestart]
    split
    · next hstate => exact absurd hstate hstopped
    · next hstate => rw [if_neg fun hends => hmissed ⟨hstate, hends⟩, hstate]
    · rfl

/-- Nothing is being recorded after a restart, and what waits is still to come. -/
theorem restarted_is_current (now : Instant) (x : Schedule) :
    (restarted now x).state ≠ .inProgress ∧
    ((restarted now x).state = .notStarted → now < (restarted now x).ends) := by
  simp only [restarted, stateAfterRestart]
  split
  · by_cases hends : x.ends ≤ now
    · simp [hends]
    · simpa [hends] using Int64.not_le.mp hends
  · by_cases hends : x.ends ≤ now
    · simp [hends]
    · simpa [hends] using Int64.not_le.mp hends
  · next hstopped hmissed => exact ⟨hstopped, fun hstate => absurd hstate hmissed⟩

theorem restarted_restarted (now : Instant) (x : Schedule) :
    restarted now (restarted now x) = restarted now x := by
  obtain ⟨hstopped, hmissed⟩ := restarted_is_current now x
  refine (recovers_restarted now (restarted now x)).other hstopped ?_
  rintro ⟨hstate, hends⟩
  exact absurd (hmissed hstate) (Int64.not_lt.mpr hends)

/-- The rows that a restart changes, as they are after it. -/
def putRight (now : Instant) (rows : List Schedule) : List Schedule :=
  (rows.filter fun x => (restarted now x).state ≠ x.state).map (restarted now)

theorem changed_eq_putRight (now : Instant) (rows : List Schedule) :
    (((rows.map (restarted now)).zip rows).filterMap fun (row, old) =>
      if row.state = old.state then none else some row) = putRight now rows := by
  induction rows with
  | nil => rfl
  | cons x rest ih =>
    rw [List.map_cons, List.zip_cons_cons, List.filterMap_cons, ih, putRight, putRight,
      List.filter_cons]
    by_cases h : (restarted now x).state = x.state
    · simp [h]
    · simp [h]

theorem putRight_restarted (now : Instant) (rows : List Schedule) :
    putRight now (rows.map (restarted now)) = [] := by
  simp [putRight, restarted_restarted]

/-! ## One loading -/

/-- A loading that succeeds has written what it put right. -/
theorem run_load_ok (h : s.run (load now) = (.ok n, s')) :
    let rows := s.archive.schedules.values
    s.archive.unreadable = none ∧ ∃ writes journal,
      s' = { s.adopt (rows.map (restarted now)) s.archive.snapshot with
        archive := { s.archive.putSchedules (putRight now rows) with writes }, journal } ∧
      n = s'.live.size := by
  intro rows
  rw [load, run_bind, run_get] at h
  cases hread : s.archive.unreadable with
  | some fault =>
    simp only [Archive.read, hread] at h
    cases h
  | none =>
    simp only [Archive.read, hread, Archive.snapshot, changed_eq_putRight] at h
    refine ⟨rfl, ?_⟩
    split at h
    · next hright =>
      obtain rfl := congrArg Prod.snd h
      rw [List.isEmpty_iff.mp hright]
      exact ⟨s.archive.writes, _, rfl, (Except.ok.inj (congrArg Prod.fst h)).symm⟩
    · obtain ⟨_, t, hput, h⟩ := run_bind_ok h
      obtain rfl := eq_of_run_persist hput
      obtain rfl := congrArg Prod.snd h
      exact ⟨s.archive.writes + 1, _, rfl, (Except.ok.inj (congrArg Prod.fst h)).symm⟩

/-- If all is right, a loading does not write, and nothing can stop it. -/
theorem run_load_right (hread : s.archive.unreadable = none)
    (hright : putRight now s.archive.schedules.values = []) :
    let s' := s.adopt (s.archive.schedules.values.map (restarted now)) s.archive.snapshot
    ∃ journal, s.run (load now) = (.ok s'.live.size, { s' with journal }) := by
  intro s'
  rw [load, run_bind, run_get]
  simp only [Archive.read, hread, Archive.snapshot, changed_eq_putRight]
  rw [if_pos (List.isEmpty_iff.mpr hright)]
  exact ⟨_, rfl⟩

/-- The rows that are left are those that were there, each as it is after a restart. -/
theorem row_putRight {rows : Std.TreeMap ScheduleId Schedule}
    (hkeyed : ∀ (id : ScheduleId) (x : Schedule), rows[id]? = some x → x.id = id)
    (id : ScheduleId) :
    ((putRight now rows.values).foldl (fun m x => m.insert x.id x) rows)[id]? =
      (rows[id]?).map (restarted now) := by
  have hcopy : copyIn (putRight now rows.values) id =
      ((rows[id]?).filter fun x => (restarted now x).state ≠ x.state).map (restarted now) := by
    rw [putRight, copyIn_map (f := restarted now) fun _ => rfl, copyIn_filter_values hkeyed]
  refine (get_insertAll Schedule.id _ rows id).trans ?_
  change (copyIn (putRight now rows.values) id).or _ = _
  rw [hcopy]
  cases rows[id]? with
  | none => rfl
  | some x =>
    by_cases hsame : (restarted now x).state = x.state
    · simp [Option.filter, eq_restarted hsame]
    · simp [Option.filter, hsame]

theorem values_putRight {rows : Std.TreeMap ScheduleId Schedule}
    (hkeyed : ∀ (id : ScheduleId) (x : Schedule), rows[id]? = some x → x.id = id) :
    ((putRight now rows.values).foldl (fun m x => m.insert x.id x) rows).values =
      rows.values.map (restarted now) := by
  refine (values_eq_of_get fun id => ?_).trans (values_map rows (restarted now))
  rw [row_putRight hkeyed, Std.TreeMap.getElem?_map]

/-! ## Two loadings -/

/-- Rows that have been put right are loaded without a write, and as they were the first time. -/
theorem run_load_again {a : Archive} (hkeyed : a.IsKeyed) (hread : a.unreadable = none)
    {writes : Nat} {t : Store}
    (ht : t.archive = { a.putSchedules (putRight now a.schedules.values) with writes }) :
    let t' := t.adopt (a.schedules.values.map (restarted now))
      { a.snapshot with schedules := t.archive.schedules.values }
    ∃ journal, t.run (load now) = (.ok t'.live.size, { t' with journal }) := by
  intro t'
  have hrows : t.archive.schedules.values = a.schedules.values.map (restarted now) := by
    rw [ht]
    exact values_putRight hkeyed
  have hright : putRight now t.archive.schedules.values = [] := by rw [hrows, putRight_restarted]
  have hread' : t.archive.unreadable = none := by rw [ht]; exact hread
  have hsame : t.archive.schedules.values.map (restarted now) =
      a.schedules.values.map (restarted now) := by
    rw [hrows, List.map_map]
    exact List.map_congr_left fun x _ => restarted_restarted now x
  have hsnapshot : t.archive.snapshot =
      { a.snapshot with schedules := t.archive.schedules.values } := by
    simp only [Archive.snapshot, ht]
    rfl
  obtain ⟨journal, hagain⟩ := run_load_right hread' hright
  rw [hsame, hsnapshot] at hagain
  exact ⟨journal, hagain⟩

/-- After a loading nothing is being recorded, and what waits is still to come. A row has changed
its state if it was of a recording that was going on or was missed, and in nothing else, and no
other row has changed. In use are the rows that are not those of deleted schedules. Another
loading at the same time, by any store, writes nothing and has the same outcome. -/
theorem load_recovers (hkeyed : s.archive.IsKeyed) (h : s.run (load now) = (.ok n, s')) :
    (∀ (id : ScheduleId) (x : Schedule), s'.live[id]? = some x →
      x.state ≠ .inProgress ∧ (x.state = .notStarted → now < x.ends)) ∧
    (∀ id, Option.Rel (Recovers now) (s.row? id) (s'.row? id)) ∧
    s'.archive.rules = s.archive.rules ∧ s'.archive.recorded = s.archive.recorded ∧
    (∀ (id : ScheduleId) (x : Schedule),
      s'.live[id]? = some x ↔ s'.row? id = some x ∧ x.state ≠ .deleted) ∧
    ∀ t : Store, t.archive = s'.archive → ∃ t', t.run (load now) = (.ok n, t') ∧
      t'.archive = t.archive ∧ t'.live = s'.live ∧ t'.marks = s'.marks ∧ t'.rules = s'.rules ∧
      t'.recorded = s'.recorded := by
  obtain ⟨hread, writes, journal, hafter, hn⟩ := run_load_ok h
  have hrow : ∀ id, s'.row? id = (s.row? id).map (restarted now) := by
    intro id
    rw [hafter]
    exact row_putRight hkeyed id
  have hlive : ∀ id : ScheduleId, s'.live[id]? = (s'.row? id).filter (!·.state == .deleted) := by
    intro id
    rw [hrow, hafter, Option.filter_map]
    simp only [Function.comp_def, isDeleted_restarted]
    exact live_adopt_rows now s s.archive.snapshot hkeyed id
  have hrules : s'.archive.rules = s.archive.rules := by
    rw [hafter]
    rfl
  have hrecorded : s'.archive.recorded = s.archive.recorded := by
    rw [hafter]
    rfl
  refine ⟨fun id x hx => ?_, fun id => ?_, hrules, hrecorded, fun id x => ?_,
    fun t ht => ?_⟩
  · rw [hlive, hrow, Option.filter_eq_some_iff] at hx
    obtain ⟨y, -, rfl⟩ := Option.map_eq_some_iff.mp hx.1
    exact restarted_is_current now y
  · rw [hrow]
    cases s.row? id with
    | none => exact .none
    | some x => exact .some (recovers_restarted now x)
  · rw [hlive, Option.filter_eq_some_iff]
    simp
  · obtain ⟨journal', hagain⟩ :=
      run_load_again hkeyed hread (ht.trans (congrArg Store.archive hafter))
    rw [hn, hafter]
    exact ⟨_, hagain, rfl, rfl, rfl, rfl, rfl⟩

/-- Rows in every state that a restart looks at, of which some have no program, and some have
one together. -/
theorem load_recovers_eight_rows :
    let row (id : ScheduleId) (state : RecordingState) (ends : Instant)
        (programId : Option ProgramId) : Schedule :=
      { Schedule.timed id 1 20 ends 5 with state, programId }
    let rows := [row 1 .inProgress 30 none, row 2 .inProgress 80 (some 7),
      row 3 .notStarted 30 (some 7), row 4 .notStarted 80 none, row 5 .finished 30 none,
      row 6 .deleted 80 (some 7), row 7 .deleted 30 (some 7), row 8 .deleted 30 none]
    let s : Store := { archive := .ofSnapshot { schedules := rows } }
    let s' := (s.run (load 50)).2
    s.archive.IsKeyed ∧ s.run (load 50) = (.ok 5, s') ∧
      s'.schedules.map (·.state) = [.failed, .notStarted, .failed, .notStarted, .finished] ∧
      s'.marks.values = [row 7 .deleted 30 (some 7)] ∧ s'.archive.writes = 1 ∧
      (∀ id, Option.Rel (Recovers 50) (s.row? id) (s'.row? id)) ∧
      ∃ t, s'.run (load 50) = (.ok 5, t) ∧ t.archive = s'.archive ∧ t.live = s'.live ∧
        t.marks = s'.marks ∧ t.rules = s'.rules ∧ t.recorded = s'.recorded := by
  intro row rows s s'
  have hkeyed : s.archive.IsKeyed := Archive.isKeyed_ofSnapshot { schedules := rows }
  have hfirst : (s.run (load 50)).1 = .ok 5 := by decide +kernel
  have h : s.run (load 50) = (.ok 5, s') := by rw [← hfirst]
  obtain ⟨-, hrows, -, -, -, hagain⟩ := load_recovers hkeyed h
  exact ⟨hkeyed, h, by decide +kernel, by decide +kernel, by decide +kernel, hrows, hagain s' rfl⟩

end Store

end Timeshift
