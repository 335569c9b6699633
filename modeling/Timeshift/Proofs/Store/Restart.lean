import Timeshift.Proofs.Rank
import Timeshift.Proofs.Store.Kept

/-!
# Restarting

A store that is loaded from the archive of another one shows the same schedules, as they are
after a restart, and the same rules. It shows the same unwanted programs as well, as long as every
program with a spare row has kept its mark: a mark that is lifted leaves the spare row behind.
-/

namespace Timeshift

namespace Store

variable {s s' : Store} {spare : List ProgramId} {e : Edit}

/-! ## Runs -/

/-- What happens to a store: a call, or a change of whether its archive takes writes. -/
inductive Act where
  | edit (e : Edit)
  | refuse (on : Bool)

def Act.IsPlain : Act → Prop
  | edit e => e.IsPlain
  | refuse _ => True

instance : (a : Act) → Decidable a.IsPlain
  | .edit e => inferInstanceAs (Decidable e.IsPlain)
  | .refuse _ => inferInstanceAs (Decidable True)

/-- The schedules that are handed in to be added. -/
def Act.added : Act → List Schedule
  | edit e => e.added
  | refuse _ => []

def act (s : Store) : Act → Store
  | .edit e => s.edit e
  | .refuse on => { s with archive := s.archive.refuseAll on }

/-- The programs of which a run leaves spare rows. -/
def crowdedIn (s : Store) : List Act → List ProgramId
  | [] => []
  | .edit e :: rest => s.crowdedBy e ++ crowdedIn (s.edit e) rest
  | .refuse on :: rest => crowdedIn (s.act (.refuse on)) rest

/-- Nothing is in use, and nothing is in the archive. -/
structure IsBlank (s : Store) : Prop where
  live : s.live = ∅
  marks : s.marks = ∅
  rules : s.rules = ∅
  rows : s.archive.schedules = ∅
  ruleRows : s.archive.rules = ∅
  readable : s.archive.unreadable = none
  steady : ∃ on, Refuses on s

/-- What holds of a store throughout a run, after `count` ids at most. -/
structure IsSound (first : ScheduleId) (count : Nat) (spare : List ProgramId) (s : Store) :
    Prop where
  mirrors : Mirrors s spare
  issued : ∃ n ≤ count, Issued first n s
  readable : s.archive.unreadable = none
  steady : ∃ on, Refuses on s

theorem IsBlank.isSound (h : s.IsBlank) : IsSound s.scheduleIds.next 0 [] s where
  mirrors :=
    { keyed := fun id x hx => by simp [row?, h.rows] at hx
      live := fun id x => by simp [row?, h.live, h.rows]
      marks := fun p x hx => by simp [h.marks] at hx
      spare := fun p => by simp [HasDeleted, row?, h.rows]
      rules := by rw [h.ruleRows, h.rules]
      ruleIds := fun id rule hrule => by simp [h.rules] at hrule }
  issued := ⟨0, Nat.le_refl 0, (Int64.add_zero _).symm, fun id x hx => by simp [row?, h.rows] at hx⟩
  readable := h.readable
  steady := h.steady

section

variable {first : ScheduleId} {count : Nat}

theorem Issued.alike (h : Issued first count s) (halike : Alike s s') : Issued first count s' where
  next := halike.scheduleIds ▸ h.next
  rows id x hx := h.rows id x (by rwa [row?, halike.rows] at hx)

theorem IsSound.edit (h : IsSound first count spare s) (hplain : e.IsPlain)
    (hadded : count + e.added.length ≤ Int64.size) :
    IsSound first (count + e.added.length) (spare ++ s.crowdedBy e) (s.edit e) := by
  obtain ⟨on, hsteady⟩ := h.steady
  obtain ⟨n, hn, hissued⟩ := h.issued
  have hload : ∀ now, e ≠ .load now := by
    rintro now rfl
    exact hplain
  obtain ⟨s₁, hout, halike⟩ := comesTo_edit hsteady hload
  obtain ⟨more, hmore, hnext⟩ := hissued.outcome h.mirrors hout
  have hunused : e.IsUnused s := hissued.unused (by omega)
  exact
    { mirrors := (h.mirrors.outcome hplain hunused hout).alike halike
      issued := ⟨n + more, by omega, hnext.alike halike⟩
      readable := by rw [halike.unreadable, hout.archive.2, h.readable]
      steady := ⟨on, hsteady.edit hload⟩ }

theorem IsSound.refuse (h : IsSound first count spare s) (on : Bool) :
    IsSound first count spare (s.act (.refuse on)) where
  mirrors := h.mirrors.of_live h.mirrors.keyed h.mirrors.live (fun _ _ _ => Iff.rfl) rfl rfl rfl
  issued := by
    obtain ⟨n, hn, hissued⟩ := h.issued
    exact ⟨n, hn, hissued.next, hissued.rows⟩
  readable := h.readable
  steady := ⟨on, fun _ => rfl⟩

theorem IsSound.run (h : IsSound first count spare s) (acts : List Act)
    (hplain : ∀ a ∈ acts, a.IsPlain)
    (hadded : count + (acts.flatMap Act.added).length ≤ Int64.size) :
    ∃ n, IsSound first n (spare ++ s.crowdedIn acts) (acts.foldl act s) := by
  -- The ids that are used up and the spare rows grow from call to call.
  induction acts generalizing s count spare with
  | nil => exact ⟨count, by rwa [crowdedIn, List.append_nil]⟩
  | cons a rest ih =>
    obtain ⟨ha, hrest⟩ := List.forall_mem_cons.mp hplain
    rw [List.flatMap_cons, List.length_append] at hadded
    cases a with
    | edit e =>
      rw [Act.added] at hadded
      obtain ⟨n, hn⟩ := ih (h.edit ha (by omega)) hrest (by omega)
      exact ⟨n, by rwa [crowdedIn, ← List.append_assoc]⟩
    | refuse on => exact ih (h.refuse on) hrest (by simpa [Act.added] using hadded)

end

/-! ## Loading -/

theorem isDeleted_restarted (now : Instant) (x : Schedule) :
    ((restarted now x).state == .deleted) = (x.state == .deleted) := by
  rw [restarted]
  dsimp only
  rw [stateAfterRestart]
  split <;> (try split) <;> simp_all

theorem partition_restarted (now : Instant) (rows : List Schedule) :
    (rows.map (restarted now)).partition (·.state == .deleted) =
      ((rows.filter (·.state == .deleted)).map (restarted now),
        (rows.filter (!·.state == .deleted)).map (restarted now)) := by
  rw [List.partition_eq_filter_filter, List.filter_map, List.filter_map]
  refine congrArg₂ _ (congrArg _ (List.filter_congr fun x _ => ?_))
    (congrArg _ (List.filter_congr fun x _ => ?_))
  · exact isDeleted_restarted now x
  · exact congrArg (!·) (isDeleted_restarted now x)

/-- Every program with a deleted row has a mark or a spare row. -/
theorem exists_hasDeleted (h : Mirrors s spare) (p : ProgramId) :
    (∃ x, s.HasDeleted p x) ↔ p ∈ s.marks ∨ p ∈ spare := by
  rw [h.spare]
  constructor
  · rintro ⟨x, hx⟩
    by_cases hmark : s.marks[p]? = some x
    · exact Or.inl (mem_of_get hmark)
    · exact Or.inr ⟨x, hx, hmark⟩
  · rintro (hmark | ⟨x, hx, -⟩)
    · obtain ⟨x, hx⟩ := mem_iff_get.mp hmark
      exact ⟨x, h.marks p x hx⟩
    · exact ⟨x, hx⟩

section adopt

variable (now : Instant) (t : Store) (rest : Snapshot)

theorem live_adopt_rows {rows : Std.TreeMap ScheduleId Schedule}
    (h : ∀ (id : ScheduleId) (x : Schedule), rows[id]? = some x → x.id = id) (id : ScheduleId) :
    (t.adopt (rows.values.map (restarted now)) rest).live[id]? =
      ((rows[id]?).filter (!·.state == .deleted)).map (restarted now) := by
  rw [adopt, partition_restarted]
  change (hold { t with live := ∅, marks := ∅, rules := ∅ } _).live[id]? = _
  rw [get_hold, copyIn_map (f := restarted now) fun _ => rfl, copyIn_filter_values h]
  simp

theorem live_adopt (h : Mirrors s spare) (id : ScheduleId) :
    (t.adopt (s.archive.schedules.values.map (restarted now)) rest).live[id]? =
      (s.live[id]?).map (restarted now) := by
  have hlive : (s.row? id).filter (!·.state == .deleted) = s.live[id]? := by
    refine Option.ext fun x => ?_
    rw [h.live]
    simp [Option.filter_eq_some_iff]
  rw [live_adopt_rows now t rest h.keyed, ← hlive]
  rfl

theorem schedules_adopt (h : Mirrors s spare) :
    (t.adopt (s.archive.schedules.values.map (restarted now)) rest).schedules =
      s.schedules.map (restarted now) := by
  refine (values_eq_of_get fun id => ?_).trans (values_map s.live (restarted now))
  rw [live_adopt now t rest h, Std.TreeMap.getElem?_map]

theorem mem_marks_adopt (h : Mirrors s spare) (p : ProgramId) :
    p ∈ (t.adopt (s.archive.schedules.values.map (restarted now)) rest).marks ↔
      ∃ x, s.HasDeleted p x := by
  rw [adopt, partition_restarted]
  change p ∈ (mark _ _).marks ↔ _
  rw [mem_iff_get]
  simp only [get_mark]
  have hnone : (hold { t with live := ∅, marks := ∅, rules := ∅ }
      ((s.archive.schedules.values.filter (!·.state == .deleted)).map (restarted now))).marks[p]? =
        none := by simp [hold]
  simp only [hnone, Option.or_none]
  constructor
  · rintro ⟨x, hx⟩
    obtain ⟨hmem, hp⟩ := List.mem_filter.mp (List.mem_of_getLast? hx)
    obtain ⟨y, hy, rfl⟩ := List.mem_map.mp hmem
    obtain ⟨hrow, hstate⟩ := List.mem_filter.mp hy
    obtain ⟨id, hid⟩ := mem_values.mp hrow
    refine ⟨y, ?_, beq_iff_eq.mp hstate, of_decide_eq_true hp⟩
    rwa [h.keyed id y hid]
  · rintro ⟨x, hrow, hstate, hp⟩
    cases hlast : (List.filter (·.programId = some p) ((s.archive.schedules.values.filter
        (·.state == .deleted)).map (restarted now))).getLast? with
    | some y => exact ⟨y, rfl⟩
    | none =>
      rw [List.getLast?_eq_none_iff, List.filter_eq_nil_iff] at hlast
      have hmem : x ∈ s.archive.schedules.values.filter (·.state == .deleted) :=
        List.mem_filter.mpr ⟨mem_values.mpr ⟨x.id, hrow⟩, beq_iff_eq.mpr hstate⟩
      exact absurd (decide_eq_true hp) (hlast (restarted now x) (List.mem_map_of_mem hmem))

theorem unwanted_adopt_iff (h : Mirrors s spare) :
    (t.adopt (s.archive.schedules.values.map (restarted now)) rest).unwanted = s.unwanted ↔
      ∀ p ∈ spare, p ∈ s.unwanted := by
  simp only [unwanted, keys_eq_iff, mem_marks_adopt now t rest h, exists_hasDeleted h,
    Std.TreeMap.mem_keys]
  exact forall_congr' fun p => or_iff_left_iff_imp

theorem ruleList_adopt (h : Mirrors s spare) (rows : List Schedule) :
    (t.adopt rows s.archive.snapshot).ruleList = s.ruleList := by
  refine values_eq_of_get fun id => ?_
  have hrules : (t.adopt rows s.archive.snapshot).rules[id]? =
      ((s.rules.values.filter (·.id = id)).getLast?).or
        (∅ : Std.TreeMap RuleId SeriesRule)[id]? := by
    rw [← h.rules]
    exact get_insertAll SeriesRule.id _ ∅ id
  rw [hrules, filter_values_key h.ruleIds]
  cases s.rules[id]? <;> simp

end adopt

/-- What a loading leaves, if nothing stops it. -/
theorem run_load (h : Refuses false s) (hread : s.archive.unreadable = none) (now : Instant) :
    let rows := s.archive.snapshot.schedules.map (restarted now)
    ∃ archive journal,
      let s' := { s.adopt rows s.archive.snapshot with archive, journal }
      s.run (load now) = (.ok s'.live.size, s') := by
  intro rows
  rw [load, run_bind, run_get]
  simp only [Archive.read, hread]
  split
  · exact ⟨_, _, rfl⟩
  · simp only [persist, run_bind, run_get, run_modify, Archive.write, h s.archive.writes,
      Bool.false_eq_true, if_false]
    exact ⟨_, _, rfl⟩

/-- The store that is loaded from the archive after a restart. -/
def restart (s : Store) (now : Instant) : Except Fault Nat × Store :=
  run { archive := s.archive.refuseAll false } (load now)

/-- A store begins with nothing and an empty archive. It is called, and the archive refuses all
writes for a while or takes them again. Then a store that is loaded from the archive shows the
schedules as they are after a restart, and the rules. It shows the same unwanted programs just if
every program with a spare row is still unwanted. -/
theorem restart_agrees_iff (hblank : s.IsBlank) (acts : List Act)
    (hplain : ∀ a ∈ acts, a.IsPlain) (hadded : (acts.flatMap Act.added).length ≤ Int64.size)
    (now : Instant) :
    let s' := acts.foldl act s
    (s'.restart now).1 = .ok s'.live.size ∧
      (s'.restart now).2.schedules = s'.schedules.map (restarted now) ∧
      (s'.restart now).2.ruleList = s'.ruleList ∧
      ((s'.restart now).2.unwanted = s'.unwanted ↔ ∀ p ∈ s.crowdedIn acts, p ∈ s'.unwanted) := by
  intro s'
  obtain ⟨n, hsound⟩ := hblank.isSound.run acts hplain (by rwa [Nat.zero_add])
  rw [List.nil_append] at hsound
  generalize s.crowdedIn acts = spare at hsound ⊢
  have hmirrors : Mirrors s' spare := hsound.mirrors
  let fresh : Store := { archive := s'.archive.refuseAll false }
  let rows := s'.archive.schedules.values.map (restarted now)
  obtain ⟨archive, journal, hload⟩ := run_load (s := fresh) (fun _ => rfl) hsound.readable now
  have hschedules : (fresh.adopt rows s'.archive.snapshot).schedules = _ :=
    schedules_adopt now fresh s'.archive.snapshot hmirrors
  have hcount := congrArg List.length hschedules
  rw [List.length_map, schedules, schedules, length_values, length_values] at hcount
  rw [restart, hload]
  exact ⟨congrArg Except.ok hcount, hschedules, ruleList_adopt fresh hmirrors rows,
    unwanted_adopt_iff now fresh s'.archive.snapshot hmirrors⟩

/-- Two schedules of a program are deleted, one after the other. The archive refuses the second
deletion at first. Another schedule is being recorded when the program stops. -/
theorem restart_agrees_iff_deleted_twice :
    let member : Schedule :=
      { Schedule.timed 0 1 20 30 5 with programId := some 7, ruleId := some 1 }
    let start := ({} : Store).edit (.load 0)
    let acts : List Act :=
      [.edit (.addRule (.ofKey "show" "tuner" 1)),
        .edit (.add [member, member, .timed 0 1 20 80 5]),
        .edit (.remove [{ member with id := 1 }] false), .refuse true,
        .edit (.remove [{ member with id := 2 }] false), .refuse false,
        .edit (.remove [{ member with id := 2 }] false), .edit (.changeState 3 .inProgress)]
    let s := acts.foldl act start
    start.IsBlank ∧ (∀ a ∈ acts, a.IsPlain) ∧ (acts.flatMap Act.added).length ≤ Int64.size ∧
      start.crowdedIn acts = [7] ∧ s.unwanted = [7] ∧ s.schedules.map (·.state) = [.inProgress] ∧
      (s.restart 50).1 = .ok s.live.size ∧
      (s.restart 50).2.schedules = s.schedules.map (restarted 50) ∧
      (s.restart 50).2.ruleList = s.ruleList ∧ (s.restart 50).2.unwanted = s.unwanted := by
  intro member start acts s
  have hblank : start.IsBlank := ⟨rfl, rfl, rfl, rfl, rfl, rfl, false, fun _ => rfl⟩
  have hplain : ∀ a ∈ acts, a.IsPlain := by decide
  have hadded : (acts.flatMap Act.added).length ≤ Int64.size := by decide
  obtain ⟨hcount, hschedules, hrules, hunwanted⟩ := restart_agrees_iff hblank acts hplain hadded 50
  have hcrowded : start.crowdedIn acts = [7] := by decide +kernel
  have hmarks : s.unwanted = [7] := by decide +kernel
  have hkept : ∀ p ∈ start.crowdedIn acts, p ∈ s.unwanted := by
    rw [hcrowded, hmarks]
    exact fun _ hp => hp
  exact ⟨hblank, hplain, hadded, hcrowded, hmarks, by decide +kernel, hcount, hschedules, hrules,
    hunwanted.mpr hkept⟩

/-- The two schedules are deleted at once, and then the program is scheduled again by hand. The
mark is lifted with one of the two rows, and after a restart the program is unwanted again. -/
theorem not_restart_agrees_after_lift :
    let member : Schedule :=
      { Schedule.timed 0 1 20 30 5 with programId := some 7, ruleId := some 1 }
    let start := ({} : Store).edit (.load 0)
    let acts : List Act :=
      [.edit (.add [member, member]),
        .edit (.remove [{ member with id := 1 }, { member with id := 2 }] false),
        .edit (.add [{ member with ruleId := none }])]
    let s := acts.foldl act start
    start.IsBlank ∧ (∀ a ∈ acts, a.IsPlain) ∧ (acts.flatMap Act.added).length ≤ Int64.size ∧
      s.unwanted = [] ∧ (s.restart 0).2.unwanted = [7] := by
  intro member start acts s
  have hblank : start.IsBlank := ⟨rfl, rfl, rfl, rfl, rfl, rfl, false, fun _ => rfl⟩
  exact ⟨hblank, by decide, by decide, by decide +kernel, by decide +kernel⟩

end Store

end Timeshift
