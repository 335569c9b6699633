import Timeshift.Proofs.Expansion.Brought
import Timeshift.Proofs.Store.LastWord
import Timeshift.Proofs.Store.Restart

/-!
# Parting with a rule

A rule that is removed takes its waiting schedules and its marks along, and its other schedules go
on without it. The store finds its marks by program, and the archive drops rows by id, so the two
agree only as long as each row of the rule stands for a schedule in use or for a mark.
-/

namespace Timeshift

namespace Store

variable {β : Type} {s s' t : Store} {id k : ScheduleId} {r : RuleId} {rule : SeriesRule}
  {l : List Schedule} {p : ProgramId} {x : Schedule}

/-! ## Writes and events that may be left out -/

/-- A write that was taken, or left out because there was nothing to write. -/
theorem run_write_ok {c : Bool} {edit : Archive → Archive} {next : PUnit → Op β} {b : β}
    (hcount : ∀ (a : Archive) (writes : Nat),
      edit { a with writes } = { edit a with writes := writes })
    (hnone : c = true → ∀ a, edit a = a)
    (h : s.run (if c = true then next () else persist edit >>= next) = (.ok b, t)) :
    ∃ writes, run { s with archive := { edit s.archive with writes := writes } } (next ()) =
      (.ok b, t) := by
  split at h
  · next hc =>
    rw [hnone hc]
    exact ⟨s.archive.writes, h⟩
  · obtain ⟨_, u, hwrite, h⟩ := run_bind_ok h
    obtain rfl := eq_of_run_persist hwrite
    rw [hcount] at h
    exact ⟨_, h⟩

/-- What is told of some schedules, or not told if there are none. -/
theorem run_told {tell : List Schedule → StoreEvent} {next : PUnit → Op β} {b : β}
    (h : s.run (if l.isEmpty = true then next () else publish (tell l) >>= next) = (.ok b, t)) :
    run { s with journal := s.journal ++ told tell l } (next ()) = (.ok b, t) := by
  rw [told]
  split at h
  · next hnone =>
    rw [if_pos hnone, List.append_nil]
    exact h
  · next hsome =>
    rw [if_neg hsome]
    exact h

/-! ## What a rule takes along -/

/-- The members of a rule that wait. -/
def waitingMembers (s : Store) (r : RuleId) : List Schedule :=
  (s.membersOf r).filter (·.isNotStarted)

/-- The other members of a rule, without it. -/
def detachedFrom (s : Store) (r : RuleId) : List Schedule :=
  ((s.membersOf r).filter (!·.isNotStarted)).map ({ · with ruleId := none })

/-- The rule has a mark for a deleted schedule with this id. -/
def HasMarkOf (s : Store) (r : RuleId) (k : ScheduleId) : Prop :=
  ∃ (p : ProgramId) (x : Schedule), s.marks[p]? = some x ∧ x.ruleId = some r ∧ x.id = k

/-- A schedule of the rule with this id is in use or has left a mark. -/
def Belongs (s : Store) (r : RuleId) (k : ScheduleId) : Prop :=
  (∃ x, s.live[k]? = some x ∧ x.ruleId = some r) ∨ s.HasMarkOf r k

/-- What becomes of a schedule in use when a rule is removed. -/
def withoutRule (r : RuleId) (x : Schedule) : Option Schedule :=
  if x.ruleId = some r then if x.isNotStarted then none else some { x with ruleId := none }
  else some x

theorem ruleId_of_withoutRule {y : Schedule} (h : withoutRule r x = some y) :
    y.ruleId ≠ some r := by
  rw [withoutRule] at h
  split at h
  · split at h
    · cases h
    · obtain rfl := Option.some.inj h
      nofun
  · next hother => exact Option.some.inj h ▸ hother

theorem mem_waitingMembers (h : s.IsKeyed) : k ∈ (s.waitingMembers r).map (·.id) ↔
    ∃ x, s.live[k]? = some x ∧ x.ruleId = some r ∧ x.isNotStarted = true := by
  simp only [waitingMembers, membersOf, schedules, List.mem_map, List.mem_filter, mem_values,
    beq_iff_eq]
  constructor
  · rintro ⟨x, ⟨⟨⟨a, ha⟩, hr⟩, hwaits⟩, rfl⟩
    exact ⟨x, h a x ha ▸ ha, hr, hwaits⟩
  · rintro ⟨x, hx, hr, hwaits⟩
    exact ⟨x, ⟨⟨⟨k, hx⟩, hr⟩, hwaits⟩, h k x hx⟩

theorem copyIn_detachedFrom (h : s.IsKeyed) (r : RuleId) (k : ScheduleId) :
    copyIn (s.detachedFrom r) k =
      ((s.live[k]?).filter fun x => x.ruleId == some r && !x.isNotStarted).map
        ({ · with ruleId := none }) := by
  rw [detachedFrom, copyIn_map (by exact fun _ => rfl), membersOf, schedules, List.filter_filter,
    copyIn_filter_values h]
  simp only [Bool.and_comm]

theorem mem_markIds : k ∈ (s.markList.filter (·.ruleId == some r)).map (·.id) ↔
    s.HasMarkOf r k := by
  simp only [markList, List.mem_map, List.mem_filter, mem_values, beq_iff_eq, HasMarkOf]
  constructor
  · rintro ⟨x, ⟨⟨p, hp⟩, hr⟩, rfl⟩
    exact ⟨p, x, hp, hr, rfl⟩
  · rintro ⟨p, x, hp, hr, rfl⟩
    exact ⟨x, ⟨⟨p, hp⟩, hr⟩, rfl⟩

/-- What is told when a rule is removed. -/
def partingNews (s : Store) (r : RuleId) (rule : SeriesRule) : List StoreEvent :=
  told .removed (s.waitingMembers r) ++ told .changed (s.detachedFrom r) ++ [.rulesRemoved [rule]]

theorem run_removeRule_ok (hrule : s.rule? r = some rule)
    (h : s.run (removeRule r) = (.ok (), s')) :
    ∃ writes, s' = { s.partWith r with
      archive := { (s.partWith r).archive with writes }
      journal := s.journal ++ s.partingNews r rule } := by
  rw [removeRule, run_bind, run_get] at h
  simp only [hrule, List.partition_eq_filter_filter] at h
  obtain ⟨w, h⟩ := run_write_ok (fun _ _ => rfl)
    (fun hnone a => by rw [List.isEmpty_iff.mp hnone]; rfl) h
  obtain ⟨w, h⟩ := run_write_ok (fun _ _ => rfl)
    (fun hnone a => by rw [List.isEmpty_iff.mp hnone]; rfl) h
  obtain ⟨_, u, hwrite, h⟩ := run_bind_ok h
  obtain rfl := eq_of_run_persist hwrite
  obtain ⟨_, left, hpart, h⟩ := run_bind_ok h
  obtain rfl := congrArg Prod.snd hpart
  refine ⟨w + 1, (congrArg Prod.snd (run_told (run_told h))).symm.trans ?_⟩
  -- The rows of waiting schedules and of marks are dropped by one write.
  rw [partingNews, ← List.append_assoc, ← List.append_assoc, partWith, lift, strike,
    Archive.dropSchedules, List.foldl_append]
  rfl

/-! ## What is left -/

/-- A member is gone, or goes on without the rule. -/
theorem copy_of_member (h : s.IsKeyed) (hx : s.live[k]? = some x) (hr : x.ruleId = some r)
    {rest : Option Schedule} (hrest : k ∈ (s.waitingMembers r).map (·.id) → rest = none) :
    (copyIn (s.detachedFrom r) k).or rest = withoutRule r x := by
  rw [copyIn_detachedFrom h, hx, withoutRule, if_pos hr]
  by_cases hwaits : x.isNotStarted = true
  · rw [hrest ((mem_waitingMembers h).mpr ⟨x, hx, hr, hwaits⟩), if_pos hwaits]
    simp [Option.filter, hwaits]
  · simp [Option.filter, hr, hwaits]

/-- The lists of members do not speak of an id that no member has. -/
theorem copy_of_stranger (h : s.IsKeyed)
    (hk : ∀ x : Schedule, s.live[k]? = some x → x.ruleId ≠ some r) :
    copyIn (s.detachedFrom r) k = none ∧ k ∉ (s.waitingMembers r).map (·.id) := by
  constructor
  · rw [copyIn_detachedFrom h, Option.map_eq_none_iff, Option.filter_eq_none_iff]
    intro x hx
    simp [hk x hx]
  · rw [mem_waitingMembers h]
    rintro ⟨x, hx, hr, -⟩
    exact hk x hx hr

theorem get_partWith (h : s.IsKeyed) (r : RuleId) (k : ScheduleId) :
    (s.partWith r).live[k]? = (s.live[k]?).bind (withoutRule r) := by
  have hlive : (s.partWith r).live[k]? = (copyIn (s.detachedFrom r) k).or
      (if k ∈ (s.waitingMembers r).map (·.id) then none else s.live[k]?) := by
    rw [← get_release]
    exact get_hold _ _ k
  rw [hlive]
  by_cases hmember : ∃ x, s.live[k]? = some x ∧ x.ruleId = some r
  · obtain ⟨x, hx, hr⟩ := hmember
    rw [copy_of_member h hx hr fun hwaits => if_pos hwaits, hx]
    rfl
  · have hk : ∀ x : Schedule, s.live[k]? = some x → x.ruleId ≠ some r :=
      fun x hx hr => hmember ⟨x, hx, hr⟩
    obtain ⟨hcopy, hwaits⟩ := copy_of_stranger h hk
    rw [hcopy, if_neg hwaits, Option.none_or]
    cases hx : s.live[k]? with
    | none => rfl
    | some x => simp [withoutRule, hk x hx]

theorem get_marks_partWith (h : s.MarksKeyed) (r : RuleId) (p : ProgramId) :
    (s.partWith r).marks[p]? = (s.marks[p]?).filter (·.ruleId ≠ some r) := by
  have hmarks : (s.partWith r).marks[p]? =
      if some p ∈ (s.markList.filter (·.ruleId == some r)).map (·.programId) then none
      else s.marks[p]? := get_unmark s _ p
  have hmem : some p ∈ (s.markList.filter (·.ruleId == some r)).map (·.programId) ↔
      ∃ x, s.marks[p]? = some x ∧ x.ruleId = some r := by
    simp only [markList, List.mem_map, List.mem_filter, mem_values, beq_iff_eq]
    constructor
    · rintro ⟨x, ⟨⟨q, hq⟩, hr⟩, hp⟩
      obtain rfl := Option.some.inj ((h q x hq).symm.trans hp)
      exact ⟨x, hq, hr⟩
    · rintro ⟨x, hx, hr⟩
      exact ⟨x, ⟨⟨p, hx⟩, hr⟩, h p x hx⟩
  rw [hmarks]
  simp only [hmem]
  cases s.marks[p]? with
  | none => simp
  | some x => by_cases hr : x.ruleId = some r <;> simp [Option.filter, hr]

theorem row_partWith (s : Store) (r : RuleId) (k : ScheduleId) :
    (s.partWith r).row? k = (copyIn (s.detachedFrom r) k).or
      (if k ∈ (s.markList.filter (·.ruleId == some r)).map (·.id) then none
      else if k ∈ (s.waitingMembers r).map (·.id) then none else s.row? k) := by
  rw [← row_strike, ← row_lift, ← row_enter]
  rfl

theorem row_of_member (h : s.IsKeyed) (hx : s.live[k]? = some x) (hr : x.ruleId = some r) :
    (s.partWith r).row? k = withoutRule r x := by
  rw [row_partWith]
  refine copy_of_member h hx hr fun hwaits => ?_
  rw [if_pos hwaits, ite_self]

theorem row_of_mark (h : s.IsKeyed) (hmark : s.HasMarkOf r k)
    (hk : ∀ x : Schedule, s.live[k]? = some x → x.ruleId ≠ some r) :
    (s.partWith r).row? k = none := by
  rw [row_partWith, (copy_of_stranger h hk).1, if_pos (mem_markIds.mpr hmark), Option.none_or]

theorem row_of_stranger (h : s.IsKeyed) (hk : ¬ s.Belongs r k) :
    (s.partWith r).row? k = s.row? k := by
  obtain ⟨hlive, hmark⟩ := not_or.mp hk
  obtain ⟨hcopy, hwaits⟩ := copy_of_stranger h fun x hx hr => hlive ⟨x, hx, hr⟩
  rw [row_partWith, hcopy, if_neg (mt mem_markIds.mp hmark), if_neg hwaits, Option.none_or]

/-- No row refers to the rule any more, if all rows that did stand for its members and marks. -/
theorem rows_let_go_iff (h : s.IsKeyed) (r : RuleId) :
    (∀ (k : ScheduleId) (x : Schedule), (s.partWith r).row? k = some x → x.ruleId ≠ some r) ↔
      ∀ (k : ScheduleId) (x : Schedule), s.row? k = some x → x.ruleId = some r → s.Belongs r k := by
  constructor
  · intro hgone k x hx hr
    by_contra hk
    exact hgone k x ((row_of_stranger h hk).trans hx) hr
  · intro hall k x hx hr
    by_cases hmember : ∃ y, s.live[k]? = some y ∧ y.ruleId = some r
    · obtain ⟨y, hy, hyr⟩ := hmember
      exact ruleId_of_withoutRule ((row_of_member h hy hyr).symm.trans hx) hr
    · by_cases hmark : s.HasMarkOf r k
      · rw [row_of_mark h hmark fun y hy hyr => hmember ⟨y, hy, hyr⟩] at hx
        cases hx
      · have hk : ¬ s.Belongs r k := not_or.mpr ⟨hmember, hmark⟩
        rw [row_of_stranger h hk] at hx
        exact hk (hall k x hx hr)

/-! ## Removing a rule -/

/-- How a store and its archive have changed when a rule has been removed, and what was told. -/
structure HasParted (s : Store) (r : RuleId) (rule : SeriesRule) (s' : Store) : Prop where
  live : ∀ k : ScheduleId, s'.live[k]? = (s.live[k]?).bind (withoutRule r)
  marks : ∀ p : ProgramId, s'.marks[p]? = (s.marks[p]?).filter (·.ruleId ≠ some r)
  rules : ∀ q : RuleId, s'.rules[q]? = if r = q then none else s.rules[q]?
  recorded : s'.recorded = s.recorded
  journal : s'.journal = s.journal ++
    (told .removed (s.waitingMembers r) ++ told .changed (s.detachedFrom r) ++
      [.rulesRemoved [rule]])
  memberRows : ∀ (k : ScheduleId) (x : Schedule), s.live[k]? = some x → x.ruleId = some r →
    s'.row? k = withoutRule r x
  markRows : ∀ k, s.HasMarkOf r k →
    (∀ x : Schedule, s.live[k]? = some x → x.ruleId ≠ some r) → s'.row? k = none
  /-- A row is left alone unless it stands under the id of a member or of a mark. -/
  otherRows : ∀ k, ¬ s.Belongs r k → s'.row? k = s.row? k
  ruleRows : ∀ q : RuleId, s'.archive.rules[q]? = if r = q then none else s.archive.rules[q]?
  recordedRows : s'.archive.recorded = s.archive.recorded

theorem hasParted (hkeyed : s.IsKeyed) (hmarks : s.MarksKeyed) (hrule : s.rule? r = some rule)
    (h : s.run (removeRule r) = (.ok (), s')) : HasParted s r rule s' := by
  obtain ⟨writes, rfl⟩ := run_removeRule_ok hrule h
  exact
    { live := get_partWith hkeyed r
      marks := get_marks_partWith hmarks r
      rules := fun q => get_erase
      recorded := rfl
      journal := rfl
      memberRows := fun k x hx hr => row_of_member hkeyed hx hr
      markRows := fun k hmark hk => row_of_mark hkeyed hmark hk
      otherRows := fun k hk => row_of_stranger hkeyed hk
      ruleRows := fun q => get_erase
      recordedRows := rfl }

/-- A removal of a rule that succeeds does to the store, to its events and to the rows of members
and marks what it should, whatever has happened before. In the store nothing refers to the rule any
more. No row does just if every row that did stood under the id of a member or of a mark. The row
of a schedule of another rule or of none is still there just if no mark of the rule has its id. -/
theorem removed_rule_parts (archive : Archive) (listings : Nat → Listing) (earlier : List Edit) :
    let s := earlier.foldl edit { archive, listings }
    ∀ s', s.rule? r = some rule → s.run (removeRule r) = (.ok (), s') →
      HasParted s r rule s' ∧
      (∀ (k : ScheduleId) (x : Schedule), s'.live[k]? = some x → x.ruleId ≠ some r) ∧
      (∀ (p : ProgramId) (x : Schedule), s'.marks[p]? = some x → x.ruleId ≠ some r) ∧
      ((∀ (k : ScheduleId) (x : Schedule), s'.row? k = some x → x.ruleId ≠ some r) ↔
        ∀ (k : ScheduleId) (x : Schedule),
          s.row? k = some x → x.ruleId = some r → s.Belongs r k) ∧
      ∀ (k : ScheduleId) (x : Schedule), s.live[k]? = some x → x.ruleId ≠ some r →
        s.row? k = some x → (s'.row? k = some x ↔ ¬ s.HasMarkOf r k) := by
  intro s s' hrule h
  have hkeyed : s.IsKeyed := isKeyed_edits (fun k x hx => by simp at hx) earlier
  have hmarks : s.MarksKeyed := MarksKeyed.edits (fun p x hx => by simp at hx) earlier
  have hparted := hasParted hkeyed hmarks hrule h
  refine ⟨hparted, fun k x hx => ?_, fun p x hx => ?_, ?_, fun k x hx hr hrow => ?_⟩
  · rw [hparted.live, Option.bind_eq_some_iff] at hx
    obtain ⟨y, -, hy⟩ := hx
    exact ruleId_of_withoutRule hy
  · rw [hparted.marks, Option.filter_eq_some_iff] at hx
    exact of_decide_eq_true hx.2
  · obtain ⟨writes, rfl⟩ := run_removeRule_ok hrule h
    exact rows_let_go_iff hkeyed r
  · have hk : ∀ y : Schedule, s.live[k]? = some y → y.ruleId ≠ some r := by
      intro y hy
      rwa [Option.some.inj (hy.symm.trans hx)]
    constructor
    · intro hstays hmark
      rw [hparted.markRows k hmark hk] at hstays
      cases hstays
    · intro hmark
      have hout : ¬ s.Belongs r k := not_or.mpr ⟨fun ⟨y, hy, hyr⟩ => hk y hy hyr, hmark⟩
      exact (hparted.otherRows k hout).trans hrow

/-- Of the members of the rule one waits, one is being recorded, one has been recorded, and one has
been deleted. The program of the last one is scheduled without the rule. -/
theorem removed_rule_parts_four :
    let member (programId : ProgramId) : Schedule :=
      { Schedule.timed 0 1 20 30 5 with programId := some programId, ruleId := some 1 }
    let earlier : List Edit :=
      [.load 0, .addRule (.ofKey "show" "tuner" 1), .addRule (.ofKey "other" "tuner" 1),
        .add [member 7, member 8, member 9, member 10, { member 10 with ruleId := some 2 }],
        .changeState 2 .inProgress, .changeState 3 .finished,
        .remove [{ member 10 with id := 4 }] false]
    let rule : SeriesRule := { SeriesRule.ofKey "show" "tuner" 1 with id := 1 }
    let s := earlier.foldl edit {}
    let s' := (s.run (removeRule 1)).2
    s.rule? 1 = some rule ∧ s.run (removeRule 1) = (.ok (), s') ∧ HasParted s 1 rule s' ∧
      s.markList.map (·.id) = [4] ∧ s'.unwanted = [] ∧
      s'.schedules.map (fun x => (x.id, x.ruleId)) = [(2, none), (3, none), (5, some 2)] ∧
      s'.archive.schedules.keys = [2, 3, 5] := by
  intro member earlier rule s s'
  have hrule : s.rule? 1 = some rule := by decide +kernel
  have hok : (s.run (removeRule 1)).1 = .ok () := by decide +kernel
  have h : s.run (removeRule 1) = (.ok (), s') := by rw [← hok]
  exact ⟨hrule, h, (removed_rule_parts {} (fun _ => .byAge) earlier s' hrule h).1,
    by decide +kernel, by decide +kernel, by decide +kernel, by decide +kernel⟩

/-- Two schedules of a program are deleted, and the rule has a mark for the second of them only.
So the row of the first one stays when the rule is removed, and after a restart there is a mark
for a rule that is gone. And a schedule that has got the id of a deleted one, because ids do not
go on after the largest number, loses its row with the mark. -/
theorem not_parted_spare_and_largest :
    let member : Schedule :=
      { Schedule.timed 0 1 20 30 5 with programId := some 7, ruleId := some 1 }
    (let earlier : List Edit :=
        [.load 0, .addRule (.ofKey "show" "tuner" 1), .add [member, member],
          .remove [{ member with id := 1 }, { member with id := 2 }] false]
      let s := earlier.foldl edit {}
      let s' := (s.run (removeRule 1)).2
      s.run (removeRule 1) = (.ok (), s') ∧ s'.ruleList = [] ∧ s'.unwanted = [] ∧
        s'.row? 1 = some { member with id := 1, state := .deleted } ∧
        ((s'.restart 0).2.markList.map (·.ruleId)) = [some 1]) ∧
    let deleted : Schedule := { member with id := Int64.maxValue, state := .deleted }
    let archive := Archive.ofSnapshot
      { schedules := [deleted], rules := [{ SeriesRule.ofKey "show" "tuner" 1 with id := 1 }] }
    let earlier : List Edit := [.load 0, .add [.timed 0 1 20 30 5]]
    let s := earlier.foldl edit { archive }
    let s' := (s.run (removeRule 1)).2
    s.run (removeRule 1) = (.ok (), s') ∧ s'.schedules = [.timed Int64.maxValue 1 20 30 5] ∧
      s.row? Int64.maxValue = some (.timed Int64.maxValue 1 20 30 5) ∧
      s'.row? Int64.maxValue = none := by
  intro member
  constructor
  · intro earlier s s'
    have hok : (s.run (removeRule 1)).1 = .ok () := by decide +kernel
    have h : s.run (removeRule 1) = (.ok (), s') := by rw [← hok]
    exact ⟨h, by decide +kernel, by decide +kernel, by decide +kernel, by decide +kernel⟩
  · intro deleted archive earlier s s'
    have hok : (s.run (removeRule 1)).1 = .ok () := by decide +kernel
    have h : s.run (removeRule 1) = (.ok (), s') := by rw [← hok]
    exact ⟨h, by decide +kernel, by decide +kernel, by decide +kernel⟩

end Store

end Timeshift
