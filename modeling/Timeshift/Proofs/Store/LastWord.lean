import Timeshift.Proofs.Expansion.Brought
import Timeshift.Proofs.Store.Mirror
import Timeshift.Proofs.Store.Outcome

/-!
# The last word about a program

A mark says that a program is unwanted. Five operations put marks and lift them, and a call that
fails does neither. So the last call that had something to say about a program decides.
-/

namespace Timeshift

namespace Store

variable {α β : Type} {s s' t : Store} {l marks : List Schedule} {p : ProgramId} {e : Edit}

/-! ## Marks stand under the programs of their schedules -/

def MarksKeyed (s : Store) : Prop :=
  ∀ (p : ProgramId) (x : Schedule), s.marks[p]? = some x → x.programId = some p

namespace MarksKeyed

theorem congr (h : s.MarksKeyed) (hmarks : s'.marks = s.marks) : s'.MarksKeyed := by
  intro p x hx
  exact h p x (hmarks ▸ hx)

theorem mark (h : s.MarksKeyed) (l : List Schedule) : (s.mark l).MarksKeyed := by
  intro p x hx
  rw [get_mark, Option.or_eq_some_iff] at hx
  rcases hx with hnew | ⟨-, hold⟩
  · exact of_decide_eq_true (List.mem_filter.mp (List.mem_of_getLast? hnew)).2
  · exact h p x hold

theorem unmark (h : s.MarksKeyed) (l : List Schedule) : (s.unmark l).MarksKeyed := by
  intro p x hx
  rw [get_unmark] at hx
  split at hx
  · cases hx
  · exact h p x hx

end MarksKeyed

theorem mem_marks_mark : p ∈ (s.mark l).marks ↔ (∃ x ∈ l, x.programId = some p) ∨ p ∈ s.marks := by
  rw [mem_iff_get, get_mark]
  cases hlast : (l.filter (·.programId = some p)).getLast? with
  | none =>
    rw [List.getLast?_eq_none_iff, List.filter_eq_nil_iff] at hlast
    have hnone : ¬ ∃ x ∈ l, x.programId = some p := by
      rintro ⟨x, hx, hp⟩
      exact hlast x hx (decide_eq_true hp)
    rw [Option.none_or, ← mem_iff_get]
    exact (or_iff_right hnone).symm
  | some x =>
    obtain ⟨hx, hp⟩ := List.mem_filter.mp (List.mem_of_getLast? hlast)
    exact ⟨fun _ => Or.inl ⟨x, hx, of_decide_eq_true hp⟩, fun _ => ⟨x, rfl⟩⟩

theorem mem_marks_unmark :
    p ∈ (s.unmark l).marks ↔ p ∈ s.marks ∧ ¬ ∃ x ∈ l, x.programId = some p := by
  have hmap : some p ∈ l.map (·.programId) ↔ ∃ x ∈ l, x.programId = some p := List.mem_map
  rw [← hmap, mem_iff_get, get_unmark, mem_iff_get]
  split
  · next hmem =>
    refine ⟨?_, fun h => absurd hmem h.2⟩
    rintro ⟨x, hx⟩
    cases hx
  · next hnot => exact ⟨fun h => ⟨h, hnot⟩, And.left⟩

/-- Copies that are taken into use lift the marks of their programs, and no others. -/
theorem mem_marks_brought (h : s.MarksKeyed) (tell : List Schedule → StoreEvent) :
    p ∈ (s.brought tell l).marks ↔ p ∈ s.marks ∧ ¬ ∃ x ∈ l, x.programId = some p := by
  change p ∈ (s.unmark (s.marksOf l)).marks ↔ _
  rw [mem_marks_unmark]
  refine and_congr_right fun hp => not_congr ?_
  constructor
  · rintro ⟨m, hm, hmp⟩
    obtain ⟨x, hx, hxm⟩ := List.mem_filterMap.mp hm
    obtain ⟨q, hq, hqm⟩ := Option.bind_eq_some_iff.mp hxm
    obtain rfl := Option.some.inj ((h q m hqm).symm.trans hmp)
    exact ⟨x, hx, hq⟩
  · rintro ⟨x, hx, hxp⟩
    obtain ⟨m, hm⟩ := mem_iff_get.mp hp
    refine ⟨m, List.mem_filterMap.mpr ⟨x, hx, ?_⟩, h p m hm⟩
    rw [hxp]
    exact hm

/-! ## Calls that leave marks alone -/

def KeepsMarks (op : Op α) : Prop := ∀ s : Store, (s.run op).2.marks = s.marks

namespace KeepsMarks

theorem pure (a : α) : KeepsMarks (Pure.pure a) := fun _ => rfl

theorem throw (fault : Fault) : KeepsMarks (MonadExcept.throw fault : Op α) := fun _ => rfl

theorem get : KeepsMarks MonadState.get := fun _ => rfl

theorem modify {f : Store → Store} (h : ∀ s, (f s).marks = s.marks) : KeepsMarks (modify f) := h

theorem publish (e : StoreEvent) : KeepsMarks (publish e) := fun _ => rfl

theorem persist (edit : Archive → Archive) : KeepsMarks (persist edit) :=
  fun s => (IsUnseen.persist edit s).marks

theorem bind {op : Op α} {next : α → Op β} (h : KeepsMarks op) (h' : ∀ a, KeepsMarks (next a)) :
    KeepsMarks (op >>= next) :=
  fun s => run_bind_trans (R := fun s t => t.marks = s.marks) (fun h h' => h'.trans h) (h s) h'

/-- A part that may be left out, and what comes after it. -/
theorem whenever {c : Bool} {op : Op PUnit} {next : PUnit → Op β} (h : KeepsMarks op)
    (h' : KeepsMarks (next ())) : KeepsMarks (if c = true then next () else op >>= next) := by
  split
  · exact h'
  · exact h.bind fun _ => h'

theorem addRule (rule : SeriesRule) : KeepsMarks (addRule rule) := by
  rw [Store.addRule]
  split
  · exact .throw _
  · exact .bind .get fun s => .bind (.modify fun _ => rfl) fun _ => .bind (.persist _) fun _ =>
      .bind (.modify fun _ => rfl) fun _ => .bind (.publish _) fun _ => .pure _

theorem updateRule (rule : SeriesRule) : KeepsMarks (updateRule rule) := by
  rw [Store.updateRule]
  refine .bind .get fun s => ?_
  split
  · exact .bind (.persist _) fun _ => .bind (.modify fun _ => rfl) fun _ => .publish _
  · exact .pure _

theorem addRecorded (r : RecordedProgram) : KeepsMarks (addRecorded r) := by
  rw [Store.addRecorded]
  refine .bind .get fun s => ?_
  split
  all_goals
    exact .bind (.modify fun _ => rfl) fun _ => .bind (.persist _) fun _ =>
      .bind (.modify fun _ => rfl) fun _ => .pure _

end KeepsMarks

/-! ## What calls that succeed do to marks -/

theorem marks_of_ok {op : Op α} {a : α} (h : s.run op = (.ok a, t)) (hop : KeepsMarks op) :
    t.marks = s.marks := by
  rw [← hop s, h]

/-- A write that was taken, or left out, is not seen by what comes next. -/
theorem run_whenever_ok {c : Bool} {edit : Archive → Archive} {next : PUnit → Op β} {b : β}
    (h : s.run (if c = true then next () else persist edit >>= next) = (.ok b, t)) :
    ∃ u, LooksLike s u ∧ u.run (next ()) = (.ok b, t) := by
  split at h
  · exact ⟨s, .refl s, h⟩
  · obtain ⟨_, u, hwrite, h⟩ := run_bind_ok h
    have hseen := IsUnseen.persist edit s
    rw [hwrite] at hseen
    exact ⟨u, hseen, h⟩

theorem marks_remove {force : Bool} (h : s.run (remove l force) = (.ok (), t)) :
    t.marks = (s.mark (s.buried l force)).marks := by
  rw [remove, run_bind, run_get] at h
  dsimp only at h
  rw [List.partition_eq_filter_filter] at h
  split at h
  · next hnone =>
    obtain rfl := congrArg Prod.snd h
    rw [buried, named, List.isEmpty_iff.mp hnone]
    rfl
  · obtain ⟨u, hlike, h⟩ := run_whenever_ok h
    obtain ⟨v, hlike', h⟩ := run_whenever_ok h
    obtain rfl := congrArg Prod.snd h
    change (v.mark (s.buried l force)).marks = _
    rw [mark, mark, hlike'.marks, hlike.marks]

theorem live_remove {force : Bool} (h : s.run (remove l force) = (.ok (), t)) :
    t.live = (s.release ((s.struck l force ++ s.buried l force).map (·.id))).live := by
  rw [remove, run_bind, run_get] at h
  dsimp only at h
  rw [List.partition_eq_filter_filter] at h
  split at h
  · next hnone =>
    obtain rfl := congrArg Prod.snd h
    rw [struck, buried, named, List.isEmpty_iff.mp hnone]
    rfl
  · obtain ⟨u, hlike, h⟩ := run_whenever_ok h
    obtain ⟨v, hlike', h⟩ := run_whenever_ok h
    obtain rfl := congrArg Prod.snd h
    change (v.release ((s.struck l force ++ s.buried l force).map (·.id))).live = _
    rw [release, release, hlike'.live, hlike.live]

/-- The marks that a rule has left. -/
def marksFor (s : Store) (id : RuleId) : List Schedule :=
  if (s.rule? id).isSome then s.markList.filter (·.ruleId == some id) else []

theorem marks_removeRule {id : RuleId} (h : s.run (removeRule id) = (.ok (), t)) :
    t.marks = (s.unmark (s.marksFor id)).marks := by
  rw [removeRule, run_bind, run_get] at h
  dsimp only at h
  split at h
  · next rule hrule =>
    obtain ⟨u, hlike, h⟩ := run_whenever_ok h
    obtain ⟨v, hlike', h⟩ := run_whenever_ok h
    obtain ⟨_, w, hwrite, h⟩ := run_bind_ok h
    have hseen := IsUnseen.persist (·.dropRule id) v
    rw [hwrite] at hseen
    obtain ⟨_, left, hpart, h⟩ := run_bind_ok h
    obtain rfl := congrArg Prod.snd hpart
    rw [marks_of_ok h (.whenever (.publish _) (.whenever (.publish _) (.publish _)))]
    change (w.unmark (s.markList.filter (·.ruleId == some id))).marks = _
    rw [marksFor, hrule, Option.isSome_some, if_pos rfl, unmark, unmark, hseen.marks, hlike'.marks,
      hlike.marks]
  · next hnone =>
    obtain rfl := congrArg Prod.snd h
    rw [marksFor, Option.eq_none_iff_forall_ne_some.mpr hnone]
    rfl

/-! ## Words about a program -/

/-- What a call says about a program. -/
inductive Word where
  | deleted
  | scheduled
  | ruleRemoved
  deriving DecidableEq

/-- What a call says about the program if it succeeds. A removal deletes the schedules in use that
leave marks. A schedule with the program is taken into use by an addition, by an update of a known
schedule, or by a change of its state. A rule takes its mark of the program along. -/
def Edit.word (s : Store) (p : ProgramId) : Edit → Option Word
  | .remove l force =>
    if (s.named l).any fun x => !force && leavesMark x && x.programId == some p then
      some .deleted
    else none
  | .add l => if l.any (·.programId == some p) then some .scheduled else none
  | .update l =>
    if l.any fun x => s.live.contains x.id && x.programId == some p then some .scheduled else none
  | .changeState id state =>
    if (s.schedule? id).any fun old => old.state ≠ state && old.programId == some p then
      some .scheduled
    else none
  | .removeRule id =>
    if (s.rule? id).isSome && (s.marks[p]?).any (·.ruleId == some id) then some .ruleRemoved
    else none
  | _ => none

/-- A call that fails says nothing. -/
def wordOf (s : Store) (p : ProgramId) (e : Edit) : Option Word :=
  if (s.answer e).isOk then e.word s p else none

/-- What the calls of a run say about the program, one after the other. -/
def wordsOn (s : Store) (p : ProgramId) : List Edit → List Word
  | [] => []
  | e :: rest => (s.wordOf p e).toList ++ wordsOn (s.edit e) p rest

/-- Whether the program is unwanted after a word about it. -/
def Verdict (before : Prop) : Option Word → Prop
  | none => before
  | some word => word = .deleted

/-! ## One call -/

section

variable {op : Op α} {word : Option Word}

/-- It is enough to look at calls that succeed. -/
theorem verdict_of_ok (hfail : FailsUnseen op)
    (hok : ∀ a t, s.run op = (.ok a, t) → (p ∈ t.marks ↔ Verdict (p ∈ s.marks) word)) :
    p ∈ (s.run op).2.marks ↔
      Verdict (p ∈ s.marks) (if (s.run op).1.isOk then word else none) := by
  rcases hrun : s.run op with ⟨r, t⟩
  cases r with
  | error fault =>
    have hseen := hfail s fault (by rw [hrun])
    rw [hrun] at hseen
    change p ∈ t.marks ↔ p ∈ s.marks
    rw [hseen.marks]
  | ok a => exact hok a t hrun

theorem isOk_map (r : Except Fault α) : (r.map fun _ => ()).isOk = r.isOk := by cases r <;> rfl

theorem verdict_deleted {c : Bool} {before : Prop} :
    Verdict before (if c then some .deleted else none) ↔ c = true ∨ before := by
  cases c <;> simp [Verdict]

theorem verdict_lifted {c : Bool} {before : Prop} (w : Word) (hw : w ≠ .deleted) :
    Verdict before (if c then some w else none) ↔ before ∧ ¬ c = true := by
  cases c <;> simp [Verdict, hw]

end

theorem verdict_remove (l : List Schedule) (force : Bool) :
    p ∈ (s.edit (.remove l force)).marks ↔
      Verdict (p ∈ s.marks) (s.wordOf p (.remove l force)) := by
  refine verdict_of_ok (failsUnseen_remove l force) fun _ t hrun => ?_
  rw [marks_remove hrun, mem_marks_mark, Edit.word, verdict_deleted]
  refine or_congr_left ?_
  simp only [buried, List.mem_map, List.mem_filter, List.any_eq_true, Bool.and_eq_true, beq_iff_eq]
  constructor
  · rintro ⟨-, ⟨x, ⟨hx, hleaves⟩, rfl⟩, hp⟩
    exact ⟨x, hx, hleaves, hp⟩
  · rintro ⟨x, hx, hleaves, hp⟩
    exact ⟨_, ⟨x, ⟨hx, hleaves⟩, rfl⟩, hp⟩

theorem verdict_add (h : s.MarksKeyed) (l : List Schedule) :
    p ∈ (s.edit (.add l)).marks ↔ Verdict (p ∈ s.marks) (s.wordOf p (.add l)) := by
  rw [wordOf, answer, isOk_map]
  refine verdict_of_ok (failsUnseen_add l) fun fresh t hrun => ?_
  rw [(looksLike_add hrun).marks, mem_marks_brought h, Edit.word, verdict_lifted .scheduled nofun]
  refine and_congr_right fun _ => not_congr ?_
  simp only [List.any_eq_true, beq_iff_eq]
  constructor
  · rintro ⟨x, hx, hp⟩
    obtain ⟨y, hy, heq⟩ := mem_number hx
    exact ⟨y, hy, by rwa [heq] at hp⟩
  · rintro ⟨y, hy, hp⟩
    obtain ⟨id, hid⟩ := exists_mem_number hy
    exact ⟨_, hid, hp⟩

theorem verdict_update (h : s.MarksKeyed) (l : List Schedule) :
    p ∈ (s.edit (.update l)).marks ↔ Verdict (p ∈ s.marks) (s.wordOf p (.update l)) := by
  refine verdict_of_ok (failsUnseen_update l) fun _ t hrun => ?_
  rw [(looksLike_update hrun).marks, mem_marks_brought h, Edit.word,
    verdict_lifted .scheduled nofun]
  refine and_congr_right fun _ => not_congr ?_
  simp only [List.mem_filter, List.any_eq_true, Bool.and_eq_true, beq_iff_eq, and_assoc]

theorem verdict_changeState (h : s.MarksKeyed) (hkeyed : s.IsKeyed) (id : ScheduleId)
    (state : RecordingState) :
    p ∈ (s.edit (.changeState id state)).marks ↔
      Verdict (p ∈ s.marks) (s.wordOf p (.changeState id state)) := by
  refine verdict_of_ok (failsUnseen_changeState id state) fun _ t hrun => ?_
  rw [Edit.word, verdict_lifted .scheduled nofun]
  rw [changeState, run_bind, run_get] at hrun
  dsimp only at hrun
  split at hrun
  · next old hold =>
    rw [hold, Option.any_some]
    split at hrun
    · next hsame =>
      obtain rfl : s = t := congrArg Prod.snd hrun
      simp [hsame]
    · next hdiffers =>
      have hlive : s.live.contains old.id = true := by
        rw [hkeyed id old hold]
        exact Std.TreeMap.contains_iff_mem.mpr (mem_of_get hold)
      rw [(looksLike_update hrun).marks, mem_marks_brought h]
      refine and_congr_right fun _ => not_congr ?_
      simp [hdiffers, hlive]
  · next hnone =>
    obtain rfl : s = t := congrArg Prod.snd hrun
    rw [Option.eq_none_iff_forall_ne_some.mpr hnone]
    simp

theorem verdict_removeRule (h : s.MarksKeyed) (id : RuleId) :
    p ∈ (s.edit (.removeRule id)).marks ↔
      Verdict (p ∈ s.marks) (s.wordOf p (.removeRule id)) := by
  refine verdict_of_ok (failsUnseen_removeRule id) fun _ t hrun => ?_
  rw [marks_removeRule hrun, mem_marks_unmark, Edit.word, verdict_lifted .ruleRemoved nofun]
  refine and_congr_right fun _ => not_congr ?_
  -- The mark of the program is the only one that stands under it.
  rw [marksFor]
  cases s.rule? id with
  | none => simp
  | some rule =>
    simp only [Option.isSome_some, if_true, Bool.true_and, Option.any_eq_true, List.mem_filter,
      markList, mem_values, beq_iff_eq]
    constructor
    · rintro ⟨x, ⟨⟨q, hq⟩, hrule⟩, hp⟩
      obtain rfl := Option.some.inj ((h q x hq).symm.trans hp)
      exact ⟨x, hq, hrule⟩
    · rintro ⟨x, hx, hrule⟩
      exact ⟨x, ⟨⟨p, hx⟩, hrule⟩, h p x hx⟩

/-- A call leaves a mark of the program or none as its word says. -/
theorem verdict_edit (h : s.MarksKeyed) (hkeyed : s.IsKeyed) (hload : ∀ now, e ≠ .load now) :
    p ∈ (s.edit e).marks ↔ Verdict (p ∈ s.marks) (s.wordOf p e) := by
  have hkept : ∀ t : Store, t.marks = s.marks → e.word s p = none →
      (p ∈ t.marks ↔ Verdict (p ∈ s.marks) (s.wordOf p e)) := by
    intro t hmarks hword
    rw [wordOf, hword, ite_self, hmarks]
    exact Iff.rfl
  cases e with
  | load now => exact absurd rfl (hload now)
  | add l => exact verdict_add h l
  | update l => exact verdict_update h l
  | changeState id state => exact verdict_changeState h hkeyed id state
  | remove l force => exact verdict_remove l force
  | removeRule id => exact verdict_removeRule h id
  | addRule rule => exact hkept _ (KeepsMarks.addRule rule s) rfl
  | updateRule rule => exact hkept _ (KeepsMarks.updateRule rule s) rfl
  | addRecorded r => exact hkept _ (KeepsMarks.addRecorded r s) rfl

/-! ## Runs -/

namespace MarksKeyed

theorem of_ok {op : Op α} (h : s.MarksKeyed) (hfail : FailsUnseen op)
    (hok : ∀ a t, s.run op = (.ok a, t) → t.MarksKeyed) : (s.run op).2.MarksKeyed := by
  rcases hrun : s.run op with ⟨r, t⟩
  cases r with
  | error fault =>
    have hseen := hfail s fault (by rw [hrun])
    rw [hrun] at hseen
    exact h.congr hseen.marks
  | ok a => exact hok a t hrun

theorem brought (h : s.MarksKeyed) (tell : List Schedule → StoreEvent) (l : List Schedule) :
    (s.brought tell l).MarksKeyed := (h.unmark (s.marksOf l)).congr rfl

theorem update (h : s.MarksKeyed) (l : List Schedule) : (s.run (update l)).2.MarksKeyed :=
  h.of_ok (failsUnseen_update l) fun _ _ hrun => (h.brought _ _).congr (looksLike_update hrun).marks

/-- A loading puts every mark under the program of its row. -/
theorem adopt (s : Store) (rows : List Schedule) (rest : Snapshot) :
    (s.adopt rows rest).MarksKeyed := by
  have hnone : MarksKeyed { s with live := ∅, marks := ∅, rules := ∅ } :=
    fun p x hx => by simp at hx
  have hlive : (hold { s with live := ∅, marks := ∅, rules := ∅ }
      (rows.partition (·.state == .deleted)).2).MarksKeyed := hnone.congr rfl
  exact (hlive.mark (rows.partition (·.state == .deleted)).1).congr rfl

theorem load (h : s.MarksKeyed) (now : Instant) : (s.run (load now)).2.MarksKeyed := by
  refine h.of_ok (failsUnseen_load now) fun count t hrun => ?_
  rw [Store.load, run_bind, run_get] at hrun
  dsimp only at hrun
  split at hrun
  · cases hrun
  · next snapshot _ =>
    obtain ⟨u, -, hrun⟩ := run_whenever_ok hrun
    obtain rfl := congrArg Prod.snd hrun
    exact (adopt u _ snapshot).congr rfl

theorem edit (h : s.MarksKeyed) (e : Edit) : (s.edit e).MarksKeyed := by
  cases e with
  | load now => exact h.load now
  | add l =>
    refine h.of_ok (failsUnseen_add l) fun _ t hrun => ?_
    exact (h.brought _ _).congr (looksLike_add hrun).marks
  | update l => exact h.update l
  | changeState id state =>
    rw [Store.edit, changeState, run_bind, run_get]
    dsimp only
    split
    · split
      · exact h
      · exact h.update _
    · exact h
  | remove l force =>
    refine h.of_ok (failsUnseen_remove l force) fun _ t hrun => ?_
    exact (h.mark _).congr (marks_remove hrun)
  | removeRule id =>
    refine h.of_ok (failsUnseen_removeRule id) fun _ t hrun => ?_
    exact (h.unmark _).congr (marks_removeRule hrun)
  | addRule rule => exact h.congr (KeepsMarks.addRule rule s)
  | updateRule rule => exact h.congr (KeepsMarks.updateRule rule s)
  | addRecorded r => exact h.congr (KeepsMarks.addRecorded r s)

theorem edits (h : s.MarksKeyed) (edits : List Edit) : (edits.foldl Store.edit s).MarksKeyed := by
  induction edits generalizing s with
  | nil => exact h
  | cons e rest ih => exact ih (h.edit e)

end MarksKeyed

theorem verdict_getLast? (before : Prop) (first : Option Word) (rest : List Word) :
    Verdict before (first.toList ++ rest).getLast? ↔
      Verdict (Verdict before first) rest.getLast? := by
  rw [List.getLast?_append]
  cases rest.getLast? with
  | some w => exact Iff.rfl
  | none => cases first <;> exact Iff.rfl

/-- The words of a run are words about what was before, and the last one decides. -/
theorem verdict_edits (h : s.MarksKeyed) (hkeyed : s.IsKeyed) (edits : List Edit)
    (hload : ∀ e ∈ edits, ∀ now, e ≠ .load now) :
    p ∈ (edits.foldl edit s).marks ↔ Verdict (p ∈ s.marks) (s.wordsOn p edits).getLast? := by
  induction edits generalizing s with
  | nil => exact Iff.rfl
  | cons e rest ih =>
    obtain ⟨he, hrest⟩ := List.forall_mem_cons.mp hload
    have hfirst := verdict_edit (p := p) h hkeyed he
    rw [List.foldl_cons, ih (h.edit e) (isKeyed_edits hkeyed [e]) hrest, wordsOn, verdict_getLast?,
      propext hfirst]

/-- A store begins with any archive, and its archive may refuse any writes. From then on the store
is not loaded again, and a program is not unwanted at first. Then the program is unwanted exactly if
the last word about it is that it was deleted. -/
theorem unwanted_iff_last_word (archive : Archive) (listings : Nat → Listing)
    (earlier later : List Edit) (p : ProgramId) :
    let s := earlier.foldl edit { archive, listings }
    (∀ e ∈ later, ∀ now, e ≠ .load now) → p ∉ s.unwanted →
      (p ∈ (later.foldl edit s).unwanted ↔ (s.wordsOn p later).getLast? = some .deleted) := by
  intro s hload hnone
  have hmarks : s.MarksKeyed := MarksKeyed.edits (fun p x hx => by simp at hx) earlier
  have hkeyed : s.IsKeyed := isKeyed_edits (fun id x hx => by simp at hx) earlier
  rw [unwanted, Std.TreeMap.mem_keys] at hnone ⊢
  rw [verdict_edits hmarks hkeyed later hload]
  cases (s.wordsOn p later).getLast? with
  | none => exact ⟨fun h => absurd h hnone, nofun⟩
  | some w => exact ⟨fun h => congrArg some h, Option.some.inj⟩

/-- The program is deleted, scheduled again and deleted again. Then the archive refuses a write, so
the last schedule is not taken into use and the program stays unwanted. -/
theorem unwanted_iff_last_word_refused :
    let member : Schedule :=
      { Schedule.timed 0 1 20 30 5 with programId := some 7, ruleId := some 1 }
    let archive : Archive := { refuses := (· == 7) }
    let earlier : List Edit := [.load 0, .addRule (.ofKey "show" "tuner" 1), .add [member, member]]
    let later : List Edit :=
      [.remove [{ member with id := 1 }] false, .changeState 2 .inProgress,
        .changeState 2 .notStarted, .remove [{ member with id := 2 }] false, .add [member]]
    let s := earlier.foldl edit { archive }
    s.isLoaded = true ∧ (∀ e ∈ later, ∀ now, e ≠ .load now) ∧ 7 ∉ s.unwanted ∧
      s.wordsOn 7 later = [.deleted, .scheduled, .scheduled, .deleted] ∧
      7 ∈ (later.foldl edit s).unwanted := by
  intro member archive earlier later s
  have hload : ∀ e ∈ later, ∀ now, e ≠ .load now := by simp [later]
  have hnone : 7 ∉ s.unwanted := by decide +kernel
  have hwords : s.wordsOn 7 later = [.deleted, .scheduled, .scheduled, .deleted] := by
    decide +kernel
  refine ⟨by decide +kernel, hload, hnone, hwords, ?_⟩
  exact (unwanted_iff_last_word archive (fun _ => .byAge) earlier later 7 hload hnone).mpr
    (congrArg List.getLast? hwords)

end Store

end Timeshift
