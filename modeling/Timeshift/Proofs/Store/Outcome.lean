import Timeshift.Proofs.Store.Honest
import Timeshift.Proofs.Store.Mirror

/-!
# What a call can do

An archive that refuses all writes for a while lets a call do nothing, and one that refuses none
lets it do everything. So a call changes both sides, or neither.
-/

namespace Timeshift

namespace Store

variable {β : Type} {s s' s'' : Store} {l : List Schedule} {on : Bool} {e : Edit}

/-! ## All writes are refused, or none -/

/-- The archive refuses all writes, or none. -/
def Refuses (on : Bool) (s : Store) : Prop := ∀ n, s.archive.refuses n = on

/-- Both stores hold the same schedules, marks and rules, and so do their archives. -/
structure Alike (s s' : Store) : Prop where
  live : s'.live = s.live
  marks : s'.marks = s.marks
  rules : s'.rules = s.rules
  scheduleIds : s'.scheduleIds = s.scheduleIds
  rows : s'.archive.schedules = s.archive.schedules
  ruleRows : s'.archive.rules = s.archive.rules
  refuses : s'.archive.refuses = s.archive.refuses
  unreadable : s'.archive.unreadable = s.archive.unreadable

namespace Alike

theorem refl (s : Store) : Alike s s := ⟨rfl, rfl, rfl, rfl, rfl, rfl, rfl, rfl⟩

theorem trans (h : Alike s s') (h' : Alike s' s'') : Alike s s'' where
  live := h'.live.trans h.live
  marks := h'.marks.trans h.marks
  rules := h'.rules.trans h.rules
  scheduleIds := h'.scheduleIds.trans h.scheduleIds
  rows := h'.rows.trans h.rows
  ruleRows := h'.ruleRows.trans h.ruleRows
  refuses := h'.refuses.trans h.refuses
  unreadable := h'.unreadable.trans h.unreadable

/-- What has been told does not count. -/
theorem told (h : Alike s s') (journal : List StoreEvent) : Alike s { s' with journal } :=
  ⟨h.live, h.marks, h.rules, h.scheduleIds, h.rows, h.ruleRows, h.refuses, h.unreadable⟩

end Alike

section

variable {edit : Archive → Archive} {next : PUnit → Op β}

/-- The first write that is refused ends an operation. -/
theorem Alike.refused (h : Refuses true s) : Alike s (s.run (persist edit >>= next)).2 := by
  simp only [persist, run_bind, run_get, run_modify, Archive.write, h s.archive.writes, if_true]
  exact ⟨rfl, rfl, rfl, rfl, rfl, rfl, rfl, rfl⟩

/-- An operation goes on after a write that is taken. -/
theorem Alike.taken (h : Refuses false s) (hnext : ∀ writes, Alike s'
    (run { s with archive := edit { s.archive with writes } } (next ())).2) :
    Alike s' (s.run (persist edit >>= next)).2 := by
  simp only [persist, run_bind, run_get, run_modify, Archive.write, h s.archive.writes,
    Bool.false_eq_true, if_false]
  exact hnext (s.archive.writes + 1)

/-- A write that would change nothing may be left out. -/
theorem Alike.whenever {c : Bool} (h : Refuses false s) (hnone : c = true → ∀ a, edit a = a)
    (hnext : ∀ writes, Alike s'
      (run { s with archive := edit { s.archive with writes } } (next ())).2) :
    Alike s' (s.run (if c = true then next () else persist edit >>= next)).2 := by
  split
  · next hc =>
    have hlast := hnext s.archive.writes
    rwa [hnone hc] at hlast
  · exact .taken h hnext

end

/-! ## Outcomes -/

/-- Takes copies into use, and lifts the marks of their programs. -/
def takeOver (s : Store) (l : List Schedule) : Store := (s.enter l).lift (s.marksOf l)

/-- The schedules in use that a removal names. -/
def named (s : Store) (l : List Schedule) : List Schedule := l.filterMap fun x => s.schedule? x.id

/-- The schedules that a removal deletes without a mark. -/
def struck (s : Store) (l : List Schedule) (force : Bool) : List Schedule :=
  (s.named l).filter fun x => !(!force && leavesMark x)

/-- The schedules that a removal deletes with a mark. -/
def buried (s : Store) (l : List Schedule) (force : Bool) : List Schedule :=
  ((s.named l).filter fun x => !force && leavesMark x).map ({ · with state := .deleted })

/-- The programs of which a call leaves spare rows. -/
def crowdedBy (s : Store) : Edit → List ProgramId
  | .remove l force =>
    if s.archive.refuses s.archive.writes then [] else s.crowded (s.buried l force)
  | _ => []

/-- The ids are used up, whatever comes next. -/
def numbered (s : Store) (l : List Schedule) : Store :=
  { s with scheduleIds := (number s.scheduleIds l).2 }

def setRule (s : Store) (rule : SeriesRule) : Store :=
  { s with rules := s.rules.insert rule.id rule, archive := s.archive.putRule rule }

/-- Gives a rule up, with its waiting schedules and its marks. -/
def partWith (s : Store) (id : RuleId) : Store :=
  let waiting := (s.membersOf id).filter (·.isNotStarted)
  let others := (s.membersOf id).filter (!·.isNotStarted)
  let marks := s.markList.filter (·.ruleId == some id)
  let detached := others.map ({ · with ruleId := none })
  let left := ((s.strike (waiting.map (·.id))).lift marks).enter detached
  { left with rules := s.rules.erase id, archive := left.archive.dropRule id }

/-- What a call can do, if all writes are refused or none. -/
inductive Outcome (s : Store) : Edit → Store → Prop where
  | nothing {e : Edit} : s.crowdedBy e = [] → Outcome s e s
  | number (l : List Schedule) : Outcome s (.add l) (s.numbered l)
  | add (l : List Schedule) :
      Outcome s (.add l) ((s.numbered l).takeOver (number s.scheduleIds l).1)
  | update (l updates : List Schedule) :
      s.knownUpdates l = .ok updates → Outcome s (.update l) (s.takeOver updates)
  | changeState (id : ScheduleId) (state : RecordingState) (old : Schedule)
      (updates : List Schedule) :
      s.live[id]? = some old → s.knownUpdates [{ old with state }] = .ok updates →
      Outcome s (.changeState id state) (s.takeOver updates)
  | remove (l : List Schedule) (force : Bool) : Refuses false s →
      Outcome s (.remove l force)
        ((s.strike ((s.struck l force).map (·.id))).bury (s.buried l force))
  | addRule (rule : SeriesRule) (id : RuleId) :
      Outcome s (.addRule rule) (s.setRule { rule with id })
  | updateRule (rule : SeriesRule) : Outcome s (.updateRule rule) (s.setRule rule)
  | removeRule (id : RuleId) : Outcome s (.removeRule id) (s.partWith id)

def ComesTo (s : Store) (e : Edit) (s' : Store) : Prop := ∃ s₁, Outcome s e s₁ ∧ Alike s₁ s'

theorem ComesTo.nothing (hcrowded : s.crowdedBy e = []) (h : Alike s s') : ComesTo s e s' :=
  ⟨s, .nothing hcrowded, h⟩

/-! ## Every call -/

section keep

variable {next : PUnit → Op β}

theorem Alike.keep_refused (h : Refuses true s) : Alike s (s.run (keep l >>= next)).2 := by
  simp only [keep, bind_assoc]
  change Alike s (s.run (persist (·.putSchedules l) >>= _)).2
  exact .refused h

theorem Alike.keep_taken (h : Refuses false s)
    (hnext : ∀ s₁, Alike (s.takeOver l) s₁ → Alike s' (s₁.run (next ())).2) :
    Alike s' (s.run (keep l >>= next)).2 := by
  simp only [keep, bind_assoc]
  change Alike s' (s.run (persist (·.putSchedules l) >>= _)).2
  refine .taken h fun writes => ?_
  split
  · next hnone =>
    refine hnext _ ?_
    rw [takeOver, List.isEmpty_iff.mp hnone]
    exact ⟨rfl, rfl, rfl, rfl, rfl, rfl, rfl, rfl⟩
  · rw [bind_assoc]
    exact .taken h fun _ => hnext _ ⟨rfl, rfl, rfl, rfl, rfl, rfl, rfl, rfl⟩

end keep

theorem comesTo_add (h : Refuses on s) (l : List Schedule) :
    ComesTo s (.add l) (s.edit (.add l)) := by
  rw [edit, add]
  split
  · exact .nothing rfl (.refl s)
  · split
    · exact .nothing rfl (.refl s)
    · change ComesTo s _ ((s.numbered l).run (keep (number s.scheduleIds l).1 >>= _)).2
      cases on with
      | true => exact ⟨_, .number l, .keep_refused h⟩
      | false => exact ⟨_, .add l, .keep_taken h fun _ hs₁ => hs₁.told _⟩

/-- An update is refused, or it takes over what is known. -/
theorem alike_update (h : Refuses on s) (l : List Schedule) :
    Alike s (s.run (update l)).2 ∨
      ∃ updates, s.knownUpdates l = .ok updates ∧
        Alike (s.takeOver updates) (s.run (update l)).2 := by
  rw [update, run_bind, run_get]
  dsimp only
  split
  · exact Or.inl (.refl s)
  · next updates hupdates =>
    split
    · exact Or.inl (.refl s)
    · cases on with
      | true => exact Or.inl (.keep_refused h)
      | false =>
        exact Or.inr ⟨updates, hupdates, .keep_taken h fun _ hs₁ => hs₁.told _⟩

theorem comesTo_update (h : Refuses on s) (l : List Schedule) :
    ComesTo s (.update l) (s.edit (.update l)) := by
  rcases alike_update h l with hsame | ⟨updates, hupdates, halike⟩
  · exact .nothing rfl hsame
  · exact ⟨_, .update l updates hupdates, halike⟩

theorem comesTo_changeState (h : Refuses on s) (id : ScheduleId) (state : RecordingState) :
    ComesTo s (.changeState id state) (s.edit (.changeState id state)) := by
  rw [edit, changeState, run_bind, run_get]
  dsimp only
  split
  · next old hold =>
    split
    · exact .nothing rfl (.refl s)
    · rcases alike_update h [{ old with state }] with hsame | ⟨updates, hupdates, halike⟩
      · exact .nothing rfl hsame
      · exact ⟨_, .changeState id state old updates hold hupdates, halike⟩
  · exact .nothing rfl (.refl s)

/-- The two writes of a removal. One of them is made. -/
theorem alike_delete (h : Refuses on s) (struck buried : List Schedule)
    (hsome : struck = [] → buried ≠ []) :
    Alike (if on then s else (s.strike (struck.map (·.id))).bury buried) (s.run (do
      unless struck.isEmpty do persist (·.dropSchedules (struck.map (·.id)))
      unless buried.isEmpty do persist (·.putSchedules buried)
      modify fun s => (s.release ((struck ++ buried).map (·.id))).mark buried
      publish (.removed (struck ++ buried)))).2 := by
  cases on with
  | true =>
    -- Whichever of the writes comes first is refused.
    cases struck with
    | cons => exact .refused h
    | nil =>
      cases buried with
      | cons => exact .refused h
      | nil => exact absurd rfl (hsome rfl)
  | false =>
    have hlive : (s.release ((struck ++ buried).map (·.id))).live =
        ((s.release (struck.map (·.id))).release (buried.map (·.id))).live := by
      rw [List.map_append]
      exact List.foldl_append
    refine .whenever h (fun hnone a => ?_) fun _ => .whenever h (fun hnone a => ?_) fun _ => ?_
    · rw [List.isEmpty_iff.mp hnone]
      rfl
    · rw [List.isEmpty_iff.mp hnone]
      rfl
    · exact ⟨hlive, rfl, rfl, rfl, rfl, rfl, rfl, rfl⟩

theorem comesTo_remove (h : Refuses on s) (l : List Schedule) (force : Bool) :
    ComesTo s (.remove l force) (s.edit (.remove l force)) := by
  rw [edit, remove, run_bind, run_get]
  dsimp only
  rw [List.partition_eq_filter_filter]
  split
  · next hnone =>
    refine .nothing ?_ (.refl s)
    have hburied : s.buried l force = [] := by
      rw [buried, named, List.isEmpty_iff.mp hnone]
      rfl
    rw [crowdedBy, hburied]
    exact ite_self _
  · next hknown =>
    have hsome : s.struck l force = [] → s.buried l force ≠ [] := by
      intro hstruck hburied
      refine hknown (List.isEmpty_iff.mpr (List.eq_nil_iff_forall_not_mem.mpr fun x hx => ?_))
      have hnot := List.filter_eq_nil_iff.mp (List.map_eq_nil_iff.mp hburied) x hx
      exact List.filter_eq_nil_iff.mp hstruck x hx (by rwa [Bool.not_eq_true', ← Bool.not_eq_true])
    have hdelete := alike_delete h (s.struck l force) (s.buried l force) hsome
    cases on with
    | true => exact .nothing (if_pos (h _)) hdelete
    | false => exact ⟨_, .remove l force h, hdelete⟩

theorem comesTo_addRule (h : Refuses on s) (rule : SeriesRule) :
    ComesTo s (.addRule rule) (s.edit (.addRule rule)) := by
  rw [edit, addRule]
  split
  · exact .nothing rfl (.refl s)
  · dsimp only
    rw [run_bind, run_get]
    dsimp only
    rw [run_bind, run_modify]
    -- The id is used up before the rule is written.
    have hfresh : Alike s { s with ruleIds := s.ruleIds.take.2 } :=
      ⟨rfl, rfl, rfl, rfl, rfl, rfl, rfl, rfl⟩
    cases on with
    | true => exact .nothing rfl (hfresh.trans (.refused h))
    | false =>
      refine ⟨_, .addRule rule s.ruleIds.take.1, .taken h fun _ => ?_⟩
      exact ⟨rfl, rfl, rfl, rfl, rfl, rfl, rfl, rfl⟩

theorem comesTo_updateRule (h : Refuses on s) (rule : SeriesRule) :
    ComesTo s (.updateRule rule) (s.edit (.updateRule rule)) := by
  rw [edit, updateRule, run_bind, run_get]
  dsimp only
  split
  · cases on with
    | true => exact .nothing rfl (.refused h)
    | false =>
      exact ⟨_, .updateRule rule, .taken h fun _ => ⟨rfl, rfl, rfl, rfl, rfl, rfl, rfl, rfl⟩⟩
  · exact .nothing rfl (.refl s)

/-- The three writes of the removal of a rule. The last one is always made. -/
theorem alike_part (h : Refuses on s) (id : RuleId) (rule : SeriesRule)
    (waiting detached marks : List Schedule) :
    Alike (if on then s else
      let left := ((s.strike (waiting.map (·.id))).lift marks).enter detached
      { left with rules := s.rules.erase id, archive := left.archive.dropRule id }) (s.run (do
      unless (waiting.map (·.id) ++ marks.map (·.id)).isEmpty do
        persist (·.dropSchedules (waiting.map (·.id) ++ marks.map (·.id)))
      unless detached.isEmpty do persist (·.putSchedules detached)
      persist (·.dropRule id)
      modify fun s =>
        let s := ((s.release (waiting.map (·.id))).unmark marks).hold detached
        { s with rules := s.rules.erase id }
      unless waiting.isEmpty do publish (.removed waiting)
      unless detached.isEmpty do publish (.changed detached)
      publish (.rulesRemoved [rule]))).2 := by
  cases on with
  | true =>
    cases (waiting.map (·.id) ++ marks.map (·.id)) with
    | cons => exact .refused h
    | nil => cases detached <;> exact .refused h
  | false =>
    have hrows : (s.archive.dropSchedules (waiting.map (·.id) ++ marks.map (·.id))).schedules =
        ((s.archive.dropSchedules (waiting.map (·.id))).dropSchedules
          (marks.map (·.id))).schedules := List.foldl_append
    have hput := congrArg (detached.foldl fun m x => m.insert x.id x) hrows
    refine .whenever h (fun hnone a => ?_) fun _ => .whenever h (fun hnone a => ?_) fun _ =>
      .taken h fun _ => ?_
    · rw [List.isEmpty_iff.mp hnone]
      rfl
    · rw [List.isEmpty_iff.mp hnone]
      rfl
    · cases waiting <;> cases detached <;> exact ⟨rfl, rfl, rfl, rfl, hput, rfl, rfl, rfl⟩

theorem comesTo_removeRule (h : Refuses on s) (id : RuleId) :
    ComesTo s (.removeRule id) (s.edit (.removeRule id)) := by
  rw [edit, removeRule, run_bind, run_get]
  dsimp only
  split
  · next rule hrule =>
    rw [List.partition_eq_filter_filter]
    have hpart := alike_part h id rule ((s.membersOf id).filter (·.isNotStarted))
      (((s.membersOf id).filter (!·.isNotStarted)).map ({ · with ruleId := none }))
      (s.markList.filter (·.ruleId == some id))
    cases on with
    | true => exact .nothing rfl hpart
    | false => exact ⟨_, .removeRule id, hpart⟩
  · exact .nothing rfl (.refl s)

theorem comesTo_addRecorded (h : Refuses on s) (r : RecordedProgram) :
    ComesTo s (.addRecorded r) (s.edit (.addRecorded r)) := by
  rw [edit, addRecorded, run_bind, run_get]
  dsimp only
  split
  all_goals
    rw [run_bind, run_modify]
    refine .nothing rfl ?_
    have hfresh : ∀ recordedIds, Alike s { s with recordedIds } :=
      fun _ => ⟨rfl, rfl, rfl, rfl, rfl, rfl, rfl, rfl⟩
    cases on with
    | true => exact (hfresh _).trans (.refused h)
    | false => exact .taken h fun _ => ⟨rfl, rfl, rfl, rfl, rfl, rfl, rfl, rfl⟩

theorem comesTo_edit (h : Refuses on s) {e : Edit} (hload : ∀ now, e ≠ .load now) :
    ComesTo s e (s.edit e) := by
  cases e with
  | load now => exact absurd rfl (hload now)
  | add schedules => exact comesTo_add h schedules
  | update schedules => exact comesTo_update h schedules
  | changeState id state => exact comesTo_changeState h id state
  | remove schedules force => exact comesTo_remove h schedules force
  | addRule rule => exact comesTo_addRule h rule
  | updateRule rule => exact comesTo_updateRule h rule
  | removeRule id => exact comesTo_removeRule h id
  | addRecorded r => exact comesTo_addRecorded h r

theorem Outcome.archive {e : Edit} (h : Outcome s e s') :
    s'.archive.refuses = s.archive.refuses ∧ s'.archive.unreadable = s.archive.unreadable := by
  cases h <;> exact ⟨rfl, rfl⟩

/-- Whether the archive refuses writes is not for a call to change. -/
theorem Refuses.edit (h : Refuses on s) {e : Edit} (hload : ∀ now, e ≠ .load now) :
    Refuses on (s.edit e) := by
  obtain ⟨s₁, hout, halike⟩ := comesTo_edit h hload
  intro n
  rw [halike.refuses, hout.archive.1, h]

end Store

end Timeshift
