import Timeshift.Proofs.Booking.Filling
import Timeshift.Proofs.Store.Known

/-!
# New ids are fresh

The rows of the archive may be anything when they are loaded, the archive may refuse any write, and
recordings may come with ids of their own. A new id is above all that were known before, so what is
added takes nobody's place, unless it be that of a row that the store has never loaded.
-/

namespace Timeshift

namespace Store

variable {α : Type} {s t : Store} {l lifted : List Schedule} {known unread : Ids} {e : Edit}
  {k : IdKind}

/-! ## What is given out -/

/-- New ids are above all known ones. -/
theorem Knows.lt_given (h : Knows known unread s) (hrange : s.InRange e) {old new : Int64}
    (hold : old ∈ known k) (hnew : new ∈ s.given e k) : old < new :=
  Int64.lt_of_lt_of_le (h.below k old hold)
    (IdCounter.next_le_of_mem_upcoming (hrange.given k) hnew)

theorem Knows.not_mem_of_given (h : Knows known unread s) (hrange : s.InRange e) {new : Int64}
    (hnew : new ∈ s.given e k) : new ∉ known k :=
  fun hold => Int64.lt_irrefl (h.lt_given hrange hold hnew)

theorem needs_of_add {fresh : List Schedule} (h : s.run (add l) = (.ok fresh, t)) :
    (Edit.add l).needs .schedule = l.length := by
  rw [add] at h
  split at h
  · next hnone =>
    rw [List.isEmpty_iff.mp hnone]
    rfl
  · split at h
    · cases h
    · next hlengths => exact needs_add hlengths

/-! ## Marks and schedules in use have different ids -/

def IsApart (s : Store) : Prop :=
  ∀ (p : ProgramId) (x : Schedule), s.marks[p]? = some x → x.id ∉ s.live

namespace IsApart

theorem congr (h : s.IsApart) (hlive : t.live = s.live) (hmarks : t.marks = s.marks) :
    t.IsApart := by
  intro p x hx
  rw [hlive]
  exact h p x (hmarks ▸ hx)

/-- It is enough to look at calls that succeed. -/
theorem of_ok {op : Op α} (h : s.IsApart) (hfail : FailsUnseen op)
    (hok : ∀ a t, s.run op = (.ok a, t) → t.IsApart) : (s.run op).2.IsApart := by
  rcases hrun : s.run op with ⟨answer, t⟩
  cases answer with
  | error fault =>
    have hseen := hfail s fault (by rw [hrun])
    rw [hrun] at hseen
    exact h.congr hseen.live hseen.marks
  | ok a => exact hok a t hrun

theorem brought (h : s.IsApart) (tell : List Schedule → StoreEvent)
    (hl : ∀ y ∈ l, ∀ (p : ProgramId) (x : Schedule), s.marks[p]? = some x → y.id ≠ x.id) :
    (s.brought tell l).IsApart := by
  intro p x hx hin
  have hmark : s.marks[p]? = some x := by
    change (s.unmark (s.marksOf l)).marks[p]? = some x at hx
    rw [get_unmark] at hx
    split at hx
    · cases hx
    · exact hx
  obtain ⟨y, hy⟩ := mem_iff_get.mp hin
  rw [get_brought, Option.or_eq_some_iff] at hy
  rcases hy with hnew | ⟨-, hold⟩
  · exact hl y (id_of_copyIn hnew).1 p x hmark (id_of_copyIn hnew).2
  · exact h p x hmark (mem_of_get hold)

/-- One row is either that of a deleted schedule or that of one in use. -/
theorem adopt (s : Store) (rest : Snapshot) {rows : List Schedule}
    (hrows : (rows.map (·.id)).Nodup) : (s.adopt rows rest).IsApart := by
  intro p x hx hin
  obtain ⟨y, hy⟩ := mem_iff_get.mp hin
  rw [Store.adopt] at hx hy
  change (Store.mark (Store.hold { s with live := ∅, marks := ∅, rules := ∅ } _) _).marks[p]? =
    some x at hx
  change (Store.hold { s with live := ∅, marks := ∅, rules := ∅ } _).live[x.id]? = some y at hy
  rw [get_mark, Option.or_eq_some_iff] at hx
  rw [get_hold, Option.or_eq_some_iff] at hy
  rcases hx with hmark | ⟨-, hnone⟩
  · rcases hy with hlive | ⟨-, hnone⟩
    · have hmarked := List.mem_of_mem_filter (List.mem_of_getLast? hmark)
      obtain ⟨hheld, hid⟩ := id_of_copyIn hlive
      rw [List.partition_eq_filter_filter] at hmarked hheld
      obtain ⟨hxrow, hdeleted⟩ := List.mem_filter.mp hmarked
      obtain ⟨hyrow, hother⟩ := List.mem_filter.mp hheld
      obtain rfl := List.inj_on_of_nodup_map hrows hyrow hxrow hid
      rw [Function.comp_apply, hdeleted] at hother
      cases hother
    · simp at hnone
  · change (∅ : Std.TreeMap ProgramId Schedule)[p]? = some x at hnone
    simp at hnone

theorem load (h : s.IsApart) (hknows : Knows known unread s) (now : Instant) :
    (s.run (load now)).2.IsApart := by
  refine h.of_ok (failsUnseen_load now) fun n t hrun => ?_
  obtain ⟨-, writes, journal, rfl, -⟩ := run_load_ok hrun
  have hids : ((s.archive.schedules.values.map (restarted now)).map (·.id)).Nodup := by
    have hkeys : s.archive.schedules.values.map (·.id) = s.archive.schedules.keys :=
      map_values_eq_keys fun id x hx => (hknows.rows.schedules id x hx).1
    rw [List.map_map]
    exact hkeys ▸ Std.TreeMap.nodup_keys
  exact (adopt s s.archive.snapshot hids).congr rfl rfl

/-- The new ids are above those of all marks. -/
theorem add (h : s.IsApart) (hknows : Knows known unread s) (l : List Schedule)
    (hrange : s.InRange (.add l)) : (s.run (add l)).2.IsApart := by
  refine h.of_ok (failsUnseen_add l) fun fresh t hrun => ?_
  have hlike := looksLike_add hrun
  refine (h.brought .added fun y hy p x hx => ?_).congr hlike.live hlike.marks
  have hnew : y.id ∈ s.given (.add l) .schedule :=
    given_add s (needs_of_add hrun) ▸ List.mem_map_of_mem hy
  exact (Int64.ne_of_lt (hknows.lt_given hrange (hknows.marks p x hx) hnew)).symm

/-- Copies of schedules in use come into use. -/
theorem update (h : s.IsApart) (l : List Schedule) : (s.run (update l)).2.IsApart := by
  refine h.of_ok (failsUnseen_update l) fun _ t hrun => ?_
  have hlike := looksLike_update hrun
  refine (h.brought .changed fun y hy p x hx hid => ?_).congr hlike.live hlike.marks
  have hlive := (List.mem_filter.mp hy).2
  rw [hid] at hlive
  exact h p x hx (Std.TreeMap.contains_iff_mem.mp hlive)

theorem changeState (h : s.IsApart) (id : ScheduleId) (state : RecordingState) :
    (s.run (changeState id state)).2.IsApart := by
  rw [Store.changeState, run_bind, run_get]
  dsimp only
  split
  · split
    · exact h
    · exact h.update _
  · exact h

/-- What leaves a mark is in use no more. -/
theorem remove (h : s.IsApart) (l : List Schedule) (force : Bool) :
    (s.run (remove l force)).2.IsApart := by
  refine h.of_ok (failsUnseen_remove l force) fun _ t hrun => ?_
  intro p x hx hin
  rw [live_remove hrun] at hin
  obtain ⟨y, hy⟩ := mem_iff_get.mp hin
  rw [get_release] at hy
  split at hy
  · cases hy
  · next hstays =>
    rw [marks_remove hrun, get_mark, Option.or_eq_some_iff] at hx
    rcases hx with hnew | ⟨-, hold⟩
    · have hburied := List.mem_of_mem_filter (List.mem_of_getLast? hnew)
      exact hstays (List.mem_map_of_mem (List.mem_append_right _ hburied))
    · exact h p x hold (mem_of_get hy)

theorem removeRule (h : s.IsApart) (hkeyed : s.IsKeyed) (hmarks : s.MarksKeyed) (id : RuleId) :
    (s.run (removeRule id)).2.IsApart := by
  refine h.of_ok (failsUnseen_removeRule id) fun _ t hrun => ?_
  cases hrule : s.rule? id with
  | none =>
    rw [Store.removeRule, run_bind, run_get] at hrun
    simp only [hrule] at hrun
    obtain rfl : s = t := congrArg Prod.snd hrun
    exact h
  | some rule =>
    obtain ⟨writes, rfl⟩ := run_removeRule_ok hrule hrun
    intro p x hx hin
    change (s.partWith id).marks[p]? = some x at hx
    change x.id ∈ (s.partWith id).live at hin
    obtain ⟨y, hy⟩ := mem_iff_get.mp hin
    rw [get_marks_partWith hmarks, Option.filter_eq_some_iff] at hx
    rw [get_partWith hkeyed, Option.bind_eq_some_iff] at hy
    obtain ⟨z, hz, -⟩ := hy
    exact h p x hx.1 (mem_of_get hz)

theorem persist (edit : Archive → Archive) : Maintains IsApart (persist edit) :=
  .persist (fun _ _ h => h) fun _ h => h

theorem addRule (rule : SeriesRule) : Maintains IsApart (addRule rule) := by
  rw [Store.addRule]
  split
  · exact .throw _
  · exact .bind .get fun s => .bind (.modify fun _ h => h) fun _ => .bind (persist _) fun _ =>
      .bind (.modify fun _ h => h) fun _ => .bind (.modify fun _ h => h) fun _ => .pure _

theorem updateRule (rule : SeriesRule) : Maintains IsApart (updateRule rule) := by
  rw [Store.updateRule]
  refine .bind .get fun s => ?_
  split
  · exact .bind (persist _) fun _ => .bind (.modify fun _ h => h) fun _ => .modify fun _ h => h
  · exact .pure _

theorem addRecorded (r : RecordedProgram) : Maintains IsApart (addRecorded r) := by
  rw [Store.addRecorded]
  refine .bind .get fun s => ?_
  split
  all_goals
    exact .bind (.modify fun _ h => h) fun _ => .bind (persist _) fun _ =>
      .bind (.modify fun _ h => h) fun _ => .pure _

theorem edit (h : s.IsApart) (hknows : Knows known unread s) (hmarks : s.MarksKeyed)
    (hrange : s.InRange e) : (s.edit e).IsApart := by
  cases e with
  | load now => exact h.load hknows now
  | add l => exact h.add hknows l hrange
  | update l => exact h.update l
  | changeState id state => exact h.changeState id state
  | remove l force => exact h.remove l force
  | addRule rule => exact addRule rule s h
  | updateRule rule => exact updateRule rule s h
  | removeRule id => exact h.removeRule hknows.keyed hmarks id
  | addRecorded r => exact addRecorded r s h

end IsApart

/-! ## Runs -/

/-- The store is reached by a run of calls. By then `known` are the ids that it knows, and `unread`
those of rows that it has not read. Between two calls the rows may become others, and the archive
may refuse what it likes. -/
inductive Reaches : Store → Ids → Ids → Prop
  | new (listings : Nat → Listing) : Reaches { listings } (fun _ => []) fun _ => []
  | swap {s : Store} {known unread : Ids} (h : Reaches s known unread) (rows : Snapshot)
      (refuses : Nat → Bool) (unreadable : Option Fault) :
      Reaches { s with archive := { Archive.ofSnapshot rows with refuses, unreadable } } known
        rows.ids
  | call {s : Store} {known unread : Ids} (h : Reaches s known unread) (e : Edit)
      (hrange : s.InRange e) : Reaches (s.edit e) (s.knownAfter e known) (s.unreadAfter e unread)

/-- What every run keeps. -/
structure IsInOrder (known unread : Ids) (s : Store) : Prop where
  knows : Knows known unread s
  marksKeyed : s.MarksKeyed
  apart : s.IsApart

namespace IsInOrder

theorem new (listings : Nat → Listing) :
    IsInOrder (fun _ => []) (fun _ => []) { listings } where
  knows :=
    { below := fun _ _ hid => absurd hid List.not_mem_nil
      live := .empty
      marks := fun p x hx => by simp at hx
      rules := .empty
      rows := ⟨.empty, .empty, .empty⟩ }
  marksKeyed p x hx := by simp at hx
  apart p x hx := by simp at hx

theorem swap (h : IsInOrder known unread s) (rows : Snapshot) (refuses : Nat → Bool)
    (unreadable : Option Fault) : IsInOrder known rows.ids
      { s with archive := { Archive.ofSnapshot rows with refuses, unreadable } } :=
  have hrows := (hasRows_ofSnapshot rows).mono fun k id => Or.inr (a := id ∈ known k)
  { h with knows := { h.knows with rows := ⟨hrows.schedules, hrows.rules, hrows.recorded⟩ } }

theorem call (h : IsInOrder known unread s) (hrange : s.InRange e) :
    IsInOrder (s.knownAfter e known) (s.unreadAfter e unread) (s.edit e) where
  knows := h.knows.edit hrange
  marksKeyed := h.marksKeyed.edit e
  apart := h.apart.edit h.knows h.marksKeyed hrange

end IsInOrder

theorem Reaches.isInOrder (h : Reaches s known unread) : IsInOrder known unread s := by
  induction h with
  | new listings => exact .new listings
  | swap _ rows refuses unreadable ih => exact ih.swap rows refuses unreadable
  | call _ e hrange ih => exact ih.call hrange

/-! ## What an addition spares -/

def Edit.IsAddition : Edit → Prop
  | .add _ | .addRule _ => True
  | .addRecorded r => r.id = unassigned
  | _ => False

/-- The marks of the programs that are scheduled again. -/
def liftedBy (s : Store) : Edit → List Schedule
  | .add l => s.marksOf l
  | _ => []

/-- New numbers lift no other marks. -/
theorem marksOf_number (s : Store) (c : IdCounter) (l : List Schedule) :
    s.marksOf (number c l).1 = s.marksOf l := by
  induction l generalizing c with
  | nil => rfl
  | cons x rest ih =>
    have hnumber : (number c (x :: rest)).1 =
        { x with id := c.next } :: (number c.take.2 rest).1 := rfl
    have hrest := ih c.take.2
    rw [marksOf, marksOf] at hrest
    rw [hnumber, marksOf, marksOf, List.filterMap_cons, List.filterMap_cons, hrest]

/-- All that was there is there still: what is in use, the marks but for those that have been
lifted, the recordings, and the rows with `old` ids but for those of the lifted marks. -/
structure Spares (old : IdKind → Int64 → Prop) (lifted : List Schedule) (s t : Store) : Prop where
  live : ∀ (id : ScheduleId) (x : Schedule), s.live[id]? = some x → t.live[id]? = some x
  marks : ∀ (p : ProgramId) (x : Schedule), s.marks[p]? = some x → x ∉ lifted →
    t.marks[p]? = some x
  rules : ∀ (id : RuleId) (r : SeriesRule), s.rules[id]? = some r → t.rules[id]? = some r
  recorded : s.recorded <+: t.recorded
  rows : ∀ (id : ScheduleId) (x : Schedule), s.archive.schedules[id]? = some x → old .schedule id →
    (∀ m ∈ lifted, m.id ≠ id) → t.archive.schedules[id]? = some x
  ruleRows : ∀ (id : RuleId) (r : SeriesRule), s.archive.rules[id]? = some r → old .rule id →
    t.archive.rules[id]? = some r
  recordedRows : ∀ (id : RecordedId) (r : RecordedProgram), s.archive.recorded[id]? = some r →
    old .recorded id → t.archive.recorded[id]? = some r

namespace Spares

variable {old P Q : IdKind → Int64 → Prop}

theorem of_same (hlive : t.live = s.live) (hmarks : t.marks = s.marks) (hrules : t.rules = s.rules)
    (hrecorded : t.recorded = s.recorded) (harchive : t.archive = s.archive) :
    Spares old lifted s t where
  live _ _ hx := hlive ▸ hx
  marks _ _ hx _ := hmarks ▸ hx
  rules _ _ hr := hrules ▸ hr
  recorded := hrecorded ▸ List.prefix_refl _
  rows _ _ hx _ _ := harchive ▸ hx
  ruleRows _ _ hr _ := harchive ▸ hr
  recordedRows _ _ hr _ := harchive ▸ hr

/-- It is enough that the rows which there are have old ids. -/
theorem of_rows (h : Spares P lifted s t)
    (hrows : HasRows (fun k id => Q k id → P k id) s.archive) : Spares Q lifted s t :=
  { h with
    rows := fun id x hx hold => h.rows id x hx ((hrows.schedules id x hx).2 hold)
    ruleRows := fun id r hr hold => h.ruleRows id r hr ((hrows.rules id r hr).2 hold)
    recordedRows := fun id r hr hold => h.recordedRows id r hr ((hrows.recorded id r hr).2 hold) }

theorem hold (h : Spares old lifted s t) (hnew : ∀ x ∈ l, x.id ∉ s.live) :
    Spares old lifted s (t.hold l) :=
  { h with
    live := fun id x hx => by
      have hfree : copyIn l id = none := by
        refine copyIn_eq_none.mpr fun y hy hid => hnew y hy ?_
        exact hid ▸ mem_of_get hx
      rw [get_hold, hfree, Option.none_or]
      exact h.live id x hx }

theorem unmark (h : Spares old lifted s t) (hmarks : s.MarksKeyed)
    (hlifted : ∀ m ∈ lifted, ∃ p : ProgramId, s.marks[p]? = some m) :
    Spares old lifted s (t.unmark lifted) :=
  { h with
    marks := fun p x hx hstays => by
      have hother : some p ∉ lifted.map (·.programId) := by
        intro hmem
        obtain ⟨m, hm, hp⟩ := List.mem_map.mp hmem
        obtain ⟨q, hq⟩ := hlifted m hm
        obtain rfl := Option.some.inj ((hmarks q m hq).symm.trans hp)
        obtain rfl := Option.some.inj (hx.symm.trans hq)
        exact hstays hm
      rw [get_unmark, if_neg hother]
      exact h.marks p x hx hstays }

theorem withRule (h : Spares old lifted s t) {rule : SeriesRule} (hnew : rule.id ∉ s.rules) :
    Spares old lifted s { t with rules := t.rules.insert rule.id rule } :=
  { h with
    rules := fun id r hr => by
      have hne : rule.id ≠ id := fun hsame => hnew (hsame ▸ mem_of_get hr)
      rw [get_insert, if_neg hne]
      exact h.rules id r hr }

/-! ### Writes -/

theorem put (hnew : ∀ x ∈ l, ¬ old .schedule x.id) :
    Maintains (Spares old lifted s) (persist (·.putSchedules l)) := by
  refine .persist (fun _ _ h => { h with }) fun t h =>
    { h with rows := fun id x hx hold hstays => ?_ }
  have hfree : copyIn l id = none := copyIn_eq_none.mpr fun y hy hsame => hnew y hy (hsame ▸ hold)
  have hget : (t.archive.putSchedules l).schedules[id]? =
      (copyIn l id).or t.archive.schedules[id]? := get_insertAll Schedule.id l _ id
  rw [hget, hfree, Option.none_or]
  exact h.rows id x hx hold hstays

theorem drop : Maintains (Spares old lifted s) (persist (·.dropSchedules (lifted.map (·.id)))) := by
  refine .persist (fun _ _ h => { h with }) fun t h =>
    { h with rows := fun id x hx hold hstays => ?_ }
  have hget : (t.archive.dropSchedules (lifted.map (·.id))).schedules[id]? =
      if id ∈ lifted.map (·.id) then none else t.archive.schedules[id]? := get_eraseAll _ _ id
  have hother : id ∉ lifted.map (·.id) := by
    intro hmem
    obtain ⟨m, hm, hsame⟩ := List.mem_map.mp hmem
    exact hstays m hm hsame
  rw [hget, if_neg hother]
  exact h.rows id x hx hold hstays

theorem putRule {rule : SeriesRule} (hnew : ¬ old .rule rule.id) :
    Maintains (Spares old lifted s) (persist (·.putRule rule)) := by
  refine .persist (fun _ _ h => { h with }) fun t h =>
    { h with ruleRows := fun id r hr hold => ?_ }
  have hne : rule.id ≠ id := fun hsame => hnew (hsame ▸ hold)
  have hget : (t.archive.putRule rule).rules[id]? =
      if rule.id = id then some rule else t.archive.rules[id]? := get_insert
  rw [hget, if_neg hne]
  exact h.ruleRows id r hr hold

theorem putRecorded {r : RecordedProgram} (hnew : ¬ old .recorded r.id) :
    Maintains (Spares old lifted s) (persist (·.putRecorded r)) := by
  refine .persist (fun _ _ h => { h with }) fun t h =>
    { h with recordedRows := fun id x hx hold => ?_ }
  have hne : r.id ≠ id := fun hsame => hnew (hsame ▸ hold)
  have hget : (t.archive.putRecorded r).recorded[id]? =
      if r.id = id then some r else t.archive.recorded[id]? := get_insert
  rw [hget, if_neg hne]
  exact h.recordedRows id x hx hold

/-! ### Calls -/

theorem enter (h : Spares old (t.marksOf l) s t) (hmarks : s.MarksKeyed)
    (hsame : t.marks = s.marks) (hnew : ∀ x ∈ l, ¬ old .schedule x.id)
    (hfree : ∀ x ∈ l, x.id ∉ s.live) (answer : List Schedule) :
    Spares old (t.marksOf l) s (t.run (do
      keep l
      publish (.added l)
      return answer)).2 := by
  have hlifted : ∀ m ∈ t.marksOf l, ∃ p : ProgramId, s.marks[p]? = some m := by
    intro m hm
    obtain ⟨x, -, hx⟩ := List.mem_filterMap.mp hm
    obtain ⟨p, -, hp⟩ := Option.bind_eq_some_iff.mp hx
    exact ⟨p, hsame ▸ hp⟩
  refine Maintains.after ?_ fun _ => .bind (.modify fun _ hu => { hu with }) fun _ => .pure _
  rw [keep, run_bind, run_get]
  refine Maintains.bind (put hnew) (fun _ => .whenever drop ?_) t h
  exact .modify fun u hu => (hu.unmark hmarks hlifted).hold hfree

theorem setRule {rule : SeriesRule} (hnew : ¬ old .rule rule.id) (hfree : rule.id ∉ s.rules) :
    Maintains (Spares old lifted s) (do
      persist (·.putRule rule)
      modify fun s => { s with rules := s.rules.insert rule.id rule }
      publish (.rulesAdded [rule])
      return rule) :=
  .bind (putRule hnew) fun _ => .bind (.modify fun _ h => h.withRule hfree) fun _ =>
    .bind (.modify fun _ h => { h with }) fun _ => .pure _

/-- The recordings in memory form a list, so a new one has a place of its own in any case. -/
theorem store {r : RecordedProgram} (hnew : ¬ old .recorded r.id) :
    Maintains (Spares old lifted s) (do
      persist (·.putRecorded r)
      modify fun s => { s with recorded := s.recorded ++ [r] }
      return r) :=
  .bind (putRecorded hnew) fun _ => .bind (.modify fun _ h =>
    { h with recorded := h.recorded.trans (List.prefix_append _ _) }) fun _ => .pure _

theorem add (h : IsInOrder known unread s) (l : List Schedule) (hrange : s.InRange (.add l)) :
    Spares (fun k id => id ∈ known k) (s.marksOf l) s (s.run (add l)).2 := by
  rw [Store.add]
  split
  · exact of_same rfl rfl rfl rfl rfl
  · split
    · exact of_same rfl rfl rfl rfl rfl
    · next hlengths =>
      have hnew : ∀ x ∈ (number s.scheduleIds l).1, x.id ∉ known .schedule := fun x hx =>
        h.knows.not_mem_of_given hrange
          (given_add s (needs_add hlengths) ▸ List.mem_map_of_mem hx)
      have hmarks : (s.numbered l).marksOf (number s.scheduleIds l).1 = s.marksOf l :=
        marksOf_number s s.scheduleIds l
      have hnumbered : Spares (fun k id => id ∈ known k)
          ((s.numbered l).marksOf (number s.scheduleIds l).1) s (s.numbered l) :=
        of_same rfl rfl rfl rfl rfl
      rw [← hmarks]
      exact hnumbered.enter h.marksKeyed rfl hnew
        (fun x hx hin => hnew x hx (h.knows.live.of_mem hin)) _

theorem addRule (h : IsInOrder known unread s) (rule : SeriesRule)
    (hrange : s.InRange (.addRule rule)) :
    Spares (fun k id => id ∈ known k) lifted s (s.run (addRule rule)).2 := by
  rw [Store.addRule]
  split
  · exact of_same rfl rfl rfl rfl rfl
  · next hkey =>
    have hnew : s.ruleIds.next ∉ known .rule :=
      h.knows.not_mem_of_given hrange (given_addRule s hkey ▸ List.mem_singleton_self _)
    exact setRule hnew (fun hin => hnew (h.knows.rules.of_mem hin)) _ (of_same rfl rfl rfl rfl rfl)

theorem addRecorded (h : IsInOrder known unread s) (r : RecordedProgram)
    (hrange : s.InRange (.addRecorded r)) (hunassigned : r.id = unassigned) :
    Spares (fun k id => id ∈ known k) lifted s (s.run (addRecorded r)).2 := by
  have hnone : ¬ r.id ≠ unassigned := not_not.mpr hunassigned
  have hnew : s.recordedIds.next ∉ known .recorded :=
    h.knows.not_mem_of_given hrange (given_addRecorded s hnone ▸ List.mem_singleton_self _)
  rw [Store.addRecorded, run_bind, run_get]
  dsimp only
  rw [if_neg hnone]
  exact store hnew _ (of_same rfl rfl rfl rfl rfl)

/-- An addition takes nobody's place, whether it succeeds or not. A row that is not known is one of
those that have not been read. -/
theorem edit (h : IsInOrder known unread s) (hrange : s.InRange e) (hadds : e.IsAddition) :
    Spares (fun k id => id ∈ known k ∨ id ∉ unread k) (s.liftedBy e) s (s.edit e) := by
  have hknown : Spares (fun k id => id ∈ known k) (s.liftedBy e) s (s.edit e) := by
    cases e with
    | add l => exact add h l hrange
    | addRule rule => exact addRule h rule hrange
    | addRecorded r => exact addRecorded h r hrange hadds
    | _ => exact hadds.elim
  refine hknown.of_rows (h.knows.rows.mono fun k id hid hold => ?_)
  exact hold.elim (fun h => h) fun hread => hid.resolve_right hread

end Spares

/-! ## Fresh ids -/

/-- The ids of what a call answers that it has added. -/
def answered (s : Store) : Edit → Ids
  | .add l, .schedule => ((s.run (add l)).1.toOption.getD []).map (·.id)
  | .addRule rule, .rule => ((s.run (addRule rule)).1.toOption.map (·.id)).toList
  | .addRecorded r, .recorded =>
    if r.id ≠ unassigned then [] else ((s.run (addRecorded r)).1.toOption.map (·.id)).toList
  | _, _ => []

theorem id_of_run_addRecorded {r r' : RecordedProgram} (hnone : ¬ r.id ≠ unassigned)
    (h : s.run (addRecorded r) = (.ok r', t)) : r'.id = s.recordedIds.next := by
  rw [addRecorded, run_bind, run_get] at h
  dsimp only at h
  rw [if_neg hnone] at h
  obtain ⟨_, u, -, h⟩ := run_bind_ok h
  obtain ⟨_, u, -, h⟩ := run_bind_ok h
  exact congrArg RecordedProgram.id (Except.ok.inj (congrArg Prod.fst h)).symm

theorem answered_add (s : Store) (l : List Schedule) :
    s.answered (.add l) .schedule =
      if (s.answer (.add l)).isOk then s.given (.add l) .schedule else [] := by
  rw [answer, isOk_map]
  rcases hrun : s.run (add l) with ⟨answer, t⟩
  rw [answered, hrun]
  cases answer with
  | error fault => rfl
  | ok fresh =>
    rw [given_add s (needs_of_add hrun), ← eq_number_of_add hrun]
    rfl

theorem answered_addRule (s : Store) (rule : SeriesRule) :
    s.answered (.addRule rule) .rule =
      if (s.answer (.addRule rule)).isOk then s.given (.addRule rule) .rule else [] := by
  rw [answer, isOk_map, answered]
  rcases run_addRule s rule with ⟨⟨fault, hfault⟩, -⟩ | ⟨htaken, hrun⟩
  · rw [hfault]
    rfl
  · have hkey : ¬ rule.seriesKey.isEmpty := by
      rw [String.isEmpty_iff]
      exact fun hempty => htaken (Or.inl hempty)
    rw [hrun, given_addRule s hkey]
    rfl

theorem answered_addRecorded (s : Store) (r : RecordedProgram) :
    s.answered (.addRecorded r) .recorded =
      if (s.answer (.addRecorded r)).isOk then s.given (.addRecorded r) .recorded else [] := by
  rw [answer, isOk_map, answered]
  by_cases hchosen : r.id ≠ unassigned
  · have hneeds : (Edit.addRecorded r).needs .recorded = 0 := if_pos hchosen
    rw [if_pos hchosen, given_eq_nil hneeds, ite_self]
  · rw [if_neg hchosen, given_addRecorded s hchosen]
    rcases hrun : s.run (addRecorded r) with ⟨answer, t⟩
    cases answer with
    | error fault => rfl
    | ok added => exact congrArg ([·]) (id_of_run_addRecorded hchosen hrun)

/-- A call that succeeds answers with the ids that it has given out. -/
theorem answered_eq (s : Store) (e : Edit) (k : IdKind) :
    s.answered e k = if (s.answer e).isOk then s.given e k else [] := by
  have hnone : e.needs k = 0 → [] = if (s.answer e).isOk then s.given e k else [] :=
    fun hneeds => by rw [given_eq_nil hneeds, ite_self]
  match e, k with
  | .add l, .schedule => exact answered_add s l
  | .addRule rule, .rule => exact answered_addRule s rule
  | .addRecorded r, .recorded => exact answered_addRecorded s r
  | .add _, .rule | .add _, .recorded | .addRule _, .schedule | .addRule _, .recorded
  | .addRecorded _, .schedule | .addRecorded _, .rule => exact hnone rfl
  | .load _, _ | .update _, _ | .changeState _ _, _ | .remove _ _, _ | .updateRule _, _
  | .removeRule _, _ => exact hnone rfl

/-- All new ids are above those that the store has ever loaded, taken over from recordings or given
out, and they rise. A call that succeeds answers with all of them. Whether it succeeds or not, an
addition takes the place of nothing in the store, and of no row but those that have come into the
archive since it was last loaded; of these it spares the ones with known ids. It lifts the marks of
the programs that it schedules, and what has left them is not in use. -/
theorem new_ids_are_fresh (h : Reaches s known unread) (e : Edit) (hrange : s.InRange e) :
    (∀ k, (∀ new ∈ s.given e k, ∀ old ∈ known k, old < new) ∧
      (s.given e k).Pairwise (· < ·) ∧
      s.answered e k = if (s.answer e).isOk then s.given e k else []) ∧
    (e.IsAddition →
      Spares (fun k id => id ∈ known k ∨ id ∉ unread k) (s.liftedBy e) s (s.edit e) ∧
        ∀ m ∈ s.liftedBy e, m.id ∉ s.live) := by
  have horder := h.isInOrder
  refine ⟨fun k => ⟨fun new hnew old hold => horder.knows.lt_given hrange hold hnew,
    IdCounter.pairwise_upcoming (hrange.given k), answered_eq s e k⟩, fun hadds => ?_⟩
  refine ⟨Spares.edit horder hrange hadds, fun m hm => ?_⟩
  cases e with
  | add l =>
    obtain ⟨x, -, hx⟩ := List.mem_filterMap.mp hm
    obtain ⟨p, -, hp⟩ := Option.bind_eq_some_iff.mp hx
    exact horder.apart p m hp
  | _ => cases hm

/-- The archive has rows of a schedule, of a deleted one without a program, and of one with a
program. The first addition is refused, the schedule is removed, and a recording comes with an id of
its own. The program is then scheduled again. -/
theorem new_ids_are_fresh_after_five :
    let row (id : ScheduleId) (state : RecordingState) (programId : Option ProgramId) : Schedule :=
      { Schedule.timed id 1 20 30 5 with state, programId }
    let rows : Snapshot :=
      { schedules := [row 3 .notStarted none, row 8 .deleted none, row 5 .deleted (some 7)]
        rules := [{ SeriesRule.ofKey "show" "tuner" 1 with id := 2 }] }
    let new : List Schedule := [row 0 .notStarted (some 7), row 0 .notStarted none]
    let s₁ : Store :=
      { archive := { Archive.ofSnapshot rows with refuses := (· == 0), unreadable := none } }
    let s₂ := s₁.edit (.load 0)
    let s₃ := s₂.edit (.add new)
    let s₄ := s₃.edit (.remove [row 3 .notStarted none] false)
    let s := s₄.edit (.addRecorded { (default : RecordedProgram) with id := 6 })
    let k₂ := s₁.knownAfter (.load 0) fun _ => []
    let k₃ := s₂.knownAfter (.add new) k₂
    let k₄ := s₃.knownAfter (.remove [row 3 .notStarted none] false) k₃
    let known := s₄.knownAfter (.addRecorded { (default : RecordedProgram) with id := 6 }) k₄
    Reaches s known (fun _ => []) ∧ s.InRange (.add new) ∧
      known .schedule = [3, 5, 8, 9, 10] ∧ known .rule = [2] ∧ known .recorded = [6] ∧
      s.answered (.add new) .schedule = [11, 12] ∧ s.marksOf new = [row 5 .deleted (some 7)] ∧
      (∀ old ∈ known .schedule, old < 11) ∧
      Spares (fun k id => id ∈ known k ∨ id ∉ []) (s.marksOf new) s (s.edit (.add new)) ∧
      ∀ m ∈ s.marksOf new, m.id ∉ s.live := by
  intro row rows new s₁ s₂ s₃ s₄ s k₂ k₃ k₄ known
  have hloads : (s₁.run (load 0)).1.isOk = true := by decide +kernel
  have hread : s₁.unreadAfter (.load 0) rows.ids = fun _ => [] := by rw [unreadAfter, if_pos hloads]
  have h₁ : Reaches s₁ (fun _ => []) rows.ids := (Reaches.new _).swap rows (· == 0) none
  have h₂ : Reaches s₂ k₂ fun _ => [] := hread ▸ h₁.call (.load 0) (by decide +kernel)
  have h₃ : Reaches s₃ k₃ fun _ => [] := h₂.call (.add new) (by decide +kernel)
  have h₄ : Reaches s₄ k₄ fun _ => [] := h₃.call (.remove _ false) (by decide +kernel)
  have h : Reaches s known fun _ => [] := h₄.call (.addRecorded _) (by decide +kernel)
  have hrange : s.InRange (.add new) := by decide +kernel
  have hknown : known .schedule = [3, 5, 8, 9, 10] := by decide +kernel
  have hgiven : s.given (.add new) .schedule = [11, 12] := by decide +kernel
  obtain ⟨hids, hadds⟩ := new_ids_are_fresh h (.add new) hrange
  obtain ⟨hspares, hapart⟩ := hadds trivial
  refine ⟨h, hrange, hknown, by decide +kernel, by decide +kernel, by decide +kernel,
    by decide +kernel, fun old hold => ?_, hspares, hapart⟩
  exact (hids .schedule).1 11 (by rw [hgiven]; decide) old hold

/-- The row of the archive has not been loaded, and the first schedule that is added takes its
place. -/
theorem not_spared_before_loading :
    let old : Schedule := { Schedule.timed 1 1 20 30 5 with programId := some 7 }
    let new : Schedule := .timed 0 2 40 50 5
    let rows : Snapshot := { schedules := [old] }
    let s : Store := { archive := .ofSnapshot rows }
    Reaches s (fun _ => []) rows.ids ∧ s.InRange (.add [new]) ∧
      s.answered (.add [new]) .schedule = [1] ∧
      s.archive.schedules[(1 : ScheduleId)]? = some old ∧
      (s.edit (.add [new])).archive.schedules[(1 : ScheduleId)]? = some { new with id := 1 } ∧
      old ≠ { new with id := 1 } := by
  intro old new rows s
  exact ⟨(Reaches.new _).swap rows (fun _ => false) none, by decide +kernel, by decide +kernel,
    by decide +kernel, by decide +kernel, by decide⟩

end Store

end Timeshift
