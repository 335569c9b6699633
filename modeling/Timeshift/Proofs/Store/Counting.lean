import Timeshift.Proofs.Store.Success

/-!
# Ids count up

As long as no row and no new schedule has the largest 64-bit number for its id, all ids in use are
below the next one. A loading makes up for the ids that it finds in the archive, and every other
call uses ids that were there before or have just been given out.
-/

namespace Timeshift

/-! ## The counter -/

instance instLawfulOrderMaxInt64 : Std.LawfulOrderMax Int64 where
  max_eq_or a b := by
    simp only [max]
    split
    · exact Or.inr rfl
    · exact Or.inl rfl
  max_le_iff a b c := by
    simp only [max, Int64.le_iff_toInt_le]
    split <;> omega

namespace IdCounter

variable {c : IdCounter} {id : Int64} {seen : List Int64}

theorem toInt_succ {i : Int64} (h : i < Int64.maxValue) : (i + 1).toInt = i.toInt + 1 := by
  have hmax : Int64.maxValue.toInt = 9223372036854775807 := by decide
  have hlo := i.le_toInt
  rw [Int64.lt_iff_toInt_lt, hmax] at h
  rw [Int64.toInt_add, Int64.toInt_one, Int.bmod_eq_of_le] <;> omega

theorem next_le_skip (c : IdCounter) (id : Int64) : c.next ≤ (c.skip id).next := Std.left_le_max

theorem lt_next_skip (c : IdCounter) (h : id < Int64.maxValue) : id < (c.skip id).next := by
  refine Int64.lt_of_lt_of_le ?_ Std.right_le_max
  have hmax : Int64.maxValue.toInt = 9223372036854775807 := by decide
  have hone : (1 : Int64).toInt = 1 := by decide
  have hlo := id.le_toInt
  rw [Int64.lt_iff_toInt_lt, hmax] at h
  rw [Int64.lt_iff_toInt_lt, toInt_boundedAdd, hone]
  omega

theorem next_le_skipAll (c : IdCounter) (seen : List Int64) : c.next ≤ (c.skipAll seen).next := by
  induction seen generalizing c with
  | nil => exact Int64.le_refl _
  | cons id rest ih => exact Int64.le_trans (next_le_skip c id) (ih (c.skip id))

/-- Every further id is larger than all those seen. -/
theorem lt_next_skipAll (c : IdCounter) (hid : id ∈ seen) (h : id < Int64.maxValue) :
    id < (c.skipAll seen).next := by
  induction seen generalizing c with
  | nil => cases hid
  | cons first rest ih =>
    rcases List.mem_cons.mp hid with rfl | hrest
    · exact Int64.lt_of_lt_of_le (lt_next_skip c h) (next_le_skipAll _ rest)
    · exact ih (c.skip first) hrest

end IdCounter

namespace Store

variable {α β : Type} {s s' : Store} {l : List Schedule} {n : ScheduleId} {e : Edit}

/-- Ids that have not come to the end of the numbers count up. -/
theorem number_counts (c : IdCounter) (h : ∀ x ∈ (number c l).1, x.id < Int64.maxValue) :
    c.next ≤ (number c l).2.next ∧ ∀ x ∈ (number c l).1, x.id < (number c l).2.next := by
  induction l generalizing c with
  | nil => exact ⟨Int64.le_refl c.next, fun x hx => absurd hx List.not_mem_nil⟩
  | cons x rest ih =>
    have hnumber : number c (x :: rest) =
        ({ x with id := c.next } :: (number ⟨c.next + 1⟩ rest).1, (number ⟨c.next + 1⟩ rest).2) :=
      rfl
    rw [hnumber] at h ⊢
    obtain ⟨hfirst, hrest⟩ := List.forall_mem_cons.mp h
    obtain ⟨hle, hlt⟩ := ih ⟨c.next + 1⟩ hrest
    have hstep : c.next < c.next + 1 := by
      have hnext : (c.next + 1).toInt = c.next.toInt + 1 := IdCounter.toInt_succ hfirst
      rw [Int64.lt_iff_toInt_lt]
      omega
    have hbelow := Int64.lt_of_lt_of_le hstep hle
    exact ⟨Int64.le_of_lt hbelow, List.forall_mem_cons.mpr ⟨hbelow, hlt⟩⟩

/-! ## Rows -/

/-- No row has the largest number for its id. -/
def RowsBelow (a : Archive) : Prop := ∀ x ∈ a.schedules.values, x.id < Int64.maxValue

namespace RowsBelow

variable {a : Archive}

theorem put (h : RowsBelow a) (hl : ∀ x ∈ l, x.id < Int64.maxValue) :
    RowsBelow (a.putSchedules l) := by
  intro x hx
  obtain ⟨k, hk⟩ := mem_values.mp hx
  have hget : (a.putSchedules l).schedules[k]? = (copyIn l k).or a.schedules[k]? :=
    get_insertAll Schedule.id l _ k
  rw [hget, Option.or_eq_some_iff] at hk
  rcases hk with hnew | ⟨-, hold⟩
  · exact hl x (id_of_copyIn hnew).1
  · exact h x (mem_values.mpr ⟨k, hold⟩)

theorem drop (h : RowsBelow a) (ids : List ScheduleId) : RowsBelow (a.dropSchedules ids) := by
  intro x hx
  obtain ⟨k, hk⟩ := mem_values.mp hx
  have hget : (a.dropSchedules ids).schedules[k]? = if k ∈ ids then none else a.schedules[k]? :=
    get_eraseAll ids _ k
  rw [hget] at hk
  split at hk
  · cases hk
  · exact h x (mem_values.mpr ⟨k, hk⟩)

end RowsBelow

/-! ## Steps -/

/-- The next id is `n`. All ids in use are below it, and no row is at the end of the numbers. -/
structure CountsTo (n : ScheduleId) (s : Store) : Prop where
  next : s.scheduleIds.next = n
  live : ∀ id ∈ s.live, id < n
  rows : RowsBelow s.archive

theorem lt_maxValue_of_lt {a b : Int64} (h : a < b) : a < Int64.maxValue := by
  have hmax : Int64.maxValue.toInt = 9223372036854775807 := by decide
  have hb := b.toInt_lt
  rw [Int64.lt_iff_toInt_lt] at h ⊢
  omega

namespace CountsTo

theorem hold (h : CountsTo n s) (hl : ∀ x ∈ l, x.id < n) : CountsTo n (s.hold l) where
  next := h.next
  rows := h.rows
  live id hid := by
    obtain ⟨x, hx⟩ := mem_iff_get.mp hid
    rw [get_hold, Option.or_eq_some_iff] at hx
    rcases hx with hnew | ⟨-, hold⟩
    · obtain ⟨hmem, rfl⟩ := id_of_copyIn hnew
      exact hl x hmem
    · exact h.live id (mem_of_get hold)

theorem release (h : CountsTo n s) (ids : List ScheduleId) : CountsTo n (s.release ids) where
  next := h.next
  rows := h.rows
  live id hid := by
    obtain ⟨x, hx⟩ := mem_iff_get.mp hid
    rw [get_release] at hx
    split at hx
    · cases hx
    · exact h.live id (mem_of_get hx)

/-- Marks, rules and recordings do not count. -/
theorem congr (h : CountsTo n s) (hnext : s'.scheduleIds = s.scheduleIds) (hlive : s'.live = s.live)
    (harchive : s'.archive = s.archive) : CountsTo n s' :=
  ⟨hnext ▸ h.next, hlive ▸ h.live, harchive ▸ h.rows⟩

theorem unmark (h : CountsTo n s) (marks : List Schedule) : CountsTo n (s.unmark marks) :=
  h.congr rfl rfl rfl

theorem live_lt (h : CountsTo n s) (hkeyed : s.IsKeyed) {x : Schedule} {id : ScheduleId}
    (hx : s.live[id]? = some x) : x.id < n := by
  rw [hkeyed id x hx]
  exact h.live id (mem_of_get hx)

end CountsTo

/-- The operation leaves the next id as it is, and all ids below it. -/
def IsCounting (n : ScheduleId) (op : Op α) : Prop :=
  ∀ s : Store, CountsTo n s → CountsTo n (s.run op).2

namespace IsCounting

theorem pure (a : α) : IsCounting n (Pure.pure a) := fun _ h => h

theorem get : IsCounting n MonadState.get := fun _ h => h

theorem throw (fault : Fault) : IsCounting n (MonadExcept.throw fault : Op α) := fun _ h => h

theorem modify {f : Store → Store} (h : ∀ s, CountsTo n s → CountsTo n (f s)) :
    IsCounting n (modify f) := h

theorem publish (e : StoreEvent) : IsCounting n (publish e) :=
  modify fun _ h => h.congr rfl rfl rfl

theorem bind {op : Op α} {next : α → Op β} (h : IsCounting n op)
    (h' : ∀ a, IsCounting n (next a)) : IsCounting n (op >>= next) :=
  fun s => run_bind_trans (R := fun s t => CountsTo n s → CountsTo n t)
    (fun h h' hs => h' (h hs)) (h s) h'

/-- A part that may be left out, and what comes after it. -/
theorem whenever {c : Bool} {op : Op PUnit} {next : PUnit → Op β} (h : IsCounting n op)
    (h' : IsCounting n (next ())) : IsCounting n (if c = true then next () else op >>= next) := by
  split
  · exact h'
  · exact h.bind fun _ => h'

theorem persist {edit : Archive → Archive} (h : ∀ a, RowsBelow a → RowsBelow (edit a)) :
    IsCounting n (persist edit) := by
  intro s hs
  simp only [Store.persist, run_bind, run_get, run_modify, Archive.write]
  split
  · exact ⟨hs.next, hs.live, hs.rows⟩
  · exact ⟨hs.next, hs.live, h _ hs.rows⟩

theorem put (hl : ∀ x ∈ l, x.id < n) : IsCounting n (Store.persist (·.putSchedules l)) :=
  persist fun _ h => h.put fun x hx => lt_maxValue_of_lt (hl x hx)

theorem drop (ids : List ScheduleId) : IsCounting n (Store.persist (·.dropSchedules ids)) :=
  persist fun _ h => h.drop ids

theorem keep (hl : ∀ x ∈ l, x.id < n) : IsCounting n (keep l) := by
  rw [Store.keep]
  refine .bind .get fun s => .bind (.put hl) fun _ => .whenever (.drop _) ?_
  exact .modify fun t ht => (ht.unmark _).hold hl

end IsCounting

/-! ## Calls -/

namespace IsCounting

/-- What comes next may look at the store. -/
theorem look {next : Store → Op β}
    (h : ∀ s, CountsTo n s → CountsTo n (s.run (next s)).2) :
    IsCounting n (MonadState.get >>= next) := by
  intro s hs
  rw [run_bind, run_get]
  exact h s hs

/-- Only what is in use is updated. -/
theorem update (l : List Schedule) : IsCounting n (update l) := by
  rw [Store.update]
  refine .look fun s hs => ?_
  split
  · exact hs
  · next updates hupdates =>
    have hknown : ∀ x ∈ updates, x.id < n := by
      intro x hx
      rw [eq_filter_of_knownUpdates hupdates] at hx
      exact hs.live x.id (Std.TreeMap.contains_iff_mem.mp (List.mem_filter.mp hx).2)
    split
    · exact hs
    · exact IsCounting.bind (.keep hknown) (fun _ => .publish _) s hs

theorem changeState (id : ScheduleId) (state : RecordingState) :
    IsCounting n (changeState id state) := by
  rw [Store.changeState]
  refine .bind .get fun s => ?_
  split
  · split
    · exact .pure _
    · exact .update _
  · exact .pure _

theorem addRule (rule : SeriesRule) : IsCounting n (addRule rule) := by
  rw [Store.addRule]
  split
  · exact .throw _
  · refine .bind .get fun s => .bind (.modify fun _ h => h.congr rfl rfl rfl) fun _ => ?_
    exact .bind (.persist fun _ h => h) fun _ =>
      .bind (.modify fun _ h => h.congr rfl rfl rfl) fun _ => .bind (.publish _) fun _ => .pure _

theorem updateRule (rule : SeriesRule) : IsCounting n (updateRule rule) := by
  rw [Store.updateRule]
  refine .bind .get fun s => ?_
  split
  · exact .bind (.persist fun _ h => h) fun _ =>
      .bind (.modify fun _ h => h.congr rfl rfl rfl) fun _ => .publish _
  · exact .pure _

theorem addRecorded (r : RecordedProgram) : IsCounting n (addRecorded r) := by
  rw [Store.addRecorded]
  refine .bind .get fun s => ?_
  split
  all_goals
    refine .bind (.modify fun _ h => h.congr rfl rfl rfl) fun _ => ?_
    exact .bind (.persist fun _ h => h) fun _ =>
      .bind (.modify fun _ h => h.congr rfl rfl rfl) fun _ => .pure _

end IsCounting

namespace CountsTo

theorem remove (h : CountsTo n s) (hkeyed : s.IsKeyed) (l : List Schedule) (force : Bool) :
    CountsTo n (s.run (remove l force)).2 := by
  have hnamed : ∀ x ∈ l.filterMap fun x => s.schedule? x.id, x.id < n := by
    intro x hx
    obtain ⟨y, -, hy⟩ := List.mem_filterMap.mp hx
    exact h.live_lt hkeyed hy
  rw [Store.remove, run_bind, run_get]
  dsimp only
  split
  · exact h
  · refine IsCounting.whenever (.drop _) (.whenever (.put fun x hx => ?_) ?_) s h
    · obtain ⟨y, hy, rfl⟩ := List.mem_map.mp hx
      rw [List.partition_eq_filter_filter] at hy
      exact hnamed y (List.mem_of_mem_filter hy)
    · exact .bind (.modify fun t ht => (ht.release _).congr rfl rfl rfl) fun _ => .publish _

theorem removeRule (h : CountsTo n s) (hkeyed : s.IsKeyed) (id : RuleId) :
    CountsTo n (s.run (removeRule id)).2 := by
  have hmember : ∀ x ∈ s.membersOf id, x.id < n := by
    intro x hx
    obtain ⟨k, hk⟩ := mem_values.mp (List.mem_of_mem_filter hx)
    exact h.live_lt hkeyed hk
  rw [Store.removeRule, run_bind, run_get]
  dsimp only
  split
  · rw [List.partition_eq_filter_filter]
    have hdetached : ∀ x ∈ ((s.membersOf id).filter (!·.isNotStarted)).map
        ({ · with ruleId := none }), x.id < n := by
      intro x hx
      obtain ⟨y, hy, rfl⟩ := List.mem_map.mp hx
      exact hmember y (List.mem_of_mem_filter hy)
    refine IsCounting.whenever (.drop _) (.whenever (.put hdetached) ?_) s h
    refine .bind (.persist fun _ h => h) fun _ => .bind (.modify fun t ht => ?_) fun _ => ?_
    · exact CountsTo.congr (CountsTo.hold ((ht.release _).unmark _) hdetached) rfl rfl rfl
    · exact .whenever (.publish _) (.whenever (.publish _) (.publish _))
  · exact h

theorem add (h : CountsTo n s) (hids : ∀ x ∈ (number s.scheduleIds l).1, x.id < Int64.maxValue) :
    ∃ m, CountsTo m (s.run (add l)).2 := by
  obtain ⟨hle, hlt⟩ := number_counts s.scheduleIds hids
  rw [Store.add]
  split
  · exact ⟨n, h⟩
  · split
    · exact ⟨n, h⟩
    · -- From here on the next id is the one after all those given out.
      have hnumbered : CountsTo (number s.scheduleIds l).2.next (s.numbered l) :=
        ⟨rfl, fun id hid => Int64.lt_of_lt_of_le (h.live id hid) (h.next ▸ hle), h.rows⟩
      refine ⟨_, IsCounting.bind (.keep hlt) (fun _ => ?_) _ hnumbered⟩
      exact .bind (.publish _) fun _ => .pure _

/-- A loading makes up for all ids that it finds. -/
theorem adopt (h : CountsTo n s) {rows : List Schedule} (hrows : ∀ x ∈ rows, x.id < Int64.maxValue)
    (rest : Snapshot) :
    CountsTo (s.scheduleIds.skipAll (rows.map (·.id))).next (s.adopt rows rest) where
  next := rfl
  rows := h.rows
  live id hid := by
    obtain ⟨x, hx⟩ := mem_iff_get.mp hid
    rw [Store.adopt] at hx
    change (Store.hold { s with live := ∅, marks := ∅, rules := ∅ } _).live[id]? = some x at hx
    rw [get_hold, Option.or_eq_some_iff] at hx
    rcases hx with hrow | ⟨-, hnone⟩
    · obtain ⟨hmem, rfl⟩ := id_of_copyIn hrow
      rw [List.partition_eq_filter_filter] at hmem
      have hin := List.mem_of_mem_filter hmem
      exact IdCounter.lt_next_skipAll _ (List.mem_map_of_mem hin) (hrows x hin)
    · simp at hnone

/-- A part that leaves the next id and may be left out, and what may then change it. -/
theorem whenever {c : Bool} {op : Op PUnit} {next : PUnit → Op β} (h : CountsTo n s)
    (hop : IsCounting n op)
    (hnext : ∀ t, CountsTo n t → ∃ m, CountsTo m (t.run (next ())).2) :
    ∃ m, CountsTo m (s.run (if c = true then next () else op >>= next)).2 := by
  split
  · exact hnext s h
  · have hfirst := hop s h
    rw [run_bind]
    rcases hrun : s.run op with ⟨r, t⟩
    rw [hrun] at hfirst
    cases r with
    | error _ => exact ⟨n, hfirst⟩
    | ok _ => exact hnext t hfirst

theorem load (h : CountsTo n s) (now : Instant) : ∃ m, CountsTo m (s.run (load now)).2 := by
  rw [Store.load, run_bind, run_get]
  dsimp only
  split
  · exact ⟨n, h⟩
  · next snapshot hread =>
    have hsnapshot : ∀ x ∈ snapshot.schedules, x.id < Int64.maxValue := by
      rw [Archive.read] at hread
      split at hread
      · cases hread
      · obtain rfl := Except.ok.inj hread
        exact h.rows
    have hrows : ∀ x ∈ snapshot.schedules.map (restarted now), x.id < Int64.maxValue := by
      intro x hx
      obtain ⟨y, hy, rfl⟩ := List.mem_map.mp hx
      exact hsnapshot y hy
    have hlast : ∀ t, CountsTo n t → ∃ m, CountsTo m (t.run (do
        modify (·.adopt (snapshot.schedules.map (restarted now)) snapshot)
        publish .loaded
        return (← get).live.size)).2 :=
      fun t ht => ⟨_, (ht.adopt hrows snapshot).congr rfl rfl rfl⟩
    -- The rows that are written back are among those that have been read.
    refine h.whenever (.persist fun _ ha => ha.put fun x hx => ?_) hlast
    obtain ⟨⟨row, old⟩, hzip, hrow⟩ := List.mem_filterMap.mp hx
    dsimp only at hrow
    split at hrow
    · cases hrow
    · obtain rfl := Option.some.inj hrow
      exact hrows row (List.of_mem_zip hzip).1

theorem edit (h : CountsTo n s) (hkeyed : s.IsKeyed)
    (hids : ∀ x ∈ (number s.scheduleIds e.added).1, x.id < Int64.maxValue) :
    ∃ m, CountsTo m (s.edit e) := by
  cases e with
  | load now => exact h.load now
  | add l => exact h.add hids
  | update l => exact ⟨n, IsCounting.update l s h⟩
  | changeState id state => exact ⟨n, IsCounting.changeState id state s h⟩
  | remove l force => exact ⟨n, h.remove hkeyed l force⟩
  | addRule rule => exact ⟨n, IsCounting.addRule rule s h⟩
  | updateRule rule => exact ⟨n, IsCounting.updateRule rule s h⟩
  | removeRule id => exact ⟨n, h.removeRule hkeyed id⟩
  | addRecorded r => exact ⟨n, IsCounting.addRecorded r s h⟩

end CountsTo

/-! ## Stores that calls lead to -/

/-- A store that begins with an archive of some rows, after any calls, whatever the order of a
search is. No row and no schedule that is added has the largest number for its id. Which writes the
archive refuses, and whether it can be read, may change between two calls. -/
inductive Reached : Store → Prop where
  | start (archive : Archive) (listings : Nat → Listing) :
      RowsBelow archive → Reached { archive, listings }
  | edit {s : Store} (e : Edit) : Reached s →
      (∀ x ∈ (number s.scheduleIds e.added).1, x.id < Int64.maxValue) → Reached (s.edit e)
  | disturb {s : Store} (refuses : Nat → Bool) (unreadable : Option Fault) : Reached s →
      Reached { s with archive := { s.archive with refuses, unreadable } }

namespace Reached

theorem isKeyed (h : Reached s) : s.IsKeyed := by
  induction h with
  | start archive listings _ => exact fun id x hx => by simp at hx
  | edit e _ _ ih => exact isKeyed_edits ih [e]
  | disturb _ _ _ ih => exact ih.congr rfl

theorem countsTo (h : Reached s) : CountsTo s.scheduleIds.next s := by
  suffices hcounts : ∃ n, CountsTo n s by
    obtain ⟨n, hn⟩ := hcounts
    rwa [hn.next]
  induction h with
  | start archive listings hrows => exact ⟨_, rfl, fun id hid => by simp at hid, hrows⟩
  | edit e hreached hids ih =>
    obtain ⟨n, hn⟩ := ih
    exact hn.edit hreached.isKeyed hids
  | disturb refuses unreadable _ ih =>
    obtain ⟨n, hn⟩ := ih
    exact ⟨n, hn.next, hn.live, hn.rows⟩

end Reached

end Store

end Timeshift
