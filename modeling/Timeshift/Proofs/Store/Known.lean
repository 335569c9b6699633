import Timeshift.Proofs.Store.Counting
import Timeshift.Proofs.Store.Loading
import Timeshift.Proofs.Store.Parting

/-!
# The ids that a store knows

A store knows the ids that it has given out, those of the rows that a loading has read, and those
that recordings had before they came. All of them are below the next ones, and nothing is in use
under another id. A call that fails has used up its ids even so.
-/

namespace Timeshift

/-! ## The ids that come next -/

namespace IdCounter

variable {c : IdCounter} {id : Int64} {n i : Nat}

/-- The next `n` ids. -/
def upcoming (c : IdCounter) (n : Nat) : List Int64 :=
  (List.range n).map fun i => c.next + Int64.ofNat i

/-- The counter once it has given out `n` ids. -/
def advance (c : IdCounter) (n : Nat) : IdCounter := ⟨c.next + Int64.ofNat n⟩

theorem advance_zero (c : IdCounter) : c.advance 0 = c := congrArg mk (Int64.add_zero _)

/-- The counter does not go past the largest number when it gives out `n` ids. -/
def Lasts (c : IdCounter) (n : Nat) : Prop := c.next.toInt + n ≤ Int64.maxValue.toInt

instance (c : IdCounter) (n : Nat) : Decidable (c.Lasts n) :=
  inferInstanceAs (Decidable (c.next.toInt + n ≤ Int64.maxValue.toInt))

theorem toInt_next_add (h : c.Lasts n) (hi : i ≤ n) :
    (c.next + Int64.ofNat i).toInt = c.next.toInt + i := by
  have hmax : Int64.maxValue.toInt = 9223372036854775807 := by decide
  have hlo := c.next.le_toInt
  rw [Lasts, hmax] at h
  rw [Int64.toInt_add, Int64.toInt_ofNat', Int64.size, Int.add_bmod_bmod, Int.bmod_eq_of_le] <;>
    omega

theorem next_le_of_mem_upcoming (h : c.Lasts n) (hid : id ∈ c.upcoming n) : c.next ≤ id := by
  obtain ⟨i, hi, rfl⟩ := List.mem_map.mp hid
  rw [Int64.le_iff_toInt_le, toInt_next_add h (Nat.le_of_lt (List.mem_range.mp hi))]
  omega

theorem lt_advance (h : c.Lasts n) (hid : id ∈ c.upcoming n) : id < (c.advance n).next := by
  obtain ⟨i, hi, rfl⟩ := List.mem_map.mp hid
  rw [List.mem_range] at hi
  rw [advance, Int64.lt_iff_toInt_lt, toInt_next_add h (Nat.le_of_lt hi),
    toInt_next_add h (Nat.le_refl n)]
  omega

theorem next_le_advance (h : c.Lasts n) : c.next ≤ (c.advance n).next := by
  rw [advance, Int64.le_iff_toInt_le, toInt_next_add h (Nat.le_refl n)]
  omega

theorem pairwise_upcoming (h : c.Lasts n) : (c.upcoming n).Pairwise (· < ·) := by
  rw [upcoming, List.pairwise_map]
  refine List.pairwise_lt_range.imp_of_mem fun {i j} hi hj hlt => ?_
  rw [List.mem_range] at hi hj
  rw [Int64.lt_iff_toInt_lt, toInt_next_add h (Nat.le_of_lt hi), toInt_next_add h (Nat.le_of_lt hj)]
  omega

end IdCounter

/-! ## The ids of a call -/

/-- What is counted apart. -/
inductive IdKind where
  | schedule
  | rule
  | recorded
  deriving DecidableEq

namespace IdKind

theorem forall_iff {P : IdKind → Prop} : (∀ k, P k) ↔ P schedule ∧ P rule ∧ P recorded := by
  refine ⟨fun h => ⟨h _, h _, h _⟩, fun h k => ?_⟩
  cases k with
  | schedule => exact h.1
  | rule => exact h.2.1
  | recorded => exact h.2.2

instance {P : IdKind → Prop} [∀ k, Decidable (P k)] : Decidable (∀ k, P k) :=
  decidable_of_iff _ forall_iff.symm

end IdKind

/-- Some ids of every kind. -/
abbrev Ids := IdKind → List Int64

def Snapshot.ids (rows : Snapshot) : Ids
  | .schedule => rows.schedules.map (·.id)
  | .rule => rows.rules.map (·.id)
  | .recorded => rows.recorded.map (·.id)

namespace Store

variable {α β : Type} {s s' t : Store} {l : List Schedule} {known unread : Ids} {e : Edit}
  {k : IdKind}

def counter (s : Store) : IdKind → IdCounter
  | .schedule => s.scheduleIds
  | .rule => s.ruleIds
  | .recorded => s.recordedIds

/-- How many ids a call uses up. -/
def Edit.needs : Edit → IdKind → Nat
  | .add l, .schedule => if (l.find? fun x => x.ends ≤ x.starts).isSome then 0 else l.length
  | .addRule rule, .rule => if rule.seriesKey.isEmpty then 0 else 1
  | .addRecorded r, .recorded => if r.id ≠ unassigned then 0 else 1
  | _, _ => 0

/-- The ids that a call gives out, whether it succeeds or not. -/
def given (s : Store) (e : Edit) : Ids := fun k => (s.counter k).upcoming (e.needs k)

/-- The ids that a call brings along: those of the rows that a loading has read, and the one that a
recording has already. -/
def learned (s : Store) : Edit → Ids
  | .load now, k => if (s.run (load now)).1.isOk then s.archive.snapshot.ids k else []
  | .addRecorded r, .recorded => if r.id ≠ unassigned then [r.id] else []
  | _, _ => []

/-- A call that brings along no id at the end of the numbers, and lets no counter go past it. -/
structure InRange (s : Store) (e : Edit) : Prop where
  given : ∀ k, (s.counter k).Lasts (e.needs k)
  learned : ∀ k, ∀ id ∈ s.learned e k, id < Int64.maxValue

instance (s : Store) (e : Edit) : Decidable (s.InRange e) :=
  -- Only the ids of the list are looked at. There are too many to look at all of them.
  letI (k : IdKind) : Decidable (∀ id ∈ s.learned e k, id < Int64.maxValue) :=
    List.decidableBAll _ _
  decidable_of_iff ((∀ k, (s.counter k).Lasts (e.needs k)) ∧
    ∀ k, ∀ id ∈ s.learned e k, id < Int64.maxValue) ⟨fun h => ⟨h.1, h.2⟩, fun h => ⟨h.1, h.2⟩⟩

/-- What is known after a call if `known` was known before. -/
def knownAfter (s : Store) (e : Edit) (known : Ids) : Ids :=
  fun k => known k ++ (s.learned e k ++ s.given e k)

/-- The rows that have not been read after a call. A loading that succeeds reads all of them. -/
def unreadAfter (s : Store) (e : Edit) (unread : Ids) : Ids :=
  match e with
  | .load now => if (s.run (load now)).1.isOk then fun _ => [] else unread
  | _ => unread

theorem needs_add (h : ∀ bad, (l.find? fun x => x.ends ≤ x.starts) ≠ some bad) :
    (Edit.add l).needs .schedule = l.length := by
  rw [Edit.needs, Option.eq_none_iff_forall_ne_some.mpr h]
  rfl

theorem given_add (s : Store) (h : (Edit.add l).needs .schedule = l.length) :
    s.given (.add l) .schedule = (number s.scheduleIds l).1.map (·.id) := by
  rw [given, h, map_id_number]
  rfl

theorem given_addRule {rule : SeriesRule} (s : Store) (h : ¬ rule.seriesKey.isEmpty) :
    s.given (.addRule rule) .rule = [s.ruleIds.next] := by
  have hneeds : (Edit.addRule rule).needs .rule = 1 := if_neg h
  rw [given, hneeds]
  exact congrArg ([·]) (Int64.add_zero _)

theorem given_addRecorded {r : RecordedProgram} (s : Store) (h : ¬ r.id ≠ unassigned) :
    s.given (.addRecorded r) .recorded = [s.recordedIds.next] := by
  have hneeds : (Edit.addRecorded r).needs .recorded = 1 := if_neg h
  rw [given, hneeds]
  exact congrArg ([·]) (Int64.add_zero _)

theorem given_eq_nil (hneeds : e.needs k = 0) : s.given e k = [] := by
  rw [given, hneeds]
  rfl

theorem mem_knownAfter {id : Int64} (hid : id ∈ s.given e k) : id ∈ s.knownAfter e known k :=
  List.mem_append_right _ (List.mem_append_right _ hid)

theorem knownAfter_eq (hlearned : ∀ k, s.learned e k = []) (hneeds : ∀ k, e.needs k = 0) :
    s.knownAfter e known = known := by
  funext k
  rw [knownAfter, hlearned, given_eq_nil (hneeds k), List.append_nil, List.append_nil]

/-! ## What an operation keeps -/

/-- The operation keeps what holds of the store. -/
def Maintains (P : Store → Prop) (op : Op α) : Prop := ∀ s : Store, P s → P (s.run op).2

namespace Maintains

variable {P : Store → Prop}

theorem pure (a : α) : Maintains P (Pure.pure a) := fun _ h => h

theorem get : Maintains P MonadState.get := fun _ h => h

theorem throw (fault : Fault) : Maintains P (MonadExcept.throw fault : Op α) := fun _ h => h

theorem modify {f : Store → Store} (h : ∀ s, P s → P (f s)) : Maintains P (modify f) := h

/-- What comes last keeps what the first part has kept of this one store. -/
theorem after {op : Op α} {next : α → Op β} (h : P (s.run op).2) (h' : ∀ a, Maintains P (next a)) :
    P (s.run (op >>= next)).2 := by
  rw [run_bind]
  rcases hrun : s.run op with ⟨answer, t⟩
  rw [hrun] at h
  cases answer with
  | error _ => exact h
  | ok a => exact h' a t h

theorem bind {op : Op α} {next : α → Op β} (h : Maintains P op) (h' : ∀ a, Maintains P (next a)) :
    Maintains P (op >>= next) :=
  fun s hs => after (h s hs) h'

/-- What comes next may look at the store. -/
theorem look {next : Store → Op β} (h : ∀ s, P s → P (s.run (next s)).2) :
    Maintains P (MonadState.get >>= next) := by
  intro s hs
  rw [run_bind, run_get]
  exact h s hs

/-- A part that may be left out, and what comes after it. -/
theorem whenever {c : Bool} {op : Op PUnit} {next : PUnit → Op β} (h : Maintains P op)
    (h' : Maintains P (next ())) : Maintains P (if c = true then next () else op >>= next) := by
  split
  · exact h'
  · exact h.bind fun _ => h'

/-- A write that is refused is counted even so. -/
theorem persist {edit : Archive → Archive}
    (hcount : ∀ s writes, P s → P { s with archive := { s.archive with writes } })
    (hedit : ∀ s, P s → P { s with archive := edit s.archive }) : Maintains P (persist edit) := by
  intro s hs
  simp only [Store.persist, run_bind, run_get, run_modify, Archive.write]
  split
  · exact hcount s _ hs
  · exact hedit _ (hcount s (s.archive.writes + 1) hs)

end Maintains

/-! ## Steps -/

/-- A write that is refused has changed nothing but the count of writes. -/
theorem eq_of_run_persist_error {edit : Archive → Archive} {fault : Fault}
    (h : s.run (persist edit) = (.error fault, t)) :
    t = { s with archive := { s.archive with writes := s.archive.writes + 1 } } := by
  simp only [persist, run_bind, run_get, run_modify, Archive.write] at h
  split at h
  · exact (congrArg Prod.snd h).symm
  · cases h

/-- A loading that fails has not read anything, or could not write what it put right. -/
theorem run_load_error {now : Instant} {fault : Fault}
    (h : s.run (load now) = (.error fault, t)) :
    ∃ writes, t = { s with archive := { s.archive with writes } } := by
  rw [load, run_bind, run_get] at h
  dsimp only at h
  split at h
  · exact ⟨s.archive.writes, (congrArg Prod.snd h).symm⟩
  · split at h
    · cases h
    · rw [run_bind] at h
      split at h
      · cases h
      · next hput =>
        obtain rfl := congrArg Prod.snd h
        exact ⟨_, eq_of_run_persist_error hput⟩

/-- All rows stand under their ids, and the ids have a property. -/
structure HasRows (P : IdKind → Int64 → Prop) (a : Archive) : Prop where
  schedules : IsIndexed a.schedules Schedule.id (P .schedule)
  rules : IsIndexed a.rules SeriesRule.id (P .rule)
  recorded : IsIndexed a.recorded RecordedProgram.id (P .recorded)

theorem HasRows.mono {P Q : IdKind → Int64 → Prop} {a : Archive} (h : HasRows P a)
    (hPQ : ∀ k id, P k id → Q k id) : HasRows Q a :=
  ⟨h.schedules.mono (hPQ _), h.rules.mono (hPQ _), h.recorded.mono (hPQ _)⟩

theorem HasRows.putRules {P : IdKind → Int64 → Prop} {a : Archive} {rules : List SeriesRule}
    (h : HasRows P a) (hrules : ∀ r ∈ rules, P .rule r.id) :
    HasRows P (rules.foldl Archive.putRule a) := by
  induction rules generalizing a with
  | nil => exact h
  | cons r rest ih =>
    obtain ⟨hr, hrest⟩ := List.forall_mem_cons.mp hrules
    exact ih { h with rules := h.rules.insert hr } hrest

theorem HasRows.putRecordings {P : IdKind → Int64 → Prop} {a : Archive}
    {recorded : List RecordedProgram} (h : HasRows P a)
    (hrecorded : ∀ r ∈ recorded, P .recorded r.id) :
    HasRows P (recorded.foldl Archive.putRecorded a) := by
  induction recorded generalizing a with
  | nil => exact h
  | cons r rest ih =>
    obtain ⟨hr, hrest⟩ := List.forall_mem_cons.mp hrecorded
    exact ih { h with recorded := h.recorded.insert hr } hrest

theorem hasRows_ofSnapshot (rows : Snapshot) :
    HasRows (fun k id => id ∈ rows.ids k) (.ofSnapshot rows) := by
  have hschedules : HasRows (fun k id => id ∈ rows.ids k)
      (Archive.putSchedules {} rows.schedules) :=
    ⟨.insertAll .empty fun _ => List.mem_map_of_mem, .empty, .empty⟩
  exact (hschedules.putRules fun _ => List.mem_map_of_mem).putRecordings
    fun _ => List.mem_map_of_mem

/-- All ids in use are known, and the known ones are below the next ones. A row that is not known is
one of those that have not been read. -/
structure Knows (known unread : Ids) (s : Store) : Prop where
  below : ∀ k, ∀ id ∈ known k, id < (s.counter k).next
  live : IsIndexed s.live Schedule.id (· ∈ known .schedule)
  marks : ∀ (p : ProgramId) (x : Schedule), s.marks[p]? = some x → x.id ∈ known .schedule
  rules : IsIndexed s.rules SeriesRule.id (· ∈ known .rule)
  rows : HasRows (fun k id => id ∈ known k ∨ id ∈ unread k) s.archive

namespace Knows

theorem keyed (h : Knows known unread s) : s.IsKeyed := fun id x hx => (h.live id x hx).1

theorem id_of_live (h : Knows known unread s) {id : ScheduleId} {x : Schedule}
    (hx : s.live[id]? = some x) : x.id ∈ known .schedule := by
  rw [h.keyed id x hx]
  exact (h.live id x hx).2

/-- Recordings and events do not count. -/
theorem congr (h : Knows known unread s) (hcounter : s'.counter = s.counter)
    (hlive : s'.live = s.live) (hmarks : s'.marks = s.marks) (hrules : s'.rules = s.rules)
    (hrows : HasRows (fun k id => id ∈ known k ∨ id ∈ unread k) s'.archive) :
    Knows known unread s' where
  below k id hid := by
    rw [hcounter]
    exact h.below k id hid
  live := hlive ▸ h.live
  marks := hmarks ▸ h.marks
  rules := hrules ▸ h.rules
  rows := hrows

theorem hold (h : Knows known unread s) (hl : ∀ x ∈ l, x.id ∈ known .schedule) :
    Knows known unread (s.hold l) := { h with live := h.live.insertAll hl }

theorem release (h : Knows known unread s) (ids : List ScheduleId) :
    Knows known unread (s.release ids) := { h with live := h.live.eraseAll ids }

theorem mark (h : Knows known unread s) (hl : ∀ x ∈ l, x.id ∈ known .schedule) :
    Knows known unread (s.mark l) :=
  { h with
    marks := fun p x hx => by
      rw [get_mark, Option.or_eq_some_iff] at hx
      rcases hx with hnew | ⟨-, hold⟩
      · exact hl x (List.mem_of_mem_filter (List.mem_of_getLast? hnew))
      · exact h.marks p x hold }

theorem unmark (h : Knows known unread s) (marks : List Schedule) :
    Knows known unread (s.unmark marks) :=
  { h with
    marks := fun p x hx => by
      rw [get_unmark] at hx
      split at hx
      · cases hx
      · exact h.marks p x hx }

theorem withRule (h : Knows known unread s) {rule : SeriesRule} (hid : rule.id ∈ known .rule) :
    Knows known unread { s with rules := s.rules.insert rule.id rule } :=
  { h with rules := h.rules.insert hid }

theorem withoutRule (h : Knows known unread s) (id : RuleId) :
    Knows known unread { s with rules := s.rules.erase id } :=
  { h with rules := h.rules.erase id }

/-! ### Parts of a call -/

theorem persist (edit : Archive → Archive)
    (hedit : ∀ a, HasRows (fun k id => id ∈ known k ∨ id ∈ unread k) a →
      HasRows (fun k id => id ∈ known k ∨ id ∈ unread k) (edit a)) :
    Maintains (Knows known unread) (persist edit) :=
  .persist (fun _ _ h => h.congr rfl rfl rfl rfl ⟨h.rows.schedules, h.rows.rules, h.rows.recorded⟩)
    fun _ h => { h with rows := hedit _ h.rows }

theorem put (hl : ∀ x ∈ l, x.id ∈ known .schedule) :
    Maintains (Knows known unread) (Store.persist (·.putSchedules l)) :=
  persist _ fun _ h =>
    { h with schedules := h.schedules.insertAll fun x hx => Or.inl (hl x hx) }

theorem drop (ids : List ScheduleId) :
    Maintains (Knows known unread) (Store.persist (·.dropSchedules ids)) :=
  persist _ fun _ h => { h with schedules := h.schedules.eraseAll ids }

theorem putRule {rule : SeriesRule} (hid : rule.id ∈ known .rule) :
    Maintains (Knows known unread) (Store.persist (·.putRule rule)) :=
  persist _ fun _ h => { h with rules := h.rules.insert (Or.inl hid) }

theorem dropRule (id : RuleId) :
    Maintains (Knows known unread) (Store.persist (·.dropRule id)) :=
  persist _ fun _ h => { h with rules := h.rules.erase id }

theorem publish (event : StoreEvent) : Maintains (Knows known unread) (publish event) :=
  .modify fun _ h => h.congr rfl rfl rfl rfl h.rows

theorem keep (hl : ∀ x ∈ l, x.id ∈ known .schedule) : Maintains (Knows known unread) (keep l) := by
  rw [Store.keep]
  refine .bind .get fun s => .bind (put hl) fun _ => .whenever (drop _) ?_
  exact .modify fun t ht => (ht.unmark _).hold hl

/-- Only what is in use is updated. -/
theorem update (l : List Schedule) : Maintains (Knows known unread) (update l) := by
  rw [Store.update]
  refine .look fun s hs => ?_
  split
  · exact hs
  · next updates hupdates =>
    have hknown : ∀ x ∈ updates, x.id ∈ known .schedule := by
      intro x hx
      rw [eq_filter_of_knownUpdates hupdates] at hx
      exact hs.live.of_mem (Std.TreeMap.contains_iff_mem.mp (List.mem_filter.mp hx).2)
    split
    · exact hs
    · exact Maintains.bind (keep hknown) (fun _ => publish _) s hs

theorem changeState (id : ScheduleId) (state : RecordingState) :
    Maintains (Knows known unread) (changeState id state) := by
  rw [Store.changeState]
  refine .bind .get fun s => ?_
  split
  · split
    · exact .pure _
    · exact update _
  · exact .pure _

theorem remove (l : List Schedule) (force : Bool) :
    Maintains (Knows known unread) (remove l force) := by
  rw [Store.remove]
  refine .look fun s hs => ?_
  dsimp only
  rw [List.partition_eq_filter_filter]
  split
  · exact hs
  · have hmarked : ∀ x ∈ s.buried l force, x.id ∈ known .schedule := by
      intro x hx
      obtain ⟨y, hy, rfl⟩ := List.mem_map.mp hx
      obtain ⟨z, -, hz⟩ := List.mem_filterMap.mp (List.mem_of_mem_filter hy)
      have hknown : y.id ∈ known .schedule := hs.id_of_live hz
      exact hknown
    refine Maintains.whenever (drop _) (.whenever (put hmarked) ?_) s hs
    exact .bind (.modify fun t ht => (ht.release _).mark hmarked) fun _ => publish _

theorem updateRule (rule : SeriesRule) : Maintains (Knows known unread) (updateRule rule) := by
  rw [Store.updateRule]
  refine .look fun s hs => ?_
  split
  · next hknown =>
    have hid : rule.id ∈ known .rule := hs.rules.of_mem (Std.TreeMap.contains_iff_mem.mp hknown)
    exact Maintains.bind (putRule hid) (fun _ =>
      .bind (.modify fun _ ht => ht.withRule hid) fun _ => publish _) s hs
  · exact hs

theorem removeRule (id : RuleId) : Maintains (Knows known unread) (removeRule id) := by
  rw [Store.removeRule]
  refine .look fun s hs => ?_
  dsimp only
  rw [List.partition_eq_filter_filter]
  split
  · have hdetached : ∀ x ∈ s.detachedFrom id, x.id ∈ known .schedule := by
      intro x hx
      obtain ⟨y, hy, rfl⟩ := List.mem_map.mp hx
      obtain ⟨k, hk⟩ := mem_values.mp (List.mem_of_mem_filter (List.mem_of_mem_filter hy))
      have hknown : y.id ∈ known .schedule := hs.id_of_live hk
      exact hknown
    refine Maintains.whenever (drop _) (.whenever (put hdetached) ?_) s hs
    refine .bind (dropRule id) fun _ => .bind (.modify fun t ht => ?_) fun _ =>
      .whenever (publish _) (.whenever (publish _) (publish _))
    exact (((ht.release _).unmark _).hold hdetached).withoutRule id
  · exact hs

/-! ### Calls that count -/

/-- New ids become known, and the next ones are above them. -/
theorem count (h : Knows known unread s) {ids : Ids}
    (hle : ∀ k, (s.counter k).next ≤ (t.counter k).next)
    (hids : ∀ k, ∀ id ∈ ids k, id < (t.counter k).next) (hlive : t.live = s.live)
    (hmarks : t.marks = s.marks) (hrules : t.rules = s.rules) (harchive : t.archive = s.archive) :
    Knows (fun k => known k ++ ids k) unread t where
  below k id hid := by
    rcases List.mem_append.mp hid with hold | hnew
    · exact Int64.lt_of_lt_of_le (h.below k id hold) (hle k)
    · exact hids k id hnew
  live := hlive ▸ h.live.mono fun _ => List.mem_append_left _
  marks p x hx := List.mem_append_left _ (h.marks p x (hmarks ▸ hx))
  rules := hrules ▸ h.rules.mono fun _ => List.mem_append_left _
  rows := harchive ▸ h.rows.mono fun _ _ => Or.imp_left (List.mem_append_left _)

theorem advance (h : Knows known unread s) (hrange : s.InRange e)
    (hlearned : ∀ k, s.learned e k = [])
    (hcounter : ∀ k, t.counter k = (s.counter k).advance (e.needs k)) (hlive : t.live = s.live)
    (hmarks : t.marks = s.marks) (hrules : t.rules = s.rules) (harchive : t.archive = s.archive) :
    Knows (s.knownAfter e known) unread t := by
  refine h.count (fun k => ?_) (fun k id hid => ?_) hlive hmarks hrules harchive
  · rw [hcounter]
    exact IdCounter.next_le_advance (hrange.given k)
  · rw [hlearned, List.nil_append] at hid
    rw [hcounter]
    exact IdCounter.lt_advance (hrange.given k) hid

/-- What comes after the ids of an addition have been given out. -/
theorem enter (hl : ∀ x ∈ l, x.id ∈ known .schedule) (answer : List Schedule) :
    Maintains (Knows known unread) (do
      Store.keep l
      Store.publish (.added l)
      return answer) :=
  .bind (keep hl) fun _ => .bind (publish _) fun _ => .pure _

theorem setRule {rule : SeriesRule} (hid : rule.id ∈ known .rule) :
    Maintains (Knows known unread) (do
      Store.persist (·.putRule rule)
      modify fun s => { s with rules := s.rules.insert rule.id rule }
      Store.publish (.rulesAdded [rule])
      return rule) :=
  .bind (putRule hid) fun _ => .bind (.modify fun _ h => h.withRule hid) fun _ =>
    .bind (publish _) fun _ => .pure _

theorem store {r : RecordedProgram} (hid : r.id ∈ known .recorded) :
    Maintains (Knows known unread) (do
      Store.persist (·.putRecorded r)
      modify fun s => { s with recorded := s.recorded ++ [r] }
      return r) :=
  .bind (persist _ fun _ h => { h with recorded := h.recorded.insert (Or.inl hid) }) fun _ =>
    .bind (.modify fun _ h => h.congr rfl rfl rfl rfl h.rows) fun _ => .pure _

theorem add (h : Knows known unread s) (l : List Schedule) (hrange : s.InRange (.add l)) :
    Knows (s.knownAfter (.add l) known) unread (s.run (add l)).2 := by
  have hnone : (Edit.add l).needs .schedule = 0 → s.knownAfter (.add l) known = known := by
    intro hneeds
    refine knownAfter_eq (fun _ => rfl) fun k => ?_
    cases k with
    | schedule => exact hneeds
    | rule | recorded => rfl
  rw [Store.add]
  split
  · next hempty =>
    rwa [hnone (by rw [List.isEmpty_iff.mp hempty]; rfl)]
  · split
    · next bad hbad =>
      rwa [hnone (by rw [Edit.needs, hbad]; rfl)]
    · next hlengths =>
      have hneeds := needs_add hlengths
      -- The ids are known as soon as they are used up.
      have hnumbered : Knows (s.knownAfter (.add l) known) unread (s.numbered l) := by
        refine h.advance hrange (fun _ => rfl) (fun k => ?_) rfl rfl rfl rfl
        cases k with
        | schedule =>
          rw [hneeds]
          exact congrArg IdCounter.mk (next_number s.scheduleIds l)
        | rule | recorded => exact (IdCounter.advance_zero _).symm
      refine enter (fun x hx => ?_) _ _ hnumbered
      exact mem_knownAfter (given_add s hneeds ▸ List.mem_map_of_mem hx)

theorem addRule (h : Knows known unread s) (rule : SeriesRule)
    (hrange : s.InRange (.addRule rule)) :
    Knows (s.knownAfter (.addRule rule) known) unread (s.run (addRule rule)).2 := by
  rw [Store.addRule]
  split
  · next hempty =>
    have hnone : s.knownAfter (.addRule rule) known = known := by
      refine knownAfter_eq (fun _ => rfl) fun k => ?_
      cases k with
      | rule => exact if_pos hempty
      | schedule | recorded => rfl
    rwa [hnone]
  · next hkey =>
    have hneeds : (Edit.addRule rule).needs .rule = 1 := if_neg hkey
    have hcounted : Knows (s.knownAfter (.addRule rule) known) unread
        { s with ruleIds := s.ruleIds.take.2 } := by
      refine h.advance hrange (fun _ => rfl) (fun k => ?_) rfl rfl rfl rfl
      cases k with
      | rule =>
        rw [hneeds]
        rfl
      | schedule | recorded => exact (IdCounter.advance_zero _).symm
    refine setRule ?_ _ hcounted
    exact mem_knownAfter (given_addRule s hkey ▸ List.mem_singleton_self _)

/-- The id of a recording is known from then on, whoever has chosen it. -/
theorem addRecorded (h : Knows known unread s) (r : RecordedProgram)
    (hrange : s.InRange (.addRecorded r)) :
    Knows (s.knownAfter (.addRecorded r) known) unread (s.run (addRecorded r)).2 := by
  rw [Store.addRecorded, run_bind, run_get]
  dsimp only
  split
  · next hchosen =>
    have hlearned : s.learned (.addRecorded r) .recorded = [r.id] := if_pos hchosen
    have hneeds : ∀ k, (Edit.addRecorded r).needs k = 0 := by
      intro k
      cases k with
      | recorded => exact if_pos hchosen
      | schedule | rule => rfl
    have hskipped : Knows (s.knownAfter (.addRecorded r) known) unread
        { s with recordedIds := s.recordedIds.skip r.id } := by
      refine h.count (fun k => ?_) (fun k id hid => ?_) rfl rfl rfl rfl
      · cases k with
        | recorded => exact IdCounter.next_le_skip _ _
        | schedule | rule => exact Int64.le_refl _
      · rw [given_eq_nil (hneeds k), List.append_nil] at hid
        cases k with
        | recorded =>
          have hbelow := hrange.learned .recorded id hid
          rw [hlearned] at hid
          obtain rfl := List.mem_singleton.mp hid
          exact IdCounter.lt_next_skip _ hbelow
        | schedule | rule => cases hid
    refine store ?_ _ hskipped
    refine List.mem_append_right _ (List.mem_append_left _ ?_)
    exact hlearned ▸ List.mem_singleton_self _
  · next hnone =>
    have hneeds : (Edit.addRecorded r).needs .recorded = 1 := if_neg hnone
    have hcounted : Knows (s.knownAfter (.addRecorded r) known) unread
        { s with recordedIds := s.recordedIds.take.2 } := by
      refine h.advance hrange (fun k => ?_) (fun k => ?_) rfl rfl rfl rfl
      · cases k with
        | recorded => exact if_neg hnone
        | schedule | rule => rfl
      · cases k with
        | recorded =>
          rw [hneeds]
          rfl
        | schedule | rule => exact (IdCounter.advance_zero _).symm
    refine store ?_ _ hcounted
    exact mem_knownAfter (given_addRecorded s hnone ▸ List.mem_singleton_self _)

/-! ### Loading -/

theorem adopt (h : Knows known unread s) (rest : Snapshot) {rows : List Schedule}
    (hrows : rows.map (·.id) = rest.schedules.map (·.id))
    (hids : ∀ k, ∀ id ∈ rest.ids k, id < Int64.maxValue)
    (harchive : HasRows (fun k id => id ∈ rest.ids k) s.archive) :
    Knows (fun k => known k ++ rest.ids k) (fun _ => []) (s.adopt rows rest) := by
  have hcounter : ∀ k, (s.adopt rows rest).counter k = (s.counter k).skipAll (rest.ids k) := by
    intro k
    cases k with
    | schedule => exact congrArg s.scheduleIds.skipAll hrows
    | rule | recorded => rfl
  have hrow : ∀ p, ∀ x ∈ rows.filter p, x.id ∈ known .schedule ++ rest.ids .schedule := by
    intro p x hx
    refine List.mem_append_right _ ?_
    rw [Snapshot.ids, ← hrows]
    exact List.mem_map_of_mem (List.mem_of_mem_filter hx)
  have hbelow : ∀ k, ∀ id ∈ known k ++ rest.ids k, id < ((s.adopt rows rest).counter k).next := by
    intro k id hid
    rw [hcounter]
    rcases List.mem_append.mp hid with hold | hnew
    · exact Int64.lt_of_lt_of_le (h.below k id hold) (IdCounter.next_le_skipAll _ _)
    · exact IdCounter.lt_next_skipAll _ hnew (hids k id hnew)
  rw [Store.adopt, List.partition_eq_filter_filter] at hbelow ⊢
  refine ⟨hbelow, IsIndexed.empty.insertAll (hrow _), fun p x hx => ?_,
    IsIndexed.empty.insertAll fun rule hrule => ?_, ?_⟩
  · rw [get_mark, Option.or_eq_some_iff] at hx
    rcases hx with hnew | ⟨-, hnone⟩
    · exact hrow _ x (List.mem_of_mem_filter (List.mem_of_getLast? hnew))
    · change (∅ : Std.TreeMap ProgramId Schedule)[p]? = some x at hnone
      simp at hnone
  · exact List.mem_append_right _ (List.mem_map_of_mem hrule)
  · exact harchive.mono fun k id hid => Or.inl (List.mem_append_right _ hid)

/-- A loading that fails teaches nothing. -/
theorem load (h : Knows known unread s) (now : Instant) (hrange : s.InRange (.load now)) :
    Knows (s.knownAfter (.load now) known) (s.unreadAfter (.load now) unread)
      (s.run (Store.load now)).2 := by
  rcases hrun : s.run (Store.load now) with ⟨answer, t⟩
  cases answer with
  | error fault =>
    have hlearned : ∀ k, s.learned (.load now) k = [] := by
      intro k
      rw [learned, hrun]
      rfl
    have hunread : s.unreadAfter (.load now) unread = unread := by
      rw [unreadAfter, hrun]
      rfl
    obtain ⟨writes, rfl⟩ := run_load_error hrun
    rw [knownAfter_eq hlearned fun _ => rfl, hunread]
    exact h.congr rfl rfl rfl rfl ⟨h.rows.schedules, h.rows.rules, h.rows.recorded⟩
  | ok n =>
    have hlearned : s.learned (.load now) = s.archive.snapshot.ids := by
      funext k
      rw [learned, hrun]
      rfl
    have hids : ∀ k, ∀ id ∈ s.archive.snapshot.ids k, id < Int64.maxValue :=
      fun k id hid => hrange.learned k id (hlearned ▸ hid)
    have hknown : s.knownAfter (.load now) known =
        fun k => known k ++ s.archive.snapshot.ids k := by
      funext k
      rw [knownAfter, hlearned, given_eq_nil rfl, List.append_nil]
    have hunread : s.unreadAfter (.load now) unread = fun _ => [] := by
      rw [unreadAfter, hrun]
      rfl
    have hrows : (s.archive.schedules.values.map (restarted now)).map (·.id) =
        s.archive.snapshot.schedules.map (·.id) := List.map_map
    obtain ⟨-, writes, journal, rfl, -⟩ := run_load_ok hrun
    rw [hknown, hunread]
    have hadopted := h.adopt s.archive.snapshot hrows hids
      ⟨h.rows.schedules.values, h.rows.rules.values, h.rows.recorded.values⟩
    -- What has been put right are rows that have been read.
    have hput : ∀ x ∈ putRight now s.archive.schedules.values,
        x.id ∈ s.archive.snapshot.ids .schedule := by
      intro x hx
      obtain ⟨y, hy, rfl⟩ := List.mem_map.mp hx
      exact List.mem_map.mpr ⟨y, List.mem_of_mem_filter hy, rfl⟩
    exact hadopted.congr rfl rfl rfl rfl
      { hadopted.rows with
        schedules := hadopted.rows.schedules.insertAll fun x hx =>
          Or.inl (List.mem_append_right _ (hput x hx)) }

/-! ### Every call -/

theorem edit (h : Knows known unread s) (hrange : s.InRange e) :
    Knows (s.knownAfter e known) (s.unreadAfter e unread) (s.edit e) := by
  have hplain : ∀ t : Store, (∀ k, s.learned e k = []) → (∀ k, e.needs k = 0) →
      Knows known unread t → Knows (s.knownAfter e known) unread t := by
    intro t hlearned hneeds ht
    rwa [knownAfter_eq hlearned hneeds]
  cases e with
  | load now => exact h.load now hrange
  | add l => exact h.add l hrange
  | addRule rule => exact h.addRule rule hrange
  | addRecorded r => exact h.addRecorded r hrange
  | update l => exact hplain _ (fun _ => rfl) (fun _ => rfl) (update l s h)
  | changeState id state =>
    exact hplain _ (fun _ => rfl) (fun _ => rfl) (changeState id state s h)
  | remove l force => exact hplain _ (fun _ => rfl) (fun _ => rfl) (remove l force s h)
  | updateRule rule => exact hplain _ (fun _ => rfl) (fun _ => rfl) (updateRule rule s h)
  | removeRule id => exact hplain _ (fun _ => rfl) (fun _ => rfl) (removeRule id s h)

end Knows

end Store

end Timeshift
