import Timeshift.Proofs.Store.Refusal

/-!
# Following the store by its events

A listener that has a copy of the schedules and the rules in use keeps it by the events alone.
Every operation tells all that it does to them, in order, also if it fails midway.
-/

namespace Timeshift

/-- What a listener knows of the store. -/
structure Replica where
  schedules : Std.TreeMap ScheduleId Schedule := ∅
  rules : Std.TreeMap RuleId SeriesRule := ∅

/-- Takes over what an event tells. -/
def Replica.hear (r : Replica) : StoreEvent → Replica
  | .loaded => r
  | .added l | .changed l =>
    { r with schedules := l.foldl (fun m x => m.insert x.id x) r.schedules }
  | .removed l => { r with schedules := l.foldl (fun m x => m.erase x.id) r.schedules }
  | .rulesAdded l | .rulesChanged l =>
    { r with rules := l.foldl (fun m x => m.insert x.id x) r.rules }
  | .rulesRemoved l => { r with rules := l.foldl (fun m x => m.erase x.id) r.rules }

namespace Store

variable {α β : Type} {s s' s'' : Store}

/-- A copy of what is in use. -/
def replica (s : Store) : Replica where
  schedules := s.live
  rules := s.rules

/-- Every rule stands under its id. -/
def HasRuleIds (s : Store) : Prop :=
  ∀ (id : RuleId) (rule : SeriesRule), s.rules[id]? = some rule → rule.id = id

theorem HasRuleIds.insert (h : s.HasRuleIds) (rule : SeriesRule)
    (hrules : s'.rules = s.rules.insert rule.id rule) : s'.HasRuleIds := by
  intro id x hx
  rw [hrules, get_insert] at hx
  split at hx
  · next hid => exact Option.some.inj hx ▸ hid
  · exact h id x hx

theorem HasRuleIds.erase (h : s.HasRuleIds) (id : RuleId) (hrules : s'.rules = s.rules.erase id) :
    s'.HasRuleIds := by
  intro a x hx
  rw [hrules, get_erase] at hx
  split at hx
  · cases hx
  · exact h a x hx

theorem HasRuleIds.congr (h : s.HasRuleIds) (hrules : s'.rules = s.rules) : s'.HasRuleIds :=
  fun id x hx => h id x (hrules ▸ hx)

/-! ## From one store to the next -/

/-- The events in between lead a listener from a copy of `s` to a copy of `s'`. -/
def Leads (s s' : Store) : Prop :=
  s.HasRuleIds → s'.HasRuleIds ∧
    ∃ es, s'.journal = s.journal ++ es ∧ es.foldl Replica.hear s.replica = s'.replica

namespace Leads

theorem refl (s : Store) : Leads s s := fun h => ⟨h, [], (List.append_nil _).symm, rfl⟩

theorem trans (h : Leads s s') (h' : Leads s' s'') : Leads s s'' := by
  intro hs
  obtain ⟨hs', es, hjournal, hes⟩ := h hs
  obtain ⟨hs'', fs, hjournal', hfs⟩ := h' hs'
  refine ⟨hs'', es ++ fs, ?_, ?_⟩
  · rw [hjournal', hjournal, List.append_assoc]
  · rw [List.foldl_append, hes, hfs]

theorem one {e : StoreEvent} (hjournal : s'.journal = s.journal ++ [e])
    (hhear : s.HasRuleIds → s.replica.hear e = s'.replica)
    (hrules : s.HasRuleIds → s'.HasRuleIds) : Leads s s' :=
  fun hs => ⟨hrules hs, [e], hjournal, hhear hs⟩

theorem quiet (hreplica : s'.replica = s.replica) (hjournal : s'.journal = s.journal) :
    Leads s s' := by
  refine fun hs => ⟨hs.congr (congrArg Replica.rules hreplica), [], ?_, hreplica.symm⟩
  rw [hjournal, List.append_nil]

theorem held {l : List Schedule} {e : StoreEvent} (he : e = .added l ∨ e = .changed l)
    (hreplica : s'.replica = (s.hold l).replica) (hjournal : s'.journal = s.journal ++ [e]) :
    Leads s s' := by
  refine .one hjournal (fun _ => ?_) fun hs => hs.congr (congrArg Replica.rules hreplica)
  rw [hreplica]
  rcases he with rfl | rfl <;> rfl

theorem released {l : List Schedule} (hreplica : s'.replica = (s.release (l.map (·.id))).replica)
    (hjournal : s'.journal = s.journal ++ [.removed l]) : Leads s s' := by
  refine .one hjournal (fun _ => ?_) fun hs => hs.congr (congrArg Replica.rules hreplica)
  rw [hreplica, Replica.hear, replica, replica, release, List.foldl_map]

theorem ruled {rule : SeriesRule} {e : StoreEvent}
    (he : e = .rulesAdded [rule] ∨ e = .rulesChanged [rule]) (hlive : s'.live = s.live)
    (hrules : s'.rules = s.rules.insert rule.id rule)
    (hjournal : s'.journal = s.journal ++ [e]) : Leads s s' := by
  refine .one hjournal (fun _ => ?_) fun hs => hs.insert rule hrules
  rw [replica, replica, hlive, hrules]
  rcases he with rfl | rfl <;> rfl

end Leads

/-! ## Operations -/

def LeadsBy (s : Store) (op : Op α) : Prop := Leads s (s.run op).2

/-- Whatever the operation does to the schedules and the rules in use, its events say so. -/
def IsFollowed (op : Op α) : Prop := ∀ s : Store, LeadsBy s op

/-- What comes next may look at the store. -/
theorem LeadsBy.look {next : Store → Op β} (h : LeadsBy s (next s)) :
    LeadsBy s (MonadState.get >>= next) := by
  rw [LeadsBy, run_bind, run_get]
  exact h

namespace IsFollowed

theorem of_quiet {op : Op α} (hreplica : ∀ s : Store, (s.run op).2.replica = s.replica)
    (hjournal : ∀ s : Store, (s.run op).2.journal = s.journal) : IsFollowed op :=
  fun s => .quiet (hreplica s) (hjournal s)

theorem pure (a : α) : IsFollowed (Pure.pure a) := of_quiet (fun _ => rfl) fun _ => rfl

theorem get : IsFollowed MonadState.get := of_quiet (fun _ => rfl) fun _ => rfl

theorem throw (fault : Fault) : IsFollowed (MonadExcept.throw fault : Op α) :=
  of_quiet (fun _ => rfl) fun _ => rfl

theorem bind {op : Op α} {next : α → Op β} (h : IsFollowed op) (h' : ∀ a, IsFollowed (next a)) :
    IsFollowed (op >>= next) :=
  fun s => run_bind_trans (R := Leads) Leads.trans (h s) h'

theorem persist (edit : Archive → Archive) : IsFollowed (persist edit) := by
  refine of_quiet (fun s => ?_) fun s => ?_ <;>
  · simp only [Store.persist, run_bind, run_get, run_modify]
    split <;> rfl

/-- A part that may be left out, and what comes after it. -/
theorem whenever {c : Bool} {op : Op PUnit} {next : PUnit → Op β} (h : IsFollowed op)
    (h' : IsFollowed (next ())) : IsFollowed (if c = true then next () else op >>= next) := by
  split
  · exact h'
  · exact h.bind fun _ => h'

end IsFollowed

theorem isFollowed_keep (l : List Schedule) {e : StoreEvent} (he : e = .added l ∨ e = .changed l) :
    IsFollowed (do keep l; publish e) := by
  simp only [keep, bind_assoc]
  refine .bind .get fun s => .bind (.persist _) fun _ => ?_
  have hlast : IsFollowed (do
      modify fun s' => (s'.unmark (s.marksOf l)).hold l
      publish e) := fun s => .held he rfl rfl
  split
  · exact hlast
  · rw [bind_assoc]
    exact .bind (.persist _) fun _ => hlast

theorem isFollowed_add (l : List Schedule) : IsFollowed (add l) := by
  rw [add]
  split
  · exact .pure _
  · split
    · exact .throw _
    · refine .bind .get fun s => .bind (.of_quiet (fun _ => rfl) fun _ => rfl) fun _ => ?_
      simp only [← bind_assoc]
      exact .bind (isFollowed_keep _ (Or.inl rfl)) fun _ => .pure _

theorem isFollowed_update (l : List Schedule) : IsFollowed (update l) := by
  rw [update]
  refine .bind .get fun s => ?_
  split
  · exact .throw _
  · split
    · exact .pure _
    · exact isFollowed_keep _ (Or.inr rfl)

theorem isFollowed_changeState (id : ScheduleId) (state : RecordingState) :
    IsFollowed (changeState id state) := by
  rw [changeState]
  refine .bind .get fun s => ?_
  split
  · split
    · exact .pure _
    · exact isFollowed_update _
  · exact .pure _

theorem isFollowed_remove (l : List Schedule) (force : Bool) : IsFollowed (remove l force) := by
  rw [remove]
  refine .bind .get fun s => ?_
  dsimp only
  split
  · exact .pure _
  · exact .whenever (.persist _) (.whenever (.persist _) fun s => .released rfl rfl)

theorem isFollowed_addRule (rule : SeriesRule) : IsFollowed (addRule rule) := by
  rw [addRule]
  split
  · exact .throw _
  · refine .bind .get fun s => .bind (.of_quiet (fun _ => rfl) fun _ => rfl) fun _ => ?_
    exact .bind (.persist _) fun _ s => .ruled (Or.inl rfl) rfl rfl rfl

theorem isFollowed_updateRule (rule : SeriesRule) : IsFollowed (updateRule rule) := by
  rw [updateRule]
  refine .bind .get fun s => ?_
  split
  · exact .bind (.persist _) fun _ s => .ruled (Or.inr rfl) rfl rfl rfl
  · exact .pure _

/-- Parting with the members of a rule: some go, and the others stay without the rule. -/
theorem isFollowed_part (dropped detached marks : List Schedule) (rule : SeriesRule) :
    IsFollowed (do
      modify fun s =>
        let s := ((s.release (dropped.map (·.id))).unmark marks).hold detached
        { s with rules := s.rules.erase rule.id }
      unless dropped.isEmpty do publish (.removed dropped)
      unless detached.isEmpty do publish (.changed detached)
      publish (.rulesRemoved [rule])) := by
  intro s
  let left : Store :=
    { s.release (dropped.map (·.id)) with
      journal := s.journal ++ if dropped.isEmpty then [] else [.removed dropped] }
  let freed : Store :=
    { left.hold detached with
      journal := left.journal ++ if detached.isEmpty then [] else [.changed detached] }
  have hleft : Leads s left := by
    cases dropped with
    | nil => exact .quiet rfl (List.append_nil _)
    | cons x rest => exact .released rfl rfl
  have hfreed : Leads left freed := by
    cases detached with
    | nil => exact .quiet rfl (List.append_nil _)
    | cons x rest => exact .held (Or.inr rfl) rfl rfl
  refine (hleft.trans hfreed).trans (.one (e := .rulesRemoved [rule]) ?_ (fun _ => ?_)
    fun hs => hs.erase rule.id ?_)
  · cases dropped <;> cases detached <;> simp only [left, freed, List.isEmpty_nil,
      List.isEmpty_cons, Bool.false_eq_true, if_true, if_false, List.append_nil] <;> rfl
  all_goals cases dropped <;> cases detached <;> rfl

theorem isFollowed_removeRule (id : RuleId) : IsFollowed (removeRule id) := by
  intro s hs
  rw [removeRule]
  refine LeadsBy.look ?_ hs
  split
  · next rule hrule =>
    -- What is taken out under `id` is told under the id of the rule.
    have hid : rule.id = id := hs id rule hrule
    subst hid
    have hpart := fun dropped detached marks => IsFollowed.bind
      (.persist (·.dropRule rule.id)) fun _ => isFollowed_part dropped detached marks rule
    exact IsFollowed.whenever (.persist _) (.whenever (.persist _) (hpart _ _ _)) s
  · exact .refl s

theorem isFollowed_addRecorded (r : RecordedProgram) : IsFollowed (addRecorded r) := by
  rw [addRecorded]
  refine .bind .get fun s => ?_
  split
  all_goals
    refine .bind (.of_quiet (fun _ => rfl) fun _ => rfl) fun _ => .bind (.persist _) fun _ => ?_
    exact .bind (.of_quiet (fun _ => rfl) fun _ => rfl) fun _ => .pure _

/-! ## Runs -/

theorem leads_edit (s : Store) {e : Edit} (h : ∀ now, e ≠ .load now) : Leads s (s.edit e) := by
  cases e with
  | load now => exact absurd rfl (h now)
  | add schedules => exact isFollowed_add schedules s
  | update schedules => exact isFollowed_update schedules s
  | changeState id state => exact isFollowed_changeState id state s
  | remove schedules force => exact isFollowed_remove schedules force s
  | addRule rule => exact isFollowed_addRule rule s
  | updateRule rule => exact isFollowed_updateRule rule s
  | removeRule id => exact isFollowed_removeRule id s
  | addRecorded r => exact isFollowed_addRecorded r s

theorem leads_edits (s : Store) {edits : List Edit} (h : ∀ e ∈ edits, ∀ now, e ≠ .load now) :
    Leads s (edits.foldl edit s) := by
  induction edits generalizing s with
  | nil => exact .refl s
  | cons e rest ih =>
    obtain ⟨he, hrest⟩ := List.forall_mem_cons.mp h
    exact (leads_edit s he).trans (ih (s.edit e) hrest)

theorem hasRuleIds_adopt (s : Store) (rows : List Schedule) (rest : Snapshot) :
    (s.adopt rows rest).HasRuleIds := by
  intro id rule h
  have hget : (s.adopt rows rest).rules[id]? =
      ((rest.rules.filter (·.id = id)).getLast?).or (∅ : Std.TreeMap RuleId SeriesRule)[id]? :=
    get_insertAll SeriesRule.id rest.rules ∅ id
  rw [hget, Std.TreeMap.getElem?_emptyc, Option.or_none] at h
  exact of_decide_eq_true (List.mem_filter.mp (List.mem_of_getLast? h)).2

/-- A loading that fails leaves the rules alone. -/
theorem hasRuleIds_load (h : s.HasRuleIds) (now : Instant) : (s.edit (.load now)).HasRuleIds := by
  rw [edit, load, run_bind, run_get]
  dsimp only
  split
  · exact h
  · next snapshot _ =>
    have hadopt := fun s : Store =>
      hasRuleIds_adopt s (snapshot.schedules.map (restarted now)) snapshot
    split
    · exact hadopt s
    · rw [run_bind]
      split
      · next s' _ => exact hadopt s'
      · next s' hrun =>
        obtain rfl := congrArg Prod.snd hrun
        exact h.congr (IsUnseen.persist _ s).rules

theorem hasRuleIds_edits (h : s.HasRuleIds) (edits : List Edit) :
    (edits.foldl edit s).HasRuleIds := by
  induction edits generalizing s with
  | nil => exact h
  | cons e rest ih =>
    by_cases hload : ∃ now, e = .load now
    · obtain ⟨now, rfl⟩ := hload
      exact ih (hasRuleIds_load h now)
    · exact ih (leads_edit s (not_exists.mp hload) h).1

/-- A listener that starts from what is in use right after a loading and hears every later event
in order has exactly what the store then answers with. -/
theorem replica_follows_journal (archive : Archive) (listings : Nat → Listing)
    (earlier edits : List Edit) (now : Instant) (hedits : ∀ e ∈ edits, ∀ t, e ≠ .load t) :
    let s := (earlier.foldl edit { archive, listings }).edit (.load now)
    let s' := edits.foldl edit s
    let heard := s'.journal.drop s.journal.length
    s'.journal = s.journal ++ heard ∧
      (heard.foldl Replica.hear s.replica).schedules.values = s'.schedules ∧
      (heard.foldl Replica.hear s.replica).rules.values = s'.ruleList := by
  intro s s' heard
  have hblank : HasRuleIds { archive, listings } := fun id rule h => by simp at h
  have hs : s.HasRuleIds := hasRuleIds_load (hasRuleIds_edits hblank earlier) now
  obtain ⟨-, es, hjournal, hes⟩ := leads_edits s hedits hs
  have hheard : heard = es := (congrArg (List.drop s.journal.length) hjournal).trans List.drop_left
  rw [hheard, hes]
  exact ⟨hjournal, rfl, rfl⟩

/-- A run with ids that occur twice or are not known, refused writes, and a rule that goes. -/
theorem replica_follows_journal_mixed :
    let member : Schedule :=
      { Schedule.timed 0 1 20 30 5 with programId := some 7, ruleId := some 1 }
    let archive : Archive :=
      { schedules := (∅ : Std.TreeMap ScheduleId Schedule).insert 4 (.timed 4 2 40 60 1)
        refuses := fun n => n == 3 || n == 7 }
    let twice : Edit :=
      .update [{ member with id := 5, priority := 9 }, { member with id := 5 }, .timed 40 1 2 3 0]
    let edits : List Edit :=
      [.addRule (.ofKey "show" "tuner" 1), .add [member, member, .timed 0 1 20 80 5],
        .changeState 6 .inProgress, twice,
        .remove [{ member with id := 40 }, { member with id := 7 }] false, twice,
        .changeState 6 .inProgress, .removeRule 1, .removeRule 1]
    let s := (([] : List Edit).foldl edit { archive }).edit (.load 50)
    let s' := edits.foldl edit s
    let heard := s'.journal.drop s.journal.length
    (∀ e ∈ edits, ∀ t, e ≠ .load t) ∧ s.schedules.map (·.id) = [4] ∧
      s'.schedules.map (fun x => (x.id, x.state)) = [(4, .notStarted), (6, .inProgress)] ∧
      s'.ruleList = [] ∧ heard.map (·.description) = ["1 series added", "3 schedule(s) added",
        "1 schedule(s) changed", "1 schedule(s) removed", "2 schedule(s) changed",
        "1 schedule(s) removed", "1 schedule(s) changed", "1 series removed"] ∧
      s'.journal = s.journal ++ heard ∧
      (heard.foldl Replica.hear s.replica).schedules.values = s'.schedules ∧
      (heard.foldl Replica.hear s.replica).rules.values = s'.ruleList := by
  intro member archive twice edits s s' heard
  have hedits : ∀ e ∈ edits, ∀ t, e ≠ .load t := by simp [edits, twice]
  exact ⟨hedits, by decide +kernel, by decide +kernel, by decide +kernel, by decide +kernel,
    replica_follows_journal archive (fun _ => .byAge) [] edits 50 hedits⟩

end Store

end Timeshift
