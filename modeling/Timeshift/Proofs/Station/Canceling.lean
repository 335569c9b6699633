import Timeshift.Proofs.Booking.Added
import Timeshift.Proofs.Station.Removing
import Timeshift.Proofs.Station.Stopping
import Timeshift.Proofs.Store.Failing

/-!
# Cancelling a rule

A client cancels a rule, and its schedules go with it: those that are being recorded are to be
stopped, and those that wait are cancelled. The rule is written before anything else is done. So
a call that fails later may leave the rule cancelled and its schedules waiting.
-/

namespace Timeshift

namespace Store

variable {α β : Type} {s s' : Store} {l : List Schedule} {now : Instant} {id : RuleId}

/-! ## The schedules of a rule -/

/-- The schedules of a rule that are being recorded and have not ended. -/
def recordedFor (s : Store) (id : RuleId) (now : Instant) : List Schedule :=
  (s.started now).filter (·.ruleId == some id)

/-- The schedules of a rule that wait and have not ended. -/
def waitingFor (s : Store) (id : RuleId) (now : Instant) : List Schedule :=
  (s.notStarted now).filter (·.ruleId == some id)

theorem recordedFor_congr (h : s'.live = s.live) (id : RuleId) (now : Instant) :
    s'.recordedFor id now = s.recordedFor id now := by
  rw [recordedFor, started, schedules, h]
  rfl

theorem waitingFor_congr (h : s'.live = s.live) (id : RuleId) (now : Instant) :
    s'.waitingFor id now = s.waitingFor id now := by
  rw [waitingFor, notStarted, schedules, h]
  rfl

/-- A schedule that still wants a tuner is being recorded or waits, but not both. -/
theorem cases_of_isPending (x : Schedule) :
    x.isPending = (x.isInProgress || x.isNotStarted) ∧
      (x.isInProgress = true → x.isNotStarted = false) := by
  rw [Schedule.isPending, Schedule.isInProgress, Schedule.isNotStarted]
  cases x.state <;> decide

theorem canceledWith_eq (s : Store) (rule : SeriesRule) (now : Instant) :
    Booking.canceledWith s rule now = (s.recordedFor rule.id now,
      (s.waitingFor rule.id now).map ({ · with state := .canceled })) := by
  rw [Booking.canceledWith, List.partition_eq_filter_filter]
  simp only [recordedFor, waitingFor, available, started, notStarted, List.filter_filter]
  refine congrArg₂ Prod.mk (List.filter_congr fun x _ => ?_)
    (congrArg (List.map _) (List.filter_congr fun x _ => ?_))
  all_goals
    obtain ⟨hpending, hnot⟩ := cases_of_isPending x
    rw [hpending]
    cases hrecorded : x.isInProgress
    · simp [hrecorded]
    · simp [hrecorded, hnot hrecorded]

theorem get_of_mem_waitingFor (h : s.IsKeyed) {x : Schedule} (hx : x ∈ s.waitingFor id now) :
    s.live[x.id]? = some x := by
  have hmem : x ∈ s.live.values := List.mem_of_mem_filter (List.mem_of_mem_filter hx)
  obtain ⟨k, hk⟩ := mem_values.mp hmem
  rwa [h k x hk]

theorem not_normal {last : SeriesRule} (hlast : s.rule? id = some last)
    (hstate : last.state = .canceled) :
    ¬ ∃ rule, s.rule? id = some rule ∧ rule.state = .normal := by
  rintro ⟨rule, hrule, hstill⟩
  obtain rfl := Option.some.inj (hlast.symm.trans hrule)
  cases hstate.symm.trans hstill

theorem IsSustaining.updateAll (l : List Schedule) : IsSustaining (Booking.updateAll l) := by
  rw [Booking.updateAll]
  split
  · exact .pure _
  · exact .update l

end Store

namespace Station

variable {α β : Type} {s t : Station} {l : List Schedule} {x : Schedule} {id : RuleId}
  {k n : Nat} {old : SeriesRule}

/-! ## The parts of a cancellation -/

/-- What decides whether a desk can be told something now. -/
structure Switchboard where
  desks : Std.TreeMap Nat Desk
  control : Control
  around : Surroundings
  now : Instant

def switchboard (s : Station) : Switchboard := ⟨s.desks, s.control, s.around, s.now⟩

theorem switchboard_wakeAll (s : Station) (l : List Worker) :
    (s.run (wakeAll l)).2.switchboard = s.switchboard := by
  induction l generalizing s with
  | nil => rfl
  | cons w rest ih => exact ih (s.run (wake w)).2

theorem switchboard_tellEvents (s : Station) :
    (s.run tellEvents).2.switchboard = s.switchboard := by
  rw [tellEvents, run_look]
  split
  · rfl
  · rw [run_bind, run_set, switchboard_wakeAll]
    rfl

theorem switchboard_withStore (s : Station) (op : Store.Op α) :
    (s.run (withStore op)).2.switchboard = s.switchboard :=
  switchboard_tellEvents { s with store := (s.store.run op).2 }

theorem deskOf?_congr (h : t.switchboard = s.switchboard) (x : Schedule) :
    t.deskOf? x = s.deskOf? x := by
  have hdesks : t.desks = s.desks := congrArg Switchboard.desks h
  have hcontrol : t.control = s.control := congrArg Switchboard.control h
  have haround : t.around = s.around := congrArg Switchboard.around h
  rw [deskOf?, deskOf?, hdesks, hcontrol, haround]

theorem reaches_congr (h : t.switchboard = s.switchboard) (x : Schedule) :
    t.Reaches x ↔ s.Reaches x := by
  rw [Reaches, Reaches, deskOf?_congr h]

theorem HasRoomFor.congr (hroom : s.HasRoomFor l k) (h : t.switchboard = s.switchboard) :
    t.HasRoomFor l k := fun x hx d hd => hroom x hx d (deskOf?_congr h x ▸ hd)

/-- What is asked of the store is done there, and the store tells of it. -/
theorem onStore_spec (h : s.IsOrderly) (op : Store.Op α) :
    ∃ t, s.run (onStore op).run = ((s.store.run op).1, t) ∧
      t.store = (s.store.run op).2.passOn ∧ t.switchboard = s.switchboard ∧
      ((s.store.run op).2.IsKeyed → t.IsOrderly) :=
  ⟨_, rfl, (leads_withStore op s h.2).store, switchboard_withStore s op, h.withStore⟩

theorem run_cancelMembers (s : Station) (rule : SeriesRule) :
    s.run (cancelMembers rule).run = s.run (ExceptT.run do
      (s.store.recordedFor rule.id s.now).forM stopTask
      onStore (Booking.updateAll ((s.store.waitingFor rule.id s.now).map fun x =>
        { x with state := .canceled }))) := by
  rw [cancelMembers, run_look_deed, Store.canceledWith_eq]

/-- A recording that cannot be reached and a write that is refused keep the waiting schedules from
being cancelled, and then every schedule is as it was. -/
theorem cancelMembers_spec (h : s.IsOrderly) (rule : SeriesRule)
    (hroom : s.HasRoomFor (s.store.recordedFor rule.id s.now)
      (s.store.recordedFor rule.id s.now).length) :
    let done := s.run (cancelMembers rule).run
    let waiting := s.store.waitingFor rule.id s.now
    ((∃ fault, done.1 = .error fault) ↔
      (∃ x ∈ s.store.recordedFor rule.id s.now, ¬ s.Reaches x) ∨
      waiting ≠ [] ∧ (s.store.refusesAfter 0 = true ∨
        s.store.marksOf waiting ≠ [] ∧ s.store.refusesAfter 1 = true)) ∧
    ((∃ fault, done.1 = .error fault) → done.2.store.live = s.store.live) := by
  intro done waiting
  have hdone : done = _ := (run_cancelMembers s rule).trans (run_deed ..)
  obtain ⟨hstore, hstops⟩ := stop_all hroom
  have horderly : (s.run ((s.store.recordedFor rule.id s.now).forM stopTask).run).2.IsOrderly :=
    (IsRetaining.forEach isRetaining_stopTask _ s.store s (.refl h)).1
  rcases hstopped : s.run ((s.store.recordedFor rule.id s.now).forM stopTask).run with ⟨answer, t⟩
  rw [hstopped] at hdone hstore hstops horderly
  dsimp only at hstore horderly
  cases answer with
  | error fault =>
    rw [hdone]
    exact ⟨iff_of_true ⟨fault, rfl⟩ (Or.inl (hstops.mp ⟨fault, rfl⟩)),
      fun _ => congrArg (·.live) hstore⟩
  | ok =>
    have hreached := mt hstops.mpr fun ⟨_, h⟩ => nomatch h
    have hlive : ∀ x ∈ waiting, s.store.live[x.id]? = some x :=
      fun x hx => Store.get_of_mem_waitingFor h.1 hx
    let last : Store.Op Unit :=
      Booking.updateAll (waiting.map fun x => { x with state := .canceled })
    obtain ⟨u, hlast, hafter, -, -⟩ := onStore_spec horderly last
    rw [hstore] at hlast hafter
    replace hdone : done = t.run (onStore last).run := hdone
    rw [hdone, hlast, or_iff_right hreached, ← Store.fails_cancel_iff hlive]
    refine ⟨Iff.rfl, fun ⟨fault, hfault⟩ => ?_⟩
    dsimp only
    rw [hafter]
    exact (Store.failsUnseen_updateAll _ s.store fault hfault).live

/-! ## The whole call -/

/-- What comes after a rule has been written, that was `old` before. -/
def followRule (old : Option SeriesRule) (rule : SeriesRule) : Deed Unit := do
  if !old.any (·.isCanceled) && rule.isCanceled then cancelMembers rule
  else if old.any (·.isCanceled) && !rule.isCanceled then
    let s ← get
    onStore (Booking.updateAll (Booking.resumedWith s.store rule s.now))
  if old.map (·.priority) ≠ some rule.priority then
    let s ← get
    onStore (Booking.updateAll (Booking.rerankedWith s.store rule s.now))

theorem updateRule_eq (rule : SeriesRule) : updateRule rule = (do
    onStore Booking.requireLoaded
    let old := (← get).store.rule? rule.id
    onStore (Store.updateRule rule)
    followRule old rule) := rfl

theorem followRule_cancel (hnormal : old.state = .normal) :
    followRule (some old) { old with state := .canceled } =
      cancelMembers { old with state := .canceled } := by
  have hwas : old.isCanceled = false := by rw [SeriesRule.isCanceled, hnormal]; rfl
  have his : SeriesRule.isCanceled { old with state := .canceled } = true := rfl
  simp only [followRule, Option.any_some, hwas, his, Option.map_some]
  simp

theorem followRule_again {rule : SeriesRule} (hwas : old.isCanceled = true)
    (his : rule.isCanceled = true) (hpriority : old.priority = rule.priority) :
    followRule (some old) rule = pure () := by
  simp only [followRule, Option.any_some, hwas, his, Option.map_some, hpriority]
  simp

/-- Nothing is done unless the store is loaded. -/
theorem run_updateRule (h : s.IsOrderly) (rule : SeriesRule) :
    ∃ t, t.IsOrderly ∧ t.switchboard = s.switchboard ∧ t.store = s.store.passOn ∧
      s.run (updateRule rule).run =
        if s.store.isLoaded then
          match t.run (onStore (Store.updateRule rule)).run with
          | (.ok _, u) => u.run (followRule (s.store.rule? rule.id) rule).run
          | (.error fault, u) => (.error fault, u)
        else (.error .notLoaded, t) := by
  have hrun := Booking.run_requireLoaded s.store
  obtain ⟨t, hload, hstore, hboard, ht⟩ := onStore_spec h Booking.requireLoaded
  rw [hrun] at hload hstore ht
  refine ⟨t, ht h.1, hboard, hstore, ?_⟩
  have hold : t.store.rule? rule.id = s.store.rule? rule.id := by rw [hstore]; rfl
  rw [updateRule_eq, run_deed, hload]
  by_cases hloaded : s.store.isLoaded = true
  · simp only [hloaded, if_true]
    rw [run_look_deed, run_deed, hold]
    rcases t.run (onStore (Store.updateRule rule)).run with ⟨answer, u⟩
    cases answer <;> rfl
  · simp only [hloaded]
    rfl

theorem rules_updateRule_refused (h : s.IsOrderly) (rule : SeriesRule)
    (hstored : rule.id ∈ s.store.rules)
    (hrefused : s.store.isLoaded = false ∨ s.store.refusesAfter 0 = true) :
    (s.run (updateRule rule).run).2.store.rules = s.store.rules := by
  obtain ⟨t, ht, -, hstore, hrun⟩ := run_updateRule h rule
  rw [hrun]
  split
  · next hloaded =>
    have hrefused : t.store.refusesAfter 0 = true := by
      rw [hstore]
      exact hrefused.resolve_left (ne_false_of_eq_true hloaded)
    have hstored : rule.id ∈ t.store.rules := by rw [hstore]; exact hstored
    obtain ⟨fault, hfault⟩ := Store.fails_updateRule hstored hrefused
    have hlike := Store.failsUnseen_updateRule rule t.store fault hfault
    obtain ⟨u, hwrite, hafter, -, -⟩ := onStore_spec ht (Store.updateRule rule)
    rw [hwrite, hfault]
    dsimp only
    rw [hafter]
    exact hlike.rules.trans (congrArg (·.rules) hstore)
  · exact congrArg (·.rules) hstore

theorem updateRule_taken (h : s.IsOrderly) (rule : SeriesRule)
    (hstored : rule.id ∈ s.store.rules)
    (hloaded : s.store.isLoaded = true) (htaken : s.store.refusesAfter 0 = false) :
    ∃ t : Station, t.IsOrderly ∧ t.switchboard = s.switchboard ∧
      t.store = (s.store.passOn.withCopy rule).passOn ∧
      s.run (updateRule rule).run = t.run (followRule (s.store.rule? rule.id) rule).run := by
  obtain ⟨t, ht, hboard, hstore, hrun⟩ := run_updateRule h rule
  obtain ⟨u, hwrite, hafter, hboard', hu⟩ := onStore_spec ht (Store.updateRule rule)
  have hwritten := Store.run_updateRule_taken (s := s.store.passOn) hstored htaken
  rw [hstore, hwritten] at hwrite hafter hu
  rw [if_pos hloaded, hwrite] at hrun
  exact ⟨u, hu (h.1.congr rfl), hboard'.trans hboard, hafter, hrun⟩

/-- A rule that is cancelled already does not take its schedules along. -/
theorem live_updateRule_again (h : s.IsOrderly) (rule : SeriesRule)
    (hold : s.store.rule? rule.id = some old)
    (hwas : old.isCanceled = true) (his : rule.isCanceled = true)
    (hpriority : old.priority = rule.priority) :
    (s.run (updateRule rule).run).2.store.live = s.store.live := by
  obtain ⟨t, ht, -, hstore, hrun⟩ := run_updateRule h rule
  rw [hrun, hold, followRule_again hwas his hpriority]
  split
  · obtain ⟨u, hwrite, hafter, -, -⟩ := onStore_spec ht (Store.updateRule rule)
    have hlive : u.store.live = s.store.live := by
      rw [hafter]
      rcases Store.run_updateRule t.store rule with hlike | ⟨hlive, -⟩
      · exact hlike.live.trans (congrArg (·.live) hstore)
      · exact hlive.trans (congrArg (·.live) hstore)
    rw [hwrite]
    cases (t.store.run (Store.updateRule rule)).1 with
    | ok _ => exact hlive
    | error _ => exact hlive
  · exact congrArg (·.live) hstore

theorem isRetaining_cancelMembers (rule : SeriesRule) : IsRetaining (cancelMembers rule).run := by
  refine .deed (fun _ _ h => h) fun s => ?_
  dsimp only
  exact .deed (.forEach isRetaining_stopTask _) fun _ => .withStore (.updateAll _)

/-- Whatever happens, every rule stands under its id. -/
theorem hasRuleIds_next (h : s.IsOrderly) (hids : s.store.HasRuleIds) (happening : Happening) :
    (s.step happening).store.HasRuleIds := by
  by_cases haside : happening.IsAside
  · exact hids.congr (congrArg (·.rules) (Happening.abstains haside s.store s h.2).store)
  · cases happening with
    | follow => exact ((isRetaining_controlLoop 1 s.store s (.refl h)).2.rules hids).1
    | write e =>
      exact (Store.hasRuleIds_edits hids [e]).congr (congrArg (·.rules) (leads_write e s h.2).store)
    | disturb refuses unreadable => exact hids.congr rfl
    | _ => exact absurd trivial haside

theorem hasRuleIds_proceed (h : s.IsOrderly) (hids : s.store.HasRuleIds)
    (happenings : List Happening) : (s.proceed happenings).store.HasRuleIds := by
  induction happenings generalizing s with
  | nil => exact hids
  | cons happening rest ih => exact ih (h.next happening) (hasRuleIds_next h hids happening)

/-! ## Cancelling -/

/-- The call has failed, and yet the rule is not as it was, while schedules of it still wait. -/
structure IsHalfDone (id : RuleId) (now : Instant) (called : Except Fault Unit × Station) :
    Prop where
  fails : ∃ fault, called.1 = .error fault
  rule : ¬ ∃ rule, called.2.store.rule? id = some rule ∧ rule.state = .normal
  schedules : called.2.store.waitingFor id now ≠ []

/-- Once the rule is written, all depends on its schedules, and the rule stays cancelled. -/
theorem cancel_taken (h : s.IsOrderly) (hids : s.store.HasRuleIds)
    (hold : s.store.rule? old.id = some old) (hnormal : old.state = .normal)
    (hloaded : s.store.isLoaded = true) (htaken : s.store.refusesAfter 0 = false) :
    let called := s.run (updateRule { old with state := .canceled }).run
    ∃ t : Station, t.IsOrderly ∧ t.switchboard = s.switchboard ∧
      t.store = (s.store.passOn.withCopy { old with state := .canceled }).passOn ∧
      called = t.run (cancelMembers { old with state := .canceled }).run ∧
      called.2.IsOrderly ∧
      ∃ last, called.2.store.rule? old.id = some last ∧ last.state = .canceled ∧
        last.priority = old.priority := by
  intro called
  obtain ⟨t, ht, hboard, hstore, hrun⟩ := updateRule_taken h { old with state := .canceled }
    (mem_of_get hold) hloaded htaken
  have hfollow : called = t.run (cancelMembers { old with state := .canceled }).run := by
    refine hrun.trans ?_
    rw [show s.store.rule? _ = some old from hold, followRule_cancel hnormal]
  have hafter : Retains t.store called.2 :=
    hfollow ▸ isRetaining_cancelMembers _ t.store t (.refl ht)
  have hget : t.store.rule? old.id = some { old with state := .canceled } := by
    rw [hstore]
    exact get_insert.trans (if_pos rfl)
  have hidst : t.store.HasRuleIds :=
    hids.insert { old with state := .canceled } (congrArg (·.rules) hstore)
  exact ⟨t, ht, hboard, hstore, hfollow, hafter.1, (hafter.2.rules hidst).2 _ _ hget⟩

/-- As long as nobody has to wait for room in a mailbox, what the call does to the schedules can be
told from what is stored when it is made. -/
theorem half_done_taken_iff (h : s.IsOrderly) (hids : s.store.HasRuleIds)
    (hold : s.store.rule? old.id = some old) (hnormal : old.state = .normal)
    (hloaded : s.store.isLoaded = true) (htaken : s.store.refusesAfter 0 = false) :
    let recorded := s.store.recordedFor old.id s.now
    let waiting := s.store.waitingFor old.id s.now
    s.HasRoomFor recorded recorded.length →
      (IsHalfDone old.id s.now (s.run (updateRule { old with state := .canceled }).run) ↔
        waiting ≠ [] ∧ ((∃ x ∈ recorded, ¬ s.Reaches x) ∨ s.store.refusesAfter 1 = true ∨
          s.store.marksOf waiting ≠ [] ∧ s.store.refusesAfter 2 = true)) := by
  intro recorded waiting hroom
  obtain ⟨t, ht, hboard, hstore, hfollow, -, last, hlast, hstate, -⟩ :=
    cancel_taken h hids hold hnormal hloaded htaken
  have hlive : t.store.live = s.store.live := congrArg (·.live) hstore
  have hnow : t.now = s.now := congrArg Switchboard.now hboard
  have hrecorded : t.store.recordedFor old.id t.now = recorded :=
    hnow ▸ Store.recordedFor_congr hlive old.id t.now
  have hwaiting : t.store.waitingFor old.id t.now = waiting :=
    hnow ▸ Store.waitingFor_congr hlive old.id t.now
  have hmarks : t.store.marksOf waiting = s.store.marksOf waiting := by rw [hstore]; rfl
  -- One write of the archive has gone to the rule.
  have hrefuses : ∀ n, t.store.refusesAfter n = s.store.refusesAfter (n + 1) := by
    intro n
    rw [hstore, Store.refusesAfter, Store.refusesAfter, Nat.add_comm n 1, ← Nat.add_assoc]
    rfl
  obtain ⟨hfails, hkept⟩ := cancelMembers_spec ht { old with state := .canceled }
    (by rw [hrecorded]; exact hroom.congr hboard)
  simp only [hrecorded, hwaiting, hmarks, hrefuses, reaches_congr hboard] at hfails
  rw [hfollow] at hlast ⊢
  have hleft := fun hfault => Store.waitingFor_congr ((hkept hfault).trans hlive) old.id s.now
  constructor
  · rintro ⟨hfault, -, hsome⟩
    rw [hleft hfault] at hsome
    exact ⟨hsome, (hfails.mp hfault).imp_right (·.2)⟩
  · rintro ⟨hsome, hcause⟩
    have hfault := hfails.mpr (hcause.imp_right fun hcause => ⟨hsome, hcause⟩)
    exact ⟨hfault, Store.not_normal hlast hstate, (hleft hfault).symm ▸ hsome⟩

/-- The rule is as it was just in case that the store is not loaded or the rule cannot be written.
If the call leaves its work half done, then it stays so: a second call does nothing to the
schedules. As long as nobody has to wait for room in a mailbox, this happens if schedules wait and
a recording cannot be reached or the cancelled copies cannot be written, and only then. -/
theorem half_done_iff (h : s.IsOrderly) (hids : s.store.HasRuleIds)
    (hold : s.store.rule? id = some old) (hnormal : old.state = .normal) :
    let cancel := updateRule { old with state := .canceled }
    let called := s.run cancel.run
    let recorded := s.store.recordedFor id s.now
    let waiting := s.store.waitingFor id s.now
    ((∃ rule, called.2.store.rule? id = some rule ∧ rule.state = .normal) ↔
      s.store.isLoaded = false ∨ s.store.refusesAfter 0 = true) ∧
    (IsHalfDone id s.now called →
      (called.2.run cancel.run).2.store.live = called.2.store.live) ∧
    (s.HasRoomFor recorded recorded.length →
      (IsHalfDone id s.now called ↔
        s.store.isLoaded = true ∧ s.store.refusesAfter 0 = false ∧ waiting ≠ [] ∧
          ((∃ x ∈ recorded, ¬ s.Reaches x) ∨ s.store.refusesAfter 1 = true ∨
            s.store.marksOf waiting ≠ [] ∧ s.store.refusesAfter 2 = true))) := by
  intro cancel called recorded waiting
  obtain rfl : old.id = id := hids id old hold
  by_cases hrefused : s.store.isLoaded = false ∨ s.store.refusesAfter 0 = true
  · have hrules := rules_updateRule_refused h { old with state := .canceled }
      (mem_of_get hold) hrefused
    have hkept : ∃ rule, called.2.store.rule? old.id = some rule ∧ rule.state = .normal :=
      ⟨old, (congrArg (·[old.id]?) hrules).trans hold, hnormal⟩
    refine ⟨iff_of_true hkept hrefused, fun hhalf => absurd hkept hhalf.rule, fun _ => ?_⟩
    refine iff_of_false (fun hhalf => hhalf.rule hkept) fun ⟨hloaded, htaken, _⟩ => ?_
    rcases hrefused with hnot | hnot
    · cases hloaded.symm.trans hnot
    · cases htaken.symm.trans hnot
  · have hgoes := not_or.mp hrefused
    have hloaded : s.store.isLoaded = true := eq_true_of_ne_false hgoes.1
    have htaken : s.store.refusesAfter 0 = false := Bool.eq_false_iff.mpr hgoes.2
    obtain ⟨t, -, -, -, -, hafter, last, hlast, hstate, hpriority⟩ :=
      cancel_taken h hids hold hnormal hloaded htaken
    refine ⟨iff_of_false (Store.not_normal hlast hstate) hrefused, fun _ => ?_, fun hroom => ?_⟩
    · have hwas : last.isCanceled = true := by rw [SeriesRule.isCanceled, hstate]; rfl
      exact live_updateRule_again hafter { old with state := .canceled } hlast hwas rfl
        hpriority
    · rw [and_iff_right hloaded, and_iff_right htaken]
      exact half_done_taken_iff h hids hold hnormal hloaded htaken hroom

def oneRule : SeriesRule := { SeriesRule.ofKey "show" "tuner" 1 with id := 1 }

/-- Of two schedules of a rule the first one is being recorded. -/
def recordingMember : List Happening :=
  [.startControl, .write (.load 0), .write (.addRule oneRule),
    .write (.add [{ Schedule.timed 0 1 30000 90000 5 with ruleId := some 1 },
      { Schedule.timed 0 1 95000 99000 5 with ruleId := some 1 }]),
    .follow, .follow, .follow, .desk 1, .passTime 35000, .desk 1, .take 1, .follow]

/-- The channel of the rule now belongs to the other input, which has recorded nothing so far. -/
def movingChannel : Happening :=
  .change fun a => { a with catalog := a.catalog.putChannel ⟨1, "other", "One", none⟩ }

def twoTuners : Surroundings where
  catalog := ((({} : Catalog).putInput ⟨"tuner", 1, true⟩).putInput ⟨"other", 1, true⟩).putChannel
    ⟨1, "tuner", "One", none⟩

/-- The recording can be stopped at first, and the rule and its schedules are cancelled. Once the
channel has moved the recording cannot be reached, and the other schedule goes on waiting. -/
theorem half_done_iff_moved :
    let first := opening {} twoTuners {} 0 {}
    let s := first.proceed recordingMember
    let t := first.proceed (recordingMember ++ [movingChannel])
    let rule := oneRule
    let cancel := updateRule { rule with state := .canceled }
    s.store.rule? 1 = some rule ∧ t.store.rule? 1 = some rule ∧ rule.state = .normal ∧
      s.HasRoomFor (s.store.recordedFor 1 s.now) (s.store.recordedFor 1 s.now).length ∧
      t.HasRoomFor (t.store.recordedFor 1 t.now) (t.store.recordedFor 1 t.now).length ∧
      ¬ IsHalfDone 1 s.now (s.run cancel.run) ∧ IsHalfDone 1 t.now (t.run cancel.run) ∧
      ((t.run cancel.run).2.run cancel.run).2.store.live = (t.run cancel.run).2.store.live := by
  intro first s t rule
  have hfirst : first.IsOrderly := isOrderly_opening ..
  have hblank : first.store.HasRuleIds := fun id rule h => by simp [first, opening] at h
  have hs : s.store.rule? 1 = some rule := by decide +kernel
  have ht : t.store.rule? 1 = some rule := by decide +kernel
  have hnormal : rule.state = .normal := by decide
  have hroom : s.HasRoomFor (s.store.recordedFor 1 s.now)
    (s.store.recordedFor 1 s.now).length := by decide +kernel
  have hroom' : t.HasRoomFor (t.store.recordedFor 1 t.now)
    (t.store.recordedFor 1 t.now).length := by decide +kernel
  have horderly : s.IsOrderly := hfirst.proceed recordingMember
  have hids : s.store.HasRuleIds := hasRuleIds_proceed hfirst hblank recordingMember
  obtain ⟨-, -, hdone⟩ := half_done_iff horderly hids hs hnormal
  have horderly' : t.IsOrderly := hfirst.proceed (recordingMember ++ [movingChannel])
  have hids' : t.store.HasRuleIds :=
    hasRuleIds_proceed hfirst hblank (recordingMember ++ [movingChannel])
  obtain ⟨-, hagain, hhalf⟩ := half_done_iff horderly' hids' ht hnormal
  have hundone := mt (hdone hroom).mp (by decide +kernel)
  have hleft := (hhalf hroom').mpr (by decide +kernel)
  exact ⟨hs, ht, hnormal, hroom, hroom', hundone, hleft, hagain hleft⟩

/-- The call fails, for the recording cannot be reached. The rule is cancelled even so, and the
other schedule waits, also after a second call, which does not fail. -/
theorem not_undone_nor_canceled_moved :
    let s := (opening {} twoTuners {} 0 {}).proceed (recordingMember ++ [movingChannel])
    let cancel := updateRule { oneRule with state := .canceled }
    let called := s.run cancel.run
    let again := called.2.run cancel.run
    s.store.isLoaded = true ∧ s.store.rule? 1 = some oneRule ∧ oneRule.state = .normal ∧
      called.1.isOk = false ∧ (called.2.store.rule? 1).map (·.state) = some .canceled ∧
      (called.2.store.waitingFor 1 s.now).map (·.id) = [2] ∧
      again.1.isOk = true ∧ (again.2.store.waitingFor 1 s.now).map (·.id) = [2] := by
  decide +kernel

end Station

end Timeshift
