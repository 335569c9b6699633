import Timeshift.Proofs.Station.Abstaining
import Timeshift.Proofs.Station.Service
import Timeshift.Proofs.Store.Refusal
import Timeshift.Proofs.Store.Success

/-!
# Reports respect the life of a schedule

The reports about a schedule come from desks that may have recorded it before, and from the
couriers that have lost it. They are written in the order they came. However many there are, a
schedule is recorded only after it has waited, and once it has ended it stays as it is.
-/

namespace Timeshift

open Admission (endStates Message)

/-! ## States -/

namespace RecordingState

variable {a b c : RecordingState}

/-- A schedule in the first state may be in the second one later. -/
def MayBecome (old new : RecordingState) : Prop :=
  old = new ∨ old = .notStarted ∧ new = .inProgress ∨
    (old = .notStarted ∨ old = .inProgress) ∧ new ∈ endStates

instance (old new : RecordingState) : Decidable (MayBecome old new) :=
  inferInstanceAs (Decidable (_ ∨ _ ∨ _))

theorem mayBecome_refl (a : RecordingState) : a.MayBecome a := Or.inl rfl

theorem MayBecome.trans (h : a.MayBecome b) (h' : b.MayBecome c) : a.MayBecome c := by
  revert h h'
  cases a <;> cases b <;> cases c <;> decide

/-- What has ended stays as it is. -/
theorem MayBecome.eq_of_ended (h : a.MayBecome b) (ha : a ∈ endStates) : b = a := by
  revert h ha
  cases a <;> cases b <;> decide

theorem mayBecome_reported {r : Report} (ha : a.isTerminal = false) (hr : r.IsLawful) :
    a.MayBecome r.state := by
  have hpending : a = .notStarted ∨ a = .inProgress := by
    revert ha
    cases a <;> decide
  rcases hr with hbegun | hended
  · rcases hpending with rfl | rfl
    · exact Or.inr (Or.inl ⟨rfl, hbegun⟩)
    · exact Or.inl hbegun.symm
  · exact Or.inr (Or.inr ⟨hpending, hended⟩)

end RecordingState

/-! ## Writing a report -/

namespace Store

variable {s s' : Store} {id : ScheduleId}

/-- The state in which a schedule is in use. -/
def stateOf? (s : Store) (id : ScheduleId) : Option RecordingState :=
  (s.live[id]?).map (·.state)

/-- Nothing new is in use, and nothing in use has gone back. -/
def Ages (s s' : Store) : Prop :=
  ∀ id b, s'.stateOf? id = some b → ∃ a, s.stateOf? id = some a ∧ a.MayBecome b

theorem Ages.of_live (h : s'.live = s.live) : Ages s s' := by
  intro id b hb
  rw [stateOf?, h] at hb
  exact ⟨b, hb, b.mayBecome_refl⟩

/-- The schedule is in the new state, or nothing has changed. -/
theorem states_changeState (h : s.IsKeyed) (id : ScheduleId) (state : RecordingState) :
    (s.run (changeState id state)).2.live = s.live ∨
      id ∈ s.live ∧ ∀ k, (s.run (changeState id state)).2.stateOf? k =
        if id = k then some state else s.stateOf? k := by
  have hfail := failsUnseen_changeState id state s
  generalize hrun : s.run (changeState id state) = result at hfail
  obtain ⟨answer, t⟩ := result
  cases answer with
  | error fault => exact Or.inl (hfail fault rfl).live
  | ok =>
    rw [changeState, run_bind, run_get] at hrun
    dsimp only at hrun
    split at hrun
    · next old hold =>
      have hid : old.id = id := h id old hold
      have hlive : id ∈ s.live := mem_of_get hold
      split at hrun
      · exact Or.inl (congrArg (·.2.live) hrun).symm
      · refine Or.inr ⟨hlive, fun k => ?_⟩
        rw [stateOf?, (takes_update hrun).live, get_hold, stateOf?]
        simp only [copyIn, hid, Std.TreeMap.contains_iff_mem.mpr hlive, List.filter_cons_of_pos,
          List.filter_nil]
        by_cases hk : id = k <;> simp [hk]
    · exact Or.inl (congrArg (·.2.live) hrun).symm

theorem ages_applyReport (h : s.IsKeyed) {r : Report} (hr : r.IsLawful) :
    Ages s (s.run (Dispatch.applyReport r)).2 := by
  rw [Dispatch.applyReport, run_bind, run_get]
  dsimp only
  split
  · next current hcurrent =>
    split
    · exact .of_live rfl
    · next hpending =>
      rw [Bool.not_eq_true] at hpending
      rcases states_changeState h r.scheduleId r.state with hsame | ⟨-, hstates⟩
      · exact .of_live hsame
      · intro k b hb
        rw [hstates] at hb
        split at hb
        · next hk =>
          subst hk
          obtain rfl := Option.some.inj hb
          exact ⟨current.state, congrArg (Option.map Schedule.state) hcurrent,
            RecordingState.mayBecome_reported hpending hr⟩
        · exact ⟨b, hb, b.mayBecome_refl⟩
  · exact .of_live rfl

end Store

namespace Station

variable {α : Type} {st : Store} {s : Station} {id : ScheduleId}

/-! ## The control loop -/

theorem leads_tellEvents :
    Leads (Awaits st) tellEvents fun _ => Awaits st.passOn := by
  refine .look fun s hs => ?_
  by_cases hempty : s.store.journal.isEmpty = true
  · rw [if_pos hempty]
    have hstore : s.store = st.passOn := by
      rw [← hs.store, Store.passOn_eq_self (List.isEmpty_iff.mp hempty)]
    exact .pure fun _ heq => heq ▸ ⟨hstore, hs.keyed, hs.lawful⟩
  · rw [if_neg hempty]
    refine .bind (Q := fun _ => Awaits st.passOn) ?_ fun _ =>
      abstains_wakeAll _ _
    rintro _ rfl
    exact ⟨by rw [← hs.store]; rfl, hs.keyed, hs.lawful⟩

theorem leads_withStore (op : Store.Op α) :
    Leads (Awaits st) (withStore op) fun _ => Awaits (st.run op).2.passOn := by
  refine .look fun s hs => ?_
  refine .bind (Q := fun _ => Awaits (st.run op).2) ?_ fun _ =>
    leads_tellEvents.bind fun _ => .pure fun _ h => h
  rintro _ rfl
  exact ⟨by rw [← hs.store]; rfl, hs.keyed, hs.lawful⟩

theorem leads_write (e : Store.Edit) :
    Leads (Awaits st) (write e) fun _ => Awaits (st.edit e).passOn := by
  cases e <;> exact (leads_withStore _).discard

/-- Only reports have been written since the store was like this. -/
def Aged (st : Store) (s : Station) : Prop :=
  ∃ st', st'.IsKeyed ∧ st.Ages st' ∧ Awaits st' s

theorem Awaits.aged (h : Awaits st s) (hkeyed : st.IsKeyed) : Aged st s :=
  ⟨st, hkeyed, .of_live rfl, h⟩

theorem Abstains.ages {act : Act α} (h : Abstains act) (hkeyed : st.IsKeyed) :
    Leads (Awaits st) act fun _ => Aged st := (h st).weaken fun _ _ hs => hs.aged hkeyed

theorem abstains_leave (listener : Nat) : Abstains (leave listener) :=
  .edit fun _ => ⟨rfl, rfl, rfl⟩

theorem abstains_endControl : Abstains endControl := by
  refine .look fun st s hs => ?_
  refine .bind (Q := fun _ => Awaits st) ?_ fun _ => ?_
  · rintro _ rfl
    exact ⟨hs.store, hs.keyed, List.forall_mem_nil _⟩
  · exact ((abstains_leave _).bind fun _ => abstains_wake _) st

theorem abstains_receive (listener : Nat) : Abstains (receive listener) :=
  .bind .get fun _ => .bind (.edit fun _ => ⟨rfl, rfl, rfl⟩) fun _ => .pure _

/-- The loop handles one report or one event, and only a report is written. -/
theorem leads_follow (hkeyed : st.IsKeyed) :
    Leads (Awaits st) (controlLoop 1) fun _ => Aged st := by
  refine .look fun s hs => ?_
  split
  · exact (abstains_endControl.ages hkeyed).here hs
  · split
    · next r rest hreports =>
      have hr := hs.lawful
      rw [hreports, List.forall_mem_cons] at hr
      refine .bind (Q := fun _ => Awaits st) ?_ fun _ => ?_
      · rintro _ rfl
        exact ⟨hs.store, hs.keyed, hr.2⟩
      · refine (leads_withStore (Dispatch.applyReport r)).discard.bind fun _ => .pure fun s' h => ?_
        obtain ⟨es, htells, -⟩ := Store.tells_applyReport st r
        exact ⟨(st.run (Dispatch.applyReport r)).2.passOn,
          (htells.keyed hkeyed).congr rfl, Store.ages_applyReport hkeyed hr.1, h⟩
    · refine (Abstains.ages ?_ hkeyed).here hs
      have hcarry : ∀ c, Abstains (do if (← carryControl c) then controlLoop 0) := by
        refine fun c => (abstains_carryControl c).bind fun idle => ?_
        cases idle <;> exact .pure _
      refine (abstains_receive _).bind fun heard => ?_
      cases heard with
      | event e => exact hcarry _
      | missed n => exact hcarry _
      | nothing => exact .edit fun _ => ⟨rfl, rfl, rfl⟩
      | gone => exact abstains_endControl

/-! ## What can happen -/

/-- What can happen at a station, in any order. -/
inductive Happening where
  | desk (n : Nat)
  | take (n : Nat)
  | watcher
  | sleeper (n : Nat)
  /-- The control loop goes on with what it has to deliver. -/
  | carry
  /-- The control loop handles one report, or one event. -/
  | follow
  /-- A client begins a round, or goes on with one. -/
  | round (c : Courier)
  /-- A desk is sent a message of any kind, be it for the first time or not. -/
  | post (n : Nat) (w : Worker) (m : Message)
  | postGranted (n : Nat) (w : Worker) (m : Message)
  | withdraw (n : Nat) (w : Worker)
  | openDesk (input : InputId) (isSpawned : Bool)
  | spawnDesk (n : Nat)
  | discardDesk (n : Nat)
  | cancelDesk (n : Nat)
  | startControl
  | watchAlarm
  | beginStop
  /-- Somebody else calls an operation of the store, be it a client or a series engine. -/
  | write (e : Store.Edit)
  /-- From now on the archive takes other writes, or can be read or not. -/
  | disturb (refuses : Nat → Bool) (unreadable : Option Fault)
  | change (f : Surroundings → Surroundings)
  /-- A recording of the schedule ends by itself. -/
  | callOff (id : ScheduleId) (outcome : Outcome)
  | passTime (elapsed : Nat)
  | jump (delta : Int64)
  /-- Whose turn it is changes. -/
  | reorder (f : Agenda → Agenda)

def Happening.act : Happening → Act Unit
  | .desk n => runDesk n
  | .take n => runTake n
  | .watcher => runWatcher
  | .sleeper n => runSleeper n
  | .carry => do
    let s ← get
    stopListening .control
    discard (carryControl s.control.courier)
  | .follow => controlLoop 1
  | .round c => discard (resume .client c)
  | .post n w m => discard (postOrJoin n w m)
  | .postGranted n w m => Station.postGranted n w m
  | .withdraw n w => Station.withdraw n w
  | .openDesk input isSpawned => discard (Station.openDesk input isSpawned)
  | .spawnDesk n => Station.spawnDesk n
  | .discardDesk n => Station.discardDesk n
  | .cancelDesk n => Station.cancelDesk n
  | .startControl => Station.startControl
  | .watchAlarm => Station.watchAlarm
  | .beginStop => Station.beginStop
  | .write e => Station.write e
  | .disturb refuses unreadable => modify fun s =>
    { s with store := { s.store with archive := { s.store.archive with refuses, unreadable } } }
  | .change f => changeAround f
  | .callOff id outcome => discard (Station.callOff id outcome)
  | .passTime elapsed => Station.passTime elapsed
  | .jump delta => Station.jump delta
  | .reorder f => modify fun s => { s with agenda := f s.agenda }

def step (s : Station) (h : Happening) : Station := (s.run h.act).2

def proceed (s : Station) (happenings : List Happening) : Station := happenings.foldl step s

/-! ### Turns of the control loop -/

/-- The loop goes on after what it handles first, or it ends its turn. -/
theorem run_controlLoop_succ (s : Station) (bound : Nat) :
    (s.run (controlLoop (bound + 1))).2 = s.step .follow ∨
      (s.run (controlLoop (bound + 1))).2 = ((s.step .follow).run (controlLoop bound)).2 := by
  have hcarry : ∀ (c : Courier) (t : Station),
      let once := (t.run (do if (← carryControl c) then controlLoop 0)).2
      (t.run (do if (← carryControl c) then controlLoop bound)).2 = once ∨
        (t.run (do if (← carryControl c) then controlLoop bound)).2 =
          (once.run (controlLoop bound)).2 := by
    intro c t
    simp only [run_bind]
    split
    · exact Or.inr rfl
    · exact Or.inl rfl
  simp only [step, Happening.act]
  rw [controlLoop, controlLoop, run_look, run_look]
  split
  · exact Or.inl rfl
  · split
    · exact Or.inr rfl
    · rw [run_bind, run_bind]
      split
      · exact hcarry _ _
      · exact hcarry _ _
      · exact Or.inl rfl
      · exact Or.inl rfl

theorem exists_follows (bound : Nat) (s : Station) :
    ∃ k, (s.run (controlLoop bound)).2 = s.proceed (List.replicate k .follow) := by
  induction bound generalizing s with
  | zero => exact ⟨0, rfl⟩
  | succ bound ih =>
    rcases run_controlLoop_succ s bound with hlast | hmore
    · exact ⟨1, hlast⟩
    · obtain ⟨k, hk⟩ := ih (s.step .follow)
      exact ⟨k + 1, hmore.trans hk⟩

/-- In a turn the control loop writes nothing but reports, one after the other. -/
theorem runControl_proceeds (s : Station) (hruns : s.control.state = .running) :
    ∃ k, (s.run runControl).2 = s.proceed (.carry :: List.replicate k .follow) := by
  rw [runControl, run_look, if_pos hruns]
  simp only [run_bind]
  split
  · obtain ⟨k, hk⟩ := exists_follows patience (s.step .carry)
    exact ⟨k, hk⟩
  · exact ⟨0, rfl⟩

/-! ### Steps -/

/-- The happening is nothing that changes the store. -/
def Happening.IsAside : Happening → Prop
  | .follow | .write _ | .disturb .. => False
  | _ => True

theorem Happening.abstains {h : Happening} (haside : h.IsAside) : Abstains h.act := by
  cases h with
  | desk n => exact abstains_runDesk n
  | take n => exact abstains_runTake n
  | watcher => exact abstains_runWatcher
  | sleeper n => exact abstains_runSleeper n
  | carry =>
    exact .bind .get fun _ => .bind (.edit fun _ => ⟨rfl, rfl, rfl⟩) fun _ =>
      (abstains_carryControl _).discard
  | round c => exact (abstains_resume .client c).discard
  | post n w m => exact (abstains_postOrJoin n w m).discard
  | postGranted n w m => exact abstains_postGranted n w m
  | withdraw n w => exact abstains_withdraw n w
  | openDesk input isSpawned => exact (abstains_openDesk input isSpawned).discard
  | spawnDesk n => exact abstains_spawnDesk n
  | discardDesk n => exact abstains_discardDesk n
  | cancelDesk n => exact abstains_cancelDesk n
  | startControl => exact abstains_startControl
  | watchAlarm => exact abstains_watchAlarm
  | beginStop => exact abstains_beginStop
  | callOff id outcome => exact (abstains_callOff id outcome).discard
  | change | passTime | jump | reorder => exact .edit fun _ => ⟨rfl, rfl, rfl⟩
  | follow | write | disturb => exact haside.elim

/-- Schedules and desks are listed by their own ids, and the reports that wait are lawful. -/
def IsOrderly (s : Station) : Prop := s.store.IsKeyed ∧ Awaits s.store s

theorem IsOrderly.of_awaits (h : Awaits st s) (hkeyed : st.IsKeyed) : s.IsOrderly := by
  obtain rfl := h.store
  exact ⟨hkeyed, h⟩

theorem IsOrderly.write (h : s.IsOrderly) (e : Store.Edit) :
    (s.step (.write e)).IsOrderly ∧ (s.step (.write e)).store.live = (s.store.edit e).live := by
  have hafter := leads_write e s h.2
  have hkeyed := Store.isKeyed_edits h.1 [e]
  exact ⟨.of_awaits hafter (hkeyed.congr rfl), congrArg (·.live) hafter.store⟩

theorem IsOrderly.step (hs : s.IsOrderly) {h : Happening} (hown : ∀ e, h ≠ .write e) :
    (s.step h).IsOrderly ∧ s.store.Ages (s.step h).store := by
  have hof {act : Act Unit} (hact : Leads (Awaits s.store) act fun _ => Aged s.store) :
      (s.run act).2.IsOrderly ∧ s.store.Ages (s.run act).2.store := by
    obtain ⟨st, hkeyed, hages, hafter⟩ := hact s hs.2
    exact ⟨.of_awaits hafter hkeyed, hafter.store ▸ hages⟩
  by_cases haside : h.IsAside
  · exact hof ((Happening.abstains haside).ages hs.1)
  · cases h with
    | follow => exact hof (leads_follow hs.1)
    | write e => exact absurd rfl (hown e)
    | disturb refuses unreadable =>
      exact ⟨⟨hs.1.congr rfl, rfl, hs.2.keyed, hs.2.lawful⟩, .of_live rfl⟩
    | _ => exact absurd trivial haside

/-! ## The states of a schedule -/

/-- The state that each schedule was in when it was in use last. -/
abbrev Memory := ScheduleId → Option RecordingState

def Memory.learn (known : Memory) (store : Store) : Memory :=
  fun id => (store.stateOf? id).or (known id)

/-- Whoever else calls the store gives no schedule another state than it had last. -/
def Memory.IsKept (known : Memory) (s : Station) : Happening → Prop
  | .write e => ∀ x ∈ (s.store.edit e).schedules, known x.id = none ∨ known x.id = some x.state
  | _ => True

/-- Only the control loop gives schedules other states. -/
def OnlyReports (known : Memory) (s : Station) : List Happening → Prop
  | [] => True
  | h :: rest =>
    let known := known.learn s.store
    known.IsKept s h ∧ OnlyReports known (s.step h) rest

instance (known : Memory) (s : Station) : (h : Happening) → Decidable (known.IsKept s h)
  | .write e =>
    inferInstanceAs (Decidable (∀ x ∈ (s.store.edit e).schedules, _ ∨ _))
  | .desk _ | .take _ | .watcher | .sleeper _ | .carry | .follow | .round _ | .post _ _ _
  | .postGranted _ _ _ | .withdraw _ _ | .openDesk _ _ | .spawnDesk _ | .discardDesk _
  | .cancelDesk _ | .startControl | .watchAlarm | .beginStop | .disturb _ _ | .change _
  | .callOff _ _ | .passTime _ | .jump _ | .reorder _ => inferInstanceAs (Decidable True)

def decideOnlyReports :
    (known : Memory) → (s : Station) → (l : List Happening) → Decidable (s.OnlyReports known l)
  | _, _, [] => inferInstanceAs (Decidable True)
  | known, s, h :: rest =>
    have := decideOnlyReports (known.learn s.store) (s.step h) rest
    inferInstanceAs (Decidable ((known.learn s.store).IsKept s h ∧ _))

instance (known : Memory) (s : Station) (l : List Happening) :
    Decidable (s.OnlyReports known l) := decideOnlyReports known s l

/-- The states in which a schedule is in use, one at each moment at which it is. -/
def statesOf (id : ScheduleId) (s : Station) : List Happening → List RecordingState
  | [] => (s.store.stateOf? id).toList
  | h :: rest => (s.store.stateOf? id).toList ++ statesOf id (s.step h) rest

/-- No happening takes a schedule back to a state that it has left. -/
theorem IsOrderly.mayBecome (hs : s.IsOrderly) {known : Memory} {h : Happening}
    (hkept : (known.learn s.store).IsKept s h) {a b : RecordingState}
    (ha : known.learn s.store id = some a) (hb : (s.step h).store.stateOf? id = some b) :
    a.MayBecome b := by
  by_cases hown : ∃ e, h = .write e
  · obtain ⟨e, rfl⟩ := hown
    rw [Store.stateOf?, (hs.write e).2, Option.map_eq_some_iff] at hb
    obtain ⟨x, hx, rfl⟩ := hb
    have hid : x.id = id := Store.isKeyed_edits hs.1 [e] id x hx
    rcases hkept x (mem_values.mpr ⟨id, hx⟩) with hnone | hsame
    · cases (hid ▸ hnone).symm.trans ha
    · exact Or.inl (Option.some.inj (ha.symm.trans (hid ▸ hsame)))
  · obtain ⟨a', ha', hbecomes⟩ := (hs.step fun e heq => hown ⟨e, heq⟩).2 id b hb
    rw [Memory.learn, ha', Option.some_or] at ha
    exact Option.some.inj ha ▸ hbecomes

theorem IsOrderly.next (hs : s.IsOrderly) (h : Happening) : (s.step h).IsOrderly := by
  by_cases hown : ∃ e, h = .write e
  · obtain ⟨e, rfl⟩ := hown
    exact (hs.write e).1
  · exact (hs.step fun e heq => hown ⟨e, heq⟩).1

theorem isChain_insert {α : Type} {R : α → α → Prop} {last now : Option α} {l : List α}
    (hnext : ∀ a b, last = some a → now = some b → R a b)
    (hrest : ((now.or last).toList ++ l).IsChain R) :
    (last.toList ++ (now.toList ++ l)).IsChain R := by
  cases last with
  | none => simpa using hrest
  | some a =>
    cases now with
    | none => exact hrest
    | some b => exact List.isChain_cons_cons.mpr ⟨hnext a b rfl rfl, hrest⟩

theorem isChain_statesOf {known : Memory} {happenings : List Happening} (hs : s.IsOrderly)
    (honly : s.OnlyReports known happenings)
    (hknown : ∀ a b, known id = some a → s.store.stateOf? id = some b → a.MayBecome b) :
    ((known id).toList ++ s.statesOf id happenings).IsChain RecordingState.MayBecome := by
  -- On the happenings. What is kept is that the state comes after the one remembered last.
  induction happenings generalizing s known with
  | nil =>
    rw [statesOf, ← List.append_nil (s.store.stateOf? id).toList]
    refine isChain_insert hknown ?_
    cases (s.store.stateOf? id).or (known id) with
    | none => exact .nil
    | some a => exact .singleton a
  | cons h rest ih =>
    obtain ⟨hkept, hrest⟩ := honly
    exact isChain_insert hknown (ih (hs.next h) hrest fun a b ha hb => hs.mayBecome hkept ha hb)

theorem isOrderly_opening (settings : Settings) (around : Surroundings) (archive : Archive)
    (now : Instant) (alarm : Alarm) : (opening settings around archive now alarm).IsOrderly where
  left id x hx := by simp [opening] at hx
  right := ⟨rfl, fun n d hd => by simp [opening] at hd, List.forall_mem_nil _⟩

/-- Desks report in any order and as often as they like, and what they report may be late. As long
as only the control loop gives schedules other states, each of them is recorded only after it has
waited, ends only if it has not ended, and then stays as it is. -/
theorem reports_respect_life (settings : Settings) (around : Surroundings) (archive : Archive)
    (now : Instant) (alarm : Alarm) (happenings : List Happening)
    (honly : (opening settings around archive now alarm).OnlyReports (fun _ => none) happenings)
    (id : ScheduleId) :
    let states := (opening settings around archive now alarm).statesOf id happenings
    states.IsChain RecordingState.MayBecome ∧
      states.Pairwise fun earlier later => earlier ∈ endStates → later = earlier := by
  intro states
  have hchain : states.IsChain RecordingState.MayBecome :=
    isChain_statesOf (isOrderly_opening settings around archive now alarm) honly nofun
  have htrans : Trans RecordingState.MayBecome RecordingState.MayBecome
      RecordingState.MayBecome := ⟨.trans⟩
  exact ⟨hchain, (List.isChain_iff_pairwise.mp hchain).imp fun h => h.eq_of_ended⟩

/-- A recording ends before its start has been written, and so the schedule is handed over and
begins once more. Of the reports that come then nothing is written. -/
theorem reports_respect_life_handed_over_again :
    let around : Surroundings :=
      { catalog := (Catalog.putInput {} ⟨"tuner", 1, true⟩).putChannel ⟨1, "tuner", "One", none⟩ }
    let first := opening {} around {} 0 {}
    let happenings : List Happening := [.startControl, .write (.load 0),
      .write (.add [.timed 0 1 30000 90000 5]), .follow, .follow, .desk 1, .passTime 35000,
      .desk 1, .take 1, .callOff 1 .finished, .take 1, .desk 1,
      .round { roundDue := true }, .desk 1, .follow, .follow, .follow,
      .take 2, .callOff 1 .canceled, .take 2, .desk 1, .follow]
    let states := first.statesOf 1 happenings
    first.OnlyReports (fun _ => none) happenings ∧
      states = List.replicate 12 .notStarted ++ .inProgress :: List.replicate 7 .finished ∧
      states.IsChain RecordingState.MayBecome ∧
      states.Pairwise fun earlier later => earlier ∈ endStates → later = earlier := by
  intro around first happenings states
  have honly : first.OnlyReports (fun _ => none) happenings := by decide +kernel
  have hstates : states = List.replicate 12 .notStarted ++
      .inProgress :: List.replicate 7 .finished := by decide +kernel
  exact ⟨honly, hstates, reports_respect_life {} around {} 0 {} happenings honly 1⟩

end Station

end Timeshift
