import Timeshift.Proofs.Station.LifeCycle
import Timeshift.Proofs.Station.Updating

/-!
# What stays while a client waits

While a client waits, the workers of a station go on. They write the states of schedules, make new
ones, and note what is said about shows. None of them takes a schedule out of use, and none gives
a rule another state or priority.
-/

namespace Timeshift

open Admission (Message)

/-! ## Operations that sustain a store -/

namespace Store

variable {α β : Type} {s s' s'' : Store} {l : List Schedule}

/-- Every schedule is still in use, and every rule has the state and the priority that it had. -/
structure Sustains (s s' : Store) : Prop where
  keyed : s.IsKeyed → s'.IsKeyed
  live : ∀ id ∈ s.live, id ∈ s'.live
  rules : s.HasRuleIds → s'.HasRuleIds ∧ ∀ id rule, s.rule? id = some rule →
    ∃ rule', s'.rule? id = some rule' ∧ rule'.state = rule.state ∧ rule'.priority = rule.priority

namespace Sustains

theorem rules_of_same (hrules : s'.rules = s.rules) (hs : s.HasRuleIds) :
    s'.HasRuleIds ∧ ∀ id rule, s.rule? id = some rule →
      ∃ rule', s'.rule? id = some rule' ∧ rule'.state = rule.state ∧
        rule'.priority = rule.priority :=
  ⟨hs.congr hrules, fun id rule hrule =>
    ⟨rule, (congrArg (·[id]?) hrules).trans hrule, rfl, rfl⟩⟩

theorem of_same (hlive : s'.live = s.live) (hrules : s'.rules = s.rules) : Sustains s s' where
  keyed h := h.congr hlive
  live _ hid := hlive ▸ hid
  rules := rules_of_same hrules

theorem refl (s : Store) : Sustains s s := .of_same rfl rfl

theorem trans (h : Sustains s s') (h' : Sustains s' s'') : Sustains s s'' where
  keyed hs := h'.keyed (h.keyed hs)
  live id hid := h'.live id (h.live id hid)
  rules hs := by
    obtain ⟨hs', hrules⟩ := h.rules hs
    obtain ⟨hs'', hrules'⟩ := h'.rules hs'
    refine ⟨hs'', fun id rule hrule => ?_⟩
    obtain ⟨rule', hrule', hstate, hpriority⟩ := hrules id rule hrule
    obtain ⟨rule'', hrule'', hstate', hpriority'⟩ := hrules' id rule' hrule'
    exact ⟨rule'', hrule'', hstate'.trans hstate, hpriority'.trans hpriority⟩

theorem taken (h : Takes s l s') : Sustains s s' where
  keyed hs := (hs.hold l).congr h.live
  live id hid := by
    rw [h.live, mem_iff_get, get_hold]
    obtain ⟨x, hx⟩ := mem_iff_get.mp hid
    cases hcopy : copyIn l id with
    | none => exact ⟨x, hx⟩
    | some y => exact ⟨y, rfl⟩
  rules := rules_of_same h.rules

/-- A rule gets what is said about its show, and it stays under its id. -/
theorem withInfo {id : RuleId} {rule : SeriesRule} (hrule : s.rule? id = some rule)
    (info : SeriesInfo) (hlive : s'.live = s.live)
    (hrules : s'.rules = s.rules.insert rule.id (rule.withInfo info)) : Sustains s s' where
  keyed h := h.congr hlive
  live _ hid := hlive ▸ hid
  rules hs := by
    have hids : s'.HasRuleIds := hs.insert (rule.withInfo info) hrules
    refine ⟨hids, fun a old hold => ?_⟩
    rw [rule?, hrules, get_insert]
    split
    · next ha =>
      obtain rfl : rule = old := by
        rw [← ha, hs id rule hrule] at hold
        exact Option.some.inj (hrule.symm.trans hold)
      exact ⟨_, rfl, rfl, rfl⟩
    · exact ⟨old, hold, rfl, rfl⟩

end Sustains

def IsSustaining (op : Op α) : Prop := ∀ s : Store, Sustains s (s.run op).2

namespace IsSustaining

theorem pure (a : α) : IsSustaining (Pure.pure a) := .refl

theorem throw (fault : Fault) : IsSustaining (MonadExcept.throw fault : Op α) := .refl

theorem get : IsSustaining MonadState.get := .refl

theorem bind {op : Op α} {next : α → Op β} (h : IsSustaining op) (h' : ∀ a, IsSustaining (next a)) :
    IsSustaining (op >>= next) :=
  fun s => run_bind_trans (R := Sustains) Sustains.trans (h s) h'

theorem discard {op : Op α} (h : IsSustaining op) : IsSustaining (discard op) := by
  rw [discard_eq_bind]
  exact h.bind fun _ => .pure _

/-- The operation fails unseen. -/
theorem of_ok {op : Op α} (hfail : FailsUnseen op)
    (h : ∀ s a t, s.run op = (.ok a, t) → Sustains s t) : IsSustaining op := by
  intro s
  rcases hrun : s.run op with ⟨answer, t⟩
  cases answer with
  | ok a => exact h s a t hrun
  | error fault =>
    have hlike := hfail s fault (congrArg Prod.fst hrun)
    rw [hrun] at hlike
    exact .of_same hlike.live hlike.rules

theorem add (l : List Schedule) : IsSustaining (add l) := by
  refine .of_ok (failsUnseen_add l) fun s _ _ hrun => ?_
  have hnumbered : Sustains s (s.numbered l) := .of_same rfl rfl
  exact hnumbered.trans (.taken (takes_add hrun))

theorem update (l : List Schedule) : IsSustaining (update l) :=
  .of_ok (failsUnseen_update l) fun _ _ _ hrun => .taken (takes_update hrun)

theorem changeState (id : ScheduleId) (state : RecordingState) :
    IsSustaining (changeState id state) := by
  refine .bind .get fun store => ?_
  split
  · split
    · exact .pure _
    · exact .update _
  · exact .pure _

theorem applyReport (r : Report) : IsSustaining (Dispatch.applyReport r) := by
  refine .bind .get fun store => ?_
  split
  · split
    · exact .pure _
    · exact .changeState _ _
  · exact .pure _

theorem attach (rule : SeriesRule) (programs : List Program) :
    IsSustaining (Expansion.attach rule programs) := by
  refine .bind .get fun store => ?_
  have hrest : ∀ known, IsSustaining (unless List.isEmpty known do Store.update known) := by
    intro known
    split
    · exact .pure _
    · exact .update _
  dsimp only
  split
  · exact hrest _
  · exact (IsSustaining.add _).discard.bind fun _ => hrest _

theorem attachAll (picks : List (SeriesRule × List Program)) :
    IsSustaining (Expansion.attachAll picks) := by
  induction picks with
  | nil => exact .pure _
  | cons pick rest ih =>
    refine .bind .get fun store => ?_
    dsimp only
    split
    · split
      · exact ih
      · exact (IsSustaining.attach _ _).bind fun _ => ih.bind fun _ => .pure _
    · exact ih

theorem expand (filter : CandidateFilter) (found : List Program) :
    IsSustaining (Expansion.apply filter found) := .bind .get fun _ => .attachAll _

end IsSustaining

/-- An update of a rule that is not stored does nothing, and one that fails is not seen. -/
theorem run_updateRule (s : Store) (rule : SeriesRule) :
    LooksLike s (s.run (updateRule rule)).2 ∨
      (s.run (updateRule rule)).2.live = s.live ∧
        (s.run (updateRule rule)).2.rules = s.rules.insert rule.id rule := by
  have hfail := failsUnseen_updateRule rule s
  rcases hrun : s.run (updateRule rule) with ⟨answer, t⟩
  rw [hrun] at hfail
  cases answer with
  | error fault => exact Or.inl (hfail fault rfl)
  | ok =>
    rw [updateRule, run_bind, run_get] at hrun
    dsimp only at hrun
    split at hrun
    · obtain ⟨_, u, hput, hrun⟩ := run_bind_ok hrun
      have htakes := takes_persist hput
      obtain rfl := congrArg Prod.snd hrun
      exact Or.inr ⟨htakes.live, congrArg (·.insert rule.id rule) htakes.rules⟩
    · obtain rfl := congrArg Prod.snd hrun
      exact Or.inl (.refl s)

end Store

namespace Station

variable {α β : Type} {st : Store} {s : Station} {n : Nat}

/-! ## Acts that sustain the store -/

/-- The station is in order, and its store has been sustained since it was like this. -/
def Retains (st : Store) (s : Station) : Prop := s.IsOrderly ∧ st.Sustains s.store

/-- Whatever the act does, it sustains the store. -/
def IsRetaining (act : Act α) : Prop := ∀ st, Leads (Retains st) act fun _ => Retains st

theorem Retains.refl (h : s.IsOrderly) : Retains s.store s := ⟨h, .refl s.store⟩

theorem Abstains.retains {act : Act α} (h : Abstains act) : IsRetaining act := by
  intro st s hs
  have hafter := h s.store s hs.1.2
  exact ⟨.of_awaits hafter hs.1.1, hafter.store ▸ hs.2⟩

theorem IsOrderly.withStore (hs : s.IsOrderly) {op : Store.Op α}
    (h : (s.store.run op).2.IsKeyed) : (s.run (withStore op)).2.IsOrderly :=
  .of_awaits (leads_withStore op s hs.2) (h.congr rfl)

theorem Retains.withStore (hs : Retains st s) {op : Store.Op α}
    (h : s.store.Sustains (s.store.run op).2) : Retains st (s.run (withStore op)).2 := by
  refine ⟨hs.1.withStore (h.keyed hs.1.1), ?_⟩
  rw [(leads_withStore op s hs.1.2).store]
  exact (hs.2.trans h).trans (.of_same rfl rfl)

namespace IsRetaining

theorem pure (a : α) : IsRetaining (Pure.pure a) := fun _ _ h => h

theorem get : IsRetaining MonadState.get := fun _ _ h => h

theorem bind {act : Act α} {next : α → Act β} (h : IsRetaining act)
    (h' : ∀ a, IsRetaining (next a)) : IsRetaining (act >>= next) :=
  fun st => (h st).bind fun a => h' a st

theorem discard {act : Act α} (h : IsRetaining act) : IsRetaining (discard act) := h

theorem edit {f : Station → Station}
    (h : ∀ s, (f s).store = s.store ∧ (f s).desks = s.desks ∧
      (f s).control.reports = s.control.reports) : IsRetaining (modify f : Act Unit) :=
  (Abstains.edit h).retains

theorem withStore {op : Store.Op α} (h : Store.IsSustaining op) : IsRetaining (withStore op) :=
  fun _ s hs => hs.withStore (h s.store)

/-- What a client asks for goes on only as long as nothing fails. -/
theorem deed {act : Deed α} {next : α → Deed β} (h : IsRetaining act.run)
    (h' : ∀ a, IsRetaining (next a).run) : IsRetaining (act >>= next).run := by
  rw [ExceptT.run_bind]
  refine h.bind fun answer => ?_
  cases answer with
  | ok a => exact h' a
  | error fault => exact .pure _

theorem forEach {f : β → Deed Unit} (h : ∀ b, IsRetaining (f b).run) (l : List β) :
    IsRetaining (l.forM f).run := by
  induction l with
  | nil => exact .pure _
  | cons b rest ih => exact .deed (h b) fun _ => ih

end IsRetaining

/-! ## Workers that abstain -/

theorem abstains_listen (w : Worker) : Abstains (listen w) := .edit fun _ => ⟨rfl, rfl, rfl⟩

theorem abstains_stopListening (w : Worker) : Abstains (stopListening w) :=
  .edit fun _ => ⟨rfl, rfl, rfl⟩

theorem abstains_withDocket (step : Catalog → List Schedule → Docket → Docket.Step) :
    Abstains (withDocket step) := .edit fun _ => ⟨rfl, rfl, rfl⟩

theorem abstains_modifyFollower (n : Nat) (f : Follower → Follower) :
    Abstains (modifyFollower n f) := .edit fun _ => ⟨rfl, rfl, rfl⟩

theorem abstains_followLoop (n listener bound : Nat) : Abstains (followLoop n listener bound) := by
  induction bound with
  | zero => exact .pure _
  | succ bound ih =>
    refine (abstains_receive _).bind fun heard => ?_
    cases heard with
    | event e => exact (abstains_withDocket _).bind fun _ => ih
    | missed k => exact (abstains_withDocket _).bind fun _ => ih
    | nothing => exact abstains_listen _
    | gone => exact abstains_modifyFollower n _

theorem abstains_runFollower (n : Nat) : Abstains (runFollower n) := by
  refine .bind .get fun s => ?_
  split
  · split
    · exact .pure _
    · refine (abstains_stopListening _).bind fun _ => ?_
      split
      · refine (abstains_leave _).bind fun _ => ?_
        exact (abstains_modifyFollower n _).bind fun _ => abstains_wake _
      · exact abstains_followLoop n _ patience
  · exact .pure _

theorem abstains_modifyJob (n : Nat) (f : Job → Job) : Abstains (modifyJob n f) :=
  .edit fun _ => ⟨rfl, rfl, rfl⟩

/-- The act puts another station in the place of the one it has looked at. -/
theorem Abstains.replace {f : Station → Station} {next : Station → Act β}
    (h : ∀ s, (f s).store = s.store ∧ (f s).desks = s.desks ∧
      (f s).control.reports = s.control.reports) (h' : ∀ s, Abstains (next s)) :
    Abstains (MonadState.get >>= fun s => set (f s) >>= fun _ => next s) :=
  .look fun st s hs => .bind (Q := fun _ => Awaits st)
    (fun _ _ => Abstains.edit h st s hs) fun _ => h' s st

theorem abstains_callOffJobs (which : Job → Bool) : Abstains (callOffJobs which) :=
  .bind .get fun _ => .forM fun _ _ => (abstains_modifyJob _ _).bind fun _ => abstains_wake _

theorem abstains_addJob (e : Nat) (kind : JobKind) : Abstains (addJob e kind) :=
  .replace (fun _ => ⟨rfl, rfl, rfl⟩) fun _ => abstains_wake _

theorem abstains_withEngine (e : Nat) (step : Store → Engine → Engine.Step) :
    Abstains (withEngine e step) := by
  refine .replace (fun _ => ⟨rfl, rfl, rfl⟩) fun _ => .forM fun task _ => ?_
  cases task with
  | callOff id => exact abstains_callOffJobs _
  | update id rules => exact abstains_addJob e _
  | fetchInfo rule => exact abstains_addJob e _

theorem abstains_engineLoop (n : Nat) (l : EngineListener) (bound : Nat) :
    Abstains (engineLoop n l bound) := by
  induction bound with
  | zero => exact .pure _
  | succ bound ih =>
    refine (abstains_receive _).bind fun heard => ?_
    cases heard with
    | event e => exact (abstains_withEngine _ _).bind fun _ => ih
    | missed k => exact (abstains_withEngine _ _).bind fun _ => ih
    | nothing => exact abstains_listen _
    | gone => exact .edit fun _ => ⟨rfl, rfl, rfl⟩

theorem abstains_runEngineListener (n : Nat) : Abstains (runEngineListener n) := by
  refine .bind .get fun s => ?_
  split
  · next l _ =>
    split
    · exact .pure _
    · refine (abstains_stopListening _).bind fun _ => ?_
      split
      · exact (abstains_leave _).bind fun _ => .edit fun _ => ⟨rfl, rfl, rfl⟩
      · exact abstains_engineLoop n l patience
  · exact .pure _

/-! ## Workers that write -/

theorem isRetaining_controlLoop (bound : Nat) : IsRetaining (controlLoop bound) := by
  induction bound with
  | zero => exact .pure _
  | succ bound ih =>
    intro st
    refine .look fun s hs => ?_
    split
    · exact (abstains_endControl.retains st).here hs
    · split
      · next r rest hreports =>
        have hrest : ∀ r ∈ rest, r.IsLawful := fun x hx =>
          hs.1.2.lawful x (hreports ▸ List.mem_cons_of_mem r hx)
        refine .bind (Q := fun _ => Retains st) ?_ fun _ => ?_
        · rintro _ rfl
          exact ⟨⟨hs.1.1, rfl, hs.1.2.keyed, hrest⟩, hs.2⟩
        · exact (IsRetaining.withStore (.applyReport r)).discard.bind
            (fun _ => ih) st
      · refine IsRetaining.bind (Abstains.retains (abstains_receive _)) (fun heard => ?_) st
          |>.here hs
        have hcarry : ∀ c, IsRetaining (do if (← carryControl c) then controlLoop bound) := by
          refine fun c => (abstains_carryControl c).retains.bind fun idle => ?_
          cases idle with
          | true => exact ih
          | false => exact .pure _
        cases heard with
        | event e => exact hcarry _
        | missed k => exact hcarry _
        | nothing => exact (abstains_listen _).retains
        | gone => exact abstains_endControl.retains

theorem isRetaining_runControl : IsRetaining runControl := by
  refine .bind .get fun s => ?_
  split
  · refine (abstains_stopListening _).retains.bind fun _ => ?_
    refine (abstains_carryControl _).retains.bind fun idle => ?_
    cases idle with
    | true => exact isRetaining_controlLoop patience
    | false => exact .pure _
  · exact .pure _

theorem isRetaining_storeInfo (e : Nat) (rule : SeriesRule) : IsRetaining (storeInfo e rule) := by
  refine fun st => .look fun s hs => ?_
  split
  · exact (IsRetaining.pure _ st).here hs
  · split
    · next info _ =>
      split
      · next current hcurrent =>
        refine .bind (Q := fun _ => Retains st) ?_ fun answer => ?_
        · rintro t rfl
          refine hs.withStore ?_
          rcases Store.run_updateRule t.store (current.withInfo info) with
            hlike | ⟨hlive, hrules⟩
          · exact .of_same hlike.live hlike.rules
          · exact .withInfo hcurrent info hlive hrules
        · cases answer with
          | ok _ => exact (abstains_withEngine _ _).retains st
          | error _ => exact IsRetaining.pure _ st
      · exact (IsRetaining.pure _ st).here hs
    · exact (IsRetaining.pure _ st).here hs

theorem isRetaining_concludeJob (n : Nat) (j : Job) (found : Found) :
    IsRetaining (concludeJob n j found) := by
  refine (abstains_modifyJob n _).retains.bind fun _ => ?_
  split
  · have hfinish : IsRetaining (finishSearch found) := by
      rw [finishSearch]
      split
      · exact .pure _
      · exact .withStore (.expand _ _)
    exact hfinish.discard.bind fun _ => (abstains_withEngine _ _).retains
  · exact .pure _
  · next rule _ =>
    have htrial : Abstains (finishTrial j.engine rule found) :=
      .bind .get fun _ => (abstains_withEngine _ _).bind fun _ => .pure _
    exact htrial.retains.bind fun _ => .edit fun _ => ⟨rfl, rfl, rfl⟩

theorem isRetaining_beginJob (n : Nat) (j : Job) : IsRetaining (beginJob n j) := by
  refine .bind .get fun s => ?_
  split
  · have hsearch : ∀ filter, Abstains (search filter) := fun _ => .bind .get fun _ => .pure _
    refine (hsearch _).retains.bind fun found => ?_
    split
    · exact isRetaining_concludeJob n j found
    · exact (abstains_modifyJob n _).retains.bind fun _ => .edit fun _ => ⟨rfl, rfl, rfl⟩
  · refine (abstains_modifyJob n _).retains.bind fun _ => ?_
    split
    · exact isRetaining_storeInfo _ _
    · exact .pure _

theorem isRetaining_runJob (n : Nat) : IsRetaining (runJob n) := by
  refine .bind .get fun s => ?_
  split
  · next j _ =>
    split
    · exact .pure _
    · split
      · exact (abstains_modifyJob n _).retains
      · split
        · split
          · exact isRetaining_concludeJob n j _
          · exact .pure _
        · split
          · exact (abstains_modifyJob n _).retains
          · exact isRetaining_beginJob n j
  · exact .pure _

/-! ## Waiting -/

theorem isRetaining_turn (w : Worker) : IsRetaining (turn w) := by
  cases w with
  | desk n => exact (abstains_runDesk n).retains
  | take n => exact (abstains_runTake n).retains
  | control => exact isRetaining_runControl
  | watcher => exact abstains_runWatcher.retains
  | follower n => exact (abstains_runFollower n).retains
  | listener n => exact (abstains_runEngineListener n).retains
  | job n => exact isRetaining_runJob n
  | sleeper n => exact (abstains_runSleeper n).retains
  | client => exact .pure _

theorem isRetaining_drain (bound : Nat) : IsRetaining (drain bound) := by
  induction bound with
  | zero => exact .pure _
  | succ bound ih =>
    intro st
    refine .look fun s hs => ?_
    split
    · exact (IsRetaining.pure _ st).here hs
    · next w rest _ =>
      refine .bind (Q := fun _ => Retains st) ?_ fun _ => (isRetaining_turn w).bind (fun _ => ih) st
      rintro _ rfl
      exact ⟨⟨hs.1.1, rfl, hs.1.2.keyed, hs.1.2.lawful⟩, hs.2⟩

theorem isRetaining_comeBack : IsRetaining comeBack :=
  .bind (.edit fun _ => ⟨rfl, rfl, rfl⟩) fun _ => .bind .get fun _ => .pure _

theorem isRetaining_waitWithin (isOver : Station → Bool) (bound : Nat) :
    IsRetaining (waitWithin isOver bound) := by
  induction bound with
  | zero => exact .pure _
  | succ bound ih =>
    refine .bind .get fun s => ?_
    split
    · exact .pure _
    · refine (isRetaining_drain patience).bind fun _ => isRetaining_comeBack.bind fun more => ?_
      refine .bind .get fun s => ?_
      split
      · exact .pure _
      · split
        · exact ih
        · split
          · exact .pure _
          · exact .bind (.edit fun _ => ⟨rfl, rfl, rfl⟩) fun _ => ih

theorem isRetaining_waitUntil (isOver : Station → Bool) : IsRetaining (waitUntil isOver) :=
  (isRetaining_waitWithin isOver patience).bind fun _ => (abstains_rouse .client).retains

theorem isRetaining_waitAtMost (limit : Nat) (isOver : Station → Bool) :
    IsRetaining (waitAtMost limit isOver) :=
  .bind .get fun _ => (abstains_sleepUntil _ _).retains.bind fun _ => isRetaining_waitUntil _

/-- However long a client has to wait before it can post a message, nothing goes out of use. -/
theorem isRetaining_post (n : Nat) (message : Message) : IsRetaining (post n message) := by
  refine (abstains_postOrJoin n .client message).retains.bind fun posted => ?_
  cases posted with
  | done => exact .pure _
  | closed => exact .pure _
  | full =>
    refine .bind .get fun s => (isRetaining_waitAtMost _ _).bind fun _ => .bind .get fun s => ?_
    split
    · exact (abstains_postGranted n _ _).retains.bind fun _ => .pure _
    · split
      · exact .pure _
      · exact (abstains_withdraw n _).retains.bind fun _ => .pure _

theorem isRetaining_stopTask (x : Schedule) : IsRetaining (stopTask x).run := by
  refine .deed (fun _ _ h => h) fun s => ?_
  dsimp only
  split
  · exact .pure _
  · refine .deed (isRetaining_post _ _) fun posted => ?_
    cases posted with
    | ok _ => exact .pure _
    | error cause => exact .pure _

end Station

end Timeshift
