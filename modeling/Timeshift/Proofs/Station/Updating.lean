import Timeshift.Proofs.Station.Jobs
import Timeshift.Proofs.Station.Service

/-!
# Updating rules

Rules are asked for, the store changes, engines hear of it, and jobs search and write what they
have found, in any order. No rule is ever covered by two updates, and a job whose update has been
called off never writes.
-/

namespace Timeshift

open Engine (Task Steps)

/-! ## Writing for a rule -/

theorem Store.discard_eq_bind {α : Type} (op : Store.Op α) :
    discard op = op >>= fun _ => pure () := by
  simp only [discard, Functor.discard, LawfulFunctor.map_const, Function.comp_apply,
    map_eq_pure_bind, Function.const_apply]

namespace Expansion

open Store (IsFollowed)

theorem isFollowed_discard {α : Type} {op : Store.Op α} (h : IsFollowed op) :
    IsFollowed (discard op) := by
  rw [Store.discard_eq_bind]
  exact h.bind fun _ => .pure _

theorem isFollowed_attach (rule : SeriesRule) (programs : List Program) :
    IsFollowed (attach rule programs) := by
  refine fun s => .look ?_
  dsimp only
  refine IsFollowed.whenever (isFollowed_discard (Store.isFollowed_add _)) ?_ s
  split
  · exact .pure _
  · exact Store.isFollowed_update _

theorem isFollowed_attachAll (picks : List (SeriesRule × List Program)) :
    IsFollowed (attachAll picks) := by
  induction picks with
  | nil => exact .pure _
  | cons pick rest ih =>
    refine fun s => .look ?_
    dsimp only
    split
    · split
      · exact ih s
      · exact (isFollowed_attach _ _).bind (fun _ => ih.bind fun _ => .pure _) s
    · exact ih s

theorem isFollowed_apply (filter : CandidateFilter) (found : List Program) :
    IsFollowed (apply filter found) := fun _ => .look (isFollowed_attachAll _ _)

end Expansion

namespace Station

variable {α : Type} {base : Std.TreeMap Nat Job} {s : Station} {e n : Nat} {j : Job}
  {task : Task} {tasks more : List Task}

/-! ## The ledger -/

def IsStill (act : Act α) : Prop := ∀ s : Station, (s.run act).2.ledger = s.ledger

/-- If nothing was left to be carried out, then it is so afterwards. -/
def KeepsJobs (base : Std.TreeMap Nat Job) (act : Act α) : Prop :=
  Leads (fun s => s.ledger.IsAttended base) act fun _ s => s.ledger.IsAttended base

theorem IsStill.keeps {act : Act α} (h : IsStill act) : KeepsJobs base act := by
  intro s hs
  show Ledger.IsAttended base (s.run act).2.ledger
  rwa [h s]

theorem KeepsJobs.look {next : Station → Act α} (h : ∀ s, KeepsJobs base (next s)) :
    KeepsJobs base (get >>= next) := fun s hs => h s s hs

theorem KeepsJobs.bind {β : Type} {act : Act α} {next : α → Act β} (h : KeepsJobs base act)
    (h' : ∀ a, KeepsJobs base (next a)) : KeepsJobs base (act >>= next) := Leads.bind h h'

theorem KeepsJobs.pure (a : α) : KeepsJobs base (Pure.pure a) := fun _ hs => hs

theorem still_wake (w : Worker) : IsStill (wake w) := fun _ => rfl

theorem still_wakeAll (l : List Worker) : IsStill (wakeAll l) := by
  induction l with
  | nil => exact fun _ => rfl
  | cons w rest ih => exact fun s => ih (s.run (wake w)).2

theorem still_receive (listener : Nat) : IsStill (receive listener) := fun _ => rfl

theorem still_tellEvents : IsStill tellEvents := by
  intro s
  rw [tellEvents, run_look]
  split
  · rfl
  · rw [run_bind, run_set, still_wakeAll]
    rfl

/-! ### Writing -/

theorem ledger_withStore (s : Station) (op : Store.Op α) : (s.run (withStore op)).2.ledger =
    { s.ledger with rules := (s.store.run op).2.rules } :=
  still_tellEvents { s with store := (s.store.run op).2 }

theorem ledger_write (s : Station) (edit : Store.Edit) : (s.run (write edit)).2.ledger =
    { s.ledger with rules := (s.store.edit edit).rules } := by
  cases edit with
  | addRecorded r => exact ledger_withStore s (Store.addRecorded r)
  | _ => exact ledger_withStore s _

theorem keeps_withStore {op : Store.Op α} (h : Store.IsFollowed op) :
    KeepsJobs base (withStore op) := by
  intro s hs
  show Ledger.IsAttended base (s.run (withStore op)).2.ledger
  rw [ledger_withStore]
  refine Ledger.Attends.rest (e := 0) ?_
  exact (hs 0).rewrite rfl rfl (h s.store (hs 0).keyed).1

theorem keeps_write (edit : Store.Edit) : KeepsJobs base (write edit) := by
  intro s hs
  show Ledger.IsAttended base (s.run (write edit)).2.ledger
  rw [ledger_write]
  refine Ledger.Attends.rest (e := 0) ?_
  exact (hs 0).rewrite rfl rfl (Store.hasRuleIds_edits (hs 0).keyed [edit])

theorem ledger_finishSearch (s : Station) (hkeyed : s.store.HasRuleIds) (found : Found) :
    ∃ rules : Std.TreeMap RuleId SeriesRule,
      (∀ (id : RuleId) (rule : SeriesRule), rules[id]? = some rule → rule.id = id) ∧
        (s.run (finishSearch found)).2.ledger = { s.ledger with rules } := by
  rw [finishSearch]
  split
  · exact ⟨s.store.rules, hkeyed, rfl⟩
  · exact ⟨_, (Expansion.isFollowed_apply _ _ s.store hkeyed).1, ledger_withStore s _⟩

/-! ### Jobs -/

theorem keeps_modifyJob (n : Nat) {f : Job → Job} (hf : ∀ j : Job, j.TurnsInto (f j))
    (hserves : ∀ (j : Job) (i id : Nat), j.Serves i id → (f j).Serves i id) :
    KeepsJobs base (modifyJob n f) := by
  intro s hs
  refine Ledger.Attends.rest (e := 0) ?_
  exact (hs 0).retouchOne rfl rfl rfl hf fun j i id _ hj => Or.inl (hserves j i id hj)

/-- A job that is there for no update may end at any time. -/
theorem attended_endJob (h : s.ledger.IsAttended base) (hj : s.jobs[n]? = some j)
    (hnone : ∀ i id, ¬ j.Serves i id) : (s.run (endJob n)).2.ledger.IsAttended base := by
  refine Ledger.Attends.rest (e := 0) ?_
  refine (h 0).retouchOne rfl rfl rfl Job.turnsInto_ended ?_
  intro k i id hk hserves
  obtain rfl := Option.some.inj (hk.symm.trans hj)
  exact (hnone i id hserves).elim

theorem ledger_addJob (s : Station) (e : Nat) (kind : JobKind) :
    (s.run (addJob e kind)).2.ledger = { s.ledger with
      jobs := s.jobs.insert (fresh s.jobs)
        { engine := e, era := (s.engine e).era, kind
          isCancelled := (s.engine e).isOver && !kind.isTrial } } := rfl

theorem get_modifyAll {f : Job → Job} (hf : ∀ j, f (f j) = f j) (l : List (Nat × Job))
    (jobs : Std.TreeMap Nat Job) (k : Nat) :
    (l.foldl (fun m p => m.modify p.1 f) jobs)[k]? =
      (jobs[k]?).map fun j => if k ∈ l.map (·.1) then f j else j := by
  induction l generalizing jobs with
  | nil => simp
  | cons p rest ih =>
    rw [List.foldl_cons, ih, get_modify, Option.map_map]
    refine congrArg (Option.map · _) (funext fun j => ?_)
    simp only [Function.comp_apply, List.map_cons, List.mem_cons]
    by_cases hk : k = p.1 <;> by_cases hrest : k ∈ rest.map (·.1) <;> simp [hk, hrest, hf]

theorem ledger_callOffJobs (s : Station) (which : Job → Bool) :
    ∃ jobs : Std.TreeMap Nat Job,
      (s.run (callOffJobs which)).2.ledger = { s.ledger with jobs } ∧
        ∀ k : Nat, jobs[k]? = (s.jobs[k]?).map fun j =>
          if which j && !j.hasEnded then j.calledOff else j := by
  have hforM : ∀ (l : List (Nat × Job)) (s : Station),
      (s.run (l.forM fun p => do
        modifyJob p.1 Job.calledOff
        wake (.job p.1))).2.ledger =
          { s.ledger with jobs := l.foldl (fun m p => m.modify p.1 Job.calledOff) s.jobs } := by
    intro l
    induction l with
    | nil => exact fun s => rfl
    | cons p rest ih => exact fun s => ih _
  refine ⟨_, hforM (s.jobs.toList.filter fun p => which p.2 && !p.2.hasEnded) s, fun k => ?_⟩
  rw [get_modifyAll Job.calledOff_calledOff]
  cases hk : s.jobs[k]? with
  | none => rfl
  | some j =>
    have hmem : k ∈ (s.jobs.toList.filter fun p => which p.2 && !p.2.hasEnded).map (·.1) ↔
        (which j && !j.hasEnded) = true := by
      simp only [List.mem_map, List.mem_filter, Prod.exists, Std.TreeMap.mem_toList_iff_getElem?_eq_some]
      constructor
      · rintro ⟨_, j', ⟨hj', hwhich⟩, rfl⟩
        rwa [Option.some.inj (hk.symm.trans hj')]
      · exact fun hwhich => ⟨k, j, ⟨hk, hwhich⟩, rfl⟩
    simp only [Option.map_some, hmem]

/-! ## Carrying out -/

theorem leads_carryOut : Leads (fun s => s.ledger.Attends base e (task :: more)) (carryOut e task)
    fun _ s => s.ledger.Attends base e more := by
  intro s hs
  show Ledger.Attends base e more (s.run (carryOut e task)).2.ledger
  cases task with
  | callOff id =>
    obtain ⟨jobs, hledger, hjobs⟩ := ledger_callOffJobs s (·.isUpdate e id)
    rw [carryOut, hledger]
    have hcalled : Ledger.Attends base e (.callOff id :: more) { s.ledger with jobs } := by
      refine hs.retouch rfl rfl (fun m j => ?_) hjobs fun m j i id' hj hserves => ?_
      · split
        · exact j.turnsInto_calledOff
        · exact .refl j
      · split
        · next hcalled =>
          obtain ⟨rfl, rfl⟩ := Job.isUpdate_inj hserves.1 (Bool.and_eq_true_iff.mp hcalled).1
          exact Or.inr ⟨rfl, List.mem_cons_self⟩
        · exact Or.inl hserves
    refine hcalled.strike (by rintro _ _ ⟨⟩) ?_
    rintro _ ⟨⟩ m ⟨k, hk, hkupdate, hgoesOn, hruns⟩
    obtain ⟨j, -, rfl⟩ := Option.map_eq_some_iff.mp ((hjobs m).symm.trans hk)
    split at hgoesOn
    · cases hgoesOn
    · next hother =>
      rw [if_neg hother] at hkupdate hruns
      exact hother (by rw [hkupdate, hruns]; rfl)
  | update id rules =>
    rw [carryOut, ledger_addJob]
    refine hs.hire rfl rfl (get_fresh _) rfl (Or.inr ⟨id, rules, rfl, ?_, ?_, rfl⟩)
    · exact Job.isUpdate_iff.mpr ⟨rules, rfl, rfl⟩
    · show ((s.engine e).isOver && _) = false
      rw [show (s.engine e).isOver = false from hs.goesOn e, Bool.false_and]
  | fetchInfo rule =>
    have hhired : Ledger.Attends base e (.fetchInfo rule :: more)
        (s.run (addJob e (.fetchInfo rule))).2.ledger := by
      refine hs.hire rfl rfl (get_fresh _) rfl (Or.inl ⟨rfl, ?_⟩)
      exact fun _ _ => rfl
    exact hhired.strike (by rintro _ _ ⟨⟩) (by rintro _ ⟨⟩)

theorem leads_carryOutAll (tasks : List Task) :
    Leads (fun s => s.ledger.Attends base e tasks) (tasks.forM (carryOut e))
      fun _ s => s.ledger.IsAttended base := by
  induction tasks with
  | nil => exact fun s hs => hs.rest
  | cons task rest ih => exact leads_carryOut.bind fun _ => ih

theorem keeps_withEngine {step : Store → Engine → Engine.Step}
    (h : ∀ (store : Store) (engine : Engine), store.HasRuleIds → engine.IsTidy →
      Steps engine (step store engine)) : KeepsJobs base (withEngine e step) := by
  intro s hs
  have hsteps := h s.store (s.engine e) (hs e).keyed ((hs e).tidy e)
  exact leads_carryOutAll _ _ (Ledger.Attends.begin hs hsteps rfl rfl rfl)

/-- Carrying out tasks leaves the engines alone, and the jobs that none of the tasks calls off. -/
theorem frame_carryOutAll (tasks : List Task) (s : Station) :
    (s.run (tasks.forM (carryOut e))).2.engines = s.engines ∧
      ∀ (n : Nat) (j : Job), s.jobs[n]? = some j →
        (∀ id, .callOff id ∈ tasks → j.isUpdate e id = false) →
          (s.run (tasks.forM (carryOut e))).2.jobs[n]? = some j := by
  induction tasks generalizing s with
  | nil => exact ⟨rfl, fun n j hj _ => hj⟩
  | cons task rest ih =>
    have hadd : ∀ kind, (s.run (addJob e kind)).2.engines = s.engines ∧
        ∀ (n : Nat) (j : Job), s.jobs[n]? = some j → (s.run (addJob e kind)).2.jobs[n]? = some j := by
      refine fun kind => ⟨rfl, fun n j hj => ?_⟩
      show (s.jobs.insert (fresh s.jobs) _)[n]? = some j
      rw [get_insert, if_neg, hj]
      rintro rfl
      cases (get_fresh s.jobs).symm.trans hj
    have hone : (s.run (carryOut e task)).2.engines = s.engines ∧
        ∀ (n : Nat) (j : Job), s.jobs[n]? = some j →
          (∀ id, .callOff id = task → j.isUpdate e id = false) →
            (s.run (carryOut e task)).2.jobs[n]? = some j := by
      cases task with
      | callOff id =>
        obtain ⟨jobs, hledger, hjobs⟩ := ledger_callOffJobs s (·.isUpdate e id)
        refine ⟨congrArg Ledger.engines hledger, fun n j hj hother => ?_⟩
        have hget : (s.run (carryOut e (.callOff id))).2.jobs = jobs := congrArg Ledger.jobs hledger
        rw [hget, hjobs, hj, Option.map_some, hother id rfl, Bool.false_and, if_neg Bool.false_ne_true]
      | update id rules => exact (hadd _).imp_right fun h n j hj _ => h n j hj
      | fetchInfo rule => exact (hadd _).imp_right fun h n j hj _ => h n j hj
    obtain ⟨hengines, hjobs⟩ := ih (s.run (carryOut e task)).2
    refine ⟨hengines.trans hone.1, fun n j hj hother => ?_⟩
    refine hjobs n j (hone.2 n j hj fun id heq => ?_) fun id ht => hother id (List.mem_cons_of_mem _ ht)
    exact hother id (heq ▸ List.mem_cons_self)

theorem engine_withEngine (s : Station) (step : Store → Engine → Engine.Step) :
    (s.run (withEngine e step)).2.engine e = (step s.store (s.engine e)).1 := by
  have hengines := (frame_carryOutAll (e := e) (step s.store (s.engine e)).2
    { s with engines := s.engines.insert e (step s.store (s.engine e)).1 }).1
  show ((s.run (withEngine e step)).2.engines[e]?).getD {} = _
  rw [show (s.run (withEngine e step)).2.engines = _ from hengines, get_insert, if_pos rfl]
  rfl

theorem job_withEngine (step : Store → Engine → Engine.Step) (hj : s.jobs[n]? = some j)
    (hother : ∀ id, .callOff id ∈ (step s.store (s.engine e)).2 → j.isUpdate e id = false) :
    (s.run (withEngine e step)).2.jobs[n]? = some j :=
  (frame_carryOutAll _ { s with engines := s.engines.insert e _ }).2 n j hj hother

theorem keeps_addJob {kind : JobKind} (h : ∀ id rules, kind ≠ .update id rules) :
    KeepsJobs base (addJob e kind) := by
  intro s hs
  refine Ledger.Attends.rest (e := 0) ?_
  refine (hs 0).hire rfl rfl (get_fresh _) rfl (Or.inl ⟨rfl, fun i id => ?_⟩)
  refine Bool.eq_false_iff.mpr fun hid => ?_
  obtain ⟨rules, hkind, -⟩ := Job.isUpdate_iff.mp hid
  exact h id rules hkind

/-! ## Engines -/

theorem keeps_refresh (e : Nat) (rules : List SeriesRule) :
    KeepsJobs base (withEngine e fun store engine => engine.refresh store rules) :=
  keeps_withEngine fun _ _ hids htidy => Engine.refresh_steps htidy hids rules

theorem keeps_refreshAll (e : Nat) :
    KeepsJobs base (withEngine e fun store engine => engine.refreshAll store) :=
  keeps_withEngine fun _ _ hids htidy => Engine.refreshAll_steps htidy hids

theorem keeps_restartAll (e : Nat) :
    KeepsJobs base (withEngine e fun store engine => engine.restartAll store) :=
  keeps_withEngine fun _ _ hids htidy => Engine.restartAll_steps htidy hids

theorem keeps_finishTrial (e : Nat) (rule : SeriesRule) (found : Found) :
    KeepsJobs base (finishTrial e rule found) := by
  exact .look fun s => .bind (keeps_restartAll e) fun _ => .pure _

theorem keeps_storeInfo (e : Nat) (rule : SeriesRule) : KeepsJobs base (storeInfo e rule) := by
  refine .look fun s => ?_
  split
  · exact .pure _
  · split
    · split
      · refine (keeps_withStore (Store.isFollowed_updateRule _)).bind fun result => ?_
        cases result with
        | ok _ => exact keeps_withEngine fun store engine _ htidy => .quiet htidy rfl rfl id (by simp)
        | error _ => exact .pure _
      · exact .pure _
    · exact .pure _

theorem keeps_engineLoop (n : Nat) (l : EngineListener) (bound : Nat) :
    KeepsJobs base (engineLoop n l bound) := by
  induction bound with
  | zero => exact .pure _
  | succ bound ih =>
    refine .bind (still_receive l.listener).keeps fun found => ?_
    cases found with
    | event event =>
      refine .bind (keeps_withEngine fun store engine hids htidy => ?_) fun _ => ih
      exact Engine.handle_steps htidy hids event
    | missed k => exact .bind (keeps_refreshAll _) fun _ => ih
    | nothing => exact IsStill.keeps fun _ => rfl
    | gone => exact IsStill.keeps fun _ => rfl

theorem keeps_runEngineListener (n : Nat) : KeepsJobs base (runEngineListener n) := by
  refine .look fun s => ?_
  split
  · split
    · exact .pure _
    · refine .bind (IsStill.keeps fun _ => rfl) fun _ => ?_
      split
      · exact IsStill.keeps fun _ => rfl
      · exact keeps_engineLoop n _ _
  · exact .pure _

theorem keeps_startEngine (e : Nat) : KeepsJobs base (startEngine e) := by
  refine .look fun s => ?_
  dsimp only
  split
  · exact .pure _
  · refine .bind (keeps_withEngine fun store engine _ htidy => ?_) fun _ => ?_
    · exact .quiet htidy rfl rfl id (by simp)
    · split
      · exact .pure _
      · refine .bind (IsStill.keeps fun _ => rfl) fun listener => ?_
        refine .bind (IsStill.keeps fun _ => rfl) fun _ => ?_
        refine .bind (still_wake _).keeps fun _ => ?_
        refine .bind (keeps_withEngine fun store engine hids htidy => ?_) fun _ =>
          .pure _
        exact Engine.enterEra_steps htidy hids

/-! ## Turns of a job -/

theorem attended_concludeJob (h : s.ledger.IsAttended base) (hj : s.jobs[n]? = some j)
    (hgoesOn : j.isCancelled = false ∧ j.hasEnded = false) (found : Found) :
    (s.run (concludeJob n j found)).2.ledger.IsAttended base := by
  rw [concludeJob, run_bind]
  cases hkind : j.kind with
  | update id rules =>
    obtain ⟨rules', hkeyed, hledger⟩ :=
      ledger_finishSearch (s.run (endJob n)).2 (h 0).keyed found
    have hserves : j.Serves j.engine id := ⟨Job.isUpdate_iff.mpr ⟨rules, hkind, rfl⟩, hgoesOn⟩
    have hengines := congrArg (fun t => t.engines.insert j.engine ((t.engine j.engine).complete id))
      hledger
    refine Ledger.Attends.conclude h hj hserves hengines (congrArg Ledger.jobs hledger) ?_
    exact congrArg Ledger.rules hledger ▸ hkeyed
  | fetchInfo rule =>
    exact attended_endJob h hj fun i id => Job.not_serves_of_kind (by rw [hkind]; rintro _ _ ⟨⟩)
  | expand rule =>
    have hended := attended_endJob h hj fun i id =>
      Job.not_serves_of_kind (by rw [hkind]; rintro _ _ ⟨⟩)
    exact (keeps_finishTrial j.engine rule found).bind (fun _ => IsStill.keeps fun _ => rfl) _ hended

theorem attended_beginJob (h : s.ledger.IsAttended base) (hj : s.jobs[n]? = some j)
    (hgoesOn : j.isCancelled = false ∧ j.hasEnded = false) :
    (s.run (beginJob n j)).2.ledger.IsAttended base := by
  rw [beginJob, run_look]
  split
  · rw [run_bind]
    split
    · exact attended_concludeJob h hj hgoesOn _
    · refine KeepsJobs.bind (keeps_modifyJob n ?_ ?_) (fun _ => IsStill.keeps ?_) s h
      · exact fun k => ⟨rfl, rfl, id, id⟩
      · exact fun k i id hk => hk
      · exact fun _ => rfl
  · next hnone =>
    have hkind : ∀ id rules, j.kind ≠ .update id rules := by
      rintro id rules hkind
      rw [hkind] at hnone
      cases hnone
    rw [run_bind]
    have hended := attended_endJob h hj fun i id => Job.not_serves_of_kind hkind
    split
    · exact keeps_storeInfo _ _ _ hended
    · exact hended

theorem keeps_runJob (n : Nat) : KeepsJobs base (runJob n) := by
  intro s hs
  show Ledger.IsAttended base (s.run (runJob n)).2.ledger
  rw [runJob, run_look]
  split
  · next j hj =>
    split
    · exact hs
    · next hended =>
      split
      · next hcancelled =>
        refine attended_endJob hs hj fun i id hserves => ?_
        exact Bool.false_ne_true (hserves.2.1.symm.trans hcancelled)
      · next hcancelled =>
        have hgoesOn : j.isCancelled = false ∧ j.hasEnded = false :=
          ⟨Bool.eq_false_iff.mpr hcancelled, Bool.eq_false_iff.mpr hended⟩
        split
        · split
          · exact attended_concludeJob hs hj hgoesOn _
          · exact hs
        · split
          · next hearly =>
            -- Only a trial of a rule can be too early.
            refine attended_endJob hs hj fun i id => Job.not_serves_of_kind fun id rules hkind => ?_
            rw [isTooEarly, hkind] at hearly
            cases hearly
          · exact attended_beginJob hs hj hgoesOn
  · exact hs

theorem store_runJob (hj : s.jobs[n]? = some j) (hover : j.isCancelled = true ∨ j.hasEnded = true) :
    (s.run (runJob n)).2.store = s.store := by
  rw [runJob, run_look, hj]
  dsimp only
  split
  · rfl
  · next hended =>
    rw [if_pos (hover.resolve_right hended)]
    rfl

theorem keeps_setGate (isOpen : Bool) : KeepsJobs base (setGate isOpen) := by
  refine .look fun s => .bind (IsStill.keeps fun _ => rfl) fun _ => ?_
  split
  · refine .bind (IsStill.keeps fun _ => rfl) fun _ => ?_
    refine Leads.forM (fun n => ?_) _
    refine KeepsJobs.bind ?_ fun _ => (still_wake _).keeps
    exact keeps_modifyJob n (fun k => ⟨rfl, rfl, id, id⟩) fun k i id hk => hk
  · exact .pure _

/-! ## Acts of a client -/

theorem keeps_deed {β : Type} {act : Deed α} {next : α → Deed β} (h : KeepsJobs base act.run)
    (h' : ∀ a, KeepsJobs base (next a).run) : KeepsJobs base (act >>= next).run := by
  rw [ExceptT.run_bind]
  refine h.bind fun result => ?_
  cases result with
  | ok a => exact h' a
  | error fault => exact .pure _

theorem keeps_tryRule (e : Nat) (rule : SeriesRule) : KeepsJobs base (tryRule e rule).run := by
  refine keeps_deed (IsStill.keeps fun _ => rfl) fun s => ?_
  have htried : KeepsJobs base (ExceptT.run do
      let found ← (search (Expansion.trialFilter s.store rule s.now) : Act Found)
      ExceptT.mk (finishTrial e rule found)) :=
    keeps_deed (IsStill.keeps fun _ => rfl) (keeps_finishTrial e rule)
  split
  · exact htried
  · exact keeps_deed (IsStill.keeps fun _ => rfl) fun _ => htried

theorem keeps_finishSearch (found : Found) : KeepsJobs base (finishSearch found) := by
  rw [finishSearch]
  split
  · exact .pure _
  · exact keeps_withStore (Expansion.isFollowed_apply _ _)

theorem keeps_updateNow (rules : List SeriesRule) (isCanceled : Bool) :
    KeepsJobs base (updateNow rules isCanceled).run := by
  refine keeps_deed (IsStill.keeps fun _ => rfl) fun s => ?_
  refine keeps_deed (IsStill.keeps fun _ => rfl) fun found => ?_
  split
  · split
    · exact IsStill.keeps fun _ => rfl
    · exact IsStill.keeps fun _ => rfl
  · exact keeps_finishSearch found

theorem attended_opening (settings : Settings) (around : Surroundings) (archive : Archive)
    (now : Instant) (alarm : Alarm) :
    (opening settings around archive now alarm).ledger.IsAttended ∅ := fun e =>
  { follows := fun n j hj => by simp at hj
    keyed := fun id rule hrule => by simp [ledger, opening] at hrule
    tidy := fun i => by
      have hblank : (opening settings around archive now alarm).ledger.engine i = {} := by
        simp [Ledger.engine, ledger, opening]
      rw [hblank]
      exact ⟨List.Pairwise.nil, List.nodup_nil, fun u hu => absurd hu List.not_mem_nil⟩
    goesOn := fun i => by simp [Ledger.engine, ledger, opening]
    single := fun n m j k hj => by simp [ledger, opening] at hj
    known := fun n j hj => by simp [ledger, opening] at hj
    served := fun i u hu => by simp [Ledger.engine, ledger, opening] at hu
    listed := fun n i id hn => by simp [Ledger.IsServed, ledger, opening] at hn
    begun := fun id rules ht => absurd ht List.not_mem_nil
    ended := fun id ht => absurd ht List.not_mem_nil
    once := List.nodup_nil }

end Station

namespace Updating

open Station (Act KeepsJobs)

/-- What can happen to a station with series engines. -/
inductive Move where
  /-- Some rules are to be updated. -/
  | ask (e : Nat) (rules : List SeriesRule)
  | askAll (e : Nat)
  | start (e : Nat)
  | listener (n : Nat)
  | job (n : Nat)
  | tryRule (e : Nat) (rule : SeriesRule)
  /-- A rule is tried in a job. -/
  | expand (e : Nat) (rule : SeriesRule)
  /-- A client updates rules by itself. -/
  | updateNow (rules : List SeriesRule) (isCanceled : Bool)
  | write (edit : Store.Edit)
  | gate (isOpen : Bool)
  | change (f : Surroundings → Surroundings)
  | passTime (elapsed : Nat)
  | jump (delta : Int64)
  /-- Whose turn it is changes. -/
  | reorder (f : Agenda → Agenda)

def Move.act : Move → Act Unit
  | .ask e rules => Station.withEngine e fun store engine => engine.refresh store rules
  | .askAll e => Station.withEngine e fun store engine => engine.refreshAll store
  | .start e => discard (Station.startEngine e)
  | .listener n => Station.runEngineListener n
  | .job n => Station.runJob n
  | .tryRule e rule => discard (Station.tryRule e rule).run
  | .expand e rule => Station.addJob e (.expand rule)
  | .updateNow rules isCanceled => discard (Station.updateNow rules isCanceled).run
  | .write edit => Station.write edit
  | .gate isOpen => Station.setGate isOpen
  | .change f => Station.changeAround f
  | .passTime elapsed => Station.passTime elapsed
  | .jump delta => Station.jump delta
  | .reorder f => modify fun s => { s with agenda := f s.agenda }

def step (s : Station) (m : Move) : Station := (s.run m.act).2

def run (s : Station) (moves : List Move) : Station := moves.foldl step s

variable {base : Std.TreeMap Nat Job} {s : Station}

def IsReached (s : Station) : Prop := ∃ settings around archive now alarm moves,
  run (Station.opening settings around archive now alarm) moves = s

theorem IsReached.step (h : IsReached s) (m : Move) : IsReached (step s m) := by
  obtain ⟨settings, around, archive, now, alarm, moves, rfl⟩ := h
  exact ⟨settings, around, archive, now, alarm, moves ++ [m], List.foldl_concat ..⟩

theorem keeps_act (m : Move) : KeepsJobs base m.act := by
  cases m with
  | ask e rules => exact Station.keeps_refresh e rules
  | askAll e => exact Station.keeps_refreshAll e
  | start e => exact (Station.keeps_startEngine e).discard
  | listener n => exact Station.keeps_runEngineListener n
  | job n => exact Station.keeps_runJob n
  | tryRule e rule => exact (Station.keeps_tryRule e rule).discard
  | expand e rule => exact Station.keeps_addJob (by rintro _ _ ⟨⟩)
  | updateNow rules isCanceled => exact (Station.keeps_updateNow rules isCanceled).discard
  | write edit => exact Station.keeps_write edit
  | gate isOpen => exact Station.keeps_setGate isOpen
  | change f => exact Station.IsStill.keeps fun _ => rfl
  | passTime elapsed => exact Station.IsStill.keeps fun _ => rfl
  | jump delta => exact Station.IsStill.keeps fun _ => rfl
  | reorder f => exact Station.IsStill.keeps fun _ => rfl

theorem attended_run (h : s.ledger.IsAttended base) (moves : List Move) :
    (run s moves).ledger.IsAttended base := by
  induction moves generalizing s with
  | nil => exact h
  | cons m rest ih => exact ih (keeps_act m s h)

/-- No rule is covered twice, and for every update on a list exactly one job goes on. -/
structure IsOrderly (s : Station) : Prop where
  apart : ∀ e, (s.engine e).updates.Pairwise RuleUpdate.IsApartFrom
  served : ∀ e id, (∃ u ∈ (s.engine e).updates, u.id = id) ↔ ∃! n, s.ledger.IsServed n e id

/-- Some rules have been asked for, in a step from `s` to `s'`. -/
structure Renews (e : Nat) (rules : List SeriesRule) (s s' : Station) : Prop where
  /-- What is asked for is covered anew, and so is the rest of what has to be called off for it. -/
  covered : ∀ id, (s.store.rule? id).isSome = true →
    (id ∈ rules.map (·.id) ∨
      ∃ u ∈ (s.engine e).updates, Engine.shares rules u = true ∧ u.covers id = true) →
    ((s'.engine e).updates.filter (·.covers id)).length = 1
  calledOff : ∀ u ∈ (s.engine e).updates, Engine.shares rules u = true →
    ∀ n, ¬ s'.ledger.IsServed n e u.id
  untouched : ∀ u ∈ (s.engine e).updates, Engine.shares rules u = false →
    u ∈ (s'.engine e).updates ∧ ∀ n, s.ledger.IsServed n e u.id → s'.jobs[n]? = s.jobs[n]?

theorem isOrderly_of_attended (h : s.ledger.IsAttended base) : IsOrderly s where
  apart e := ((h e).tidy e).apart
  served _ _ := h.lists_iff

theorem renews_ask (h : s.ledger.IsAttended base) (hloaded : s.store.isLoaded = true) (e : Nat)
    (rules : List SeriesRule) : Renews e rules s (step s (.ask e rules)) := by
  have htidy : (s.engine e).IsTidy := (h e).tidy e
  have hids : s.store.HasRuleIds := (h e).keyed
  have hengine : (step s (.ask e rules)).engine e = ((s.engine e).refresh s.store rules).1 :=
    Station.engine_withEngine s fun store engine => engine.refresh store rules
  refine ⟨fun id hstored hid => ?_, fun u hu hshares n hn => ?_, fun u hu hapart => ⟨?_, fun n hn => ?_⟩⟩
  · rw [hengine]
    exact Engine.length_covering_refresh htidy hids hloaded hstored hid
  · have hafter : (step s (.ask e rules)).ledger.IsAttended base := keeps_act (.ask e rules) s h
    obtain ⟨v, hv, hid⟩ := hafter.listed hn
    rw [show (step s (.ask e rules)).ledger.engine e = _ from hengine] at hv
    exact ((Engine.refresh_steps htidy hids rules).ended u.id
      (Engine.callOff_mem_refresh htidy hu hshares)).2 v hv hid
  · rw [hengine]
    exact (Engine.mem_refresh_of_apart htidy s.store hu hapart).1
  · obtain ⟨j, hj, hserves⟩ := hn
    rw [show s.jobs[n]? = some j from hj]
    refine Station.job_withEngine (fun store engine => engine.refresh store rules) hj fun id ht => ?_
    refine Bool.eq_false_iff.mpr fun hid => ?_
    obtain ⟨-, rfl⟩ := Job.isUpdate_inj hid hserves.1
    exact (Engine.mem_refresh_of_apart htidy s.store hu hapart).2 ht

/-- A job that has been called off never writes, and neither does one whose update is on no list. -/
theorem store_job_of_over (h : s.ledger.IsAttended base) {n : Nat} {j : Job}
    (hj : s.jobs[n]? = some j)
    (hover : j.isCancelled = true ∨
      ∃ e id, j.isUpdate e id = true ∧ ∀ u ∈ (s.engine e).updates, u.id ≠ id)
    (later : List Move) : (step (run s later) (.job n)).store = (run s later).store := by
  have hended : j.isCancelled = true ∨ j.hasEnded = true := by
    rcases hover with hcancelled | ⟨e, id, hid, hnone⟩
    · exact Or.inl hcancelled
    · by_contra hgoesOn
      rw [not_or, Bool.not_eq_true, Bool.not_eq_true] at hgoesOn
      obtain ⟨u, hu, hsame⟩ := h.listed ⟨j, hj, hid, hgoesOn⟩
      exact hnone u hu hsame
  obtain ⟨k, hk, hturns⟩ := (attended_run h.rebase later 0).follows n j hj
  exact Station.store_runJob hk (hended.imp hturns.cancelled hturns.ended)

/-- Whatever happens, no rule is in two updates, and one job goes on for each of them. Right after
rules are asked for, each stored one is in exactly one update. A job that has been called off never
writes. -/
theorem each_rule_in_one_update {s : Station} (hs : IsReached s) :
    IsOrderly s ∧
      (s.store.isLoaded = true → ∀ e rules, Renews e rules s (step s (.ask e rules))) ∧
      ∀ (n : Nat) (j : Job), s.jobs[n]? = some j →
        (j.isCancelled = true ∨
          ∃ e id, j.isUpdate e id = true ∧ ∀ u ∈ (s.engine e).updates, u.id ≠ id) →
        ∀ later, (step (run s later) (.job n)).store = (run s later).store := by
  obtain ⟨settings, around, archive, now, alarm, moves, rfl⟩ := hs
  have h := attended_run (Station.attended_opening settings around archive now alarm) moves
  exact ⟨isOrderly_of_attended h, renews_ask h, fun n j hj hover => store_job_of_over h hj hover⟩

/-- A rule is asked for again while what has been found for it is held back. -/
theorem each_rule_in_one_update_asked_again :
    let rule : SeriesRule := { SeriesRule.ofKey "show" "tuner" 1 with id := 1 }
    let program : Program :=
      { (default : Program) with
        id := 10, channelId := 1, seriesKey := some "show", season := some "1", episode := some "1",
        starts := 100, ends := 150 }
    let around : Surroundings := { catalog := { guide := [program] }, gateIsOpen := false }
    let s := run (Station.opening {} around {} 50 {}) [.write (.load 0), .write (.addRule rule),
      .write (.addRule { rule with seriesKey := "other" }), .start 0, .job 3]
    let s' := step s (.ask 0 [rule])
    s.store.isLoaded = true ∧
      (s.engine 0).updates.map (fun u => (u.id, u.rules.map (·.id))) = [(1, [1]), (2, [2])] ∧
      ((s'.engine 0).updates.filter (·.covers 1)).length = 1 ∧
      (s'.jobs[3]?).any (·.isUpdate 0 1) = true ∧ (∀ n, ¬ s'.ledger.IsServed n 0 1) ∧
      (run s [.gate true, .job 3]).store.schedules.map (·.programId) = [some 10] ∧
      (step (run s' [.gate true]) (.job 3)).store = (run s' [.gate true]).store := by
  intro rule program around s s'
  have hs : IsReached s := ⟨_, _, _, _, _, _, rfl⟩
  have hloaded : s.store.isLoaded = true := by decide +kernel
  obtain ⟨hcovered, hcalledOff, -⟩ := (each_rule_in_one_update hs).2.1 hloaded 0 [rule]
  obtain ⟨u, hu, hid, hshares⟩ : ∃ u ∈ (s.engine 0).updates, u.id = 1 ∧
      Engine.shares [rule] u = true := by decide +kernel
  have hgone := hcalledOff u hu hshares
  rw [hid] at hgone
  have hcancelled : (s'.jobs[3]?).any (·.isCancelled) = true := by decide +kernel
  obtain ⟨j, hj, hcancelled⟩ := (Option.any_eq_true _ _).mp hcancelled
  have hsilent := (each_rule_in_one_update (hs.step (.ask 0 [rule]))).2.2 3 j hj (Or.inl hcancelled)
  exact ⟨hloaded, by decide +kernel, hcovered 1 (by decide +kernel) (Or.inl (by decide)),
    by decide +kernel, hgone, by decide +kernel, hsilent [.gate true]⟩

end Updating

end Timeshift
