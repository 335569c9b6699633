import Timeshift.Proofs.Expansion.Engine
import Timeshift.Proofs.Station.Acts

/-!
# Jobs of the series engines

For every update on the list of an engine there is exactly one job that goes on, and no job goes on
for any other update. This is so when all that an engine wants has been carried out. Before, the
difference is what is still to be carried out.
-/

namespace Timeshift

open Engine (Task Steps)

theorem get_modify {α : Type} (m : Std.TreeMap Nat α) (n k : Nat) (f : α → α) :
    (m.modify n f)[k]? = (m[k]?).map fun v => if k = n then f v else v := by
  rw [Std.TreeMap.getElem?_modify]
  by_cases hk : n = k
  · subst hk
    simp
  · simp [hk, Ne.symm hk]

/-! ## Jobs -/

namespace Job

variable {j k l : Job} {i id : Nat}

/-- The job is there for the update, and goes on. -/
def Serves (j : Job) (i id : Nat) : Prop :=
  j.isUpdate i id = true ∧ j.isCancelled = false ∧ j.hasEnded = false

/-- What can come of a job. It never begins again. -/
structure TurnsInto (j k : Job) : Prop where
  engine : k.engine = j.engine
  kind : k.kind = j.kind
  cancelled : j.isCancelled = true → k.isCancelled = true
  ended : j.hasEnded = true → k.hasEnded = true

namespace TurnsInto

theorem refl (j : Job) : j.TurnsInto j := ⟨rfl, rfl, id, id⟩

theorem trans (h : j.TurnsInto k) (h' : k.TurnsInto l) : j.TurnsInto l where
  engine := h'.engine.trans h.engine
  kind := h'.kind.trans h.kind
  cancelled hj := h'.cancelled (h.cancelled hj)
  ended hj := h'.ended (h.ended hj)

theorem isUpdate (h : j.TurnsInto k) (i id : Nat) : k.isUpdate i id = j.isUpdate i id := by
  rw [Job.isUpdate, Job.isUpdate, h.kind, h.engine]

theorem serves (h : j.TurnsInto k) (hk : k.Serves i id) : j.Serves i id := by
  obtain ⟨hupdate, hcancelled, hended⟩ := hk
  refine ⟨h.isUpdate i id ▸ hupdate, ?_, ?_⟩
  · exact Bool.eq_false_iff.mpr fun hj => by simp [h.cancelled hj] at hcancelled
  · exact Bool.eq_false_iff.mpr fun hj => by simp [h.ended hj] at hended

end TurnsInto

def calledOff (j : Job) : Job := { j with isCancelled := true }

theorem calledOff_calledOff (j : Job) : j.calledOff.calledOff = j.calledOff := rfl

theorem turnsInto_calledOff (j : Job) : j.TurnsInto j.calledOff := ⟨rfl, rfl, fun _ => rfl, id⟩

def ended (j : Job) : Job := { j with hasEnded := true }

theorem turnsInto_ended (j : Job) : j.TurnsInto j.ended := ⟨rfl, rfl, id, fun _ => rfl⟩

theorem isUpdate_iff : j.isUpdate i id = true ↔ ∃ rules, j.kind = .update id rules ∧ j.engine = i := by
  rw [isUpdate]
  split
  · next other rules hkind =>
    rw [Bool.and_eq_true, beq_iff_eq, beq_iff_eq]
    constructor
    · rintro ⟨rfl, rfl⟩
      exact ⟨rules, hkind, rfl⟩
    · rintro ⟨rules', hkind', rfl⟩
      obtain ⟨rfl, -⟩ := JobKind.update.inj (hkind.symm.trans hkind')
      exact ⟨rfl, rfl⟩
  · next hkind =>
    refine ⟨fun h => (Bool.false_ne_true h).elim, ?_⟩
    rintro ⟨rules, hupdate, -⟩
    exact (hkind id rules hupdate).elim

theorem not_serves_of_kind (h : ∀ id rules, j.kind ≠ .update id rules) : ¬ j.Serves i id := by
  intro hserves
  obtain ⟨rules, hkind, -⟩ := isUpdate_iff.mp hserves.1
  exact h id rules hkind

theorem isUpdate_inj {i' id' : Nat} (h : j.isUpdate i id = true) (h' : j.isUpdate i' id' = true) :
    i = i' ∧ id = id' := by
  obtain ⟨rules, hkind, rfl⟩ := isUpdate_iff.mp h
  obtain ⟨rules', hkind', rfl⟩ := isUpdate_iff.mp h'
  exact ⟨rfl, (JobKind.update.inj (hkind.symm.trans hkind')).1⟩

end Job

/-! ## The ledger -/

/-- What the updates of the engines depend on. -/
structure Ledger where
  engines : Std.TreeMap Nat Engine
  jobs : Std.TreeMap Nat Job
  rules : Std.TreeMap RuleId SeriesRule

def Station.ledger (s : Station) : Ledger := ⟨s.engines, s.jobs, s.store.rules⟩

namespace Ledger

variable {t t' : Ledger} {base : Std.TreeMap Nat Job} {i e n id : Nat} {j : Job}
  {tasks more : List Task}

def engine (t : Ledger) (e : Nat) : Engine := (t.engines[e]?).getD {}

def Lists (t : Ledger) (e id : Nat) : Prop := ∃ u ∈ (t.engine e).updates, u.id = id

def IsServed (t : Ledger) (n i id : Nat) : Prop := ∃ j, t.jobs[n]? = some j ∧ j.Serves i id

/-- The engine `e` still wants these tasks to be carried out. All jobs in `base` still exist. -/
structure Attends (base : Std.TreeMap Nat Job) (e : Nat) (tasks : List Task) (t : Ledger) : Prop where
  follows : ∀ (n : Nat) (j : Job), base[n]? = some j → ∃ k, t.jobs[n]? = some k ∧ j.TurnsInto k
  keyed : ∀ (id : RuleId) (rule : SeriesRule), t.rules[id]? = some rule → rule.id = id
  tidy : ∀ i, (t.engine i).IsTidy
  goesOn : ∀ i, (t.engine i).isOver = false
  /-- No two jobs have been there for one update. -/
  single : ∀ (n m : Nat) (j k : Job), t.jobs[n]? = some j → t.jobs[m]? = some k →
    ∀ i id, j.isUpdate i id = true → k.isUpdate i id = true → n = m
  known : ∀ (n : Nat) (j : Job), t.jobs[n]? = some j →
    ∀ i id, j.isUpdate i id = true → id < (t.engine i).nextUpdate
  served : ∀ i, ∀ u ∈ (t.engine i).updates,
    (∃ n, t.IsServed n i u.id) ∨ i = e ∧ .update u.id u.rules ∈ tasks
  listed : ∀ n i id, t.IsServed n i id → t.Lists i id ∨ i = e ∧ .callOff id ∈ tasks
  begun : ∀ id rules, .update id rules ∈ tasks →
    t.Lists e id ∧ ∀ (n : Nat) (j : Job), t.jobs[n]? = some j → j.isUpdate e id = false
  ended : ∀ id, .callOff id ∈ tasks → ¬ t.Lists e id
  once : (tasks.filterMap Task.begins?).Nodup

def IsAttended (base : Std.TreeMap Nat Job) (t : Ledger) : Prop := ∀ e, t.Attends base e []

namespace IsAttended

variable (h : t.IsAttended base)
include h

theorem served {u : RuleUpdate} (hu : u ∈ (t.engine i).updates) : ∃ n, t.IsServed n i u.id :=
  ((h i).served i u hu).resolve_right fun hwanted => List.not_mem_nil hwanted.2

theorem listed (hn : t.IsServed n i id) : t.Lists i id :=
  ((h i).listed n i id hn).resolve_right fun hwanted => List.not_mem_nil hwanted.2

/-- The jobs that go on are those of the updates on the lists, one for each. -/
theorem lists_iff : t.Lists i id ↔ ∃! n, t.IsServed n i id := by
  constructor
  · rintro ⟨u, hu, rfl⟩
    obtain ⟨n, hn⟩ := h.served hu
    refine ⟨n, hn, fun m hm => ?_⟩
    obtain ⟨j, hj, hserves⟩ := hn
    obtain ⟨k, hk, hserves'⟩ := hm
    exact (h i).single m n k j hk hj i u.id hserves'.1 hserves.1
  · rintro ⟨n, hn, -⟩
    exact h.listed hn

theorem rebase : t.IsAttended t.jobs := fun e =>
  { h e with follows := fun _ j hj => ⟨j, hj, .refl j⟩ }

end IsAttended

namespace Attends

theorem rest (h : t.Attends base e []) : t.IsAttended base := fun _ =>
  { h with
    served := fun i u hu => (h.served i u hu).imp_right fun hwanted => absurd hwanted.2 List.not_mem_nil
    listed := fun n i id hn => (h.listed n i id hn).imp_right fun hwanted =>
      absurd hwanted.2 List.not_mem_nil
    begun := fun _ _ ht => absurd ht List.not_mem_nil
    ended := fun _ ht => absurd ht List.not_mem_nil }

theorem numbered (h : t.Attends base e tasks) (hid : t.Lists i id) : id < (t.engine i).nextUpdate := by
  obtain ⟨u, hu, rfl⟩ := hid
  exact (h.tidy i).below u hu

theorem rewrite (h : t.Attends base e tasks) (hengines : t'.engines = t.engines)
    (hjobs : t'.jobs = t.jobs)
    (hkeyed : ∀ (id : RuleId) (rule : SeriesRule), t'.rules[id]? = some rule → rule.id = id) :
    t'.Attends base e tasks := by
  obtain ⟨engines, jobs, rules⟩ := t
  obtain ⟨engines', jobs', rules'⟩ := t'
  obtain rfl : engines' = engines := hengines
  obtain rfl : jobs' = jobs := hjobs
  exact { h with keyed := hkeyed }

/-- Some jobs change. One that does not go on any more was wanted no longer. -/
theorem retouch (h : t.Attends base e tasks) (hengines : t'.engines = t.engines)
    (hrules : t'.rules = t.rules) {f : Nat → Job → Job}
    (hf : ∀ (n : Nat) (j : Job), j.TurnsInto (f n j))
    (hjobs : ∀ n : Nat, t'.jobs[n]? = (t.jobs[n]?).map (f n))
    (hgone : ∀ (n : Nat) (j : Job) (i id : Nat), t.jobs[n]? = some j → j.Serves i id →
      (f n j).Serves i id ∨ i = e ∧ .callOff id ∈ tasks) :
    t'.Attends base e tasks := by
  have hengine : ∀ i, t'.engine i = t.engine i := fun i => by rw [engine, engine, hengines]
  have hlists : ∀ i id, t'.Lists i id ↔ t.Lists i id := fun i id => by rw [Lists, Lists, hengine]
  have hback : ∀ (n : Nat) (k : Job), t'.jobs[n]? = some k →
      ∃ j, t.jobs[n]? = some j ∧ j.TurnsInto k := by
    intro n k hk
    rw [hjobs] at hk
    obtain ⟨j, hj, rfl⟩ := Option.map_eq_some_iff.mp hk
    exact ⟨j, hj, hf n j⟩
  refine
    { follows := fun n j hj => ?_
      keyed := hrules ▸ h.keyed
      tidy := fun i => hengine i ▸ h.tidy i
      goesOn := fun i => hengine i ▸ h.goesOn i
      single := fun n m j k hj hk i id hjid hkid => ?_
      known := fun n j hj i id hid => ?_
      served := fun i u hu => ?_
      listed := fun n i id hserved => ?_
      begun := fun id rules ht => ?_
      ended := fun id ht hid => h.ended id ht ((hlists e id).mp hid)
      once := h.once }
  · obtain ⟨k, hk, hturns⟩ := h.follows n j hj
    exact ⟨f n k, by rw [hjobs, hk]; rfl, hturns.trans (hf n k)⟩
  · obtain ⟨j', hj', hturns⟩ := hback n j hj
    obtain ⟨k', hk', hturns'⟩ := hback m k hk
    exact h.single n m j' k' hj' hk' i id (hturns.isUpdate i id ▸ hjid) (hturns'.isUpdate i id ▸ hkid)
  · obtain ⟨j', hj', hturns⟩ := hback n j hj
    rw [hengine]
    exact h.known n j' hj' i id (hturns.isUpdate i id ▸ hid)
  · rw [hengine] at hu
    refine (h.served i u hu).imp_left fun ⟨n, j, hj, hserves⟩ => ⟨n, f n j, by rw [hjobs, hj]; rfl, ?_⟩
    refine (hgone n j i u.id hj hserves).resolve_right ?_
    rintro ⟨rfl, ht⟩
    exact h.ended u.id ht ⟨u, hu, rfl⟩
  · obtain ⟨k, hk, hserves⟩ := hserved
    obtain ⟨j, hj, hturns⟩ := hback n k hk
    rw [hlists]
    exact h.listed n i id ⟨j, hj, hturns.serves hserves⟩
  · obtain ⟨hid, hnone⟩ := h.begun id rules ht
    refine ⟨(hlists e id).mpr hid, fun n k hk => ?_⟩
    obtain ⟨j, hj, hturns⟩ := hback n k hk
    rw [hturns.isUpdate]
    exact hnone n j hj

theorem retouchOne (h : t.Attends base e tasks) (hengines : t'.engines = t.engines)
    (hrules : t'.rules = t.rules) {f : Job → Job} (hjobs : t'.jobs = t.jobs.modify n f)
    (hf : ∀ j : Job, j.TurnsInto (f j))
    (hgone : ∀ (j : Job) (i id : Nat), t.jobs[n]? = some j → j.Serves i id →
      (f j).Serves i id ∨ i = e ∧ .callOff id ∈ tasks) :
    t'.Attends base e tasks := by
  refine h.retouch hengines hrules (f := fun m j => if m = n then f j else j) (fun m j => ?_)
    (fun m => by rw [hjobs, get_modify]) fun m j i id hj hserves => ?_
  · split
    · exact hf j
    · exact .refl j
  · split
    · next hm => exact hgone j i id (hm ▸ hj) hserves
    · exact Or.inl hserves

/-- A new job. If it is there for an update, that is the next task. -/
theorem hire (h : t.Attends base e tasks) (hengines : t'.engines = t.engines)
    (hrules : t'.rules = t.rules) (hn : t.jobs[n]? = none) (hjobs : t'.jobs = t.jobs.insert n j)
    (htasks : tasks = more ∧ (∀ i id, j.isUpdate i id = false) ∨
      ∃ id rules, tasks = .update id rules :: more ∧ j.Serves e id) :
    t'.Attends base e more := by
  have hengine : ∀ i, t'.engine i = t.engine i := fun i => by rw [engine, engine, hengines]
  have hlists : ∀ i id, t'.Lists i id ↔ t.Lists i id := fun i id => by rw [Lists, Lists, hengine]
  have hkept : ∀ (m : Nat) (k : Job), t.jobs[m]? = some k → t'.jobs[m]? = some k := by
    intro m k hk
    rw [hjobs, get_insert, if_neg, hk]
    rintro rfl
    cases hn.symm.trans hk
  have hback : ∀ (m : Nat) (k : Job), t'.jobs[m]? = some k → m = n ∧ k = j ∨ t.jobs[m]? = some k := by
    intro m k hk
    rw [hjobs, get_insert] at hk
    split at hk
    · next heq => exact Or.inl ⟨heq.symm, (Option.some.inj hk).symm⟩
    · exact Or.inr hk
  have hnew : ∀ i id, j.isUpdate i id = true → i = e ∧ j.Serves e id ∧
      ∃ rules, tasks = .update id rules :: more := by
    intro i id hid
    rcases htasks with ⟨-, hnone⟩ | ⟨id', rules, htasks, hserves⟩
    · exact (Bool.false_ne_true ((hnone i id).symm.trans hid)).elim
    · obtain ⟨rfl, rfl⟩ := Job.isUpdate_inj hid hserves.1
      exact ⟨rfl, hserves, rules, htasks⟩
  have hold : ∀ task ∈ more, task ∈ tasks := by
    rcases htasks with ⟨rfl, -⟩ | ⟨id, rules, rfl, -⟩
    · exact fun task ht => ht
    · exact fun task ht => List.mem_cons_of_mem _ ht
  refine
    { follows := fun m k hk => ?_
      keyed := hrules ▸ h.keyed
      tidy := fun i => hengine i ▸ h.tidy i
      goesOn := fun i => hengine i ▸ h.goesOn i
      single := fun m m' k k' hk hk' i id hid hid' => ?_
      known := fun m k hk i id hid => ?_
      served := fun i u hu => ?_
      listed := fun m i id hserved => ?_
      begun := fun id rules ht => ?_
      ended := fun id ht hid => h.ended id (hold _ ht) ((hlists e id).mp hid)
      once := ?_ }
  · obtain ⟨k', hk', hturns⟩ := h.follows m k hk
    exact ⟨k', hkept m k' hk', hturns⟩
  · -- There was no job yet for the update of the new one.
    have hother : ∀ (m : Nat) (k : Job), t.jobs[m]? = some k → j.isUpdate i id = true →
        k.isUpdate i id = false := by
      intro m k hk hid
      obtain ⟨rfl, -, rules, rfl⟩ := hnew i id hid
      exact (h.begun id rules List.mem_cons_self).2 m k hk
    rcases hback m k hk with ⟨rfl, rfl⟩ | hk <;> rcases hback m' k' hk' with ⟨rfl, rfl⟩ | hk'
    · rfl
    · exact (Bool.false_ne_true ((hother m' k' hk' hid).symm.trans hid')).elim
    · exact (Bool.false_ne_true ((hother m k hk hid').symm.trans hid)).elim
    · exact h.single m m' k k' hk hk' i id hid hid'
  · rw [hengine]
    rcases hback m k hk with ⟨rfl, rfl⟩ | hk
    · obtain ⟨rfl, -, rules, rfl⟩ := hnew i id hid
      exact h.numbered (h.begun id rules List.mem_cons_self).1
    · exact h.known m k hk i id hid
  · rw [hengine] at hu
    rcases h.served i u hu with ⟨m, k, hk, hserves⟩ | ⟨rfl, ht⟩
    · exact Or.inl ⟨m, k, hkept m k hk, hserves⟩
    · rcases htasks with ⟨rfl, -⟩ | ⟨id, rules, rfl, hserves⟩
      · exact Or.inr ⟨rfl, ht⟩
      · rcases List.mem_cons.mp ht with heq | ht
        · obtain ⟨rfl, -⟩ := Task.update.inj heq
          exact Or.inl ⟨n, j, by rw [hjobs, get_insert, if_pos rfl], hserves⟩
        · exact Or.inr ⟨rfl, ht⟩
  · rw [hlists]
    obtain ⟨k, hk, hserves⟩ := hserved
    rcases hback m k hk with ⟨rfl, rfl⟩ | hk
    · obtain ⟨rfl, -, rules, rfl⟩ := hnew i id hserves.1
      exact Or.inl (h.begun id rules List.mem_cons_self).1
    · refine (h.listed m i id ⟨k, hk, hserves⟩).imp_right fun ⟨he, ht⟩ => ⟨he, ?_⟩
      rcases htasks with ⟨rfl, -⟩ | ⟨id', rules, rfl, -⟩
      · exact ht
      · exact (List.mem_cons.mp ht).resolve_left (by rintro ⟨⟩)
  · obtain ⟨hid, hnone⟩ := h.begun id rules (hold _ ht)
    refine ⟨(hlists e id).mpr hid, fun m k hk => ?_⟩
    rcases hback m k hk with ⟨rfl, rfl⟩ | hk
    · refine Bool.eq_false_iff.mpr fun hid => ?_
      obtain ⟨-, -, rules', rfl⟩ := hnew e id hid
      exact (List.nodup_cons.mp h.once).1 (List.mem_filterMap.mpr ⟨_, ht, rfl⟩)
    · exact hnone m k hk
  · rcases htasks with ⟨rfl, -⟩ | ⟨id, rules, rfl, -⟩
    · exact h.once
    · exact (List.nodup_cons.mp h.once).2

/-- The engine takes a step, and nothing of it has been carried out yet. -/
theorem begin {step : Engine.Step} (h : t.IsAttended base) (hsteps : Steps (t.engine e) step)
    (hengines : t'.engines = t.engines.insert e step.1) (hrules : t'.rules = t.rules)
    (hjobs : t'.jobs = t.jobs) : t'.Attends base e step.2 := by
  have hengine : ∀ i, t'.engine i = if e = i then step.1 else t.engine i := by
    intro i
    rw [engine, hengines, get_insert]
    split <;> rfl
  have hserved : ∀ n i id, t'.IsServed n i id ↔ t.IsServed n i id :=
    fun n i id => by rw [IsServed, IsServed, hjobs]
  refine
    { follows := hjobs ▸ (h e).follows
      keyed := hrules ▸ (h e).keyed
      tidy := fun i => ?_
      goesOn := fun i => ?_
      single := hjobs ▸ (h e).single
      known := fun n j hj i id hid => ?_
      served := fun i u hu => ?_
      listed := fun n i id hn => ?_
      begun := fun id rules ht => ⟨⟨⟨id, rules⟩, ?_, rfl⟩, fun n j hj => ?_⟩
      ended := fun id ht ⟨u, hu, hid⟩ => ?_
      once := hsteps.once }
  · rw [hengine]
    split
    · exact hsteps.tidy
    · exact (h e).tidy i
  · rw [hengine]
    split
    · exact hsteps.goesOn ((h e).goesOn e)
    · exact (h e).goesOn i
  · rw [hjobs] at hj
    have hbelow := (h e).known n j hj i id hid
    rw [hengine]
    split
    · next heq =>
      subst heq
      exact Nat.lt_of_lt_of_le hbelow hsteps.grows
    · exact hbelow
  · have hbefore : ∀ {i : Nat} {u : RuleUpdate}, u ∈ (t.engine i).updates →
        ∃ n, t'.IsServed n i u.id := by
      intro i u hu
      obtain ⟨n, hn⟩ := h.served hu
      exact ⟨n, (hserved n i u.id).mpr hn⟩
    rw [hengine] at hu
    split at hu
    · next heq =>
      subst heq
      exact (hsteps.new u hu).imp hbefore fun ht => ⟨rfl, ht⟩
    · exact Or.inl (hbefore hu)
  · obtain ⟨u, hu, rfl⟩ := h.listed ((hserved n i id).mp hn)
    rw [Lists, hengine]
    split
    · next heq =>
      subst heq
      exact (hsteps.old u hu).imp (fun hu => ⟨u, hu, rfl⟩) fun ht => ⟨rfl, ht⟩
    · exact Or.inl ⟨u, hu, rfl⟩
  · rw [hengine, if_pos rfl]
    exact (hsteps.begun id rules ht).2
  · -- The number of an update that begins is a new one.
    rw [hjobs] at hj
    refine Bool.eq_false_iff.mpr fun hid => ?_
    have hbelow := (h e).known n j hj e id hid
    have hlater := (hsteps.begun id rules ht).1
    omega
  · rw [hengine, if_pos rfl] at hu
    exact (hsteps.ended id ht).2 u hu hid

theorem strike {task : Task} (h : t.Attends base e (task :: more))
    (hbegun : ∀ id rules, task ≠ .update id rules)
    (hended : ∀ id, task = .callOff id → ∀ n, ¬ t.IsServed n e id) : t.Attends base e more where
  follows := h.follows
  keyed := h.keyed
  tidy := h.tidy
  goesOn := h.goesOn
  single := h.single
  known := h.known
  served i u hu := by
    refine (h.served i u hu).imp_right fun ⟨he, ht⟩ => ⟨he, ?_⟩
    exact (List.mem_cons.mp ht).resolve_left fun heq => hbegun _ _ heq.symm
  listed n i id hn := by
    refine (h.listed n i id hn).imp_right fun ⟨he, ht⟩ => ⟨he, ?_⟩
    exact (List.mem_cons.mp ht).resolve_left fun heq => hended id heq.symm n (he ▸ hn)
  begun id rules ht := h.begun id rules (List.mem_cons_of_mem _ ht)
  ended id ht := h.ended id (List.mem_cons_of_mem _ ht)
  once := h.once.sublist ((List.sublist_cons_self _ _).filterMap _)

/-- A job for an update ends, and the update is taken off the list. -/
theorem conclude (h : t.IsAttended base) (hj : t.jobs[n]? = some j) (hserves : j.Serves e id)
    (hengines : t'.engines = t.engines.insert e ((t.engine e).complete id))
    (hjobs : t'.jobs = t.jobs.modify n Job.ended)
    (hkeyed : ∀ (id : RuleId) (rule : SeriesRule), t'.rules[id]? = some rule → rule.id = id) :
    t'.IsAttended base := by
  have hlisted : t.Lists e id := h.listed ⟨j, hj, hserves⟩
  -- The update is taken off first. What is wanted then is that its job goes on no longer.
  let off : Ledger := { t with engines := t.engines.insert e ((t.engine e).complete id) }
  have hoff : off.Attends base e [.callOff id] :=
    begin h (Engine.complete_steps ((h e).tidy e) hlisted) rfl rfl rfl
  have hended : { off with jobs := t'.jobs }.Attends base e [.callOff id] := by
    refine hoff.retouchOne rfl rfl hjobs Job.turnsInto_ended ?_
    intro k i id' hk hkserves
    obtain rfl := Option.some.inj (hk.symm.trans hj)
    obtain ⟨rfl, rfl⟩ := Job.isUpdate_inj hkserves.1 hserves.1
    exact Or.inr ⟨rfl, List.mem_cons_self⟩
  refine ((hended.strike (by rintro _ _ ⟨⟩) ?_).rewrite hengines rfl hkeyed).rest
  rintro _ ⟨⟩ m ⟨k, hk, hkupdate, -, hgoesOn⟩
  -- No other job has been there for the update.
  have hnew : t'.jobs[n]? = some j.ended := by
    rw [hjobs, get_modify, hj, Option.map_some, if_pos rfl]
  obtain rfl := hended.single m n k _ hk hnew e id hkupdate hserves.1
  obtain rfl := Option.some.inj (hk.symm.trans hnew)
  exact Bool.false_ne_true hgoesOn.symm

end Attends

end Ledger

end Timeshift
