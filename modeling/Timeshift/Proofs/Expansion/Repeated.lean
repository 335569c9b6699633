import Timeshift.Proofs.Expansion.Effects

/-!
# An update that is made again

A second update of the same rules finds what the first one has left. It does nothing if no episode
that was covered before has lost its schedule in the first one, to another rule that was updated
with it, and if no search comes to another schedule of a program than the one before.
-/

namespace Timeshift

namespace Candidate

variable {s t : Store} {airings : List Program}

theorem keepOne_congr (h : ∀ p ∈ airings, isScheduled t p = isScheduled s p) :
    keepOne t airings = keepOne s airings := by
  rw [keepOne, keepOne, List.filter_congr h]

end Candidate

namespace Expansion

open Candidate Store

variable {s t u : Store} {rule : SeriesRule} {programs : List Program} {p : Program} {x : Schedule}
  {picks : List (SeriesRule × List Program)} {n : Nat}

/-! ## Attachments that do nothing -/

theorem takenOver_eq_iff : takenOver rule x = x ↔
    x.priority = rule.priority.value ∧ x.ruleId = some rule.id := by
  constructor
  · intro h
    rw [← h]
    exact ⟨rfl, rfl⟩
  · rintro ⟨hpriority, hrule⟩
    rw [takenOver, ← hpriority, ← hrule]

/-- The program has a schedule, and the rule has taken it over if it can. -/
def NeedsNothing (s : Store) (rule : SeriesRule) (p : Program) : Prop :=
  ∃ x, s.scheduleOf? p.id = some x ∧ (canTakeOver x = true → takenOver rule x = x)

instance (s : Store) (rule : SeriesRule) (p : Program) : Decidable (NeedsNothing s rule p) :=
  match h : s.scheduleOf? p.id with
  | none => isFalse fun ⟨_, hx, _⟩ => nomatch h.symm.trans hx
  | some x => decidable_of_iff (canTakeOver x = true → takenOver rule x = x)
      ⟨fun hx => ⟨x, h, hx⟩, fun ⟨_, hy, hx⟩ => Option.some.inj (h.symm.trans hy) ▸ hx⟩

theorem additions_eq_nil : additions s rule programs = [] ↔
    ∀ p ∈ programs, s.scheduleOf? p.id ≠ none := by
  simp only [additions, unscheduled, List.map_eq_nil_iff, List.filter_eq_nil_iff,
    Option.isNone_iff_eq_none, ne_eq]

theorem takeovers_eq_nil : takeovers s rule programs = [] ↔ ∀ p ∈ programs, ∀ x,
    s.scheduleOf? p.id = some x → canTakeOver x = true → takenOver rule x = x := by
  simp only [List.eq_nil_iff_forall_not_mem, mem_takeovers]
  constructor
  · intro hnone p hp x hx hcan
    by_contra hne
    exact hnone _ ⟨p, hp, x, hx, ⟨hcan, hne⟩, rfl⟩
  · rintro h _ ⟨p, hp, x, hx, ⟨hcan, hne⟩, rfl⟩
    exact hne (h p hp x hx hcan)

theorem needsNothing_iff : (∀ p ∈ programs, NeedsNothing s rule p) ↔
    additions s rule programs = [] ∧ takeovers s rule programs = [] := by
  rw [additions_eq_nil, takeovers_eq_nil]
  constructor
  · intro h
    refine ⟨fun p hp hnone => ?_, fun p hp x hx hcan => ?_⟩
    · obtain ⟨y, hy, -⟩ := h p hp
      exact nomatch hnone.symm.trans hy
    · obtain ⟨y, hy, hsettled⟩ := h p hp
      obtain rfl := Option.some.inj (hy.symm.trans hx)
      exact hsettled hcan
  · rintro ⟨hadded, htaken⟩ p hp
    obtain ⟨x, hx⟩ := Option.ne_none_iff_exists'.mp (hadded p hp)
    exact ⟨x, hx, htaken p hp x hx⟩

theorem attach_idle (h : ∀ p ∈ programs, NeedsNothing s rule p) :
    s.run (attach rule programs) = (.ok (), s) := by
  obtain ⟨hadded, htaken⟩ := needsNothing_iff.mp h
  rw [attach, run_bind, run_get]
  dsimp only
  rw [show (unscheduled s programs).map (newSchedule rule) = [] from hadded, htaken]
  rfl

theorem needsNothing_of_silent (hkeyed : s.IsKeyed) (h : s.run (attach rule programs) = (.ok (), t))
    (hsilent : t.journal = s.journal) : ∀ p ∈ programs, NeedsNothing s rule p := by
  obtain ⟨l, c, hattaches, hfull⟩ := attaches hkeyed h
  obtain ⟨rfl, rfl⟩ := hfull rfl
  have htold := hattaches.journal
  rw [hsilent, List.self_eq_append_right, List.append_eq_nil_iff, told, told] at htold
  have hnone : ∀ {tell : List Schedule → StoreEvent} {l : List Schedule},
      (if l.isEmpty = true then [] else [tell l]) = [] → l = [] := by
    intro tell l hl
    split at hl
    · next hempty => exact List.isEmpty_iff.mp hempty
    · cases hl
  refine needsNothing_iff.mpr ⟨?_, hnone htold.2⟩
  have hids := congrArg (List.map (·.id)) (hnone htold.1)
  rw [map_id_number, List.map_nil, List.map_eq_nil_iff, List.range_eq_nil] at hids
  exact List.eq_nil_of_length_eq_zero hids

theorem attachAll_idle_iff (hkeyed : s.IsKeyed) (hstored : AreStored s picks) :
    (∃ m, s.run (attachAll picks) = (.ok m, s)) ↔
      ∀ pick ∈ picks, ∀ p ∈ pick.2, NeedsNothing s pick.1 p := by
  induction picks with
  | nil => exact ⟨fun _ pick hpick => absurd hpick List.not_mem_nil, fun _ => ⟨0, rfl⟩⟩
  | cons pick rest ih =>
    have hlater := ih hstored.tail
    rw [List.forall_mem_cons]
    constructor
    · rintro ⟨m, hrun⟩
      rcases attachAll_cons (hstored pick List.mem_cons_self) hrun with
        ⟨u, r', hattach, hrest, hr⟩ | ⟨fault, hr, -⟩
      · obtain ⟨l, c, hattaches, -⟩ := attaches hkeyed hattach
        have hback := attachAll_journal (hattaches.keyed hkeyed)
          (hstored.tail.congr hattaches.rules) hrest
        have hforth : s.journal <+: u.journal := ⟨_, hattaches.journal.symm⟩
        have hsilent : u.journal = s.journal := hback.eq_of_length_le hforth.length_le
        have hfirst := needsNothing_of_silent hkeyed hattach hsilent
        obtain rfl := congrArg Prod.snd ((attach_idle hfirst).symm.trans hattach)
        refine ⟨hfirst, hlater.mp ?_⟩
        cases r' with
        | ok k => exact ⟨k, hrest⟩
        | error => cases hr
      · cases hr
    · rintro ⟨hfirst, hothers⟩
      obtain ⟨k, hk⟩ := hlater.mpr hothers
      rcases hrun : s.run (attachAll (pick :: rest)) with ⟨r, t⟩
      rcases attachAll_cons (hstored pick List.mem_cons_self) hrun with
        ⟨u, r', hattach, hrest, rfl⟩ | ⟨fault, -, hattach⟩
      · obtain rfl := congrArg Prod.snd ((attach_idle hfirst).symm.trans hattach)
        obtain ⟨rfl, rfl⟩ := Prod.mk.inj (hk.symm.trans hrest)
        exact ⟨_, rfl⟩
      · exact nomatch congrArg Prod.fst ((attach_idle hfirst).symm.trans hattach)

/-! ## After an attachment -/

theorem needsNothing_of_becomes {before : Option Schedule} (hx : t.scheduleOf? p.id = some x)
    (h : Becomes rule programs p.id before x) : NeedsNothing t rule p := by
  refine ⟨x, hx, fun hcan => ?_⟩
  cases before with
  | some y =>
    have hxy : x = if canTakeOver y then takenOver rule y else y := h
    split at hxy
    · rw [hxy]
      rfl
    · next hnot =>
      rw [hxy] at hcan
      exact absurd hcan hnot
  | none =>
    obtain ⟨q, -, -, hnew⟩ := h
    rw [takenOver_eq_iff]
    exact ⟨congrArg Schedule.priority hnew, congrArg Schedule.ruleId hnew⟩

theorem isScheduled_of_becomes {y : Schedule} (hy : s.scheduleOf? p.id = some y)
    (hx : t.scheduleOf? p.id = some x) (h : Becomes rule programs p.id (some y) x) :
    isScheduled t p = isScheduled s p := by
  have hxy : x = if canTakeOver y then takenOver rule y else y := h
  rw [isScheduled, isScheduled, hx, hy, hxy]
  split <;> rfl

theorem records_of_new (hx : t.scheduleOf? p.id = some x)
    (hnew : x = { newSchedule rule p with id := x.id }) :
    t.Records (Episode.ofProgram rule.id p) := by
  have hstate : x.state = if rule.isCanceled then .canceled else .notStarted :=
    congrArg Schedule.state hnew
  refine ⟨x, (mem_of_scheduleOf hx).1, ?_, ?_⟩
  · exact (congrArg Episode.ofSchedule? hnew).trans rfl
  · rw [hstate]
    split <;> exact ⟨nofun, nofun⟩

/-! ## After an update -/

section Update

variable {rules : List SeriesRule} {now : Instant} {found : List Program} {e : Episode}

theorem isAiring_iff (hrule : rule ∈ rules) (he : e.isComplete = true) :
    ((CandidateFilter.ofStore s rules [] now).accepts p &&
      (CandidateFilter.ofStore s rules [] now).takes p rule &&
        Episode.ofProgram rule.id p == e) = true ↔
    (CandidateFilter.ofStore s rules [] now).Admits p ∧ rule.matchesProgram p = true ∧
      Episode.ofProgram rule.id p = e ∧ ¬ s.Records e := by
  rw [Bool.and_eq_true, Bool.and_eq_true, beq_iff_eq, CandidateFilter.accepts_iff]
  constructor
  · rintro ⟨⟨⟨hadmits, -⟩, htakes⟩, rfl⟩
    obtain ⟨hmatches, -, hnot⟩ := (CandidateFilter.takes_iff he hrule).mp htakes
    exact ⟨hadmits, hmatches, rfl, hnot⟩
  · rintro ⟨hadmits, hmatches, rfl, hnot⟩
    have htakes : (CandidateFilter.ofStore s rules [] now).takes p rule = true :=
      (CandidateFilter.takes_iff he hrule).mpr ⟨hmatches, List.not_mem_nil, hnot⟩
    exact ⟨⟨⟨hadmits, rule, hrule, htakes⟩, htakes⟩, rfl⟩

theorem admits_congr (hmarks : t.marks = s.marks) :
    (CandidateFilter.ofStore t rules [] now).Admits p ↔
      (CandidateFilter.ofStore s rules [] now).Admits p := by
  have hunwanted : (CandidateFilter.ofStore t rules [] now).unwanted =
      (CandidateFilter.ofStore s rules [] now).unwanted := congrArg Std.TreeMap.keys hmarks
  constructor
  · exact fun h => ⟨h.later, h.allowed, hunwanted ▸ h.wanted, h.numbered⟩
  · exact fun h => ⟨h.later, h.allowed, hunwanted.symm ▸ h.wanted, h.numbered⟩

/-- The airings are the same ones as long as the episode is not covered. -/
theorem airingsOf_congr (hmarks : t.marks = s.marks) (hrule : rule ∈ rules)
    (he : e.isComplete = true) (hbefore : ¬ s.Records e) (hafter : ¬ t.Records e) :
    airingsOf (.ofStore t rules [] now) found rule e =
      airingsOf (.ofStore s rules [] now) found rule e := by
  refine List.filter_congr fun p _ => Bool.eq_iff_iff.mpr ?_
  rw [isAiring_iff hrule he, isAiring_iff hrule he, admits_congr hmarks, iff_true_intro hbefore,
    iff_true_intro hafter]

/-- A program whose episode cannot be told is a candidate every time. -/
theorem accepts_loose (hmarks : t.marks = s.marks) (id : RuleId)
    (hloose : (Episode.ofProgram id p).isComplete = false)
    (h : (CandidateFilter.ofStore t rules [] now).accepts p = true) :
    (CandidateFilter.ofStore s rules [] now).accepts p = true := by
  obtain ⟨hadmits, r, hr, htakes⟩ := CandidateFilter.accepts_iff.mp h
  refine CandidateFilter.accepts_iff.mpr ⟨(admits_congr hmarks).mp hadmits, r, hr, ?_⟩
  have hopen : (Episode.ofProgram r.id p).isComplete = false := hloose
  rw [CandidateFilter.takes, CandidateFilter.matches_of_takes htakes, Episode.isCoveredBy, hopen]
  rfl

/-- What an update need not settle for a program: its episode was covered before, or one of the
airings of it had several schedules. -/
def IsOpen (s : Store) (found : List Program) (rule : SeriesRule) (p : Program) : Prop :=
  ((Episode.ofProgram rule.id p).isComplete = true ∧ s.Records (Episode.ofProgram rule.id p)) ∨
    ∃ q ∈ found, Episode.ofProgram rule.id q = Episode.ofProgram rule.id p ∧ ¬ s.IsSingle q.id

instance (s : Store) (found : List Program) (rule : SeriesRule) (p : Program) :
    Decidable (IsOpen s found rule p) := inferInstanceAs (Decidable
  (((Episode.ofProgram rule.id p).isComplete = true ∧ s.Records (Episode.ofProgram rule.id p)) ∨
    ∃ q ∈ found, Episode.ofProgram rule.id q = Episode.ofProgram rule.id p ∧ ¬ s.IsSingle q.id))

theorem single_of_closed {q : Program} (hclosed : ¬ IsOpen s found rule p) (hq : q ∈ found)
    (hep : Episode.ofProgram rule.id q = Episode.ofProgram rule.id p) : s.IsSingle q.id := by
  by_contra hseveral
  exact hclosed (Or.inr ⟨q, hq, hep, hseveral⟩)

/-- An update of stored rules for different shows that has succeeded. No two programs that it has
found have one id. -/
structure Updates (s : Store) (rules : List SeriesRule) (now : Instant) (found : List Program)
    (n : Nat) (t : Store) : Prop where
  keyed : s.IsKeyed
  room : s.HasRoom n
  stored : ∀ r ∈ rules, s.rule? r.id = some r
  keys : (rules.map (·.seriesKey)).Nodup
  distinct : (found.map (·.id)).Nodup
  run : s.run (attachAll (picksOf s (.ofStore s rules [] now) found)) = (.ok n, t)

namespace Updates

theorem ids (h : Updates s rules now found n t) : (rules.map (·.id)).Nodup :=
  ids_of_stored h.stored h.keys

theorem grows (h : Updates s rules now found n t) :
    Grows (IsPicked (picksOf s (.ofStore s rules [] now) found)) s t :=
  (attachAll_ok h.keyed h.run h.room).1

theorem storedAfter (h : Updates s rules now found n t) :
    ∀ r ∈ rules, t.rule? r.id = some r := by
  intro r hr
  rw [rule?, h.grows.rules]
  exact h.stored r hr

/-- No program that is scheduled has a mark, so none is lifted. -/
theorem marks (h : Updates s rules now found n t) : t.marks = s.marks := by
  refine attachAll_marks h.keyed (areStored_picksOf h.stored) (fun pick hpick p hp hmark => ?_)
    h.run
  have haccepts := ((of_mem_picksOf hpick).2 p hp).2.1
  refine (CandidateFilter.accepts_iff.mp haccepts).1.wanted ?_
  exact Std.TreeMap.mem_keys.mpr hmark

theorem attached (h : Updates s rules now found n t) :
    (∀ pick ∈ picksOf s (.ofStore s rules [] now) found, ∀ p ∈ pick.2, s.IsSingle p.id →
      IsAttached pick.1 pick.2 p.id s t) ∧
    ∀ p, ¬ IsPicked (picksOf s (.ofStore s rules [] now) found) p → SameFor p s t :=
  isAttached_all h.keyed (areStored_picksOf h.stored) (areApart_picksOf h.distinct) h.room h.run

variable {f : CandidateFilter}

theorem mem_picksOf (hids : (f.rules.map (·.id)).Nodup) (hrule : rule ∈ f.rules) :
    (rule, pickFor s f.rules (found.filter f.accepts) rule.id) ∈ picksOf s f found := by
  refine List.mem_map_of_mem ?_
  rwa [distinctRules_eq hids]

theorem needsNothing (h : Updates s rules now found n t) (hrule : rule ∈ rules)
    (hp : p ∈ pickFor s rules (found.filter (CandidateFilter.ofStore s rules [] now).accepts)
      rule.id) (hsingle : s.IsSingle p.id) : NeedsNothing t rule p := by
  let f := CandidateFilter.ofStore s rules [] now
  have hids : (f.rules.map (·.id)).Nodup := h.ids
  obtain ⟨x, hx, hbecomes⟩ :=
    (h.attached.1 _ (mem_picksOf hids hrule) p hp hsingle).exists_becomes
  exact needsNothing_of_becomes hx hbecomes

/-- As long as the episode is not covered, the same airings of it wait. -/
theorem isScheduled_eq (h : Updates s rules now found n t) (hrule : rule ∈ rules)
    (hafter : ¬ t.Records e) (hp : p ∈ airingsOf (.ofStore s rules [] now) found rule e)
    (hsingle : s.IsSingle p.id) : isScheduled t p = isScheduled s p := by
  let f := CandidateFilter.ofStore s rules [] now
  have hids : (f.rules.map (·.id)).Nodup := h.ids
  obtain ⟨hin, -, -, hep⟩ := mem_airingsOf.mp hp
  by_cases hmine : p ∈ pickFor s f.rules (found.filter f.accepts) rule.id
  · obtain ⟨x, hx, hbecomes⟩ :=
      (h.attached.1 _ (mem_picksOf hids hrule) p hmine hsingle).exists_becomes
    cases hbefore : s.scheduleOf? p.id with
    | some y => exact isScheduled_of_becomes hbefore hx (hbefore ▸ hbecomes)
    | none =>
      -- A new schedule would cover the episode.
      rw [hbefore] at hbecomes
      obtain ⟨q, hq, hid, hnew⟩ := hbecomes
      have hqfound := List.mem_of_mem_filter (of_mem_pickFor hq).1
      obtain rfl := List.inj_on_of_nodup_map h.distinct hqfound hin hid
      exact absurd (hep ▸ records_of_new hx hnew) hafter
  · have hsame : SameFor p.id s t := by
      refine h.attached.2 p.id fun hpicked => hmine ?_
      rw [picksOf, distinctRules_eq hids] at hpicked
      exact picked_of_isPicked h.keys hids hrule h.distinct hp hpicked
    rw [isScheduled, isScheduled, hsame.scheduleOf_eq hsingle]

/-- What would be picked again has been picked before, unless it has been left open. -/
theorem picked_before (h : Updates s rules now found n t) (hrule : rule ∈ rules)
    (hp : p ∈ pickFor t rules (found.filter (CandidateFilter.ofStore t rules [] now).accepts)
      rule.id) (hclosed : ¬ IsOpen s found rule p) :
    p ∈ pickFor s rules (found.filter (CandidateFilter.ofStore s rules [] now).accepts)
      rule.id := by
  let f := CandidateFilter.ofStore s rules [] now
  let f' := CandidateFilter.ofStore t rules [] now
  have hids : (f'.rules.map (·.id)).Nodup := h.ids
  have hairing := mem_airingsOf_of_mem_pickFor (f := f') h.keys hids hrule hp
  obtain ⟨hin, haccepts, htakes, -⟩ := mem_airingsOf.mp hairing
  by_cases he : (Episode.ofProgram rule.id p).isComplete = true
  · have hkept := (mem_pickFor_of_airing (f := f') h.keys hids hrule he hairing).mp hp
    have hafter := ((CandidateFilter.takes_iff he hrule).mp htakes).2.2
    -- The second update sees the same airings, and keeps what the first one kept.
    have hsame : airingsOf f' found rule (Episode.ofProgram rule.id p) =
        airingsOf f found rule (Episode.ofProgram rule.id p) :=
      airingsOf_congr h.marks hrule he (fun hbefore => hclosed (Or.inl ⟨he, hbefore⟩)) hafter
    rw [hsame] at hairing hkept
    have hwait : ∀ q ∈ airingsOf f found rule (Episode.ofProgram rule.id p),
        isScheduled t q = isScheduled s q := by
      intro q hq
      obtain ⟨hqin, -, -, hep⟩ := mem_airingsOf.mp hq
      exact h.isScheduled_eq hrule hafter hq (single_of_closed hclosed hqin hep)
    rw [keepOne_congr hwait] at hkept
    exact (mem_pickFor_of_airing (f := f) h.keys hids hrule he hairing).mpr hkept
  · rw [Bool.not_eq_true] at he
    have haccepts' := accepts_loose h.marks rule.id he haccepts
    exact mem_pickFor_loose (List.mem_filter.mpr ⟨hin, haccepts'⟩) (of_mem_pickFor hp).2 he

/-- The next update has nothing to do if it need not do anything for what has been left open. -/
theorem idle_iff (h : Updates s rules now found n t) :
    (∃ m, t.run (attachAll (picksOf t (.ofStore t rules [] now) found)) = (.ok m, t)) ↔
      ∀ rule ∈ rules, ∀ p ∈ pickFor t rules
        (found.filter (CandidateFilter.ofStore t rules [] now).accepts) rule.id,
        IsOpen s found rule p → NeedsNothing t rule p := by
  let f := CandidateFilter.ofStore t rules [] now
  have hids : (f.rules.map (·.id)).Nodup := h.ids
  have hstored : AreStored t (picksOf t f found) := areStored_picksOf h.storedAfter
  refine (attachAll_idle_iff (h.grows.keyed h.keyed) hstored).trans
    ⟨fun hall rule hrule p hp _ => ?_, fun hopen pick hpick p hp => ?_⟩
  · exact hall _ (mem_picksOf hids hrule) p hp
  · obtain ⟨hrule, hof⟩ := of_mem_picksOf hpick
    obtain ⟨rule, -, rfl⟩ := List.mem_map.mp hpick
    by_cases hleft : IsOpen s found rule p
    · exact hopen rule hrule p hp hleft
    · have hsingle : s.IsSingle p.id := single_of_closed hleft (hof p hp).1 rfl
      exact h.needsNothing hrule (h.picked_before hrule hp hleft) hsingle

/-- If no program had several schedules, only the episodes are open that have lost their cover. -/
theorem open_iff_lost (h : Updates s rules now found n t) (hsingle : ∀ p ∈ found, s.IsSingle p.id)
    (hrule : rule ∈ rules) :
    (∀ p ∈ pickFor t rules (found.filter (CandidateFilter.ofStore t rules [] now).accepts) rule.id,
      IsOpen s found rule p → NeedsNothing t rule p) ↔
    ∀ e : Episode, e.isComplete = true → e.ruleId = rule.id → s.Records e → ¬ t.Records e →
      ∀ p ∈ keepOne t (airingsOf (.ofStore t rules [] now) found rule e),
        NeedsNothing t rule p := by
  let f := CandidateFilter.ofStore t rules [] now
  have hids : (f.rules.map (·.id)).Nodup := h.ids
  constructor
  · intro hopen e he _ hbefore _ p hp
    have hairing := mem_of_mem_keepOne hp
    obtain ⟨-, -, -, rfl⟩ := mem_airingsOf.mp hairing
    refine hopen p ?_ (Or.inl ⟨he, hbefore⟩)
    exact (mem_pickFor_of_airing (f := f) h.keys hids hrule he hairing).mpr hp
  · rintro hlost p hp (⟨he, hbefore⟩ | ⟨q, hq, -, hseveral⟩)
    · have hairing := mem_airingsOf_of_mem_pickFor (f := f) h.keys hids hrule hp
      obtain ⟨-, -, htakes, -⟩ := mem_airingsOf.mp hairing
      have hafter := ((CandidateFilter.takes_iff he hrule).mp htakes).2.2
      refine hlost _ he rfl hbefore hafter p ?_
      exact (mem_pickFor_of_airing (f := f) h.keys hids hrule he hairing).mp hp
    · exact absurd (hsingle q hq) hseveral

end Updates

end Update

/-- An update has nothing to do. -/
def IsIdle (s : Store) (search : GuideQuery → List Program) (rules : List SeriesRule)
    (now : Instant) : Prop :=
  ∃ m, s.run (runWith search rules now) = (.ok m, s)

/-- A second update finds nothing to do exactly if every program that it picks and that has been
left open has a schedule which the rule has taken over if it can. Where no program had several
schedules, only the episodes are open that were covered before the first update and are not covered
after it. -/
theorem repeated_update_idle_iff (archive : Archive) (listings : Nat → Listing)
    (earlier : List Store.Edit) (search : GuideQuery → List Program) (rules : List SeriesRule)
    (now : Instant) :
    let s := earlier.foldl Store.edit { archive, listings }
    let found := search (.forRules rules now)
    let t := (s.run (runWith search rules now)).2
    let f := CandidateFilter.ofStore t rules [] now
    ∀ n, (s.run (runWith search rules now)).1 = .ok n → s.HasRoom n →
      (∀ r ∈ rules, s.rule? r.id = some r) → (rules.map (·.seriesKey)).Nodup →
      (found.map (·.id)).Nodup →
      (IsIdle t search rules now ↔
        ∀ rule ∈ rules, ∀ p ∈ pickFor t rules (found.filter f.accepts) rule.id,
          IsOpen s found rule p → NeedsNothing t rule p) ∧
      ((∀ p ∈ found, s.IsSingle p.id) → (IsIdle t search rules now ↔
        ∀ rule ∈ rules, ∀ e : Episode, e.isComplete = true → e.ruleId = rule.id →
          s.Records e → ¬ t.Records e →
          ∀ p ∈ keepOne t (airingsOf f found rule e), NeedsNothing t rule p)) := by
  intro s found t f n hok hroom hstored hkeys hfound
  have hkeyed : s.IsKeyed := isKeyed_edits (fun id x hx => by simp at hx) earlier
  have hrun : s.run (attachAll (picksOf s (.ofStore s rules [] now) found)) = (.ok n, t) := by
    rw [← run_runWith, ← hok]
  have hfirst : Updates s rules now found n t := ⟨hkeyed, hroom, hstored, hkeys, hfound, hrun⟩
  exact ⟨hfirst.idle_iff, fun hsingle => hfirst.idle_iff.trans
    (forall₂_congr fun rule hrule => hfirst.open_iff_lost hsingle hrule)⟩

/-- A schedule that no rule has made is taken over, another one covers its episode all along, and of
a third episode one airing is scheduled. The last program has two schedules, and both searches come
to the same one. -/
theorem repeated_update_idle_iff_adopted :
    let rule : SeriesRule := { SeriesRule.ofKey "show" "tuner" 1 with id := 1 }
    let loose : Program := { airing 15 400 "4" with season := none }
    let guide := [airing 10 100 "1", airing 12 120 "2", airing 13 300 "3", airing 14 220 "3", loose]
    let earlier : List Edit := [.load 0, .addRule rule,
      .add [.ofProgram "tuner" (airing 10 100 "1"), newSchedule rule (airing 12 120 "2"),
        .ofProgram "tuner" loose, .ofProgram "tuner" loose]]
    let s := earlier.foldl edit { archive := {} }
    let t := (s.run (runWith (fun _ => guide) [rule] 50)).2
    (s.run (runWith (fun _ => guide) [rule] 50)).1 = .ok 3 ∧ s.HasRoom 3 ∧
      (∀ r ∈ [rule], s.rule? r.id = some r) ∧ IsOpen s guide rule loose ∧
      t.schedules.map (fun x => (x.programId, x.ruleId)) = [(some 10, some 1), (some 12, some 1),
        (some 15, some 1), (some 15, none), (some 14, some 1)] ∧
      IsIdle t (fun _ => guide) [rule] 50 := by
  intro rule loose guide earlier s t
  have hok : (s.run (runWith (fun _ => guide) [rule] 50)).1 = .ok 3 := by decide +kernel
  have hroom : s.HasRoom 3 := ⟨by decide, by decide +kernel⟩
  have hstored : ∀ r ∈ [rule], s.rule? r.id = some r := by decide +kernel
  have hsettled : ∀ p ∈ pickFor t [rule]
      (guide.filter (CandidateFilter.ofStore t [rule] [] 50).accepts) rule.id,
      NeedsNothing t rule p := by decide +kernel
  refine ⟨hok, hroom, hstored, by decide +kernel, by decide +kernel, ?_⟩
  refine (repeated_update_idle_iff {} (fun _ => .byAge) earlier (fun _ => guide) [rule] 50 3 hok
    hroom hstored (by decide) (by decide)).1.mpr fun r hr p hp _ => ?_
  obtain rfl := List.mem_singleton.mp hr
  exact hsettled p hp

/-- The program has two schedules. The second update comes to the one that the first one has not
come to, and takes it over as well. -/
example :
    let rule : SeriesRule := { SeriesRule.ofKey "show" "tuner" 1 with id := 1 }
    let loose : Program := { airing 15 400 "4" with season := none }
    let newest : Listing := ⟨List.reverse, id, List.reverse_perm, .refl⟩
    let twice := [Schedule.ofProgram "tuner" loose, Schedule.ofProgram "tuner" loose]
    let s := [.load 0, .addRule rule, .add twice].foldl edit
      { archive := {}, listings := fun n => if n < 4 then .byAge else newest }
    let t := (s.run (runWith (fun _ => [loose]) [rule] 50)).2
    let u := (t.run (runWith (fun _ => [loose]) [rule] 50)).2
    t.schedules.map (·.ruleId) = [some 1, none] ∧
      u.schedules.map (·.ruleId) = [some 1, some 1] := by
  decide +kernel

/-- The guide gives a program that the first rule has scheduled to the show of the second one now.
The second rule takes the schedule over, and only the next update finds another airing of the
episode that the first rule has lost. -/
theorem not_idle_taken_over :
    let first : SeriesRule := { SeriesRule.ofKey "first" "tuner" 1 with id := 1 }
    let second : SeriesRule := { SeriesRule.ofKey "second" "tuner" 1 with id := 2 }
    let moved : Program := { airing 10 100 "1" with seriesKey := some "second" }
    let other : Program := { airing 11 200 "1" with seriesKey := some "first" }
    let catalog : Catalog := { guide := [moved, other] }
    let s := [.load 0, .addRule first, .addRule second, .add [newSchedule first moved]].foldl edit
      { archive := {} }
    let t := (s.run (run catalog [first, second] 50)).2
    let u := (t.run (run catalog [first, second] 50)).2
    (∀ r ∈ [first, second], s.rule? r.id = some r) ∧
      (s.run (run catalog [first, second] 50)).1 = .ok 1 ∧
      (t.run (run catalog [first, second] 50)).1 = .ok 1 ∧
      t.schedules.map (fun x => (x.programId, x.ruleId)) = [(some 10, some 2)] ∧
      u.schedules.map (fun x => (x.programId, x.ruleId)) =
        [(some 10, some 2), (some 11, some 1)] ∧
      u.journal.length = t.journal.length + 1 :=
  ⟨by decide +kernel, by decide +kernel, by decide +kernel, by decide +kernel, by decide +kernel,
    by decide +kernel⟩

end Expansion

end Timeshift
