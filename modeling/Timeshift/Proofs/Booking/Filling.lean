import Timeshift.Proofs.Booking.Added
import Timeshift.Proofs.Expansion.Effects
import Timeshift.Proofs.Store.Failing
import Timeshift.Proofs.Store.Outcome

/-!
# Adding a rule

A rule is stored first and filled afterwards: with what has been recorded of its show, and then with
the programs that were asked for. What cannot be scheduled stops the filling, and the rule stays.
-/

namespace Timeshift

namespace Expansion

open Store

variable {s t : Store} {rule : SeriesRule} {programs : List Program} {l : List Schedule}
  {p : ProgramId}

/-! ## Attachments that fail -/

theorem fails_discard_iff {α : Type} (op : Store.Op α) :
    s.Fails (discard op) ↔ s.Fails op := by
  rw [discard_eq]
  exact fails_bind_iff fun _ => .pure ()

/-- A part that is left out if there is nothing to do, and what comes after it. -/
theorem fails_whenever_iff {β : Type} {op : Store.Op PUnit} (next : PUnit → Store.Op β)
    (hnone : l = [] → s.run op = (.ok (), s)) :
    s.Fails (if l.isEmpty = true then next () else op >>= next) ↔
      s.Fails op ∨ ∃ t, s.run op = (.ok (), t) ∧ t.Fails (next ()) := by
  split
  · next hempty =>
    have hop := hnone (List.isEmpty_iff.mp hempty)
    refine ⟨fun h => Or.inr ⟨s, hop, h⟩, ?_⟩
    rintro (h | ⟨t, ht, h⟩)
    · exact absurd h (not_fails_of_ok hop)
    · obtain rfl := congrArg Prod.snd (hop.symm.trans ht)
      exact h
  · rw [fails_bind]
    exact or_congr_right ⟨fun ⟨_, t, ht, h⟩ => ⟨t, ht, h⟩, fun ⟨t, ht, h⟩ => ⟨(), t, ht, h⟩⟩

/-- A schedule that is taken over stays on its channel. -/
theorem channel_of_takeover (hkeyed : s.IsKeyed) {x : Schedule}
    (hx : x ∈ takeovers s rule programs) :
    ∃ y, s.live[x.id]? = some y ∧ y.channelId = x.channelId := by
  obtain ⟨p, -, y, hy, -, rfl⟩ := mem_takeovers.mp hx
  exact ⟨y, (live_of_scheduleOf hkeyed hy).1, rfl⟩

theorem refuses_added {on : Bool} {fresh : List Schedule} (h : Refuses on s)
    (hadd : s.run (Store.add l) = (.ok fresh, t)) : Refuses on t := by
  have hedit := h.edit (e := .add l) fun _ => nofun
  rwa [edit, hadd] at hedit

/-- What is added does not get into the way of what is taken over. -/
theorem not_fails_takeovers (h : Refuses false s) (hkeyed : s.IsKeyed)
    (hroom : s.HasRoom programs.length) {fresh : List Schedule}
    (hadd : s.run (Store.add (additions s rule programs)) = (.ok fresh, t)) :
    ¬ t.Fails (Store.update (takeovers s rule programs)) := by
  refine not_fails_update (refuses_added h hadd) (knownUpdates_eq fun x hx => ?_)
  obtain ⟨y, hy, hchannel⟩ := channel_of_takeover hkeyed hx
  have hfree : copyIn (number s.scheduleIds (additions s rule programs)).1 x.id = none :=
    copyIn_eq_none.mpr fun z hz hid => free_of_additions hroom hz (hid ▸ mem_of_get hy)
  refine ⟨y, ?_, hchannel⟩
  rw [(looksLike_add hadd).live, get_brought, hfree, Option.none_or, hy]

/-- If the archive takes all writes, only a program without a length stops an attachment, and only
if it has no schedule yet. -/
theorem fails_attach_iff (h : Refuses false s) (hkeyed : s.IsKeyed)
    (hroom : s.HasRoom programs.length) : s.Fails (attach rule programs) ↔
      ∃ q ∈ programs, q.ends ≤ q.starts ∧ s.scheduleOf? q.id = none := by
  have hadditions : (∃ x ∈ additions s rule programs, x.ends ≤ x.starts) ↔
      ∃ q ∈ programs, q.ends ≤ q.starts ∧ s.scheduleOf? q.id = none := by
    simp only [additions, unscheduled, List.mem_map, List.mem_filter, Option.isNone_iff_eq_none]
    constructor
    · rintro ⟨_, ⟨q, ⟨hq, hnone⟩, rfl⟩, hends⟩
      exact ⟨q, hq, hends, hnone⟩
    · rintro ⟨q, hq, hends, hnone⟩
      exact ⟨newSchedule rule q, ⟨q, ⟨hq, hnone⟩, rfl⟩, hends⟩
  have hparts : s.Fails (attach rule programs) ↔ s.Fails (
      if (additions s rule programs).isEmpty = true then
        unless (takeovers s rule programs).isEmpty do Store.update (takeovers s rule programs)
      else do
        discard (Store.add (additions s rule programs))
        unless (takeovers s rule programs).isEmpty do
          Store.update (takeovers s rule programs)) := Iff.rfl
  rw [hparts, ← hadditions, ← fails_add_iff h, ← fails_discard_iff (Store.add _)]
  refine (fails_whenever_iff (fun _ => unless (takeovers s rule programs).isEmpty do
    Store.update (takeovers s rule programs)) fun hnone => ?_).trans (or_iff_left ?_)
  · rw [hnone]
    rfl
  · rintro ⟨t, ht, hfails⟩
    obtain ⟨_, hadd⟩ := run_discard_ok ht
    split at hfails
    · exact (NeverFails.pure ()).not_fails t hfails
    · exact not_fails_takeovers h hkeyed hroom hadd hfails

end Expansion

namespace Store

variable {s t : Store} {rule : SeriesRule} {l : List Schedule} {p : ProgramId}

/-! ## Storing the rule -/

/-- The store once a rule has been stored. -/
def withRule (s : Store) (rule : SeriesRule) : Store :=
  { s with
    ruleIds := s.ruleIds.take.2
    rules := s.rules.insert rule.id rule
    archive := { s.archive with writes := s.archive.writes + 1 }.putRule rule
    journal := s.journal ++ [.rulesAdded [rule]] }

theorem run_addRule (s : Store) (rule : SeriesRule) :
    (s.Fails (addRule rule) ∧ (rule.seriesKey = "" ∨ s.refusesAfter 0 = true)) ∨
      ¬ (rule.seriesKey = "" ∨ s.refusesAfter 0 = true) ∧
      s.run (addRule rule) = (.ok { rule with id := s.ruleIds.next },
        s.withRule { rule with id := s.ruleIds.next }) := by
  rw [addRule]
  by_cases hkey : rule.seriesKey = ""
  · rw [hkey]
    exact Or.inl ⟨⟨_, rfl⟩, Or.inl rfl⟩
  · rw [if_neg (by rwa [String.isEmpty_iff]), refusesAfter, Nat.add_zero]
    cases hrefuses : s.archive.refuses s.archive.writes with
    | true =>
      refine Or.inl ⟨⟨.writeRefused, ?_⟩, Or.inr rfl⟩
      simp only [run_bind, run_get, run_modify, persist, Archive.write, hrefuses]
      rfl
    | false =>
      refine Or.inr ⟨by simpa using hkey, ?_⟩
      simp only [run_bind, run_get, run_modify, persist, Archive.write, hrefuses]
      rfl

/-! ## New schedules for programs -/

theorem forall_programId_number {c : IdCounter} :
    (∀ x ∈ (number c l).1, x.programId ≠ some p) ↔ ∀ x ∈ l, x.programId ≠ some p := by
  constructor
  · intro h y hy
    obtain ⟨id, hx⟩ := exists_mem_number (c := c) hy
    exact h { y with id } hx
  · intro h x hx
    obtain ⟨y, hy, heq⟩ := mem_number hx
    rw [heq]
    exact h y hy

theorem scheduleOf_brought_eq_none (hids : (l.map (·.id)).Nodup) (hfree : ∀ x ∈ l, x.id ∉ s.live)
    (tell : List Schedule → StoreEvent) : (s.brought tell l).scheduleOf? p = none ↔
      s.scheduleOf? p = none ∧ ∀ x ∈ l, x.programId ≠ some p := by
  simp only [scheduleOf_eq_none]
  constructor
  · intro hnone
    refine ⟨fun id x hx => hnone id x ?_, fun x hx => hnone x.id x ?_⟩
    · have hcopy : copyIn l id = none :=
        copyIn_eq_none.mpr fun y hy hid => hfree y hy (hid ▸ mem_of_get hx)
      rw [get_brought, hcopy, Option.none_or, hx]
    · rw [get_brought, copyIn_of_nodup hids hx, Option.some_or]
  · rintro ⟨hlive, hnew⟩ id x hx
    rw [get_brought, Option.or_eq_some_iff] at hx
    rcases hx with hcopy | ⟨-, hold⟩
    · exact hnew x (id_of_copyIn hcopy).1
    · exact hlive id x hold

/-- A program has no schedule after an addition if it had none, and none is added for it. -/
theorem scheduleOf_added_eq_none (hroom : s.HasRoom l.length) {fresh : List Schedule}
    (hadd : s.run (add l) = (.ok fresh, t)) : t.scheduleOf? p = none ↔
      s.scheduleOf? p = none ∧ ∀ x ∈ l, x.programId ≠ some p := by
  have hfree : ∀ x ∈ (number s.scheduleIds l).1, x.id ∉ s.live := by
    intro x hx
    obtain ⟨k, hk, hid⟩ := id_of_mem_number hx
    exact hid ▸ hroom.unused k hk
  rw [scheduleOf_eq_none_congr (looksLike_add hadd).live,
    scheduleOf_brought_eq_none (ids_number s.scheduleIds hroom.bound) hfree,
    forall_programId_number]

end Store

namespace Booking

open Store

variable {s t : Store} {catalog : Catalog} {docket : Docket} {p : Program}
  {programs : List Program} {rule : SeriesRule}

/-! ## Filling the rule -/

/-- The schedules that stand for what has been recorded of the rule's show. -/
def finishedFor (s : Store) (rule : SeriesRule) : List Schedule :=
  (s.recorded.filter (standsForEpisode rule)).map fun r => Expansion.takenOver rule (.ofRecorded r)

/-- What comes after a rule has been stored. -/
def fill (rule : SeriesRule) (programs : List Program) : Store.Op SeriesRule := do
  let s ← get
  unless (finishedFor s rule).isEmpty do discard (Store.add (finishedFor s rule))
  Expansion.attach rule programs
  return rule

/-- The operation leaves the rules alone, and every schedule under its id. -/
def LeavesRules {α : Type} (op : Store.Op α) : Prop :=
  ∀ s : Store, s.IsKeyed → (s.run op).2.IsKeyed ∧ (s.run op).2.rules = s.rules

namespace LeavesRules

variable {α β : Type}

theorem pure (a : α) : LeavesRules (Pure.pure a) := fun _ h => ⟨h, rfl⟩

theorem get : LeavesRules MonadState.get := fun _ h => ⟨h, rfl⟩

theorem bind {op : Store.Op α} {next : α → Store.Op β} (h : LeavesRules op)
    (h' : ∀ a, LeavesRules (next a)) : LeavesRules (op >>= next) := by
  intro s
  refine run_bind_trans (R := fun s t => s.IsKeyed → t.IsKeyed ∧ t.rules = s.rules)
    (fun hab hbc ha => ?_) (h s) h'
  obtain ⟨hb, hrules⟩ := hab ha
  exact ⟨(hbc hb).1, (hbc hb).2.trans hrules⟩

theorem whenever {c : Bool} {op : Store.Op PUnit} {next : PUnit → Store.Op β} (h : LeavesRules op)
    (h' : LeavesRules (next ())) : LeavesRules (if c = true then next () else op >>= next) := by
  split
  · exact h'
  · exact h.bind fun _ => h'

theorem add (l : List Schedule) : LeavesRules (discard (Store.add l)) := by
  intro s hkeyed
  rcases hrun : s.run (discard (Store.add l)) with ⟨answer, t⟩
  cases answer with
  | error fault =>
    have hseen := Expansion.failsUnseen_discard l s fault (by rw [hrun])
    rw [hrun] at hseen
    exact ⟨hkeyed.congr hseen.live, hseen.rules⟩
  | ok =>
    obtain ⟨_, hadd⟩ := Expansion.run_discard_ok hrun
    have hdone := looksLike_add hadd
    exact ⟨hdone.isKeyed hkeyed, hdone.rules⟩

theorem attach (rule : SeriesRule) (programs : List Program) :
    LeavesRules (Expansion.attach rule programs) := by
  intro s hkeyed
  obtain ⟨l, c, hdone, -⟩ := Expansion.attaches hkeyed (r := (s.run _).1) rfl
  exact ⟨hdone.keyed hkeyed, hdone.rules⟩

theorem fill (rule : SeriesRule) (programs : List Program) : LeavesRules (fill rule programs) :=
  .bind .get fun _ => .whenever (.add _) (.bind (.attach rule programs) fun _ => .pure rule)

end LeavesRules

theorem mem_finishedFor {x : Schedule} : x ∈ finishedFor s rule ↔
    ∃ r ∈ s.recorded, standsForEpisode rule r = true ∧
      x = Expansion.takenOver rule (.ofRecorded r) := by
  simp only [finishedFor, List.mem_map, List.mem_filter, and_assoc, eq_comm (a := x)]

/-- What has been recorded has some length, so it is always added. -/
theorem not_fails_finishedFor (h : Refuses false s) (rule : SeriesRule) :
    ¬ s.Fails (Store.add (finishedFor s rule)) := by
  rw [fails_add_iff h]
  rintro ⟨x, hx, hends⟩
  obtain ⟨r, -, hstands, rfl⟩ := mem_finishedFor.mp hx
  rw [standsForEpisode, Bool.and_eq_true, decide_eq_true_eq] at hstands
  exact absurd hends (Int64.not_le.mpr hstands.2)

/-- If the archive takes all writes, a rule cannot be filled just if one of the programs has no
length, no schedule, and no recording that stands for it. -/
theorem fails_fill_iff (h : Refuses false s) (hkeyed : s.IsKeyed)
    (hroom : s.HasRoom (s.recorded.length + programs.length)) :
    s.Fails (fill rule programs) ↔ ∃ q ∈ programs, q.ends ≤ q.starts ∧
      s.scheduleOf? q.id = none ∧ ∀ x ∈ finishedFor s rule, x.programId ≠ some q.id := by
  have hlength : (finishedFor s rule).length ≤ s.recorded.length := by
    rw [finishedFor, List.length_map]
    exact List.length_filter_le _ _
  obtain ⟨fresh, hrun⟩ := ok_of_not_fails (not_fails_finishedFor h rule)
  generalize (s.run (Store.add (finishedFor s rule))).2 = t at hrun
  have hdiscard : s.run (discard (Store.add (finishedFor s rule))) = (.ok (), t) := by
    rw [Expansion.discard_eq, run_bind, hrun]
    rfl
  have hrest : t.Fails (do Expansion.attach rule programs; return rule) ↔
      ∃ q ∈ programs, q.ends ≤ q.starts ∧ s.scheduleOf? q.id = none ∧
        ∀ x ∈ finishedFor s rule, x.programId ≠ some q.id := by
    have hroom' : t.HasRoom programs.length := hroom.added hlength (takes_add hrun)
    have hfits : s.HasRoom (finishedFor s rule).length := hroom.mono (by omega)
    rw [fails_bind_iff fun _ => .pure rule, Expansion.fails_attach_iff
      (Expansion.refuses_added h hrun) ((looksLike_add hrun).isKeyed hkeyed) hroom']
    simp only [scheduleOf_added_eq_none hfits hrun]
  have hparts : s.Fails (fill rule programs) ↔ s.Fails (
      if (finishedFor s rule).isEmpty = true then do
        Expansion.attach rule programs
        return rule
      else do
        discard (Store.add (finishedFor s rule))
        Expansion.attach rule programs
        return rule) := Iff.rfl
  rw [hparts, ← hrest]
  refine (Expansion.fails_whenever_iff (fun _ => do
    Expansion.attach rule programs
    return rule) fun hempty => ?_).trans ?_
  · rw [hempty]
    rfl
  · rw [hdiscard, or_iff_right (not_fails_of_ok hdiscard)]
    constructor
    · rintro ⟨u, hu, hfails⟩
      obtain rfl := congrArg Prod.snd hu
      exact hfails
    · exact fun hfails => ⟨t, rfl, hfails⟩

/-! ## The rule that is stored first -/

/-- What adding a rule needs before anything is stored: a show, an input, and one write. -/
structure TakesRule (s : Store) (catalog : Catalog) (p : Program) : Prop where
  isLoaded : s.isLoaded = true
  input : (catalog.inputOf? p.channelId).isSome
  key : ∃ key, p.seriesKey = some key ∧ key ≠ ""
  write : s.refusesAfter 0 = false

/-- Neither a schedule nor a recording stands for the program, and it has no length. -/
structure Stops (s : Store) (p q : Program) : Prop where
  empty : q.ends ≤ q.starts
  unscheduled : s.scheduleOf? q.id = none
  unrecorded : ∀ r ∈ s.recorded, r.seriesKey = p.seriesKey → r.clipped = false →
    r.starts < r.ends → r.programId ≠ some q.id

theorem stops_iff {q : Program} : Stops s p q ↔
    q.ends ≤ q.starts ∧ s.scheduleOf? q.id = none ∧ ∀ r ∈ s.recorded,
      r.seriesKey = p.seriesKey → r.clipped = false → r.starts < r.ends →
        r.programId ≠ some q.id :=
  ⟨fun h => ⟨h.1, h.2, h.3⟩, fun ⟨hempty, hnone, hall⟩ => ⟨hempty, hnone, hall⟩⟩

instance {q : Program} : Decidable (Stops s p q) := decidable_of_iff _ stops_iff.symm

theorem seriesKey_ofProgram? (id : InputId) (p : Program) :
    (SeriesRule.ofProgram? id p).map (·.seriesKey) = p.seriesKey := by
  rw [SeriesRule.ofProgram?, Option.map_map]
  exact Option.map_id'

/-- A rule is made for a loaded store, a channel of an input and a program of a show. -/
theorem run_newRule (s : Store) (catalog : Catalog) (docket : Docket) (p : Program) :
    (∃ fault, s.run (newRule catalog docket p) = (.error fault, s) ∧ ¬ TakesRule s catalog p) ∨
      ∃ rule, s.run (newRule catalog docket p) = (.ok rule, s) ∧
        p.seriesKey = some rule.seriesKey ∧ s.isLoaded = true ∧
        (catalog.inputOf? p.channelId).isSome := by
  rw [newRule, run_bind, run_requireLoaded]
  cases hloaded : s.isLoaded with
  | false => exact Or.inl ⟨_, rfl, fun h => Bool.false_ne_true (hloaded.symm.trans h.isLoaded)⟩
  | true =>
    rw [if_pos rfl]
    dsimp only
    rw [run_bind, run_inputFor]
    cases hinput : catalog.inputOf? p.channelId with
    | none => exact Or.inl ⟨_, rfl, fun h => by simpa [hinput] using h.input⟩
    | some input =>
      have hkey := seriesKey_ofProgram? input.id p
      cases hrule : SeriesRule.ofProgram? input.id p with
      | none =>
        rw [hrule, Option.map_none] at hkey
        refine Or.inl ⟨.invalid s!"program {p.id} has no series id", ?_, ?_⟩
        · simp only [Option.elim_some, hrule]
          rfl
        · rintro ⟨-, -, ⟨key, hsome, -⟩, -⟩
          cases hkey.trans hsome
      | some rule =>
        rw [hrule, Option.map_some] at hkey
        refine Or.inr ⟨{ rule with priority := docket.newRulePriority s.ruleList }, ?_, hkey.symm,
          rfl, rfl⟩
        simp only [Option.elim_some, hrule]
        rfl

/-- What comes before a rule is filled. -/
def storeRule (catalog : Catalog) (docket : Docket) (p : Program) : Store.Op SeriesRule :=
  newRule catalog docket p >>= Store.addRule

theorem addRule_eq (catalog : Catalog) (docket : Docket) (p : Program) (programs : List Program) :
    addRule catalog docket p programs =
      storeRule catalog docket p >>= fun rule => fill rule programs := by
  rw [storeRule, bind_assoc]
  rfl

/-- Either nothing is stored and nothing can be seen, or a rule is stored under the next id. -/
theorem run_storeRule (s : Store) (catalog : Catalog) (docket : Docket) (p : Program) :
    (¬ TakesRule s catalog p ∧ s.Fails (storeRule catalog docket p) ∧
        LooksLike s (s.run (storeRule catalog docket p)).2) ∨
      TakesRule s catalog p ∧ ∃ rule, p.seriesKey = some rule.seriesKey ∧
        rule.id = s.ruleIds.next ∧
        s.run (storeRule catalog docket p) = (.ok rule, s.withRule rule) := by
  rw [Fails, storeRule, run_bind]
  rcases run_newRule s catalog docket p with
    ⟨fault, hnew, hnot⟩ | ⟨rule, hnew, hkey, hloaded, hinput⟩
  · rw [hnew]
    exact Or.inl ⟨hnot, ⟨fault, rfl⟩, .refl s⟩
  · rw [hnew]
    dsimp only
    rcases run_addRule s rule with ⟨⟨fault, hfault⟩, hnot⟩ | ⟨htakes, hstored⟩
    · refine Or.inl ⟨fun h => ?_, ⟨fault, hfault⟩, failsUnseen_addRule rule s fault hfault⟩
      obtain ⟨key, hsome, hfilled⟩ := h.key
      rcases hnot with hempty | hrefused
      · exact hfilled (Option.some.inj (hsome.symm.trans (hkey.trans (congrArg some hempty))))
      · exact Bool.false_ne_true (h.write.symm.trans hrefused)
    · obtain ⟨hfilled, hwrite⟩ := not_or.mp htakes
      exact Or.inr ⟨⟨hloaded, hinput, ⟨_, hkey, hfilled⟩, Bool.of_not_eq_true hwrite⟩,
        { rule with id := s.ruleIds.next }, hkey, rfl, hstored⟩

theorem forall_finishedFor_iff (hkey : p.seriesKey = some rule.seriesKey) {q : ProgramId} :
    (∀ x ∈ finishedFor s rule, x.programId ≠ some q) ↔ ∀ r ∈ s.recorded,
      r.seriesKey = p.seriesKey → r.clipped = false → r.starts < r.ends → r.programId ≠ some q := by
  simp only [finishedFor, List.forall_mem_map, List.mem_filter, standsForEpisode, hkey,
    Bool.and_eq_true, beq_iff_eq, Bool.not_eq_true', decide_eq_true_eq, and_imp]
  rfl

/-! ## Adding a rule -/

/-- A rule that cannot be stored is not seen. One that is stored stays, whether it is filled or
not. -/
theorem rules_addRule (hkeyed : s.IsKeyed) (catalog : Catalog) (docket : Docket) (p : Program)
    (programs : List Program) :
    (¬ TakesRule s catalog p → s.Fails (addRule catalog docket p programs) ∧
      LooksLike s (s.run (addRule catalog docket p programs)).2) ∧
    (TakesRule s catalog p → ∃ rule, p.seriesKey = some rule.seriesKey ∧
      rule.id = s.ruleIds.next ∧
      (s.run (addRule catalog docket p programs)).2.rules = s.rules.insert rule.id rule) := by
  rw [addRule_eq, fails_bind, run_bind]
  rcases run_storeRule s catalog docket p with
    ⟨hnot, hfails, hsame⟩ | ⟨htakes, rule, hkey, hid, hrun⟩
  · refine ⟨fun _ => ⟨Or.inl hfails, ?_⟩, fun h => absurd h hnot⟩
    obtain ⟨fault, hfault⟩ := hfails
    rcases hrun : s.run (storeRule catalog docket p) with ⟨answer, t⟩
    rw [hrun] at hfault hsame
    obtain rfl : answer = .error fault := hfault
    exact hsame
  · refine ⟨fun h => absurd htakes h, fun _ => ⟨rule, hkey, hid, ?_⟩⟩
    rw [hrun]
    exact (LeavesRules.fill rule programs (s.withRule rule) hkeyed).2

/-- If the archive takes all writes, a rule is added unless it cannot be stored or a program stops
the filling. -/
theorem fails_addRule_iff (h : Refuses false s) (hkeyed : s.IsKeyed)
    (hroom : s.HasRoom (s.recorded.length + programs.length)) (catalog : Catalog)
    (docket : Docket) (p : Program) : s.Fails (addRule catalog docket p programs) ↔
      ¬ TakesRule s catalog p ∨ ∃ q ∈ programs, Stops s p q := by
  rw [addRule_eq, fails_bind]
  rcases run_storeRule s catalog docket p with ⟨hnot, hfails, -⟩ | ⟨htakes, rule, hkey, -, hrun⟩
  · exact iff_of_true (Or.inl hfails) (Or.inl hnot)
  · have hfill : (s.withRule rule).Fails (fill rule programs) ↔ ∃ q ∈ programs, Stops s p q := by
      rw [fails_fill_iff (s := s.withRule rule) h hkeyed (hroom.congr rfl fun _ hid => hid)]
      refine exists_congr fun q => and_congr_right fun _ => ?_
      have hnone : (s.withRule rule).scheduleOf? q.id = none ↔ s.scheduleOf? q.id = none :=
        scheduleOf_eq_none_congr rfl
      rw [forall_finishedFor_iff hkey, stops_iff, hnone]
      exact Iff.rfl
    rw [← hfill, hrun]
    constructor
    · rintro (hfails | ⟨_, _, heq, hfails⟩)
      · exact absurd hfails (not_fails_of_ok hrun)
      · cases heq
        exact Or.inr hfails
    · rintro (hnot | hfails)
      · exact absurd htakes hnot
      · exact Or.inr ⟨rule, _, rfl, hfails⟩

/-- The rules and the schedules in use are those of before. -/
structure Untouched (s t : Store) : Prop where
  rules : t.rules = s.rules
  live : t.live = s.live

/-- A call that adds a rule and fails leaves the rules and the schedules as they were just if the
rule could not be stored. If the archive takes all writes, it is all or nothing just if the rule
cannot be stored or every program has some length, a schedule, or a recording that stands for it. -/
theorem addRule_all_or_nothing_iff (archive : Archive) (listings : Nat → Listing)
    (earlier : List Edit) (catalog : Catalog) (docket : Docket) (p : Program)
    (programs : List Program) :
    let s := earlier.foldl edit { archive, listings }
    let s' := (s.run (addRule catalog docket p programs)).2
    s.ruleIds.next ∉ s.rules →
      (s.Fails (addRule catalog docket p programs) →
        (Untouched s s' ↔ ¬ TakesRule s catalog p)) ∧
      (Refuses false s → s.HasRoom (s.recorded.length + programs.length) →
        ((s.Fails (addRule catalog docket p programs) → Untouched s s') ↔
          (TakesRule s catalog p → ∀ q ∈ programs, ¬ Stops s p q))) := by
  intro s s' hfree
  have hkeyed : s.IsKeyed := isKeyed_edits (fun k x hx => by simp at hx) earlier
  obtain ⟨hlost, hkept⟩ := rules_addRule hkeyed catalog docket p programs
  have hsame : Untouched s s' ↔ ¬ TakesRule s catalog p := by
    constructor
    · rintro ⟨hrules, -⟩ htakes
      obtain ⟨rule, -, hid, hinsert⟩ := hkept htakes
      rw [← hrules, ← hid, show s'.rules = _ from hinsert] at hfree
      exact hfree Std.TreeMap.mem_insert_self
    · intro hnot
      exact ⟨(hlost hnot).2.rules, (hlost hnot).2.live⟩
  refine ⟨fun _ => hsame, fun h hroom => ?_⟩
  rw [hsame, fails_addRule_iff h hkeyed hroom]
  constructor
  · intro hall htakes q hq hstops
    exact hall (Or.inr ⟨q, hq, hstops⟩) htakes
  · rintro hall (hnot | ⟨q, hq, hstops⟩) htakes
    · exact hnot htakes
    · exact hall htakes q hq hstops

/-- Three of the programs have no length: one has a schedule, a recording stands for another one,
and the third one stops the filling. By then what has been recorded is attached. -/
theorem addRule_all_or_nothing_four :
    let program (id : ProgramId) (ends : Instant) : Program :=
      { (default : Program) with id, channelId := 1, seriesKey := some "show", starts := 100, ends }
    let recorded : RecordedProgram :=
      { (default : RecordedProgram) with
        programId := some 8, seriesKey := some "show", starts := 20, ends := 30 }
    let catalog := (Catalog.putInput {} ⟨"tuner", 1, true⟩).putChannel ⟨1, "tuner", "One", none⟩
    let earlier : List Edit :=
      [.load 0, .add [.ofProgram "tuner" (program 7 150)], .addRecorded recorded]
    let p := program 6 150
    let programs := [p, program 7 100, program 8 100, program 9 100]
    let s := earlier.foldl edit { archive := {} }
    let s' := (s.run (addRule catalog {} p programs)).2
    s.ruleIds.next ∉ s.rules ∧ Refuses false s ∧ s.HasRoom (s.recorded.length + programs.length) ∧
      TakesRule s catalog p ∧ programs.filter (fun q => Stops s p q) = [program 9 100] ∧
      ¬ (s.Fails (addRule catalog {} p programs) → Untouched s s') ∧
      s'.schedules.map (fun x => (x.programId, x.ruleId)) = [(some 7, none), (some 8, some 1)] := by
  intro program recorded catalog earlier p programs s s'
  have hfree : s.ruleIds.next ∉ s.rules := by decide +kernel
  have htaken : Refuses false s := fun _ => rfl
  have hroom : s.HasRoom (s.recorded.length + programs.length) :=
    ⟨by decide +kernel, by decide +kernel⟩
  have htakes : TakesRule s catalog p :=
    ⟨by decide +kernel, by decide +kernel, ⟨"show", rfl, by decide⟩, by decide +kernel⟩
  have hstops : programs.filter (fun q => Stops s p q) = [program 9 100] := by decide +kernel
  have hlast : program 9 100 ∈ programs.filter (fun q => Stops s p q) :=
    hstops ▸ List.mem_singleton_self _
  obtain ⟨hin, hstop⟩ := List.mem_filter.mp hlast
  obtain ⟨-, hiff⟩ := addRule_all_or_nothing_iff {} (fun _ => .byAge) earlier catalog {} p
    programs hfree
  refine ⟨hfree, htaken, hroom, htakes, hstops, fun hall => ?_, by decide +kernel⟩
  exact (hiff htaken hroom).mp hall htakes _ hin (of_decide_eq_true hstop)

/-- The one program that was asked for has no length. Both calls fail, and each leaves a rule for
the show behind. -/
theorem not_all_or_nothing_empty :
    let p : Program :=
      { (default : Program) with
        id := 7, channelId := 1, seriesKey := some "show", starts := 100, ends := 100 }
    let catalog := (Catalog.putInput {} ⟨"tuner", 1, true⟩).putChannel ⟨1, "tuner", "One", none⟩
    let s := Store.edit {} (.load 0)
    let s' := (s.run (addRule catalog {} p [p])).2
    let s'' := (s'.run (addRule catalog {} p [p])).2
    let fault := Fault.invalid "schedule on channel 1 has an empty time range [100, 100)"
    s.isLoaded = true ∧ s.ruleList = [] ∧
      (s.run (addRule catalog {} p [p])).1 = .error fault ∧
      s'.ruleList.map (fun r => (r.id, r.seriesKey)) = [(1, "show")] ∧
      (s'.run (addRule catalog {} p [p])).1 = .error fault ∧
      s''.ruleList.map (fun r => (r.id, r.seriesKey)) = [(1, "show"), (2, "show")] := by
  decide +kernel

end Booking

end Timeshift
