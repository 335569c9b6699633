import Timeshift.Proofs.Expansion.Effects

/-!
# How often an episode is scheduled

An update makes at most one schedule for an episode, and none if a schedule covers the episode
already. What has been recorded does not keep it from making one.
-/

namespace Timeshift

def StoreEvent.newSchedules : StoreEvent → List Schedule
  | .added l => l
  | _ => []

namespace Store

variable {s t u : Store} {es : List StoreEvent}

/-- The schedules that have been added since, as they were when they were. -/
def addedSince (s t : Store) : List Schedule :=
  (t.journal.drop s.journal.length).flatMap StoreEvent.newSchedules

theorem addedSince_eq (h : t.journal = s.journal ++ es) :
    s.addedSince t = es.flatMap StoreEvent.newSchedules := by
  rw [addedSince, h, List.drop_left]

theorem addedSince_append (h : s.journal <+: t.journal) (h' : t.journal <+: u.journal) :
    s.addedSince u = s.addedSince t ++ t.addedSince u := by
  obtain ⟨es, hes⟩ := h
  obtain ⟨fs, hfs⟩ := h'
  rw [addedSince_eq hes.symm, addedSince_eq hfs.symm, ← List.flatMap_append]
  refine addedSince_eq ?_
  rw [← hfs, ← hes, List.append_assoc]

end Store

def Schedule.unnumbered (x : Schedule) : Schedule := { x with id := unassigned }

theorem Store.map_unnumbered_number (c : IdCounter) (l : List Schedule) :
    (number c l).1.map Schedule.unnumbered = l.map Schedule.unnumbered := by
  induction l generalizing c with
  | nil => rfl
  | cons x rest ih =>
    have hnumber : (number c (x :: rest)).1 = { x with id := c.next } :: (number c.take.2 rest).1 :=
      rfl
    rw [hnumber, List.map_cons, List.map_cons, ih]
    rfl

namespace Expansion

open Candidate Store

variable {s t u : Store} {rule : SeriesRule} {programs : List Program} {l c : List Schedule}
  {picks : List (SeriesRule × List Program)} {e : Episode}

/-! ## What is added -/

theorem unnumbered_additions (s : Store) (rule : SeriesRule) (programs : List Program) :
    (additions s rule programs).map Schedule.unnumbered = additions s rule programs := by
  rw [additions, List.map_map]
  rfl

theorem additions_sublist (h : ∀ p, u.scheduleOf? p = none → s.scheduleOf? p = none) :
    (additions u rule programs).Sublist (additions s rule programs) := by
  refine (List.monotone_filter_right programs fun p hp => ?_).map _
  exact Option.isNone_iff_eq_none.mpr (h p.id (Option.isNone_iff_eq_none.mp hp))

theorem Attaches.addedSince (h : Attaches rule programs s l c t) : s.addedSince t = l := by
  rw [addedSince_eq h.journal, List.flatMap_append]
  cases l <;> cases c <;> simp [told, StoreEvent.newSchedules]

theorem Attaches.added_sublist (h : Attaches rule programs s l c t) :
    ((s.addedSince t).map Schedule.unnumbered).Sublist (additions s rule programs) := by
  rw [h.addedSince]
  rcases h.added with rfl | rfl
  · exact List.nil_sublist _
  · rw [map_unnumbered_number, unnumbered_additions]

/-- The picks that had no schedule before are added, up to the first that fails. -/
theorem attachAll_added (hkeyed : s.IsKeyed) (hstored : AreStored s picks)
    (hroom : s.HasRoom (picks.flatMap (·.2)).length) {r : Except Fault Nat}
    (h : s.run (attachAll picks) = (r, t)) :
    ((s.addedSince t).map Schedule.unnumbered).Sublist
        (picks.flatMap fun pick => additions s pick.1 pick.2) ∧
      (AreApart picks → ∀ n, r = .ok n → (s.addedSince t).map Schedule.unnumbered =
        picks.flatMap fun pick => additions s pick.1 pick.2) := by
  induction picks generalizing s r with
  | nil =>
    obtain rfl : s = t := congrArg Prod.snd h
    have hnone : s.addedSince s = [] := addedSince_eq (List.append_nil _).symm
    rw [hnone]
    exact ⟨List.Sublist.refl _, fun _ _ _ => rfl⟩
  | cons pick rest ih =>
    rw [List.flatMap_cons, List.length_append] at hroom
    rw [List.flatMap_cons]
    rcases attachAll_cons (hstored pick List.mem_cons_self) h with
      ⟨u, r', hattach, hrest, hr⟩ | ⟨fault, rfl, hattach⟩
    · obtain ⟨l, c, hattaches, hfull⟩ := attaches hkeyed hattach
      obtain ⟨hgrows, hroom', -⟩ := attach_ok hkeyed hroom hattach
      obtain ⟨hsub, heq⟩ := ih (hgrows.keyed hkeyed) (hstored.tail.congr hgrows.rules) hroom' hrest
      have hfirst : (s.addedSince u).map Schedule.unnumbered = additions s pick.1 pick.2 := by
        rw [hattaches.addedSince, (hfull rfl).1, map_unnumbered_number, unnumbered_additions]
      have hsplit : (s.addedSince t).map Schedule.unnumbered = additions s pick.1 pick.2 ++
          (u.addedSince t).map Schedule.unnumbered := by
        rw [addedSince_append ⟨_, hattaches.journal.symm⟩
          (attachAll_journal (hgrows.keyed hkeyed) (hstored.tail.congr hgrows.rules) hrest),
          List.map_append, hfirst]
      rw [hsplit]
      refine ⟨(List.Sublist.refl _).append (hsub.trans (flatMap_sublist fun later _ => ?_)),
        fun hapart n hn => ?_⟩
      · exact additions_sublist fun p => hgrows.scheduleOf_eq_none
      · obtain ⟨hother, hapart⟩ := List.pairwise_cons.mp hapart
        have hok : ∃ k, r' = .ok k := by
          cases r' with
          | ok k => exact ⟨k, rfl⟩
          | error => rw [hn] at hr; cases hr
        obtain ⟨k, hk⟩ := hok
        rw [heq hapart k hk]
        refine congrArg (additions s pick.1 pick.2 ++ ·) (List.flatMap_congr fun later hlater => ?_)
        refine congrArg (List.map _) (List.filter_congr fun p hp => ?_)
        rw [Bool.eq_iff_iff, Option.isNone_iff_eq_none, Option.isNone_iff_eq_none]
        exact hgrows.scheduleOf_eq_none_iff fun ⟨q, hq, hid⟩ =>
          hother later hlater q hq ⟨p, hp, hid.symm⟩
    · obtain ⟨l, c, hattaches, -⟩ := attaches hkeyed hattach
      exact ⟨hattaches.added_sublist.trans (List.sublist_append_left _ _), fun _ _ hn => nomatch hn⟩

/-! ## What is added for one episode -/

def isFor (e : Episode) (x : Schedule) : Bool := Episode.ofSchedule? x == some e

theorem additions_of_episode : (additions s rule programs).filter (isFor e) =
    additions s rule (programs.filter (Episode.ofProgram rule.id · == e)) := by
  rw [additions, additions, List.filter_map, unscheduled, unscheduled, List.filter_filter,
    List.filter_filter]
  refine congrArg _ (List.filter_congr fun p _ => ?_)
  rw [Bool.and_comm]
  rfl

theorem additions_of_other (hid : rule.id ≠ e.ruleId) :
    (additions s rule programs).filter (isFor e) = [] := by
  refine List.filter_eq_nil_iff.mpr fun x hx hfor => hid ?_
  obtain ⟨p, -, rfl⟩ := List.mem_map.mp hx
  have hsame : some (Episode.ofProgram rule.id p) = some e := beq_iff_eq.mp hfor
  exact congrArg Episode.ruleId (Option.some.inj hsame)

/-- Of the airings of an episode at most one is added: the first one, if it has no schedule and none
of them waits. -/
theorem additions_keepOne (s : Store) (rule : SeriesRule) (airings : List Program) :
    (additions s rule (keepOne s airings)).length ≤ 1 ∧
      (additions s rule (keepOne s airings) ≠ [] ↔ (∀ p ∈ airings, isScheduled s p = false) ∧
        ∃ first, (sortBy Program.airsBy airings).head? = some first ∧
          s.scheduleOf? first.id = none) := by
  by_cases hnone : airings.filter (isScheduled s) = []
  · have hwaits : ∀ p ∈ airings, isScheduled s p = false := by
      intro p hp
      exact Bool.eq_false_iff.mpr (List.filter_eq_nil_iff.mp hnone p hp)
    have hkeep : keepOne s airings = (sortBy Program.airsBy airings).take 1 := by
      rw [keepOne, hnone]
      rfl
    rw [hkeep]
    cases sortBy Program.airsBy airings with
    | nil => exact ⟨Nat.zero_le _, by simp [additions, unscheduled]⟩
    | cons first rest =>
      have hone : (first :: rest).take 1 = [first] := rfl
      rw [and_iff_right hwaits, hone]
      cases hschedule : s.scheduleOf? first.id <;> simp [additions, unscheduled, hschedule]
  · -- Those that wait are kept, and they have schedules.
    have hkeep : keepOne s airings = airings.filter (isScheduled s) := by
      rw [keepOne]
      exact if_neg (by rwa [List.isEmpty_iff])
    have hadded : additions s rule (keepOne s airings) = [] := by
      rw [additions, hkeep, unscheduled, List.map_eq_nil_iff, List.filter_eq_nil_iff]
      intro p hp
      have hwaits := (List.mem_filter.mp hp).2
      rw [isScheduled, Option.any_eq_true] at hwaits
      obtain ⟨x, hx, -⟩ := hwaits
      rw [hx]
      exact Bool.false_ne_true
    rw [hadded]
    refine ⟨Nat.zero_le _, fun h => absurd rfl h, fun h => absurd ?_ hnone⟩
    refine List.filter_eq_nil_iff.mpr fun p hp => ?_
    rw [h.1 p hp]
    exact Bool.false_ne_true

section Update

variable {f : CandidateFilter} {found : List Program}

theorem length_pickFor_le (s : Store) (rules : List SeriesRule) (programs : List Program)
    (id : RuleId) : (pickFor s rules programs id).length ≤
      (programs.filter fun p => ruleIdFor rules p == some id).length := by
  rw [pickFor, length_sortBy, List.partition_eq_filter_filter]
  dsimp only
  generalize (programs.filter fun p => ruleIdFor rules p == some id) = own
  generalize hnumbered : (own.filter fun p => (Episode.ofProgram id p).isComplete) = numbered
  have hkept : (((numbered.map (Episode.ofProgram id)).eraseDups).flatMap fun e =>
      keepOne s (numbered.filter fun p => Episode.ofProgram id p == e)).length ≤
        numbered.length :=
    Nat.le_trans (length_flatMap_le fun e _ => length_keepOne_le)
      (length_flatMap_filter_le (Episode.ofProgram id) (nodup_eraseDups _) numbered)
  have hsplit := List.length_eq_length_filter_add (l := own)
    fun p => (Episode.ofProgram id p).isComplete
  rw [hnumbered] at hsplit
  rw [List.length_append, hsplit, Nat.add_comm]
  exact Nat.add_le_add_right hkept _

theorem length_picksOf_le (s : Store) (f : CandidateFilter) (found : List Program) :
    ((picksOf s f found).flatMap (·.2)).length ≤ found.length := by
  have hids : ((distinctRules f.rules).map fun r => some r.id).Nodup := by
    have hsome := (ids_distinctRules f.rules).map (Option.some_injective RuleId)
    rwa [List.map_map] at hsome
  have hcounted := length_flatMap_filter_le (ruleIdFor f.rules) hids (found.filter f.accepts)
  rw [List.flatMap_map] at hcounted
  rw [picksOf, List.flatMap_map]
  calc ((distinctRules f.rules).flatMap fun r =>
          pickFor s f.rules (found.filter f.accepts) r.id).length
      ≤ ((distinctRules f.rules).flatMap fun r => (found.filter f.accepts).filter fun p =>
          ruleIdFor f.rules p == some r.id).length :=
        length_flatMap_le fun r _ => length_pickFor_le s f.rules (found.filter f.accepts) r.id
    _ ≤ (found.filter f.accepts).length := hcounted
    _ ≤ found.length := List.length_filter_le _ _

theorem added_of_episode (s : Store) (found : List Program)
    (hkeys : (f.rules.map (·.seriesKey)).Nodup)
    (hids : (f.rules.map (·.id)).Nodup) (hrule : rule ∈ f.rules) (he : e.isComplete = true)
    (hid : rule.id = e.ruleId) :
    (((picksOf s f found).flatMap fun pick => additions s pick.1 pick.2).filter (isFor e)).Perm
      (additions s rule (keepOne s (airingsOf f found rule e))) := by
  have hpicks : (picksOf s f found).flatMap (fun pick =>
      (additions s pick.1 pick.2).filter (isFor e)) = (additions s rule
        (pickFor s f.rules (found.filter f.accepts) rule.id)).filter (isFor e) := by
    rw [picksOf, distinctRules_eq hids, List.flatMap_map]
    refine flatMap_of_unique hids.of_map hrule fun r hr hne => additions_of_other fun hsame => ?_
    exact hne (List.inj_on_of_nodup_map hids hr hrule (hsame.trans hid.symm))
  rw [List.filter_flatMap, hpicks, additions_of_episode, additions, additions]
  refine ((List.Perm.trans (pickFor_of_episode he) ?_).filter _).map _
  rw [candidates_eq_airingsOf hkeys hids hrule]

theorem airingsOf_eq_nil {rules : List SeriesRule} {now : Instant} (hrule : rule ∈ rules)
    (he : e.isComplete = true) (hrecords : s.Records e) :
    airingsOf (.ofStore s rules [] now) found rule e = [] := by
  refine List.filter_eq_nil_iff.mpr fun p hp hairing => ?_
  obtain ⟨-, -, htakes, rfl⟩ := mem_airingsOf.mp (List.mem_filter.mpr ⟨hp, hairing⟩)
  exact ((CandidateFilter.takes_iff he hrule).mp htakes).2.2 hrecords

end Update

/-! ## Updates -/

/-- An update adds at most one schedule for a complete episode of a rule, and none if the episode is
covered by a schedule. If the update succeeds it adds one exactly if no airing waits already, as far
as a search comes to the schedule that does, and the first one has no schedule, whatever has been
recorded. -/
theorem at_most_one_added_per_episode (archive : Archive) (listings : Nat → Listing)
    (earlier : List Store.Edit) (search : GuideQuery → List Program) (rules : List SeriesRule)
    (now : Instant) :
    let s := earlier.foldl Store.edit { archive, listings }
    let f := CandidateFilter.ofStore s rules [] now
    let found := search (.forRules rules now)
    let t := (s.run (runWith search rules now)).2
    s.HasRoom found.length → (∀ r ∈ rules, s.rule? r.id = some r) →
      (rules.map (·.seriesKey)).Nodup → ∀ e : Episode, e.isComplete = true →
      ((s.addedSince t).filter (isFor e)).length ≤ 1 ∧
        (s.Records e → (s.addedSince t).filter (isFor e) = []) ∧
        ∀ rule ∈ rules, rule.id = e.ruleId → ∀ n, (s.run (runWith search rules now)).1 = .ok n →
          (found.map (·.id)).Nodup → ((s.addedSince t).filter (isFor e) ≠ [] ↔
            (∀ p ∈ airingsOf f found rule e, isScheduled s p = false) ∧
              ∃ first, (sortBy Program.airsBy (airingsOf f found rule e)).head? = some first ∧
                s.scheduleOf? first.id = none) := by
  intro s f found t hroom hstored hkeys e he
  have hkeyed : s.IsKeyed := isKeyed_edits (fun id x hx => by simp at hx) earlier
  have hids : (f.rules.map (·.id)).Nodup := ids_of_stored hstored hkeys
  have hstored' : AreStored s (picksOf s f found) := areStored_picksOf hstored
  have hrun : s.run (attachAll (picksOf s f found)) =
      ((s.run (runWith search rules now)).1, t) := (run_runWith s search rules now).symm
  obtain ⟨hsub, heq⟩ := attachAll_added hkeyed hstored'
    (hroom.mono (length_picksOf_le s f found)) hrun
  have hmap : ((s.addedSince t).filter (isFor e)).map Schedule.unnumbered =
      ((s.addedSince t).map Schedule.unnumbered).filter (isFor e) := by
    rw [List.filter_map]
    rfl
  have hlength : ((s.addedSince t).filter (isFor e)).length ≤
      (((picksOf s f found).flatMap fun pick => additions s pick.1 pick.2).filter
        (isFor e)).length := by
    rw [← List.length_map (f := Schedule.unnumbered), hmap]
    exact (hsub.filter _).length_le
  by_cases hlisted : ∃ rule ∈ rules, rule.id = e.ruleId
  · obtain ⟨rule, hrule, hid⟩ := hlisted
    have hperm := added_of_episode s found hkeys hids hrule he hid
    obtain ⟨hone, hfirst⟩ := additions_keepOne s rule (airingsOf f found rule e)
    rw [hperm.length_eq] at hlength
    refine ⟨Nat.le_trans hlength hone, fun hrecords => ?_, fun r hr hrid n hok hfound => ?_⟩
    · rw [airingsOf_eq_nil hrule he hrecords] at hlength
      exact List.eq_nil_of_length_eq_zero (Nat.le_zero.mp hlength)
    · obtain rfl := List.inj_on_of_nodup_map hids hr hrule (hrid.trans hid.symm)
      rw [← hfirst, not_iff_not, ← List.map_eq_nil_iff, hmap,
        heq (areApart_picksOf hfound) n hok]
      rw [← List.length_eq_zero_iff, hperm.length_eq, List.length_eq_zero_iff]
  · -- Nothing is added for a rule that is not listed.
    have hnone : (s.addedSince t).filter (isFor e) = [] := by
      refine List.eq_nil_of_length_eq_zero (Nat.le_zero.mp (Nat.le_trans hlength ?_))
      rw [List.filter_flatMap, List.flatMap_eq_nil_iff.mpr]
      · exact Nat.le_refl _
      · intro pick hpick
        exact additions_of_other fun hid => hlisted ⟨pick.1, (of_mem_picksOf hpick).1, hid⟩
    rw [hnone]
    exact ⟨Nat.zero_le _, fun _ => rfl, fun r hr hid => absurd ⟨r, hr, hid⟩ hlisted⟩

/-- Two airings of one episode, and another airing of an episode that is scheduled already. -/
theorem at_most_one_added_per_episode_two :
    let rule : SeriesRule := { SeriesRule.ofKey "show" "tuner" 1 with id := 1 }
    let guide := [airing 10 100 "1", airing 11 200 "1", airing 13 220 "2"]
    let s := [.load 0, .addRule rule, .add [newSchedule rule (airing 12 120 "2")]].foldl edit
      { archive := {} }
    let t := (s.run (runWith (fun _ => guide) [rule] 50)).2
    s.HasRoom guide.length ∧ (∀ r ∈ [rule], s.rule? r.id = some r) ∧
      ((s.addedSince t).filter (isFor ⟨1, some "1", some "1"⟩)).length ≤ 1 ∧
      (s.addedSince t).filter (isFor ⟨1, some "1", some "1"⟩) ≠ [] ∧
      s.Records ⟨1, some "1", some "2"⟩ ∧
      (s.addedSince t).filter (isFor ⟨1, some "1", some "2"⟩) = [] := by
  intro rule guide s t
  have hroom : s.HasRoom guide.length := ⟨by decide, by decide +kernel⟩
  have hstored : ∀ r ∈ [rule], s.rule? r.id = some r := by decide +kernel
  have hrecords : s.Records ⟨1, some "1", some "2"⟩ := by decide +kernel
  have hadded := at_most_one_added_per_episode {} (fun _ => .byAge)
    [.load 0, .addRule rule, .add [newSchedule rule (airing 12 120 "2")]] (fun _ => guide) [rule] 50
    hroom hstored (by decide)
  obtain ⟨hone, -, hfirst⟩ := hadded ⟨1, some "1", some "1"⟩ (by decide)
  refine ⟨hroom, hstored, hone, (hfirst rule List.mem_cons_self rfl 1 (by decide +kernel)
    (by decide)).mpr ⟨by decide +kernel, airing 10 100 "1", by decide +kernel, by decide +kernel⟩,
    hrecords, (hadded ⟨1, some "1", some "2"⟩ (by decide)).2.1 hrecords⟩

/-- The episode has been recorded before, and it is scheduled once more. -/
theorem not_skipped_recorded :
    let rule : SeriesRule := { SeriesRule.ofKey "show" "tuner" 1 with id := 1 }
    let made : RecordedProgram :=
      { (default : RecordedProgram) with
        seriesKey := some "show", season := some "1", episode := some "1" }
    let catalog : Catalog := { guide := [airing 10 100 "1"] }
    let s := [.load 0, .addRule rule, .addRecorded made].foldl edit { archive := {} }
    let t := (s.run (run catalog [rule] 50)).2
    (s.run (run catalog [rule] 50)).1 = .ok 1 ∧ s.rule? 1 = some rule ∧
      Episode.recordedFor rule s.recorded = [⟨1, some "1", some "1"⟩] ∧
      ((s.addedSince t).filter (isFor ⟨1, some "1", some "1"⟩)).map (·.programId) = [some 10] :=
  ⟨by decide +kernel, by decide +kernel, by decide +kernel, by decide +kernel⟩

/-- For a rule that is not stored yet, what has been recorded counts as covered too. -/
theorem not_covered_of_mem_trialPick {s : Store} {rule : SeriesRule} {now : Instant}
    {found : List Program} {p : Program}
    (hp : p ∈ trialPick s (trialFilter s rule now) rule found)
    (he : (Episode.ofProgram rule.id p).isComplete = true) :
    Episode.ofProgram rule.id p ∉ Episode.recordedFor rule s.recorded ∧
      ¬ s.Records (Episode.ofProgram rule.id p) := by
  have haccepts := (List.mem_filter.mp (of_mem_pickFor hp).1).2
  obtain ⟨-, r, hr, htakes⟩ := CandidateFilter.accepts_iff.mp haccepts
  obtain rfl := List.mem_singleton.mp hr
  exact ((CandidateFilter.takes_iff he List.mem_cons_self).mp htakes).2

end Expansion

end Timeshift
