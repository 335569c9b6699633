import Timeshift.Proofs.Docket.Deltas
import Timeshift.Proofs.Docket.Following

/-!
# The gate before the docket

Two words open the docket, one on loaded schedules and one on loaded channels. Until it has
heard both there is nothing in it and it tells nothing, but for one way past the gate: a change
of channels asks for the first word only.
-/

namespace Timeshift

namespace Docket

/-! ## What has been said -/

namespace Prompt

def isOnSchedules (m : Prompt) : Bool :=
  match m.cue with
  | .schedulesLoaded | .hear .loaded => true
  | _ => false

def isOnChannels (m : Prompt) : Bool :=
  match m.cue with
  | .channelsLoaded => true
  | _ => false

def isRevision (m : Prompt) : Bool :=
  match m.cue with
  | .channelsChanged => true
  | _ => false

end Prompt

section Said

variable (course : List Prompt)

def areSchedulesLoaded : Bool := course.any (·.isOnSchedules)

def areChannelsLoaded : Bool := course.any (·.isOnChannels)

/-- Both words have been said, in any order. -/
def IsReady : Prop := areSchedulesLoaded course ∧ areChannelsLoaded course

/-- The channels changed at a time when the schedules were loaded. -/
def IsRevised : Prop :=
  ∃ earlier m later, course = earlier ++ m :: later ∧ m.isRevision ∧ areSchedulesLoaded earlier

end Said

section Longer

variable (course : List Prompt) (m : Prompt)

theorem areSchedulesLoaded_concat :
    areSchedulesLoaded (course ++ [m]) = (m.isOnSchedules || areSchedulesLoaded course) := by
  simp [areSchedulesLoaded, Bool.or_comm]

theorem areChannelsLoaded_concat :
    areChannelsLoaded (course ++ [m]) = (m.isOnChannels || areChannelsLoaded course) := by
  simp [areChannelsLoaded, Bool.or_comm]

theorem isRevised_concat :
    IsRevised (course ++ [m]) ↔
      IsRevised course ∨ (m.isRevision = true ∧ areSchedulesLoaded course = true) := by
  constructor
  · rintro ⟨earlier, x, later, hcourse, hx, hloaded⟩
    rcases List.eq_nil_or_concat later with rfl | ⟨later, y, rfl⟩
    · obtain ⟨rfl, rfl⟩ := List.append_singleton_inj.mp hcourse
      exact .inr ⟨hx, hloaded⟩
    · rw [List.concat_eq_append, ← List.cons_append, ← List.append_assoc] at hcourse
      obtain ⟨rfl, rfl⟩ := List.append_singleton_inj.mp hcourse
      exact .inl ⟨earlier, x, later, rfl, hx, hloaded⟩
  · rintro (⟨earlier, x, later, rfl, hx, hloaded⟩ | ⟨hm, hloaded⟩)
    · exact ⟨earlier, x, later ++ [m], by simp, hx, hloaded⟩
    · exact ⟨course, m, [], rfl, hm, hloaded⟩

theorem play_concat :
    play (course ++ [m]) =
      ((m.step (play course).1).1, (play course).2 ++ (m.step (play course).1).2) := by
  rw [play, List.foldl_append]
  rfl

end Longer

/-! ## One step -/

/-- A docket that knows what is loaded, and nothing else. -/
def closed (schedules channels : Bool) : Docket :=
  { schedulesLoaded := schedules, channelsLoaded := channels }

/-- The prompt opens a docket that knows so much: it brings the word that is missing, or it is a
change of channels. -/
def Prompt.opens (m : Prompt) (schedules channels : Bool) : Bool :=
  ((m.isOnSchedules || schedules) && (m.isOnChannels || channels)) || (m.isRevision && schedules)

section Step

variable (m : Prompt) {d : Docket} {schedules channels : Bool}

theorem isInitialized_rebuilt (catalog : Catalog) (stored : List Schedule) (d : Docket) :
    (d.rebuilt catalog stored).1.isInitialized = true :=
  (flags_rebuilt catalog stored d).isInitialized

/-- An open docket stays open. -/
theorem isInitialized_step (h : d.isInitialized = true) :
    (m.step d).1.isInitialized = true := by
  have hmay : ∀ {c : Bool} {d' : Docket}, d'.isInitialized = true →
      (if c then d'.rebuilt m.catalog m.stored else (d', [])).1.isInitialized = true := by
    intro c d' hd'
    split
    · exact isInitialized_rebuilt ..
    · exact hd'
  have hamend : ∀ {edit : Docket → Docket} {news : DocketEvent}, HasSameFlags d (edit d) →
      (d.amend m.catalog edit news).1.isInitialized = true := by
    intro edit news hedit
    rw [amend, if_pos h]
    exact hedit.isInitialized.trans h
  obtain ⟨catalog, stored, cue⟩ := m
  cases cue with
  | schedulesLoaded => exact hmay h
  | channelsLoaded => exact hmay h
  | channelsChanged => exact hmay h
  | rebuild => exact hmay h
  | hear e =>
    cases e with
    | loaded => exact hmay h
    | added l => exact hamend (.foldl (.trackPending catalog) l d)
    | removed l => exact hamend (.foldl (fun d s => .untrack d s.id) l d)
    | changed l => exact hamend (.foldl (.retrack catalog) l d)
    | rulesAdded l => exact h
    | rulesRemoved l => exact h
    | rulesChanged l => exact h

/-- A closed docket notes what it is told and tells nothing, unless it is opened. -/
theorem step_closed (hshut : (schedules && channels) = false) :
    if m.opens schedules channels then
      (m.step (closed schedules channels)).1.isInitialized = true
    else
      m.step (closed schedules channels) =
        (closed (m.isOnSchedules || schedules) (m.isOnChannels || channels), []) := by
  -- The prompt asks for `c` before it has the lists made.
  have hmay : ∀ {opens c : Bool} {d' : Docket} {p : Step}, opens = c →
      p = (if c then d'.rebuilt m.catalog m.stored else (d', [])) →
      if opens then p.1.isInitialized = true else p = (d', []) := by
    rintro - (_ | _) d' p rfl rfl
    · rfl
    · exact isInitialized_rebuilt ..
  obtain ⟨catalog, stored, cue⟩ := m
  simp only [Prompt.opens]
  cases cue with
  | schedulesLoaded => exact hmay (Bool.or_false channels) rfl
  | channelsLoaded => exact hmay ((Bool.or_false _).trans (Bool.and_true schedules)) rfl
  | channelsChanged => exact hmay (congrArg (· || schedules) hshut) rfl
  | rebuild => exact hmay (Bool.or_false _) rfl
  | hear e =>
    have hdeaf : ((schedules && channels) || false) = false := by rw [hshut, Bool.false_or]
    cases e with
    | loaded => exact hmay (Bool.or_false channels) rfl
    | added l => exact hmay hdeaf rfl
    | removed l => exact hmay hdeaf rfl
    | changed l => exact hmay hdeaf rfl
    | rulesAdded l => exact hmay hdeaf rfl
    | rulesRemoved l => exact hmay hdeaf rfl
    | rulesChanged l => exact hmay hdeaf rfl

end Step

/-! ## The whole course -/

/-- Nothing is listed, nothing is a conflict, and nothing would be in the way of anything. -/
structure ShowsNothing (d : Docket) : Prop where
  inputs : d.inputs = []
  schedules : ∀ input, d.schedulesOf input = []
  started : ∀ input, d.startedOf input = []
  conflicts : ∀ input, d.conflictsOf input = []
  allConflicts : d.allConflicts = []
  conflicting : ∀ id, d.isConflicting id = false
  program : ∀ catalog stored p, d.conflictsForProgram catalog stored p = []
  range : ∀ catalog stored channel r, d.conflictsForRange catalog stored channel r = []
  tuning : ∀ catalog stored channel now, d.conflictsForTuning catalog stored channel now = []
  watching : ∀ catalog stored channel now, d.conflictsForWatching catalog stored channel now = []

theorem showsNothing_closed (schedules channels : Bool) :
    ShowsNothing (closed schedules channels) where
  inputs := rfl
  schedules _ := rfl
  started _ := rfl
  conflicts _ := rfl
  allConflicts := rfl
  conflicting _ := rfl
  program _ _ _ := by unfold conflictsForProgram; split <;> rfl
  range _ _ _ _ := by unfold conflictsForRange; split <;> rfl
  tuning _ _ _ _ := by unfold conflictsForTuning; split <;> rfl
  watching _ _ _ _ := by unfold conflictsForWatching; split <;> rfl

/-- One more prompt opens a docket, or another one has opened it. -/
theorem isOpen_concat (course : List Prompt) (m : Prompt) :
    IsReady (course ++ [m]) ∨ IsRevised (course ++ [m]) ↔
      (IsReady course ∨ IsRevised course) ∨
        m.opens (areSchedulesLoaded course) (areChannelsLoaded course) = true := by
  simp only [IsReady, isRevised_concat, areSchedulesLoaded_concat, areChannelsLoaded_concat,
    Prompt.opens, Bool.or_eq_true, Bool.and_eq_true]
  tauto

/-- A course has opened the docket, or the docket has noted what it was told and told nothing. -/
theorem play_cases (course : List Prompt) :
    (IsReady course ∨ IsRevised course) ∧ (play course).1.isInitialized = true ∨
      ¬ (IsReady course ∨ IsRevised course) ∧
        play course = (closed (areSchedulesLoaded course) (areChannelsLoaded course), []) := by
  induction course using List.reverseRecOn with
  | nil => exact .inr ⟨by simp [IsReady, IsRevised, areSchedulesLoaded], rfl⟩
  | append_singleton earlier m ih =>
    rw [isOpen_concat, play_concat]
    rcases ih with ⟨hopen, hinit⟩ | ⟨hshut, hplay⟩
    · exact .inl ⟨.inl hopen, isInitialized_step m hinit⟩
    · have hnot : (areSchedulesLoaded earlier && areChannelsLoaded earlier) = false :=
        Bool.eq_false_iff.mpr fun h => hshut (.inl (Bool.and_eq_true_iff.mp h))
      have hstep := step_closed m hnot
      rw [hplay, areSchedulesLoaded_concat, areChannelsLoaded_concat]
      split at hstep
      · next hopens => exact .inl ⟨.inr hopens, hstep⟩
      · next hopens => exact .inr ⟨not_or.mpr ⟨hshut, hopens⟩, by rw [hstep]; rfl⟩

/-- The docket shows and tells nothing just as long as not both words have been said, if the
channels have not changed after the word on the schedules. -/
theorem shut_iff (course : List Prompt) :
    let (d, told) := play course
    (d.isInitialized = false ∧ told = [] ∧ d.ShowsNothing) ↔
      ¬ IsReady course ∧ ¬ IsRevised course := by
  rw [← not_or]
  rcases play_cases course with ⟨hopen, hinit⟩ | ⟨hshut, hplay⟩
  · exact iff_of_false (fun h => Bool.eq_false_iff.mp h.1 hinit) (not_not_intro hopen)
  · rw [hplay]
    exact iff_of_true ⟨rfl, rfl, showsNothing_closed _ _⟩ hshut

/-- A change of channels is enough once the schedules are loaded: both schedules are listed and the
loser is told before anything is known of loaded channels. -/
theorem not_shut_channels_changed :
    let catalog := (Catalog.putChannel {} ⟨1, "tuner", "One", none⟩).putInput ⟨"tuner", 1, true⟩
    let a := Schedule.timed 1 1 20 30 5
    let b := Schedule.timed 2 1 25 35 9
    let course : List Prompt :=
      [⟨catalog, [a, b], .hear .loaded⟩, ⟨catalog, [a, b], .channelsChanged⟩]
    ¬ IsReady course ∧ (play course).1.isInitialized = true ∧
      (play course).2 = [.conflicting [a]] ∧ (play course).1.schedulesOf "tuner" = [a, b] ∧
      (play course).1.allConflicts = [a] := by
  intro catalog a b course
  exact ⟨fun h => absurd h.2 (by decide), by decide +kernel, by decide +kernel,
    by decide +kernel, by decide +kernel⟩

end Docket

end Timeshift
