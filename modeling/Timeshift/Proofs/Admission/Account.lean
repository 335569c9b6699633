import Timeshift.Proofs.Admission.Changes

/-!
# No schedule is lost without a word

A schedule that a desk tracks stays tracked until its end is reported, or until a message gives
it up while it only waits. What is reported as running is what has been started.
-/

namespace Timeshift

namespace Admission

variable {l : License} {a b c : Admission} {es fs : List Effect} {id : ScheduleId}

/-! ## Reports -/

def endStates : List RecordingState := [.finished, .failed, .clipped, .canceled]

def ReportsEnd (es : List Effect) (id : ScheduleId) : Prop :=
  ∃ r : Report, .report r ∈ es ∧ r.scheduleId = id ∧ r.state ∈ endStates

theorem ReportsEnd.append_left (h : ReportsEnd es id) : ReportsEnd (es ++ fs) id := by
  obtain ⟨r, hr, hid⟩ := h
  exact ⟨r, List.mem_append_left fs hr, hid⟩

theorem ReportsEnd.append_right (h : ReportsEnd fs id) : ReportsEnd (es ++ fs) id := by
  obtain ⟨r, hr, hid⟩ := h
  exact ⟨r, List.mem_append_right es hr, hid⟩

theorem reportsEnd_one (a : Admission) (id : ScheduleId) {state : RecordingState}
    (hstate : state ∈ endStates) (reason : Option String) :
    ReportsEnd [a.report id state reason] id :=
  ⟨⟨a.inputId, id, state, reason⟩, List.mem_singleton.mpr rfl, rfl, hstate⟩

theorem state_mem_endStates (o : Outcome) : o.state ∈ endStates := by
  cases o <;> simp [Outcome.state, endStates]

def Effect.runningId? : Effect → Option ScheduleId
  | .report r => if r.state = .inProgress then some r.scheduleId else none
  | _ => none

/-- The schedules that are reported as running, in order. -/
def reportedRunning (es : List Effect) : List ScheduleId := es.filterMap (·.runningId?)

theorem mem_reportedRunning : id ∈ reportedRunning es ↔
    ∃ r : Report, .report r ∈ es ∧ r.scheduleId = id ∧ r.state = .inProgress := by
  rw [reportedRunning, List.mem_filterMap]
  constructor
  · rintro ⟨e, he, hrunning⟩
    cases e with
    | report r =>
      simp only [Effect.runningId?, Option.ite_none_right_eq_some, Option.some.injEq] at hrunning
      exact ⟨r, he, hrunning.2, hrunning.1⟩
    | _ => cases hrunning
  · rintro ⟨r, hr, rfl, hstate⟩
    exact ⟨.report r, hr, by simp [Effect.runningId?, hstate]⟩

/-! ## Tracked schedules -/

theorem isTracked_iff : a.isTracked id = true ↔ id ∈ a.waiting ∨ id ∈ a.active := by
  simp only [isTracked, Bool.or_eq_true, Std.TreeMap.contains_iff_mem]

/-- The turn gives account of what it does to tracked schedules. -/
structure Accounts (l : License) (a : Admission) (turn : Turn) : Prop where
  lost : ∀ id, a.isTracked id = true → ¬ turn.1.isTracked id = true →
    ReportsEnd turn.2 id ∨ l.drops id ∧ id ∉ a.active
  /-- What may be given up stays on the books. -/
  booked : ∀ id, l.drops id → id ∈ a.active → id ∈ turn.1.active
  running : reportedRunning turn.2 = startedIds turn.2

namespace Accounts

theorem none : Accounts l a (a, []) where
  lost _ htracked hgone := absurd htracked hgone
  booked _ _ hid := hid
  running := rfl

/-- Every schedule is tracked as before, or still. -/
theorem of_tracked (htracked : ∀ id, a.isTracked id = true → b.isTracked id = true)
    (hbooked : ∀ id, id ∈ a.active → id ∈ b.active)
    (hrunning : reportedRunning es = startedIds es) : Accounts l a (b, es) where
  lost id hid hgone := absurd (htracked id hid) hgone
  booked id _ hid := hbooked id hid
  running := hrunning

theorem andThen (h : Accounts l a (b, es)) (h' : Accounts l b (c, fs)) :
    Accounts l a (c, es ++ fs) where
  lost id htracked hgone := by
    by_cases hmid : b.isTracked id = true
    · rcases h'.lost id hmid hgone with hreport | ⟨hdrops, hoff⟩
      · exact Or.inl hreport.append_right
      · exact Or.inr ⟨hdrops, fun hon => hoff (h.booked id hdrops hon)⟩
    · rcases h.lost id htracked hmid with hreport | hdropped
      · exact Or.inl hreport.append_left
      · exact Or.inr hdropped
  booked id hdrops hon := h'.booked id hdrops (h.booked id hdrops hon)
  running := by
    have hboth := congrArg₂ (· ++ ·) h.running h'.running
    simpa [reportedRunning] using hboth

end Accounts

/-- Only the given id can stop waiting. -/
theorem isTracked_of_erase {k : ScheduleId} (hwaiting : b.waiting = a.waiting.erase k)
    (hactive : ∀ id, id ∈ a.active → id ∈ b.active) (hne : k ≠ id)
    (h : a.isTracked id = true) : b.isTracked id = true := by
  rw [isTracked_iff, hwaiting, Std.TreeMap.mem_erase]
  rcases isTracked_iff.mp h with hwait | hon
  · exact Or.inl ⟨by simpa using hne, hwait⟩
  · exact Or.inr (hactive id hon)

theorem mem_active_insert {k : ScheduleId} {t : Running} (hon : k ∈ a.active) (id : ScheduleId) :
    id ∈ a.active.insert k t ↔ id ∈ a.active := by
  rw [Std.TreeMap.mem_insert, Std.LawfulEqOrd.compare_eq_iff_eq]
  refine ⟨?_, Or.inr⟩
  rintro (rfl | hid)
  · exact hon
  · exact hid

theorem accounts_change (h : a.IsKeyed) {turn : Turn} (hchange : Change l a turn) :
    Accounts l a turn := by
  -- What waits after a copy was taken over.
  have henqueue : ∀ (s : Schedule) (id : ScheduleId), id ∈ a.waiting → id ∈ (a.enqueue s).waiting :=
    fun s id hid => Std.TreeMap.mem_insert.mpr (Or.inr hid)
  cases hchange with
  | note | answer => exact .of_tracked (fun _ hid => hid) (fun _ hid => hid) rfl
  | join s | replace s =>
    refine .of_tracked (fun id hid => ?_) (fun _ hid => hid) rfl
    exact isTracked_iff.mpr ((isTracked_iff.mp hid).imp_left (henqueue s id))
  | requeue s t _ _ ht =>
    have hon : (a.enqueue s).active[s.id]? = some t := ht
    have hsame := mem_tellEnd (h.enqueue s) hon .cancel
    refine .of_tracked (fun id hid => ?_) (fun id hid => (hsame id).mpr hid) rfl
    exact isTracked_iff.mpr
      ((isTracked_iff.mp hid).imp (henqueue s id) fun hon => (hsame id).mpr hon)
  | follow s t _ _ ht =>
    have hsame := mem_active_insert (t := { t with schedule := s }) (mem_of_get ht)
    refine .of_tracked (fun id hid => ?_) (fun id hid => (hsame id).mpr hid) rfl
    exact isTracked_iff.mpr ((isTracked_iff.mp hid).imp_right (hsame id).mpr)
  | drop k hdrops hoff =>
    refine ⟨fun id hid hgone => Or.inr ?_, fun _ _ hon => hon, rfl⟩
    by_cases hk : k = id
    · exact hk ▸ ⟨hdrops, hoff⟩
    · have hstays : (a.dismiss k).isTracked id = true :=
        isTracked_of_erase rfl (fun _ hon => hon) hk hid
      exact absurd hstays hgone
  | callOff k t _ ht =>
    have hon : (a.dismiss k).active[k]? = some t := ht
    have hsame := mem_tellEnd (h.dismiss k) hon .cancel
    refine .of_tracked (fun id hid => ?_) (fun id hid => (hsame id).mpr hid) rfl
    by_cases hk : k = id
    · exact isTracked_iff.mpr (Or.inr ((hsame id).mpr (hk ▸ mem_of_get ht)))
    · exact isTracked_of_erase rfl (fun id hon => (hsame id).mpr hon) hk hid
  | clear hall =>
    refine ⟨fun id _ hgone => Or.inr ⟨hall id, fun hon => ?_⟩, fun _ _ hon => hon, rfl⟩
    exact hgone (isTracked_iff.mpr (Or.inr hon))
  | stop k t ht =>
    have hsame := mem_tellEnd h ht .stop
    refine .of_tracked (fun id hid => ?_) (fun id hid => (hsame id).mpr hid) rfl
    exact isTracked_iff.mpr ((isTracked_iff.mp hid).imp_right (hsame id).mpr)
  | close k t outcome ht hkeep =>
    have hothers : ∀ id, k ≠ id → id ∈ a.active → id ∈ a.active.erase k :=
      fun id hne hon => Std.TreeMap.mem_erase.mpr ⟨by simpa using hne, hon⟩
    refine ⟨fun id hid hgone => Or.inl ?_, fun id hdrops hon => ?_, ?_⟩
    · simp only [isTracked_iff, not_or] at hgone
      have hon := (isTracked_iff.mp hid).resolve_left hgone.1
      have hk : k = id := by_contra fun hne => hgone.2 (hothers id hne hon)
      have hwait : ¬ a.waiting.contains k = true := by
        rw [Std.TreeMap.contains_iff_mem, hk]
        exact hgone.1
      rw [if_neg hwait, hk]
      exact reportsEnd_one a id (state_mem_endStates outcome) _
    · exact hothers id (fun hk => hkeep (hk ▸ hdrops)) hon
    · dsimp only
      split
      · rfl
      · cases outcome <;> rfl
  | fail s reason _ =>
    refine ⟨fun id hid hgone => Or.inl ?_, fun _ _ hon => hon, rfl⟩
    by_cases hk : s.id = id
    · exact hk ▸ reportsEnd_one a s.id (by decide) _
    · have hstays : (a.dismiss s.id).isTracked id = true :=
        isTracked_of_erase rfl (fun _ hon => hon) hk hid
      exact absurd hstays hgone
  | start s channel _ _ =>
    have hmore : ∀ id, id ∈ a.active → id ∈ ((a.dismiss s.id).begin s channel).1.active :=
      fun id hon => Std.TreeMap.mem_insert.mpr (Or.inr hon)
    refine .of_tracked (fun id hid => ?_) hmore rfl
    by_cases hk : s.id = id
    · exact isTracked_iff.mpr (Or.inr (Std.TreeMap.mem_insert.mpr (Or.inl (by simpa using hk))))
    · exact isTracked_of_erase rfl hmore hk hid

theorem accounts_changes (h : a.IsKeyed) {turn : Turn} (hall : Changes l a turn) :
    Accounts l a turn := by
  induction hall with
  | none => exact .none
  | step hone _ ih => exact (accounts_change h hone).andThen (ih (h.change hone))

/-! ## Steps -/

theorem drops_license {move : Move} (hmove : move ≠ .shutdown) (h : move.license.drops id) :
    move = .message (.remove id) ∨
      ∃ pending, move = .message (.reconcile pending) ∧ ∀ s ∈ pending, s.id ≠ id := by
  cases move with
  | pass => exact h.elim
  | shutdown => exact absurd rfl hmove
  | message m =>
    cases m with
    | remove k =>
      have hid : id = k := h
      exact Or.inl (hid ▸ rfl)
    | reconcile pending => exact Or.inr ⟨pending, rfl, h⟩
    | _ => exact h.elim

/-- A tracked schedule that a step does not go on to track was reported to have ended, or it was
not on the books and the step removed it or reconciled the desk with schedules that lack it. A
schedule is reported as running when it is started, and only then. -/
theorem tracked_until_reported (inputId : InputId) (lead : Int64) (course : List Occasion)
    (m : Occasion) (hmove : m.move ≠ .shutdown) :
    let a := run { inputId, lead } course
    (∀ id, a.isTracked id = true → ¬ (m.step a).1.isTracked id = true →
      (∃ r : Report, .report r ∈ (m.step a).2 ∧ r.scheduleId = id ∧ r.state ∈ endStates) ∨
      id ∉ a.active ∧ (m.move = .message (.remove id) ∨
        ∃ pending, m.move = .message (.reconcile pending) ∧ ∀ s ∈ pending, s.id ≠ id)) ∧
    ∀ id, (∃ r : Report, .report r ∈ (m.step a).2 ∧ r.scheduleId = id ∧ r.state = .inProgress) ↔
      id ∈ startedIds (m.step a).2 := by
  intro a
  have hkeyed : a.IsKeyed := (isKeyed_run inputId lead course).1
  have haccounts := accounts_changes hkeyed (changes_step m hkeyed)
  constructor
  · intro id htracked hgone
    rcases haccounts.lost id htracked hgone with hreport | ⟨hdrops, hoff⟩
    · exact Or.inl hreport
    · exact Or.inr ⟨hoff, drops_license hmove hdrops⟩
  · intro id
    rw [← mem_reportedRunning, haccounts.running]

/-- One pass over three schedules that wait for one tuner: one has ended, one starts, and one
finds no tuner. -/
theorem tracked_until_reported_three :
    let channel : Channel := ⟨7, "tuner", "Seven", none⟩
    let catalog := (Catalog.putInput {} ⟨"tuner", 1, true⟩).putChannel channel
    let course : List Occasion :=
      [.timed 1 7 0 9 5, .timed 2 7 5 100 5, .timed 3 7 6 100 5].map
        fun s => ⟨catalog, 0, .message (.add s)⟩
    let a := run { inputId := "tuner", lead := 0 } course
    let pass : Occasion := ⟨catalog, 10, .pass⟩
    pass.move ≠ .shutdown ∧ a.isTracked 1 = true ∧ ¬ (pass.step a).1.isTracked 1 = true ∧
      a.isTracked 3 = true ∧ ¬ (pass.step a).1.isTracked 3 = true ∧
      startedIds (pass.step a).2 = [2] ∧
      ((∃ r : Report, .report r ∈ (pass.step a).2 ∧ r.scheduleId = 1 ∧ r.state ∈ endStates) ∨
        1 ∉ a.active ∧ (pass.move = .message (.remove 1) ∨
          ∃ pending, pass.move = .message (.reconcile pending) ∧ ∀ s ∈ pending, s.id ≠ 1)) ∧
      ∃ r : Report, .report r ∈ (pass.step a).2 ∧ r.scheduleId = 2 ∧ r.state = .inProgress := by
  intro channel catalog course a pass
  obtain ⟨hlost, hrunning⟩ := tracked_until_reported "tuner" 0 course pass (by simp [pass])
  exact ⟨by simp [pass], by decide, by decide, by decide, by decide, by decide,
    hlost 1 (by decide) (by decide), (hrunning 2).mpr (by decide)⟩

end Admission

end Timeshift
