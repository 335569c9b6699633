import Timeshift.Proofs.Admission.Account
import Timeshift.Proofs.Admission.Identity

/-!
# Wanted again while the recording winds down

A recording that was called off stays on the books until it says that it has ended. If its
schedule is wanted again before that, all depends on whether the new copy waits beside the
recording: what waits goes on to wait, and what does not is given up with the recording.
-/

namespace Timeshift

namespace Admission

variable {l : License} {a b : Admission} {id : ScheduleId} {seq : Nat}

/-! ## The recording stays on the books -/

/-- The recording of this number is on the books for the schedule. -/
def HasRecording (a : Admission) (id : ScheduleId) (seq : Nat) : Prop :=
  ∃ t, a.active[id]? = some t ∧ t.seq = seq

namespace HasRecording

theorem mem (h : a.HasRecording id seq) : id ∈ a.active := by
  obtain ⟨t, ht, -⟩ := h
  exact mem_of_get ht

/-- Another entry for a recording keeps its number. -/
theorem set (h : a.HasRecording id seq) {k : ScheduleId} {t u : Running}
    (ht : a.active[k]? = some t) (hseq : u.seq = t.seq) (hb : b.active = a.active.insert k u) :
    b.HasRecording id seq := by
  obtain ⟨x, hx, rfl⟩ := h
  rw [HasRecording, hb, get_insert]
  by_cases hk : k = id
  · subst hk
    obtain rfl := Option.some.inj (ht.symm.trans hx)
    exact ⟨u, if_pos rfl, hseq⟩
  · exact ⟨x, (if_neg hk).trans hx, rfl⟩

theorem tellEnd (h : a.HasRecording id seq) (hkeyed : a.IsKeyed) {k : ScheduleId} {t : Running}
    (ht : a.active[k]? = some t) (hb : b.active = a.active) (order : Order) :
    (b.tellEnd t order).1.HasRecording id seq := by
  obtain rfl := hkeyed.active k t ht
  have htold : (b.tellEnd t order).1.active =
      a.active.insert t.schedule.id { t with isStopping := true } := by
    rw [← hb]
    rfl
  exact h.set (u := { t with isStopping := true }) ht rfl htold

end HasRecording

/-- Everything is permitted, so nothing can end without a word from the recording. -/
def License.free : License where
  takes _ := True
  drops _ := True

theorem hasRecording_change (hkeyed : a.IsKeyed) {turn : Turn} (hchange : Change .free a turn)
    (h : a.HasRecording id seq) : turn.1.HasRecording id seq := by
  cases hchange with
  | note | answer | join | replace | drop | clear | fail => exact h
  | requeue s t _ _ ht => exact h.tellEnd (b := a.enqueue s) hkeyed ht rfl .cancel
  | follow s t _ _ ht => exact h.set (u := { t with schedule := s }) ht rfl rfl
  | callOff k t _ ht => exact h.tellEnd (b := a.dismiss k) hkeyed ht rfl .cancel
  | stop k t ht => exact h.tellEnd hkeyed ht rfl .stop
  | close k t outcome _ hkeep => exact absurd trivial hkeep
  | start s channel _ hoff =>
    have hne : s.id ≠ id := by
      rintro rfl
      exact hoff h.mem
    obtain ⟨t, ht, hseq⟩ := h
    refine ⟨t, ?_, hseq⟩
    show (a.active.insert s.id _)[id]? = some t
    rw [get_insert, if_neg hne, ht]

/-- Only news that it has ended takes a recording off the books. -/
theorem changes_unfinished (m : Occasion) (h : a.IsKeyed)
    (hm : ∀ id seq o, m.move ≠ .message (.finished id seq o)) : Changes .free a (m.step a) := by
  obtain ⟨catalog, now, move⟩ := m
  cases move with
  | pass => exact changes_pass catalog now h
  | shutdown => exact changes_shutdown h fun _ => trivial
  | message message =>
    cases message with
    | add s => exact changes_handleAdd a trivial
    | remove id => exact changes_handleRemove a trivial
    | update s => exact changes_handleUpdate a now trivial
    | rebuild => exact .one (.note true _)
    | finished id seq o => exact absurd rfl (hm id seq o)
    | stopTask id => exact changes_handleStopTask a id
    | askView asker => exact (changes_passIfDue catalog now h).andThen (.one (.answer asker _))
    | stop => exact .none
    | reconcile pending =>
      refine .forEach (fun b id _ => ?_) _ h
      rw [reconcileOne]
      split
      · exact changes_handleRemove b trivial
      · split
        · exact changes_handleUpdate b now trivial
        · exact .none

theorem hasRecording_step (hkeyed : a.IsKeyed) (m : Occasion)
    (hm : ∀ o, m.move ≠ .message (.finished id seq o)) (h : a.HasRecording id seq) :
    (m.step a).1.HasRecording id seq := by
  by_cases hfinished : ∃ k n o, m.move = .message (.finished k n o)
  · obtain ⟨k, n, o, hmove⟩ := hfinished
    obtain ⟨t, ht, rfl⟩ := h
    have hstep : m.step a = a.handleFinished k n o := by rw [Occasion.step, hmove]; rfl
    rw [hstep, handleFinished]
    split
    · exact ⟨t, ht, rfl⟩
    · next u hu =>
      split
      · next hn =>
        have hne : k ≠ id := by
          rintro rfl
          obtain rfl := Option.some.inj (ht.symm.trans hu)
          exact hm o (hn ▸ hmove)
        refine ⟨t, ?_, rfl⟩
        rw [get_erase, if_neg hne, ht]
      · exact ⟨t, ht, rfl⟩
  · push Not at hfinished
    refine ((changes_unfinished m hkeyed hfinished).keeps
      (P := fun b => b.IsKeyed ∧ b.HasRecording id seq) (fun hb hchange => ?_) ⟨hkeyed, h⟩).2
    exact ⟨hb.1.change hchange, hasRecording_change hb.1 hchange hb.2⟩

/-! ## The schedule waits beside it, or does not -/

/-- What waits is given up by a message, fails or starts. -/
theorem waits_change {turn : Turn} (hchange : Change l a turn) (hkeep : ¬ l.drops id)
    (h : id ∈ a.waiting) :
    id ∈ turn.1.waiting ∨ ReportsEnd turn.2 id ∨ id ∈ startedIds turn.2 := by
  have hothers : ∀ k, k ≠ id → id ∈ (a.dismiss k).waiting :=
    fun k hne => Std.TreeMap.mem_erase.mpr ⟨by simpa using hne, h⟩
  cases hchange with
  | note | answer | follow | stop | close => exact Or.inl h
  | join | replace | requeue => exact Or.inl (Std.TreeMap.mem_insert.mpr (Or.inr h))
  | drop k hk => exact Or.inl (hothers k fun heq => hkeep (heq ▸ hk))
  | callOff k t hk => exact Or.inl (hothers k fun heq => hkeep (heq ▸ hk))
  | clear hall => exact absurd (hall id) hkeep
  | fail s reason =>
    by_cases hs : s.id = id
    · exact Or.inr (Or.inl (hs ▸ reportsEnd_one a s.id (by decide) _))
    · exact Or.inl (hothers s.id hs)
  | start s channel =>
    by_cases hs : s.id = id
    · exact Or.inr (Or.inr (hs ▸ List.mem_cons_self))
    · exact Or.inl (hothers s.id hs)

theorem waits_changes {turn : Turn} (hall : Changes l a turn) (hkeep : ¬ l.drops id)
    (h : id ∈ a.waiting) :
    id ∈ turn.1.waiting ∨ ReportsEnd turn.2 id ∨ id ∈ startedIds turn.2 := by
  induction hall with
  | none => exact Or.inl h
  | step hone _ ih =>
    rw [startedIds_append, List.mem_append]
    rcases waits_change hone hkeep h with hwait | hend | hstart
    · rcases ih hwait with hwait | hend | hstart
      · exact Or.inl hwait
      · exact Or.inr (Or.inl hend.append_right)
      · exact Or.inr (Or.inr (Or.inr hstart))
    · exact Or.inr (Or.inl hend.append_left)
    · exact Or.inr (Or.inr (Or.inl hstart))

/-- A schedule with a recording on the books is not started, so it goes on to wait. -/
theorem waits_step (hkeyed : a.IsKeyed) (m : Occasion) (hon : id ∈ a.active)
    (hkeep : ¬ m.move.license.drops id) (h : id ∈ a.waiting) :
    id ∈ (m.step a).1.waiting ∨ ReportsEnd (m.step a).2 id := by
  rcases waits_changes (changes_step m hkeyed) hkeep h with hwait | hend | hstart
  · exact Or.inl hwait
  · exact Or.inr hend
  · obtain ⟨e, he, hid⟩ := List.mem_filterMap.mp hstart
    cases e with
    | start n s channel =>
      obtain rfl := Option.some.inj hid
      obtain ⟨pre, post, heq⟩ := List.append_of_mem he
      exact absurd hon (starts_off_books hkeyed m heq).1
    | _ => cases hid

/-- A schedule waits only once a copy of it is taken over. -/
theorem idle_changes {turn : Turn} (hall : Changes l a turn)
    (htakes : ∀ s, l.takes s → s.id ≠ id) (h : id ∉ a.waiting) : id ∉ turn.1.waiting := by
  refine hall.keeps (P := fun b => id ∉ b.waiting) (fun {b _} hb hchange => ?_) h
  have henqueue : ∀ s, l.takes s → id ∉ (b.enqueue s).waiting := by
    intro s hs hin
    rw [enqueue, Std.TreeMap.mem_insert, Std.LawfulEqOrd.compare_eq_iff_eq] at hin
    exact hin.elim (htakes s hs) hb
  have hdismiss : ∀ k, id ∉ (b.dismiss k).waiting :=
    fun k hin => hb (Std.TreeMap.mem_of_mem_erase hin)
  cases hchange with
  | note | answer | follow | stop | close => exact hb
  | join s hs => exact henqueue s hs
  | replace s hs => exact henqueue s hs
  | requeue s t hs => exact henqueue s hs
  | drop k => exact hdismiss k
  | callOff k => exact hdismiss k
  | clear => exact Std.TreeMap.not_mem_emptyc
  | fail s => exact hdismiss s.id
  | start s => exact hdismiss s.id

/-! ## Runs -/

section Runs

variable {course : List Occasion}
  (hopen : ∀ m ∈ course, ∀ o, m.move ≠ .message (.finished id seq o))

include hopen

theorem hasRecording_run (hkeyed : a.IsKeyed) (h : a.HasRecording id seq) :
    (run a course).HasRecording id seq := by
  induction course generalizing a with
  | nil => exact h
  | cons m rest ih =>
    obtain ⟨hm, hrest⟩ := List.forall_mem_cons.mp hopen
    exact ih hrest (isKeyed_step m hkeyed) (hasRecording_step hkeyed m hm h)

theorem waits_run (hkeyed : a.IsKeyed) (hrecording : a.HasRecording id seq)
    (hkeep : ∀ m ∈ course, ¬ m.move.license.drops id) (hends : ¬ ReportsEnd (trace a course) id)
    (h : id ∈ a.waiting) : id ∈ (run a course).waiting := by
  induction course generalizing a with
  | nil => exact h
  | cons m rest ih =>
    obtain ⟨hm, hrest⟩ := List.forall_mem_cons.mp hopen
    obtain ⟨hkeepm, hkeeprest⟩ := List.forall_mem_cons.mp hkeep
    have hwait : id ∈ (m.step a).1.waiting :=
      (waits_step hkeyed m hrecording.mem hkeepm h).resolve_right
        fun hend => hends hend.append_left
    exact ih hrest (isKeyed_step m hkeyed) (hasRecording_step hkeyed m hm hrecording) hkeeprest
      (fun hend => hends hend.append_right) hwait

end Runs

theorem idle_run (hkeyed : a.IsKeyed) {course : List Occasion}
    (htakes : ∀ m ∈ course, ∀ s, m.move.license.takes s → s.id ≠ id) (h : id ∉ a.waiting) :
    id ∉ (run a course).waiting := by
  induction course generalizing a with
  | nil => exact h
  | cons m rest ih =>
    obtain ⟨hm, hrest⟩ := List.forall_mem_cons.mp htakes
    exact ih (isKeyed_step m hkeyed) hrest (idle_changes (changes_step m hkeyed) hm h)

/-! ## The end of the old recording -/

theorem handleFinished_of_recording (h : a.HasRecording id seq) (outcome : Outcome) :
    a.handleFinished id seq outcome =
      ({ a with active := a.active.erase id, passDue := true },
        if a.waiting.contains id then [] else [a.report id outcome.state outcome.reason?]) := by
  obtain ⟨t, ht, hseq⟩ := h
  rw [handleFinished]
  simp only [ht, if_pos hseq]

/-- A schedule with a recording on the books waits after an update that moves it later, or if it
waited before. -/
theorem waits_resumed_iff {s : Schedule} {t : Running} (ht : a.active[s.id]? = some t)
    {m : Occasion} (hm : m.move = .message (.add s) ∨ m.move = .message (.update s)) :
    s.id ∈ (m.step a).1.waiting ↔
      s.id ∈ a.waiting ∨ m.move = .message (.update s) ∧ movesLater m.now t s = true := by
  obtain ⟨catalog, now, move⟩ := m
  rcases hm with rfl | rfl
  · have hadd : a.handleAdd s = (a, []) :=
      if_pos (isTracked_iff.mpr (Or.inr (mem_of_get ht)))
    show s.id ∈ (a.handleAdd s).1.waiting ↔ _
    rw [hadd]
    simp
  · show s.id ∈ (a.handleUpdate now s).1.waiting ↔ _
    have henqueue : s.id ∈ (a.enqueue s).waiting := by simp [enqueue]
    rw [handleUpdate]
    split
    · next hwait => exact iff_of_true henqueue (Or.inl (Std.TreeMap.contains_iff_mem.mp hwait))
    · next hwait =>
      rw [Std.TreeMap.contains_iff_mem] at hwait
      split
      · next hnone => cases ht.symm.trans hnone
      · next u hu =>
        obtain rfl := Option.some.inj (ht.symm.trans hu)
        split
        · next hlater => exact iff_of_true henqueue (Or.inr ⟨rfl, hlater⟩)
        · next hlater => exact iff_of_false hwait (not_or.mpr ⟨hwait, fun h => hlater h.2⟩)

/-- A schedule is added or updated while a recording of it is on the books. If it waits then, it
still does once that recording has ended, and the end is not reported, unless it was given up or
failed in between. If it does not wait, and is not asked for once more, it is given up with the
outcome of that recording. -/
theorem resumed_waits_or_ends (inputId : InputId) (lead : Int64) (before mid : List Occasion)
    (m last : Occasion) {s : Schedule} {t : Running} {outcome : Outcome}
    (ht : (run { inputId, lead } before).active[s.id]? = some t)
    (hm : m.move = .message (.add s) ∨ m.move = .message (.update s))
    (hmid : ∀ x ∈ mid, ∀ o, x.move ≠ .message (.finished s.id t.seq o))
    (hlast : last.move = .message (.finished s.id t.seq outcome)) :
    let a := run { inputId, lead } before
    let b := (m.step a).1
    let c := run b mid
    let d := (last.step c).1
    (s.id ∈ b.waiting ↔
      s.id ∈ a.waiting ∨ m.move = .message (.update s) ∧ movesLater m.now t s = true) ∧
    (s.id ∈ b.waiting → (∀ x ∈ mid, ¬ x.move.license.drops s.id) →
      ¬ ReportsEnd (trace b mid) s.id → s.id ∈ d.waiting ∧ (last.step c).2 = []) ∧
    (s.id ∉ b.waiting → (∀ x ∈ mid, ∀ y, x.move.license.takes y → y.id ≠ s.id) →
      ¬ d.isTracked s.id = true ∧
        (last.step c).2 = [c.report s.id outcome.state outcome.reason?]) := by
  intro a b c d
  have ha : a.IsKeyed := (isKeyed_run inputId lead before).1
  have hb : b.IsKeyed := isKeyed_step m ha
  have hrecording : b.HasRecording s.id t.seq := by
    refine hasRecording_step ha m (fun o hmove => ?_) ⟨t, ht, rfl⟩
    rcases hm with hm | hm <;> exact nomatch hm.symm.trans hmove
  have hc : c.HasRecording s.id t.seq := hasRecording_run hmid hb hrecording
  have hend : last.step c =
      ({ c with active := c.active.erase s.id, passDue := true },
        if c.waiting.contains s.id then [] else [c.report s.id outcome.state outcome.reason?]) := by
    rw [← handleFinished_of_recording hc, Occasion.step, hlast]
    rfl
  have hd : d.waiting = c.waiting := congrArg (·.1.waiting) hend
  refine ⟨waits_resumed_iff ht hm, fun hwait hkeep hends => ?_, fun hwait htakes => ?_⟩
  · have hstill : s.id ∈ c.waiting := waits_run hmid hb hrecording hkeep hends hwait
    exact ⟨hd ▸ hstill, by rw [hend, if_pos (Std.TreeMap.contains_iff_mem.mpr hstill)]⟩
  · have hidle : s.id ∉ c.waiting := idle_run hb htakes hwait
    refine ⟨?_, by rw [hend, if_neg (mt Std.TreeMap.contains_iff_mem.mp hidle)]⟩
    rw [isTracked_iff, hd]
    rintro (hwait | hon)
    · exact hidle hwait
    · rw [show d.active = c.active.erase s.id from congrArg (·.1.active) hend] at hon
      simp at hon

/-- A schedule is removed while it is recorded. One time it is wanted again with a later start,
and is added and looked at in a pass before the recording has ended. One time it is wanted again
as it was. -/
theorem resumed_waits_or_ends_both :
    let channel : Channel := ⟨7, "tuner", "Seven", none⟩
    let catalog := (Catalog.putInput {} ⟨"tuner", 1, true⟩).putChannel channel
    let early : Schedule := .timed 1 7 0 100 5
    let later : Schedule := .timed 1 7 20 100 5
    let before : List Occasion := [⟨catalog, 0, .message (.add early)⟩, ⟨catalog, 0, .pass⟩,
      ⟨catalog, 5, .message (.remove 1)⟩]
    let move : Occasion := ⟨catalog, 10, .message (.update later)⟩
    let mid : List Occasion := [⟨catalog, 12, .message (.add later)⟩, ⟨catalog, 25, .pass⟩]
    let keep : Occasion := ⟨catalog, 10, .message (.update early)⟩
    let last : Occasion := ⟨catalog, 30, .message (.finished 1 1 .canceled)⟩
    let a := run { inputId := "tuner", lead := 0 } before
    let c := run (move.step a).1 mid
    let c' := run (keep.step a).1 []
    a.active[(1 : Int64)]? = some ⟨{ early with state := .inProgress }, 1, true⟩ ∧
      (later.id ∈ (last.step c).1.waiting ∧ (last.step c).2 = []) ∧
      ¬ (last.step c').1.isTracked early.id = true ∧
        (last.step c').2 = [c'.report early.id .canceled none] := by
  intro channel catalog early later before move mid keep last
  have hactive : (run { inputId := "tuner", lead := 0 } before).active[(1 : Int64)]? =
      some ⟨{ early with state := .inProgress }, 1, true⟩ := by decide
  obtain ⟨hwaits, hstays, -⟩ := resumed_waits_or_ends "tuner" 0 before mid move last (s := later)
    hactive (Or.inr rfl) (by simp [mid]) rfl
  obtain ⟨-, -, hends⟩ := resumed_waits_or_ends "tuner" 0 before [] keep last (s := early)
    hactive (Or.inr rfl) (by simp) rfl
  have htrace : trace (move.step (run { inputId := "tuner", lead := 0 } before)).1 mid = [] := by
    decide
  refine ⟨hactive, hstays (hwaits.mpr (Or.inr ⟨rfl, by decide⟩))
    (by simp [mid, Move.license, Message.license]) ?_, hends (by decide) (by simp)⟩
  rw [htrace]
  exact fun ⟨r, hr, _⟩ => nomatch hr

/-- A schedule is wanted again as it was while its recording is being called off, by an update
and by an addition. It is given up as canceled nevertheless. -/
theorem not_waiting_resumed_unmoved :
    let channel : Channel := ⟨7, "tuner", "Seven", none⟩
    let catalog := (Catalog.putInput {} ⟨"tuner", 1, true⟩).putChannel channel
    let s : Schedule := .timed 1 7 0 100 5
    let removed : List Occasion := [⟨catalog, 0, .message (.add s)⟩, ⟨catalog, 0, .pass⟩,
      ⟨catalog, 5, .message (.remove 1)⟩]
    let resumed : List Occasion :=
      [⟨catalog, 10, .message (.update s)⟩, ⟨catalog, 10, .message (.add s)⟩]
    let last : Occasion := ⟨catalog, 30, .message (.finished 1 1 .canceled)⟩
    let a := run { inputId := "tuner", lead := 0 } removed
    let d := last.step (run a resumed)
    a.active[(1 : Int64)]? = some ⟨{ s with state := .inProgress }, 1, true⟩ ∧
      s.isNotStarted = true ∧ last.now < s.ends ∧ 1 ∉ d.1.waiting ∧
      d.2 = [d.1.report 1 .canceled none] :=
  ⟨by decide, by decide, by decide, by decide, by decide⟩

end Admission

end Timeshift
