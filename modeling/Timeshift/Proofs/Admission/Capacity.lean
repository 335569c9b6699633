import Mathlib.Data.List.Induction
import Mathlib.Data.List.Nodup
import Timeshift.Proofs.Admission.Run
import Timeshift.Proofs.Rank

/-!
# No more recordings than tuners

A recording is started only while the books leave room for it. Nothing else puts a recording on
the books, so the books hold no more than the most tuners that a pass has counted.
-/

namespace Timeshift

namespace Admission

variable {a : Admission} {tuners : Nat}

/-! ## Turns that start recordings -/

/-- A turn that takes nothing off the books, and starts a recording only while there is room. -/
structure Seats (tuners : Nat) (a : Admission) (turn : Turn) : Prop where
  keyed : turn.1.IsKeyed
  inputId : turn.1.inputId = a.inputId
  active : turn.1.active.keys.Perm (a.active.keys ++ startedIds turn.2)
  room : ∀ pre seq s channel post, turn.2 = pre ++ .start seq s channel :: post →
    a.active.size + (startedIds pre).length < tuners

theorem no_start_of_startedIds_nil {es : List Effect} (h : startedIds es = [])
    {pre post : List Effect} {seq : Nat} {s : Schedule} {channel : Channel} :
    es ≠ pre ++ .start seq s channel :: post := by
  rintro rfl
  simp at h

theorem exists_last_start (es : List Effect) :
    startedIds es = [] ∨ ∃ pre seq s channel post,
      es = pre ++ .start seq s channel :: post ∧ startedIds post = [] := by
  induction es with
  | nil => exact Or.inl rfl
  | cons e es ih =>
    rcases ih with hnone | ⟨pre, seq, s, channel, post, rfl, hpost⟩
    · cases e with
      | start seq s channel => exact Or.inr ⟨[], seq, s, channel, es, rfl, hnone⟩
      | _ => exact Or.inl hnone
    · exact Or.inr ⟨e :: pre, seq, s, channel, post, rfl, hpost⟩

namespace Seats

theorem size {turn : Turn} (h : Seats tuners a turn) :
    turn.1.active.size = a.active.size + (startedIds turn.2).length := by
  have hlen := h.active.length_eq
  rwa [List.length_append, Std.TreeMap.length_keys, Std.TreeMap.length_keys] at hlen

theorem of_same_keys {b : Admission} {es : List Effect} (hkeyed : b.IsKeyed)
    (hinput : b.inputId = a.inputId) (hmem : ∀ id, id ∈ b.active ↔ id ∈ a.active)
    (hes : startedIds es = []) : Seats tuners a (b, es) where
  keyed := hkeyed
  inputId := hinput
  active := by
    rw [hes, List.append_nil, List.perm_ext_iff_of_nodup Std.TreeMap.nodup_keys
      Std.TreeMap.nodup_keys]
    exact fun id => by rw [Std.TreeMap.mem_keys, Std.TreeMap.mem_keys, hmem]
  room _ _ _ _ _ heq := absurd heq (no_start_of_startedIds_nil hes)

theorem andThen {b c : Admission} {es fs : List Effect} (h : Seats tuners a (b, es))
    (h' : Seats tuners b (c, fs)) : Seats tuners a (c, es ++ fs) where
  keyed := h'.keyed
  inputId := h'.inputId.trans h.inputId
  active := by
    rw [startedIds_append, ← List.append_assoc]
    exact h'.active.trans (h.active.append_right _)
  room pre seq s channel post heq := by
    -- The start stands in the first part or in the second.
    rcases List.append_eq_append_iff.mp heq with ⟨mid, rfl, hfs⟩ | ⟨mid, rfl, hes⟩
    · have hroom := h'.room mid seq s channel post hfs
      rw [h.size] at hroom
      rwa [startedIds_append, List.length_append, ← Nat.add_assoc]
    · cases mid with
      | nil =>
        have hroom := h'.room [] seq s channel post hes.symm
        rw [h.size] at hroom
        simpa using hroom
      | cons e mid =>
        obtain ⟨rfl, -⟩ := List.cons.inj hes
        exact h.room pre seq s channel mid rfl

theorem begin (h : a.IsKeyed) (s : Schedule) (channel : Channel) (hnew : s.id ∉ a.active)
    (hroom : a.active.size < tuners) : Seats tuners a (a.begin s channel) where
  keyed := h.begin s channel
  inputId := rfl
  active := by
    have hnodup : (a.active.keys ++ [s.id]).Nodup := by
      refine List.Nodup.append Std.TreeMap.nodup_keys (List.nodup_singleton _) ?_
      exact List.disjoint_singleton.mpr fun hmem => hnew (Std.TreeMap.mem_keys.mp hmem)
    refine (List.perm_ext_iff_of_nodup Std.TreeMap.nodup_keys hnodup).mpr fun id => ?_
    simp only [Admission.begin, Std.TreeMap.mem_keys, Std.TreeMap.mem_insert,
      Std.LawfulEqOrd.compare_eq_iff_eq, List.mem_append, List.mem_singleton]
    rw [eq_comm, or_comm]
  room pre seq x ch post heq := by
    have hpre : startedIds pre = [] := by
      cases pre with
      | nil => rfl
      | cons e pre =>
        have hids := congrArg (startedIds ·.tail) heq
        simp [Admission.begin, Admission.report] at hids
    simpa [hpre] using hroom

/-- The books grow to the number of tuners at the most. -/
theorem size_le {turn : Turn} (h : Seats tuners a turn) :
    turn.1.active.size ≤ max a.active.size tuners := by
  obtain ⟨b, es⟩ := turn
  have hsize : b.active.size = a.active.size + (startedIds es).length := h.size
  show b.active.size ≤ _
  rcases exists_last_start es with hnone | ⟨pre, seq, s, channel, post, rfl, hpost⟩
  · simp only [hnone, List.length_nil] at hsize
    omega
  · have hroom := h.room pre seq s channel post rfl
    simp only [startedIds_append, startedIds_start, hpost, List.length_append,
      List.length_singleton] at hsize
    omega

end Seats

/-! ## The pass -/

/-- What a pass still has to decide on: each schedule once, and none of them on the books. -/
structure IsLine (a : Admission) (due : List Schedule) : Prop where
  ids : (due.map (·.id)).Nodup
  off : ∀ s ∈ due, s.id ∉ a.active

theorem IsLine.tail {b : Admission} {s : Schedule} {later : List Schedule}
    (h : IsLine a (s :: later)) (hnew : ∀ id, id ∈ b.active → id = s.id ∨ id ∈ a.active) :
    IsLine b later where
  ids := (List.nodup_cons.mp h.ids).2
  off x hx hmem := by
    rcases hnew x.id hmem with heq | hold
    · exact (List.nodup_cons.mp h.ids).1 (List.mem_map.mpr ⟨x, hx, heq⟩)
    · exact h.off x (List.mem_cons_of_mem s hx) hold

theorem mem_of_weakestBelow {p : Priority} {t : Running} (h : a.weakestBelow p = some t) :
    ∃ id : ScheduleId, a.active[id]? = some t := by
  have hmem := mem_sortBy.mp (List.mem_of_mem_head? (Option.mem_def.mpr h))
  exact mem_values.mp (List.mem_filter.mp hmem).1

theorem seats_seat (catalog : Catalog) (h : a.IsKeyed) (s : Schedule) (hnew : s.id ∉ a.active)
    (hroom : a.active.size < tuners) : Seats tuners a (a.seat catalog s) := by
  simp only [seat]
  split
  · next channel hchannel =>
    have hs := Seats.begin (a := a.dismiss s.id) (h.dismiss s.id) s channel hnew hroom
    exact ⟨hs.keyed, hs.inputId, hs.active, hs.room⟩
  · exact .of_same_keys (h.dismiss s.id) rfl (fun _ => Iff.rfl) rfl

theorem mem_active_seat (catalog : Catalog) (a : Admission) (s : Schedule) (id : ScheduleId)
    (h : id ∈ (a.seat catalog s).1.active) : id = s.id ∨ id ∈ a.active := by
  simp only [seat] at h
  split at h
  · simp only [Admission.begin, dismiss, Std.TreeMap.mem_insert,
      Std.LawfulEqOrd.compare_eq_iff_eq] at h
    exact h.imp_left Eq.symm
  · exact Or.inr h

theorem seats_seatDue (catalog : Catalog) (due : List Schedule) (h : a.IsKeyed)
    (hline : IsLine a due) : Seats tuners a (seatDue catalog tuners due a) := by
  induction due generalizing a with
  | nil => exact .of_same_keys h rfl (fun _ => Iff.rfl) rfl
  | cons s later ih =>
    have hwait : Seats tuners a (a, []) := .of_same_keys h rfl (fun _ => Iff.rfl) rfl
    rw [seatDue]
    split
    · exact hwait
    · split
      · next hroom =>
        have hs := seats_seat catalog h s (hline.off s List.mem_cons_self) hroom
        exact hs.andThen (ih hs.keyed (hline.tail (mem_active_seat catalog a s)))
      · split
        · next victim hvictim =>
          obtain ⟨id, hid⟩ := mem_of_weakestBelow hvictim
          split
          · exact hwait
          · exact .of_same_keys (h.tellEnd victim .stop) rfl (mem_tellEnd h hid .stop) rfl
        · have hrest := ih (h.dismiss s.id) (hline.tail fun _ hid => Or.inr hid)
          generalize seatDue catalog tuners later (a.dismiss s.id) = turn at hrest ⊢
          obtain ⟨b, more⟩ := turn
          have hfail : Seats tuners a (a.dismiss s.id, [b.failure s "no tuner available"]) :=
            .of_same_keys (h.dismiss s.id) rfl (fun _ => Iff.rfl) rfl
          exact hfail.andThen hrest

theorem isLine_dueNow (h : a.IsKeyed) (now : Instant) : IsLine a (a.dueNow now) where
  ids := by
    have hkeys : (a.waiting.values.map (·.id)).Nodup := by
      rw [map_values_eq_keys h.waiting]
      exact Std.TreeMap.nodup_keys
    exact ((perm_sortBy _ _).map _).nodup_iff.mpr
      (hkeys.sublist (List.filter_sublist.map _))
  off s hs := by
    have hdue := (List.mem_filter.mp (mem_sortBy.mp hs)).2
    simp only [isDue, Bool.and_eq_true, Bool.not_eq_true',
      ← Bool.not_eq_true (Std.TreeMap.contains _ _), Std.TreeMap.contains_iff_mem] at hdue
    exact hdue.2

theorem seats_dropExpired (h : a.IsKeyed) (now : Instant) :
    Seats tuners a (a.dropExpired now) := by
  have hkeep := dismissAll_keeps h (a.waiting.values.filter (isExpired now))
  exact .of_same_keys hkeep.1 hkeep.2.1 (fun id => by rw [hkeep.2.2])
    (startedIds_failures a _ _)

theorem seats_pass (catalog : Catalog) (now : Instant) (h : a.IsKeyed) :
    Seats (catalog.recordingTuners a.inputId) a (a.pass catalog now) := by
  have hclear : IsKeyed { a with passDue := false, nextPassAt := none } := h.congr rfl rfl
  have hdrop : Seats (catalog.recordingTuners a.inputId) _ _ := seats_dropExpired hclear now
  simp only [pass]
  generalize dropExpired _ now = turn at hdrop ⊢
  obtain ⟨b, expired⟩ := turn
  have hinput : b.inputId = a.inputId := hdrop.inputId
  have hseat : Seats (catalog.recordingTuners a.inputId) b _ :=
    seats_seatDue catalog (b.dueNow now) hdrop.keyed (isLine_dueNow hdrop.keyed now)
  have hall := hdrop.andThen hseat
  rw [hinput]
  exact ⟨hall.keyed.congr rfl rfl, hall.inputId, hall.active, hall.room⟩

/-! ## Every move -/

/-- A move is a quiet one, or works like a pass. -/
theorem quiet_or_seats (m : Occasion) (h : a.IsKeyed) :
    IsQuiet a (m.step a) ∨ Seats (m.tuners a.inputId) a (m.step a) := by
  obtain ⟨catalog, now, move⟩ := m
  cases move with
  | pass => exact Or.inr (seats_pass catalog now h)
  | shutdown => exact Or.inl (isQuiet_shutdown h)
  | message message =>
    cases message with
    | add s => exact Or.inl (isQuiet_handleAdd h s)
    | remove id => exact Or.inl (isQuiet_handleRemove h id)
    | update s => exact Or.inl (isQuiet_handleUpdate h now s)
    | reconcile pending =>
      exact Or.inl (.forEach (isQuiet_reconcileOne now _) a.trackedIds h)
    | rebuild => exact Or.inl ⟨h.congr rfl rfl, rfl, fun _ hid => hid, rfl⟩
    | finished id seq outcome => exact Or.inl (isQuiet_handleFinished h id seq outcome)
    | stopTask id => exact Or.inl (isQuiet_handleStopTask a id h)
    | stop => exact Or.inl (.none h)
    | askView asker =>
      have hpass : Seats (catalog.recordingTuners a.inputId) a (a.passIfDue catalog now) := by
        rw [passIfDue]
        split
        · exact seats_pass catalog now h
        · exact .of_same_keys h rfl (fun _ => Iff.rfl) rfl
      exact Or.inr (hpass.andThen (.of_same_keys hpass.keyed rfl (fun _ => Iff.rfl) rfl))

theorem isKeyed_step (m : Occasion) (h : a.IsKeyed) : (m.step a).1.IsKeyed :=
  (quiet_or_seats m h).elim (·.keyed) (·.keyed)

theorem inputId_step (m : Occasion) (h : a.IsKeyed) : (m.step a).1.inputId = a.inputId :=
  (quiet_or_seats m h).elim (·.inputId) (·.inputId)

theorem size_step_le (m : Occasion) (h : a.IsKeyed) :
    (m.step a).1.active.size ≤ max a.active.size (m.tuners a.inputId) := by
  rcases quiet_or_seats m h with hq | hs
  · exact Nat.le_trans (size_le_of_keys hq.active) (Nat.le_max_left _ _)
  · exact hs.size_le

theorem isKeyed_run (inputId : InputId) (lead : Int64) (course : List Occasion) :
    (run { inputId, lead } course).IsKeyed ∧ (run { inputId, lead } course).inputId = inputId := by
  refine run_induct (P := fun a => a.IsKeyed ∧ a.inputId = inputId) ?_
    ⟨.openDesk inputId lead, rfl⟩ course
  rintro a m ⟨h, hinput⟩
  exact ⟨isKeyed_step m h, (inputId_step m h).trans hinput⟩

/-- The most tuners that were ever counted bound the books. -/
theorem size_run_le (inputId : InputId) (lead : Int64) (course : List Occasion) {n : Nat}
    (hn : ∀ m ∈ course, m.tuners inputId ≤ n) :
    (run { inputId, lead } course).active.size ≤ n := by
  induction course using List.reverseRecOn with
  | nil => exact Nat.zero_le n
  | append_singleton course m ih =>
    obtain ⟨hkeyed, hinput⟩ := isKeyed_run inputId lead course
    have hbefore := ih fun x hx => hn x (List.mem_append_left _ hx)
    have hm := hn m (List.mem_append_right _ List.mem_cons_self)
    have hstep := size_step_le m hkeyed
    rw [hinput] at hstep
    rw [run_append]
    exact Nat.le_trans hstep (Nat.max_le.mpr ⟨hbefore, hm⟩)

/-- A recording is started only while those on the books, together with those started before it
in the same step, are fewer than the tuners counted in that step; and a step that starts one
takes none off the books. So the books never outgrow tuners whose number does not fall. -/
theorem starts_within_tuners (inputId : InputId) (lead : Int64) (course : List Occasion) :
    let a := run { inputId, lead } course
    (∀ (m : Occasion) pre seq s channel post,
      (m.step a).2 = pre ++ .start seq s channel :: post →
        a.active.size + (startedIds pre).length < m.catalog.recordingTuners inputId ∧
        (m.step a).1.active.keys.Perm (a.active.keys ++ startedIds (m.step a).2)) ∧
    (∀ catalog : Catalog,
      (course.map (·.catalog.recordingTuners inputId) ++
        [catalog.recordingTuners inputId]).IsChain (· ≤ ·) →
      a.active.size ≤ catalog.recordingTuners inputId) := by
  intro a
  obtain ⟨hkeyed, hinput⟩ : a.IsKeyed ∧ a.inputId = inputId := isKeyed_run inputId lead course
  constructor
  · intro m pre seq s channel post heq
    rcases quiet_or_seats m hkeyed with hq | hs
    · exact absurd heq (no_start_of_startedIds_nil hq.starts)
    · rw [hinput] at hs
      exact ⟨hs.room pre seq s channel post heq, hs.active⟩
  · intro catalog hrising
    have hpair := List.isChain_iff_pairwise.mp hrising
    have hlast := (List.pairwise_append.mp hpair).2.2
    refine size_run_le inputId lead course fun m hm => ?_
    exact hlast _ (List.mem_map_of_mem hm) _ List.mem_cons_self

/-- One tuner and two schedules at the same time: the first gets it, the second fails. -/
theorem starts_within_tuners_of_two :
    let channel : Channel := ⟨7, "tuner", "Seven", none⟩
    let catalog := (Catalog.putInput {} ⟨"tuner", 1, true⟩).putChannel channel
    let first : Schedule := .timed 1 7 0 100 5
    let course : List Occasion :=
      [⟨catalog, 0, .message (.add first)⟩, ⟨catalog, 0, .message (.add (.timed 2 7 0 100 5))⟩]
    let pass : Occasion := ⟨catalog, 10, .pass⟩
    let a := run { inputId := "tuner", lead := 0 } course
    catalog.recordingTuners "tuner" = 1 ∧
      ((pass.step a).2 = [] ++ .start 1 { first with state := .inProgress } channel ::
        [.report ⟨"tuner", 1, .inProgress, none⟩,
          .report ⟨"tuner", 2, .failed, some "no tuner available"⟩]) ∧
      a.active.size + (startedIds []).length < catalog.recordingTuners "tuner" ∧
      (pass.step a).1.active.keys.Perm (a.active.keys ++ startedIds (pass.step a).2) ∧
      (run { inputId := "tuner", lead := 0 } (course ++ [pass])).active.size ≤
        catalog.recordingTuners "tuner" := by
  intro channel catalog first course pass
  have heffects : (pass.step (run { inputId := "tuner", lead := 0 } course)).2 =
      [] ++ .start 1 { first with state := .inProgress } channel ::
        [.report ⟨"tuner", 1, .inProgress, none⟩,
          .report ⟨"tuner", 2, .failed, some "no tuner available"⟩] := by decide
  obtain ⟨hstarts, -⟩ := starts_within_tuners "tuner" 0 course
  obtain ⟨hroom, hperm⟩ := hstarts pass [] 1 _ channel _ heffects
  obtain ⟨-, hfit⟩ := starts_within_tuners "tuner" 0 (course ++ [pass])
  exact ⟨by decide, heffects, hroom, hperm, hfit catalog (by decide)⟩

end Admission

end Timeshift
