import Timeshift.Proofs.Admission.Changes

/-!
# One recording for each schedule

The recordings of a desk are numbered in the order they start. A schedule has one recording on
the books at most. It waits beside it only while the recording is being ended, and news about
any other recording changes nothing.
-/

namespace Timeshift

namespace Admission

variable {l : License} {a b : Admission} {es fs : List Effect} {id : ScheduleId} {t : Running}

/-! ## Everything that a desk has done -/

/-- The effects of some moves, one after the other. -/
def trace (a : Admission) : List Occasion → List Effect
  | [] => []
  | m :: rest => (m.step a).2 ++ trace (m.step a).1 rest

theorem trace_append (a : Admission) (course more : List Occasion) :
    trace a (course ++ more) = trace a course ++ trace (run a course) more := by
  induction course generalizing a with
  | nil => rfl
  | cons m rest ih =>
    rw [List.cons_append, trace, ih, trace, List.append_assoc]
    rfl

def Effect.startedSeq? : Effect → Option Nat
  | .start seq _ _ => some seq
  | _ => none

/-- The numbers of the recordings that are started, in order. -/
def startedSeqs (es : List Effect) : List Nat := es.filterMap (·.startedSeq?)

/-- The recording was told to stop or to cancel. -/
def WasTold (es : List Effect) (seq : Nat) : Prop :=
  .tell seq .stop ∈ es ∨ .tell seq .cancel ∈ es

theorem WasTold.append_left {seq : Nat} (h : WasTold es seq) : WasTold (es ++ fs) seq :=
  h.imp (List.mem_append_left fs) (List.mem_append_left fs)

theorem WasTold.append_right {seq : Nat} (h : WasTold fs seq) : WasTold (es ++ fs) seq :=
  h.imp (List.mem_append_right es) (List.mem_append_right es)

/-! ## Order on the books -/

/-- How the books stand to the effects `es` of all moves so far. -/
structure IsOrderly (es : List Effect) (a : Admission) : Prop where
  /-- What runs and waits at once is being ended. -/
  requeued : ∀ (id : ScheduleId) (t : Running), id ∈ a.waiting → a.active[id]? = some t → t.isStopping = true
  told : ∀ (id : ScheduleId) (t : Running), a.active[id]? = some t → t.isStopping = true → WasTold es t.seq
  distinct : ∀ (id : ScheduleId) (t : Running) (id' : ScheduleId) (t' : Running),
    a.active[id]? = some t → a.active[id']? = some t' → t.seq = t'.seq → id = id'
  counted : ∀ (id : ScheduleId) (t : Running), a.active[id]? = some t → t.seq ≤ a.lastSeq
  numbered : startedSeqs es = List.range' 1 a.lastSeq

namespace IsOrderly

/-- A change that starts nothing. Each recording on the books was there before, and if it is
being ended it was before or has been told so. -/
theorem quiet (h : IsOrderly es a) (hlast : b.lastSeq = a.lastSeq) (hstarts : startedSeqs fs = [])
    (hactive : ∀ (id : ScheduleId) (t : Running), b.active[id]? = some t →
      ∃ u, a.active[id]? = some u ∧ u.seq = t.seq ∧
        (t.isStopping = true → u.isStopping = true ∨ WasTold fs t.seq))
    (hrequeued : ∀ (id : ScheduleId) (t : Running), id ∈ b.waiting → b.active[id]? = some t →
      t.isStopping = true) :
    IsOrderly (es ++ fs) b where
  requeued := hrequeued
  told id t ht hstopping := by
    obtain ⟨u, hu, hseq, htold⟩ := hactive id t ht
    rcases htold hstopping with hbefore | hnow
    · exact (hseq ▸ h.told id u hu hbefore).append_left
    · exact hnow.append_right
  distinct id t id' t' ht ht' heq := by
    obtain ⟨u, hu, hseq, -⟩ := hactive id t ht
    obtain ⟨u', hu', hseq', -⟩ := hactive id' t' ht'
    exact h.distinct id u id' u' hu hu' (by rw [hseq, hseq', heq])
  counted id t ht := by
    obtain ⟨u, hu, hseq, -⟩ := hactive id t ht
    rw [hlast, ← hseq]
    exact h.counted id u hu
  numbered := by
    have hall : startedSeqs (es ++ fs) = startedSeqs es ++ startedSeqs fs := List.filterMap_append
    rw [hall, hstarts, List.append_nil, hlast, h.numbered]

/-- Less may wait, and the books stay as they are. -/
theorem unbooked (h : IsOrderly es a) (hlast : b.lastSeq = a.lastSeq)
    (hstarts : startedSeqs fs = []) (hactive : b.active = a.active)
    (hwaiting : ∀ id : ScheduleId, id ∈ b.waiting → id ∈ a.waiting ∨ id ∉ a.active) :
    IsOrderly (es ++ fs) b := by
  refine h.quiet hlast hstarts (fun id t ht => ?_) fun id t hwait ht => ?_
  · rw [hactive] at ht
    exact ⟨t, ht, rfl, Or.inl⟩
  · rw [hactive] at ht
    rcases hwaiting id hwait with hbefore | hoff
    · exact h.requeued id t hbefore ht
    · exact absurd (mem_of_get ht) hoff

/-- A recording is told to end. Its schedule may wait from now on. -/
theorem tellEnd (h : IsOrderly es a) (hkeyed : a.IsKeyed) (ht : a.active[id]? = some t)
    (hb : b.active = a.active) (hlast : b.lastSeq = a.lastSeq)
    (hwaiting : ∀ k : ScheduleId, k ∈ b.waiting → k = id ∨ k ∈ a.waiting) {order : Order}
    (horder : order = .stop ∨ order = .cancel) :
    IsOrderly (es ++ (b.tellEnd t order).2) (b.tellEnd t order).1 := by
  have hid : t.schedule.id = id := hkeyed.active id t ht
  have hbooks : ∀ k : ScheduleId, (b.tellEnd t order).1.active[k]? =
      if id = k then some { t with isStopping := true } else a.active[k]? := by
    intro k
    simp only [Admission.tellEnd, get_insert, hid, hb]
  have htold : WasTold (b.tellEnd t order).2 t.seq := by
    rcases horder with rfl | rfl
    · exact Or.inl List.mem_cons_self
    · exact Or.inr List.mem_cons_self
  refine h.quiet hlast rfl (fun k u hu => ?_) fun k u hwait hu => ?_
  · rw [hbooks] at hu
    split at hu
    · next heq =>
      obtain rfl := Option.some.inj hu
      exact ⟨t, heq ▸ ht, rfl, fun _ => Or.inr htold⟩
    · exact ⟨u, hu, rfl, Or.inl⟩
  · rw [hbooks] at hu
    split at hu
    · obtain rfl := Option.some.inj hu
      rfl
    · next hne =>
      exact h.requeued k u ((hwaiting k hwait).resolve_left fun heq => hne heq.symm) hu

/-- The next number goes to a schedule that waits no longer and is not on the books. -/
theorem begin (h : IsOrderly es a) (s : Schedule) (channel : Channel) (hwait : s.id ∉ a.waiting) :
    IsOrderly (es ++ (a.begin s channel).2) (a.begin s channel).1 := by
  have hbooks : ∀ k : ScheduleId, (a.begin s channel).1.active[k]? =
      if s.id = k then some ⟨{ s with state := .inProgress }, a.lastSeq + 1, false⟩
      else a.active[k]? := by
    intro k
    simp only [Admission.begin, get_insert]
  have hnew : ∀ (k : ScheduleId) (u : Running), s.id ≠ k → (a.begin s channel).1.active[k]? = some u →
      a.active[k]? = some u := by
    intro k u hne hu
    rwa [hbooks, if_neg hne] at hu
  constructor
  · intro k u hk hu
    have hne : s.id ≠ k := by
      rintro rfl
      exact hwait hk
    exact h.requeued k u hk (hnew k u hne hu)
  · intro k u hu hstopping
    rw [hbooks] at hu
    split at hu
    · obtain rfl := Option.some.inj hu
      cases hstopping
    · exact (h.told k u hu hstopping).append_left
  · intro k u k' u' hu hu' heq
    rw [hbooks] at hu hu'
    -- The new number is above all others.
    split at hu <;> split at hu'
    · next hk hk' => rw [← hk, ← hk']
    · obtain rfl := Option.some.inj hu
      have hle := h.counted k' u' hu'
      rw [← heq] at hle
      exact absurd hle (Nat.not_succ_le_self a.lastSeq)
    · obtain rfl := Option.some.inj hu'
      have hle := h.counted k u hu
      rw [heq] at hle
      exact absurd hle (Nat.not_succ_le_self a.lastSeq)
    · exact h.distinct k u k' u' hu hu' heq
  · intro k u hu
    rw [hbooks] at hu
    show u.seq ≤ a.lastSeq + 1
    split at hu
    · obtain rfl := Option.some.inj hu
      exact Nat.le_refl _
    · exact Nat.le_succ_of_le (h.counted k u hu)
  · have hall : startedSeqs (es ++ (a.begin s channel).2) = startedSeqs es ++ [a.lastSeq + 1] :=
      List.filterMap_append
    rw [hall, h.numbered]
    show _ = List.range' 1 (a.lastSeq + 1)
    rw [List.range'_concat, Nat.one_mul, Nat.add_comm]

theorem change (h : IsOrderly es a) (hkeyed : a.IsKeyed) {turn : Turn}
    (hchange : Change l a turn) : IsOrderly (es ++ turn.2) turn.1 := by
  -- A copy that is taken over lets its schedule wait, and nothing else.
  have henqueue : ∀ (s : Schedule) (k : ScheduleId), k ∈ (a.enqueue s).waiting →
      k = s.id ∨ k ∈ a.waiting := by
    intro s k hk
    rw [enqueue, Std.TreeMap.mem_insert, Std.LawfulEqOrd.compare_eq_iff_eq] at hk
    exact hk.imp_left Eq.symm
  have hdismiss : ∀ id k : ScheduleId, k ∈ (a.dismiss id).waiting → k ∈ a.waiting :=
    fun id k hk => Std.TreeMap.mem_of_mem_erase hk
  cases hchange with
  | note | answer => exact h.unbooked rfl rfl rfl fun _ => Or.inl
  | join s _ hnew =>
    refine h.unbooked rfl rfl rfl fun k hk => ?_
    rcases henqueue s k hk with rfl | hbefore
    · simp only [isTracked, Bool.or_eq_false_iff] at hnew
      exact Or.inr fun hon => by simp [Std.TreeMap.contains_iff_mem.mpr hon] at hnew
    · exact Or.inl hbefore
  | replace s _ hold =>
    refine h.unbooked rfl rfl rfl fun k hk => ?_
    rcases henqueue s k hk with rfl | hbefore
    · exact Or.inl hold
    · exact Or.inl hbefore
  | requeue s t _ _ ht => exact h.tellEnd (b := a.enqueue s) hkeyed ht rfl rfl (henqueue s) (Or.inr rfl)
  | follow s t _ hold ht =>
    refine h.quiet rfl rfl (fun k u hu => ?_) fun k u hwait hu => ?_
    · rw [get_insert] at hu
      split at hu
      · next heq =>
        obtain rfl := Option.some.inj hu
        exact ⟨t, heq ▸ ht, rfl, Or.inl⟩
      · exact ⟨u, hu, rfl, Or.inl⟩
    · have hne : s.id ≠ k := by
        rintro rfl
        exact hold hwait
      rw [get_insert, if_neg hne] at hu
      exact h.requeued k u hwait hu
  | drop id => exact h.unbooked rfl rfl rfl fun k hk => Or.inl (hdismiss id k hk)
  | callOff id t _ ht =>
    exact h.tellEnd (b := a.dismiss id) hkeyed ht rfl rfl
      (fun k hk => Or.inr (hdismiss id k hk)) (Or.inr rfl)
  | clear => exact h.unbooked rfl rfl rfl fun k hk => absurd hk Std.TreeMap.not_mem_emptyc
  | stop id t ht => exact h.tellEnd hkeyed ht rfl rfl (fun _ => Or.inr) (Or.inl rfl)
  | close id t outcome _ _ =>
    have hleft : ∀ (k : ScheduleId) (u : Running),
        (a.active.erase id)[k]? = some u → a.active[k]? = some u := by
      intro k u hu
      rw [get_erase] at hu
      split at hu
      · cases hu
      · exact hu
    refine h.quiet rfl ?_ (fun k u hu => ⟨u, hleft k u hu, rfl, Or.inl⟩) fun k u hwait hu =>
      h.requeued k u hwait (hleft k u hu)
    split <;> rfl
  | fail s => exact h.unbooked rfl rfl rfl fun k hk => Or.inl (hdismiss s.id k hk)
  | start s channel _ _ =>
    have hgone : IsOrderly es (a.dismiss s.id) := by
      have hall : IsOrderly (es ++ []) (a.dismiss s.id) :=
        h.unbooked rfl rfl rfl fun k hk => Or.inl (hdismiss s.id k hk)
      rwa [List.append_nil] at hall
    exact hgone.begin s channel (by simp [dismiss])

theorem changes (h : IsOrderly es a) (hkeyed : a.IsKeyed) {turn : Turn} (hall : Changes l a turn) :
    IsOrderly (es ++ turn.2) turn.1 := by
  induction hall generalizing es with
  | none => rwa [List.append_nil]
  | step hone _ ih =>
    have hrest := ih (h.change hkeyed hone) (hkeyed.change hone)
    rwa [List.append_assoc] at hrest

end IsOrderly

theorem isOrderly_run (inputId : InputId) (lead : Int64) (course : List Occasion) :
    IsOrderly (trace { inputId, lead } course) (run { inputId, lead } course) := by
  induction course using List.reverseRecOn with
  | nil => exact ⟨by simp [run], by simp [run], by simp [run], by simp [run], rfl⟩
  | append_singleton course m ih =>
    have hkeyed := (isKeyed_run inputId lead course).1
    have hstep := ih.changes hkeyed (changes_step m hkeyed)
    rw [trace_append, run_append]
    simpa [trace, run] using hstep

/-- A recording is started for a schedule that has none on the books. -/
theorem starts_off_books (h : a.IsKeyed) (m : Occasion) {pre post : List Effect} {seq : Nat}
    {s : Schedule} {channel : Channel}
    (hstart : (m.step a).2 = pre ++ .start seq s channel :: post) :
    s.id ∉ a.active ∧ s.id ∉ startedIds pre := by
  rcases quiet_or_seats m h with hq | hs
  · exact absurd hstart (no_start_of_startedIds_nil hq.starts)
  · have hnodup : (a.active.keys ++ startedIds (m.step a).2).Nodup :=
      hs.active.nodup_iff.mp Std.TreeMap.nodup_keys
    rw [hstart, startedIds_append, startedIds_start] at hnodup
    obtain ⟨-, hstarted, hkeys⟩ := List.nodup_append'.mp hnodup
    constructor
    · intro hon
      exact hkeys (Std.TreeMap.mem_keys.mpr hon)
        (List.mem_append_right _ List.mem_cons_self)
    · intro hpre
      exact (List.nodup_append'.mp hstarted).2.2 hpre List.mem_cons_self

/-- What waits and runs at once has been told to end; a recording is started only for a schedule
that has none on the books, and gets a larger number than all before it; no two on the books have
one number; and news of a recording that is not on the books changes nothing. -/
theorem one_recording_each (inputId : InputId) (lead : Int64) (course : List Occasion) :
    let a := run { inputId, lead } course
    let done := trace { inputId, lead } course
    (∀ (id : ScheduleId) (t : Running), id ∈ a.waiting → a.active[id]? = some t →
      t.isStopping = true ∧ WasTold done t.seq) ∧
    (∀ (m : Occasion) pre seq s channel post,
      (m.step a).2 = pre ++ .start seq s channel :: post →
        s.id ∉ a.active ∧ s.id ∉ startedIds pre) ∧
    ((∀ (id : ScheduleId) (t : Running) (id' : ScheduleId) (t' : Running),
        a.active[id]? = some t → a.active[id']? = some t' → t.seq = t'.seq → id = id') ∧
      (∀ (id : ScheduleId) (t : Running), a.active[id]? = some t → t.seq ≤ a.lastSeq) ∧
      ∀ pre seq s channel post, done = pre ++ .start seq s channel :: post →
        ∀ earlier ∈ startedSeqs pre, earlier < seq) ∧
    ∀ catalog now (id : ScheduleId) seq outcome, (∀ t, a.active[id]? = some t → t.seq ≠ seq) →
      a.handle catalog now (.finished id seq outcome) = (a, []) := by
  intro a done
  have hkeyed : a.IsKeyed := (isKeyed_run inputId lead course).1
  have horder : IsOrderly done a := isOrderly_run inputId lead course
  refine ⟨fun id t hwait ht => ?_, fun m pre seq s channel post => starts_off_books hkeyed m,
    ⟨horder.distinct, horder.counted, fun pre seq s channel post hdone earlier hearlier => ?_⟩,
    fun catalog now id seq outcome hother => ?_⟩
  · have hstopping := horder.requeued id t hwait ht
    exact ⟨hstopping, horder.told id t ht hstopping⟩
  · have hrising : (startedSeqs done).Pairwise (· < ·) := by
      rw [horder.numbered]
      exact List.pairwise_lt_range'
    rw [hdone, startedSeqs, List.filterMap_append] at hrising
    exact (List.pairwise_append.mp hrising).2.2 earlier hearlier seq List.mem_cons_self
  · simp only [handle, handleFinished]
    split
    · rfl
    · next t ht => rw [if_neg (hother t ht)]

/-- A schedule moves to a later start while it is recorded, and starts again. News of the first
recording then comes a second time. -/
theorem one_recording_each_restarted :
    let channel : Channel := ⟨7, "tuner", "Seven", none⟩
    let catalog := (Catalog.putInput {} ⟨"tuner", 1, true⟩).putChannel channel
    let early : Schedule := .timed 1 7 0 100 5
    let later : Schedule := .timed 1 7 20 100 5
    let moved : List Occasion := [⟨catalog, 0, .message (.add early)⟩, ⟨catalog, 0, .pass⟩,
      ⟨catalog, 10, .message (.update later)⟩]
    let restarted : List Occasion :=
      moved ++ [⟨catalog, 10, .message (.finished 1 1 .canceled)⟩, ⟨catalog, 20, .pass⟩]
    let a := run { inputId := "tuner", lead := 0 } moved
    let b := run { inputId := "tuner", lead := 0 } restarted
    (1 ∈ a.waiting ∧ a.active[(1 : Int64)]? = some ⟨{ early with state := .inProgress }, 1, true⟩ ∧
        WasTold (trace { inputId := "tuner", lead := 0 } moved) 1) ∧
      (startedSeqs (trace { inputId := "tuner", lead := 0 } restarted) = [1, 2]) ∧
      (∀ t, b.active[(1 : Int64)]? = some t → t.seq ≠ 1) ∧
      b.handle catalog 30 (.finished 1 1 .canceled) = (b, []) := by
  intro channel catalog early later moved restarted a b
  obtain ⟨htold, -⟩ := one_recording_each "tuner" 0 moved
  obtain ⟨-, -, -, hstale⟩ := one_recording_each "tuner" 0 restarted
  have hactive : a.active[(1 : Int64)]? = some ⟨{ early with state := .inProgress }, 1, true⟩ := by
    decide
  have hnew : b.active[(1 : Int64)]? = some ⟨{ later with state := .inProgress }, 2, false⟩ := by
    decide
  have hother : ∀ t, b.active[(1 : Int64)]? = some t → t.seq ≠ 1 := by
    intro t ht
    obtain rfl := Option.some.inj (hnew.symm.trans ht)
    decide
  exact ⟨⟨by decide, hactive, (htold 1 _ (by decide) hactive).2⟩, by decide, hother,
    hstale catalog 30 1 1 .canceled hother⟩

end Admission

end Timeshift
