import Timeshift.Proofs.Admission.Room
import Timeshift.Proofs.Admission.Settled

/-!
# Who has to give way

A pass decides on the due schedules one after the other, and the books grow while it does. What it
says of a schedule is judged by the books as they are at that moment.
-/

namespace Timeshift

theorem perm_values_insert_new {α : Type} {m : Std.TreeMap ScheduleId α} {k : ScheduleId}
    (h : k ∉ m) (v : α) : (m.insert k v).values.Perm (m.values ++ [v]) := by
  obtain ⟨rest, hrest, hperm⟩ := perm_values_insert m k v
  have hlength : rest.length = m.values.length := by
    have hsize := hperm.length_eq
    rw [length_values, Std.TreeMap.size_insert, if_neg (mt Std.TreeMap.contains_iff_mem.mp h),
      List.length_cons] at hsize
    rw [length_values]
    omega
  rw [hrest.eq_of_length hlength] at hperm
  exact hperm.trans (List.perm_append_singleton v m.values).symm

/-- A place in a list that is put together lies in the first part or in the second. -/
theorem place_in_append {α : Type} {es fs pre post : List α} {e : α}
    (h : es ++ fs = pre ++ e :: post) :
    (∃ mid, es = pre ++ e :: mid) ∨ ∃ mid, pre = es ++ mid ∧ fs = mid ++ e :: post := by
  rcases List.append_eq_append_iff.mp h with ⟨mid, rfl, hfs⟩ | ⟨mid, rfl, hes⟩
  · exact .inr ⟨mid, rfl, hfs⟩
  · cases mid with
    | nil => exact .inr ⟨[], by simp, by simpa using hes.symm⟩
    | cons x mid =>
      obtain ⟨rfl, -⟩ := List.cons.inj hes
      exact .inl ⟨mid, rfl⟩

namespace Admission

variable {a b c : Admission} {catalog : Catalog} {now : Instant} {tuners : Nat} {s : Schedule}
  {done rest : List Schedule} {books books' : List Running} {victim : Running}
  {es fs : List Effect}

/-! ## The books during a pass -/

def Effect.begun? : Effect → Option Running
  | .start seq s _ => some ⟨s, seq, false⟩
  | .tell _ _ | .report _ | .reply _ _ => none

/-- The schedule that is given a tuner, or whose state is reported. -/
def Effect.subject? : Effect → Option ScheduleId
  | .start _ s _ => some s.id
  | .report r => some r.scheduleId
  | .tell _ _ | .reply _ _ => none

/-- The recordings on the books after the first effects of a pass. -/
def booksAfter (a : Admission) (es : List Effect) : List Running :=
  a.active.values ++ es.filterMap (·.begun?)

theorem booksAfter_nil (a : Admission) : a.booksAfter [] = a.active.values := List.append_nil _

/-- The books go on from where the first effects have left them. -/
theorem booksAfter_append (h : b.active.values.Perm (a.booksAfter es)) (more : List Effect) :
    (b.booksAfter more).Perm (a.booksAfter (es ++ more)) := by
  have hfs := h.append_right (more.filterMap (·.begun?))
  rwa [booksAfter, List.append_assoc, ← List.filterMap_append] at hfs

theorem booksAfter_seat (catalog : Catalog) (hnew : s.id ∉ a.active) :
    (a.seat catalog s).1.active.values.Perm (a.booksAfter (a.seat catalog s).2) := by
  simp only [seat]
  split
  · exact perm_values_insert_new hnew _
  · exact .of_eq (booksAfter_nil a).symm

theorem subject_seat (catalog : Catalog) (a : Admission) (s : Schedule) :
    ∀ e ∈ (a.seat catalog s).2, e.subject? = some s.id := by
  simp only [seat]
  split <;> simp [Admission.begin, Effect.subject?, report, failure]

/-! ## Who gives way, and who is turned away -/

/-- `victim` gives way to `s`: no tuner is free, nor will one be when `s` starts, and of all on
the books `victim` ranks lowest and below `s`. -/
structure GivesWay (tuners : Nat) (books : List Running) (s : Schedule) (victim : Running) :
    Prop where
  full : tuners ≤ books.length
  lasts : ∀ t ∈ books, s.starts < t.schedule.ends
  mem : victim ∈ books
  goes : victim.isStopping = false
  below : victim.schedule.priority < s.priority
  least : ∀ t ∈ books, victim.schedule.priority < t.schedule.priority ∨
    victim.schedule.priority = t.schedule.priority ∧ victim.schedule.id ≤ t.schedule.id

theorem GivesWay.perm (h : GivesWay tuners books s victim) (hperm : books.Perm books') :
    GivesWay tuners books' s victim where
  full := hperm.length_eq ▸ h.full
  lasts t ht := h.lasts t (hperm.symm.subset ht)
  mem := hperm.subset h.mem
  goes := h.goes
  below := h.below
  least t ht := h.least t (hperm.symm.subset ht)

/-- No tuner is free, and `s` ranks above nobody on the books. -/
structure Outranked (tuners : Nat) (books : List Running) (s : Schedule) : Prop where
  full : tuners ≤ books.length
  above : ∀ t ∈ books, s.priority ≤ t.schedule.priority

theorem Outranked.perm (h : Outranked tuners books s) (hperm : books.Perm books') :
    Outranked tuners books' s where
  full := hperm.length_eq ▸ h.full
  above t ht := h.above t (hperm.symm.subset ht)

theorem lasts_of_not_someEndsBy {x : Instant} (h : ¬ a.someEndsBy x = true) :
    ∀ t ∈ a.active.values, x < t.schedule.ends := by
  intro t ht
  by_contra hends
  exact h (List.any_eq_true.mpr ⟨t, ht, decide_eq_true (Int64.not_lt.mp hends)⟩)

theorem givesWay_of_weakestBelow (h : a.IsKeyed) (hends : ¬ a.someEndsBy s.starts = true)
    (hfull : ¬ a.active.size < tuners) (hvictim : a.weakestBelow s.priority = some victim)
    (hgoes : ¬ victim.isStopping = true) : GivesWay tuners a.active.values s victim := by
  obtain ⟨hmem, hbelow, hleast⟩ := (weakestBelow_iff h).mp hvictim
  refine ⟨by rw [length_values]; exact Nat.not_lt.mp hfull, lasts_of_not_someEndsBy hends, hmem,
    Bool.eq_false_iff.mpr hgoes, hbelow, fun t ht => ?_⟩
  by_cases hpriority : t.schedule.priority < s.priority
  · have hrank := (Schedule.rankLE_iff _ _).mp (hleast t ht hpriority)
    unfold Schedule.RanksAbove at hrank
    grind
  · exact .inl (by grind)

theorem outranked_of_weakestBelow (hfull : ¬ a.active.size < tuners)
    (hnone : a.weakestBelow s.priority = none) : Outranked tuners a.active.values s := by
  refine ⟨by rw [length_values]; exact Nat.not_lt.mp hfull, fun t ht => ?_⟩
  rw [weakestBelow, List.head?_eq_none_iff] at hnone
  by_contra hbelow
  have hmem : t ∈ sortBy (fun x y => x.schedule.rankLE y.schedule)
      (a.active.values.filter fun r => r.schedule.priority < s.priority) :=
    mem_sortBy.mpr (List.mem_filter.mpr ⟨ht, decide_eq_true (by grind)⟩)
  rw [hnone] at hmem
  exact List.not_mem_nil hmem

/-! ## What a pass says -/

/-- The turn of a pass that has decided on `done` and stops before `rest`. -/
structure Arbitrates (tuners : Nat) (a : Admission) (done rest : List Schedule) (turn : Turn) :
    Prop where
  /-- Only one recording is told to end, at last, and it gives way to the first of the rest. -/
  gives : ∀ pre seq order post, turn.2 = pre ++ .tell seq order :: post →
    order = .stop ∧ post = [] ∧ ∃ s victim, rest.head? = some s ∧ victim.seq = seq ∧
      GivesWay tuners (a.booksAfter pre) s victim ∧
      turn.1.active[victim.schedule.id]? = some { victim with isStopping := true }
  /-- No tuner is available only to a schedule that is outranked by all that is on the books. -/
  turns : ∀ pre r post, turn.2 = pre ++ .report r :: post →
    r.reason = some "no tuner available" →
    ∃ s ∈ done, s.id = r.scheduleId ∧ Outranked tuners (a.booksAfter pre) s
  /-- Nothing is said of those that the pass has not come to. -/
  leaves : ∀ e ∈ turn.2, ∀ s ∈ rest, e.subject? ≠ some s.id

namespace Arbitrates

theorem gentle (hgentle : ∀ e ∈ es, e.IsGentle)
    (hleaves : ∀ e ∈ es, ∀ s ∈ rest, e.subject? ≠ some s.id) :
    Arbitrates tuners a done rest (b, es) where
  gives pre seq order post heq := by
    subst heq
    exact (hgentle (.tell seq order) (by simp)).elim
  turns pre r post heq hreason := by
    subst heq
    exact absurd hreason (hgentle (.report r) (by simp))
  leaves := hleaves

theorem silent (b : Admission) : Arbitrates tuners a done rest (b, []) :=
  gentle (List.forall_mem_nil _) (List.forall_mem_nil _)

/-- The only effect stands at the beginning. -/
theorem place_in_one {e x : Effect} {pre post : List Effect} (h : [e] = pre ++ x :: post) :
    pre = [] ∧ x = e ∧ post = [] := by
  obtain ⟨rfl, hpost⟩ | ⟨_, -, hnil⟩ := List.cons_eq_append_iff.mp h
  · exact ⟨rfl, (List.cons.inj hpost).1, (List.cons.inj hpost).2⟩
  · exact absurd hnil.symm (by simp)

theorem failure (hout : Outranked tuners a.active.values s) (hother : ∀ x ∈ rest, s.id ≠ x.id)
    (teller : Admission) :
    Arbitrates tuners a (s :: done) rest (b, [teller.failure s "no tuner available"]) where
  gives pre seq order post heq := nomatch (place_in_one heq).2.1
  turns pre r post heq _ := by
    obtain ⟨rfl, hr, -⟩ := place_in_one heq
    obtain rfl := Effect.report.inj hr
    exact ⟨s, List.mem_cons_self, rfl, by rwa [booksAfter_nil]⟩
  leaves := List.forall_mem_singleton.mpr fun x hx heq => hother x hx (Option.some.inj heq)

theorem tellEnd (h : GivesWay tuners a.active.values s victim) :
    Arbitrates tuners a done (s :: rest) (a.tellEnd victim .stop) where
  gives pre seq order post heq := by
    obtain ⟨rfl, htell, rfl⟩ := place_in_one heq
    obtain ⟨rfl, rfl⟩ := Effect.tell.inj htell
    refine ⟨rfl, rfl, s, victim, rfl, rfl, by rwa [booksAfter_nil], ?_⟩
    simp only [Admission.tellEnd, get_insert, if_true]
  turns pre r post heq := nomatch (place_in_one heq).2.1
  leaves := List.forall_mem_singleton.mpr fun x _ heq => nomatch heq

theorem cons (h : Arbitrates tuners a done rest (c, es)) (s : Schedule) :
    Arbitrates tuners a (s :: done) rest (c, es) where
  gives := h.gives
  turns pre r post heq hreason := by
    obtain ⟨x, hx, hrest⟩ := h.turns pre r post heq hreason
    exact ⟨x, List.mem_cons_of_mem s hx, hrest⟩
  leaves := h.leaves

/-- The first part tells no recording anything, and what it begins is on the books by then. -/
theorem andThen (h : Arbitrates tuners a done rest (b, es))
    (hsilent : ∀ seq order, .tell seq order ∉ es)
    (hbooks : b.active.values.Perm (a.booksAfter es))
    (h' : Arbitrates tuners b done rest (c, fs)) :
    Arbitrates tuners a done rest (c, es ++ fs) where
  gives pre seq order post heq := by
    rcases place_in_append heq with ⟨mid, rfl⟩ | ⟨mid, rfl, hfs⟩
    · exact absurd (by simp) (hsilent seq order)
    · obtain ⟨horder, hpost, s, victim, hs, hseq, hgives, hon⟩ :=
        h'.gives mid seq order post hfs
      exact ⟨horder, hpost, s, victim, hs, hseq, hgives.perm (booksAfter_append hbooks mid), hon⟩
  turns pre r post heq hreason := by
    rcases place_in_append heq with ⟨mid, hes⟩ | ⟨mid, rfl, hfs⟩
    · exact h.turns pre r mid hes hreason
    · obtain ⟨s, hs, hid, hout⟩ := h'.turns mid r post hfs hreason
      exact ⟨s, hs, hid, hout.perm (booksAfter_append hbooks mid)⟩
  leaves e he := (List.mem_append.mp he).elim (h.leaves e) (h'.leaves e)

end Arbitrates

theorem not_tell_of_gentle (h : ∀ e ∈ es, e.IsGentle) (seq : Nat) (order : Order) :
    .tell seq order ∉ es := h (.tell seq order)

/-! ## The pass -/

theorem seatDue_arbitrates (catalog : Catalog) (tuners : Nat) (due : List Schedule)
    (h : a.IsKeyed) (hline : IsLine a due) : ∃ done rest, due = done ++ rest ∧
      StopsAt tuners a done rest (seatDue catalog tuners due a).1 ∧
      Arbitrates tuners a done rest (seatDue catalog tuners due a) := by
  induction due generalizing a with
  | nil => exact ⟨[], [], rfl, .here fun s hs => (nomatch hs), .silent a⟩
  | cons s later ih =>
    have hother : ∀ done rest, later = done ++ rest → ∀ x ∈ rest, s.id ≠ x.id := by
      rintro done rest rfl x hx heq
      have hmem : x.id ∈ (done ++ rest).map (·.id) :=
        List.mem_map_of_mem (List.mem_append_right done hx)
      rw [← heq] at hmem
      exact (List.nodup_cons.mp hline.ids).1 hmem
    by_cases hends : a.someEndsBy s.starts = true
    · rw [seatDue, if_pos hends]
      refine ⟨[], s :: later, rfl, .here fun x hx => ?_, .silent a⟩
      exact Option.some.inj hx ▸ Or.inl hends
    · rw [seatDue, if_neg hends]
      split
      · obtain ⟨hkeyed, hlead, hactive⟩ := seat_keeps h catalog s
        obtain ⟨done, rest, hlater, hstops, hrest⟩ :=
          ih hkeyed (hline.tail (mem_active_seat catalog a s))
        have hseat := isGentle_seat catalog a s
        refine ⟨s :: done, rest, by rw [hlater, List.cons_append],
          hstops.cons hlead (waiting_seat catalog a s) hactive, ?_⟩
        refine .andThen (.gentle hseat fun e he x hx heq => ?_) (not_tell_of_gentle hseat)
          (booksAfter_seat catalog (hline.off s List.mem_cons_self)) (hrest.cons s)
        rw [subject_seat catalog a s e he] at heq
        exact hother done rest hlater x hx (Option.some.inj heq)
      · next hfull =>
        split
        · next victim hvictim =>
          split
          · next hstopping =>
            refine ⟨[], s :: later, rfl, .here fun x hx => ?_, .silent a⟩
            exact Option.some.inj hx ▸ Or.inr ⟨Nat.not_lt.mp hfull, victim, hvictim, hstopping⟩
          · next hgoes =>
            obtain ⟨id, hid⟩ := mem_of_weakestBelow hvictim
            refine ⟨[], s :: later, rfl, ⟨rfl, fun _ => rfl, fun k _ => mem_tellEnd h hid .stop k,
              fun x hx => ?_⟩, .tellEnd (givesWay_of_weakestBelow h hends hfull hvictim hgoes)⟩
            exact Option.some.inj hx ▸ holdsUp_tellEnd h hfull hvictim
        · next hnone =>
          obtain ⟨done, rest, hlater, hstops, hrest⟩ :=
            ih (h.dismiss s.id) (hline.tail fun _ hid => Or.inr hid)
          -- The desk after the whole pass tells of the failure.
          generalize seatDue catalog tuners later (a.dismiss s.id) = turn at hstops hrest ⊢
          have hbooks : (a.dismiss s.id).active.values.Perm
              (a.booksAfter [turn.1.failure s "no tuner available"]) :=
            .of_eq (booksAfter_nil a).symm
          refine ⟨s :: done, rest, by rw [hlater, List.cons_append],
            hstops.cons rfl rfl fun _ _ => Iff.rfl, ?_⟩
          exact .andThen (.failure (outranked_of_weakestBelow hfull hnone)
            (hother done rest hlater) turn.1) (by simp [Admission.failure, report]) hbooks
            (hrest.cons s)

/-- What has ended is told first, and concerns nobody who is due. -/
theorem arbitrates_cleared (h : a.IsKeyed) {turn : Turn} (hline : a.dueNow now = done ++ rest)
    (hturn : Arbitrates tuners (a.cleared now) done rest turn) :
    Arbitrates tuners a done rest
      (turn.1, (a.waiting.values.filter (isExpired now)).map
        (a.failure · "ended before a tuner was available") ++ turn.2) := by
  generalize hfailures : (a.waiting.values.filter (isExpired now)).map
    (a.failure · "ended before a tuner was available") = failures
  have hfailure : ∀ e ∈ failures, ∃ x, a.waiting[x.id]? = some x ∧ x.ends ≤ now ∧
      e = a.failure x "ended before a tuner was available" := by
    subst hfailures
    simp only [List.forall_mem_map, List.mem_filter, isExpired, decide_eq_true_eq]
    exact fun x hx => ⟨x, waiting_of_mem_values h hx.1, hx.2, rfl⟩
  have hgentle : ∀ e ∈ failures, e.IsGentle := by
    intro e he
    obtain ⟨x, -, -, rfl⟩ := hfailure e he
    simp [Effect.IsGentle, failure, report]
  have hbooks : (a.cleared now).active.values.Perm (a.booksAfter failures) := by
    have hnone : failures.filterMap (·.begun?) = [] := by
      refine List.filterMap_eq_nil_iff.mpr fun e he => ?_
      obtain ⟨x, -, -, rfl⟩ := hfailure e he
      rfl
    rw [(cleared_keeps h now).2.2.1, booksAfter, hnone, List.append_nil]
  refine .andThen (.gentle hgentle fun e he s hs heq => ?_) (not_tell_of_gentle hgentle) hbooks
    hturn
  obtain ⟨x, hx, hends, rfl⟩ := hfailure e he
  obtain ⟨hs, hdue⟩ := (mem_dueNow h).mp (hline ▸ List.mem_append_right done hs)
  have hid : x.id = s.id := Option.some.inj heq
  obtain rfl := Option.some.inj (hx.symm.trans (hid ▸ hs))
  exact absurd (lt_ends_of_isDue hdue) (Int64.not_lt.mpr hends)

/-- One pass tells at most one recording to end, and tells it to stop. It gives way to a due
schedule of higher priority that goes on waiting. For want of a tuner a schedule fails only if it
ranks above nobody. Behind the first schedule that has to wait all others wait too. -/
theorem pass_arbitrates (h : a.IsKeyed) (catalog : Catalog) (now : Instant) :
    let turn := a.pass catalog now
    let tuners := catalog.recordingTuners a.inputId
    ∃ done rest, a.dueNow now = done ++ rest ∧ Arbitrates tuners a done rest turn ∧
      (∀ s, rest.head? = some s → HoldsUp tuners turn.1 s) ∧
      (∀ s ∈ done, s.id ∉ turn.1.waiting) ∧
      ∀ s ∈ rest, turn.1.waiting[s.id]? = some s ∧ s.id ∉ turn.1.active := by
  intro turn tuners
  obtain ⟨hkeyed, -, hactive, -⟩ := cleared_keeps h now
  have hline : IsLine (a.cleared now) (a.dueNow now) := by
    rw [← dueNow_cleared h now]
    exact isLine_dueNow hkeyed now
  obtain ⟨done, rest, hdue, hstops, hseated⟩ :=
    seatDue_arbitrates catalog tuners (a.dueNow now) hkeyed hline
  have hturn : turn = _ := pass_eq h catalog now
  rw [hturn]
  generalize seatDue catalog _ (a.dueNow now) (a.cleared now) = seated at hstops hseated
  have hall := arbitrates_cleared h hdue hseated
  refine ⟨done, rest, hdue, ⟨hall.gives, hall.turns, hall.leaves⟩,
    fun s hs => (hstops.heldUp s hs).congr rfl, fun s hs hwaits => ?_, fun s hs => ?_⟩
  · obtain ⟨x, hx⟩ := mem_iff_get.mp hwaits
    exact ((hstops.waited h).mp hx).1 (List.mem_map_of_mem hs)
  · have hnot : s.id ∉ done.map (·.id) := fun hin => by
      have hids := (isLine_dueNow h now).ids
      rw [hdue, List.map_append] at hids
      exact (List.nodup_append'.mp hids).2.2 hin (List.mem_map_of_mem hs)
    obtain ⟨hwaits, hisDue⟩ := (mem_dueNow h).mp (hdue ▸ List.mem_append_right done hs)
    refine ⟨(hstops.waited h).mpr ⟨hnot, hwaits, lt_ends_of_isDue hisDue⟩, fun hon => ?_⟩
    have hbefore := (hstops.active s.id hnot).mp hon
    rw [hactive] at hbefore
    exact not_mem_active_of_isDue hisDue hbefore

/-- One tuner and four schedules: the first gets it, the second is too weak, the third is given
the tuner of the first, and the fourth has to wait behind it. -/
theorem pass_arbitrates_four :
    let channel : Channel := ⟨7, "tuner", "Seven", none⟩
    let catalog := (Catalog.putInput {} ⟨"tuner", 1, true⟩).putChannel channel
    let first : Schedule := .timed 1 7 0 100 5
    let course : List Occasion :=
      [⟨catalog, 0, .message (.add first)⟩, ⟨catalog, 0, .message (.add (.timed 2 7 1 100 3))⟩,
        ⟨catalog, 0, .message (.add (.timed 3 7 2 100 9))⟩,
        ⟨catalog, 0, .message (.add (.timed 4 7 3 100 1))⟩]
    let a := run { inputId := "tuner", lead := 0 } course
    let turn := a.pass catalog 10
    let tuners := catalog.recordingTuners a.inputId
    a.IsKeyed ∧ tuners = 1 ∧ (a.dueNow 10).map (·.id) = [1, 2, 3, 4] ∧
      turn.2 = [.start 1 { first with state := .inProgress } channel,
        .report ⟨"tuner", 1, .inProgress, none⟩,
        .report ⟨"tuner", 2, .failed, some "no tuner available"⟩, .tell 1 .stop] ∧
      ∃ done rest, a.dueNow 10 = done ++ rest ∧ Arbitrates tuners a done rest turn ∧
        (∀ s, rest.head? = some s → HoldsUp tuners turn.1 s) ∧
        (∀ s ∈ done, s.id ∉ turn.1.waiting) ∧
        ∀ s ∈ rest, turn.1.waiting[s.id]? = some s ∧ s.id ∉ turn.1.active := by
  intro channel catalog first course a
  have hkeyed : a.IsKeyed := (isKeyed_run "tuner" 0 course).1
  exact ⟨hkeyed, by decide, by decide, by decide, pass_arbitrates hkeyed catalog 10⟩

end Admission

end Timeshift
