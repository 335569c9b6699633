import Timeshift.Proofs.Store.Outcome

/-!
# Calls keep the mirror

Whatever a call does, the archive mirrors the store after it as well, if nobody hands in a deleted
schedule and the ids that are given out are new. They are, until they start over again.
-/

namespace Timeshift

namespace Store

variable {s s' : Store} {l updates : List Schedule} {spare : List ProgramId} {e : Edit}
  {id : ScheduleId} {x y : Schedule}

/-! ## A call keeps the mirror -/

theorem Mirrors.alike (h : Mirrors s spare) (halike : Alike s s') : Mirrors s' spare := by
  have hrow : ∀ id, s'.row? id = s.row? id := fun id => by rw [row?, halike.rows, row?]
  refine h.of_live (fun id x hx => ?_) (fun id x => ?_) (fun id x _ => by rw [hrow]) halike.marks
    halike.rules halike.ruleRows
  · exact h.keyed id x (hrow id ▸ hx)
  · rw [halike.live, hrow]
    exact h.live id x

theorem Mirrors.numbered (h : Mirrors s spare) (l : List Schedule) : Mirrors (s.numbered l) spare :=
  h.of_live h.keyed h.live (fun _ _ _ => Iff.rfl) rfl rfl rfl

/-- The row of a schedule in use is not that of a deleted one. -/
theorem Mirrors.state_of_live (h : Mirrors s spare) (hlive : id ∈ s.live)
    (hx : s.row? id = some x) : x.state ≠ .deleted := by
  obtain ⟨y, hy⟩ := mem_iff_get.mp hlive
  obtain ⟨hrow, hstate⟩ := (h.live id y).mp hy
  obtain rfl := Option.some.inj (hrow.symm.trans hx)
  exact hstate

theorem Mirrors.takeOver (h : Mirrors s spare) (hl : ∀ x ∈ l, x.state ≠ .deleted)
    (hids : ∀ x ∈ l, ∀ y, s.row? x.id = some y → y.state ≠ .deleted) :
    Mirrors (s.takeOver l) spare := by
  refine (h.enter hl hids).lift fun x hx => ?_
  obtain ⟨y, -, hy⟩ := List.mem_filterMap.mp hx
  obtain ⟨p, -, hp⟩ := Option.bind_eq_some_iff.mp hy
  exact ⟨p, hp⟩

theorem Mirrors.updated (h : Mirrors s spare) (hl : ∀ x ∈ l, x.state ≠ .deleted)
    (hupdates : s.knownUpdates l = .ok updates) : Mirrors (s.takeOver updates) spare := by
  obtain rfl := eq_filter_of_knownUpdates hupdates
  refine h.takeOver (fun x hx => hl x (List.mem_of_mem_filter hx)) fun x hx y => ?_
  exact h.state_of_live (Std.TreeMap.contains_iff_mem.mp (List.mem_filter.mp hx).2)

theorem live_of_mem_named (h : Mirrors s spare) (hx : x ∈ s.named l) : s.live[x.id]? = some x := by
  obtain ⟨y, -, hy⟩ := List.mem_filterMap.mp hx
  have hid : x.id = y.id := h.keyed y.id x ((h.live y.id x).mp hy).1
  rwa [hid]

theorem eq_of_mem_named (h : Mirrors s spare) (hx : x ∈ s.named l) (hy : y ∈ s.named l)
    (hid : x.id = y.id) : x = y := by
  have hlive := live_of_mem_named h hx
  rw [hid, live_of_mem_named h hy] at hlive
  exact (Option.some.inj hlive).symm

theorem canBury_buried (h : Mirrors s spare) (l : List Schedule) (force : Bool) :
    CanBury (s.strike ((s.struck l force).map (·.id))) (s.buried l force) where
  deleted x hx := by
    obtain ⟨y, -, rfl⟩ := List.mem_map.mp hx
    rfl
  live x hx := by
    obtain ⟨y, hy, rfl⟩ := List.mem_map.mp hx
    obtain ⟨hnamed, hleaves⟩ := List.mem_filter.mp hy
    -- The schedules that leave a mark are not among those that leave none.
    have hstays : y.id ∉ (s.struck l force).map (·.id) := by
      intro hmem
      obtain ⟨z, hz, hid⟩ := List.mem_map.mp hmem
      obtain ⟨hznamed, hnot⟩ := List.mem_filter.mp hz
      rw [eq_of_mem_named h hznamed hnamed hid, hleaves] at hnot
      cases hnot
    have hlive : (s.strike ((s.struck l force).map (·.id))).live[y.id]? = s.live[y.id]? :=
      (get_release s _ y.id).trans (if_neg hstays)
    exact mem_of_get (hlive.trans (live_of_mem_named h hnamed))
  one x hx y hy hid := by
    obtain ⟨x₀, hx₀, rfl⟩ := List.mem_map.mp hx
    obtain ⟨y₀, hy₀, rfl⟩ := List.mem_map.mp hy
    rw [eq_of_mem_named h (List.mem_of_mem_filter hx₀) (List.mem_of_mem_filter hy₀) hid]

theorem Mirrors.removed (h : Mirrors s spare) (l : List Schedule) (force : Bool) :
    Mirrors ((s.strike ((s.struck l force).map (·.id))).bury (s.buried l force))
      (spare ++ s.crowded (s.buried l force)) := by
  refine (h.strike fun id hid x => h.state_of_live ?_).bury (canBury_buried h l force)
  obtain ⟨y, hy, rfl⟩ := List.mem_map.mp hid
  exact mem_of_get (live_of_mem_named h (List.mem_of_mem_filter hy))

theorem Mirrors.setRule (h : Mirrors s spare) (rule : SeriesRule) :
    Mirrors (s.setRule rule) spare :=
  { h with
    rules := by
      show s.archive.rules.insert rule.id rule = s.rules.insert rule.id rule
      rw [h.rules]
    ruleIds := fun id r hr => by
      have hget : (s.setRule rule).rules[id]? = if rule.id = id then some rule else s.rules[id]? :=
        get_insert
      rw [hget] at hr
      split at hr
      · next hid => exact Option.some.inj hr ▸ hid
      · exact h.ruleIds id r hr }

theorem live_of_mem_membersOf (h : Mirrors s spare) {rule : RuleId} (hx : x ∈ s.membersOf rule) :
    s.live[x.id]? = some x := by
  obtain ⟨k, hk⟩ := mem_values.mp (List.mem_of_mem_filter hx)
  rwa [h.keyed k x ((h.live k x).mp hk).1]

theorem Mirrors.parted (h : Mirrors s spare) (id : RuleId) : Mirrors (s.partWith id) spare := by
  have hmember : ∀ x ∈ s.membersOf id, s.live[x.id]? = some x := fun x => live_of_mem_membersOf h
  have hstruck :
      Mirrors (s.strike (((s.membersOf id).filter (·.isNotStarted)).map (·.id))) spare := by
    refine h.strike fun k hk x => h.state_of_live ?_
    obtain ⟨y, hy, rfl⟩ := List.mem_map.mp hk
    exact mem_of_get (hmember y (List.mem_of_mem_filter hy))
  have hlifted : Mirrors ((s.strike (((s.membersOf id).filter (·.isNotStarted)).map (·.id))).lift
      (s.markList.filter (·.ruleId == some id))) spare :=
    hstruck.lift fun x hx => mem_values.mp (List.mem_of_mem_filter hx)
  -- A row that is still there is the row of the schedule that loses its rule.
  have hentered := hlifted.enter
    (l := ((s.membersOf id).filter (!·.isNotStarted)).map ({ · with ruleId := none }))
    (fun x hx => ?_) fun x hx y hy => ?_
  · refine
      { hentered with
        rules := ?_
        ruleIds := fun k rule hrule => ?_ }
    · show s.archive.rules.erase id = s.rules.erase id
      rw [h.rules]
    · have hget : (s.partWith id).rules[k]? = if id = k then none else s.rules[k]? := get_erase
      rw [hget] at hrule
      split at hrule
      · cases hrule
      · exact h.ruleIds k rule hrule
  · obtain ⟨y, hy, rfl⟩ := List.mem_map.mp hx
    exact ((h.live y.id y).mp (hmember y (List.mem_of_mem_filter hy))).2
  · obtain ⟨z, hz, rfl⟩ := List.mem_map.mp hx
    have hrow : s.row? z.id = some y := row_of_strike (row_of_lift hy)
    exact h.state_of_live (mem_of_get (hmember z (List.mem_of_mem_filter hz))) hrow

/-! ## Plain calls -/

/-- The store is not loaded again, and nobody hands in a deleted schedule. -/
def Edit.IsPlain : Edit → Prop
  | .load _ => False
  | .add l | .update l => ∀ x ∈ l, x.state ≠ .deleted
  | .changeState _ state => state ≠ .deleted
  | _ => True

instance : (e : Edit) → Decidable e.IsPlain
  | .load _ => inferInstanceAs (Decidable False)
  | .add l | .update l => inferInstanceAs (Decidable (∀ x ∈ l, x.state ≠ .deleted))
  | .changeState _ state => inferInstanceAs (Decidable (state ≠ .deleted))
  | .remove _ _ | .addRule _ | .updateRule _ | .removeRule _ | .addRecorded _ =>
    inferInstanceAs (Decidable True)

/-- The ids that a call gives out have no rows. -/
def Edit.IsUnused (s : Store) : Edit → Prop
  | .add l => ∀ x ∈ (number s.scheduleIds l).1, s.row? x.id = none
  | _ => True

theorem state_of_mem_number {c : IdCounter} (hl : ∀ x ∈ l, x.state ≠ .deleted)
    (hx : x ∈ (number c l).1) : x.state ≠ .deleted := by
  induction l generalizing c with
  | nil => cases hx
  | cons y rest ih =>
    rcases List.mem_cons.mp hx with rfl | hrest
    · exact hl y List.mem_cons_self
    · exact ih (fun z hz => hl z (List.mem_cons_of_mem y hz)) hrest

theorem Mirrors.outcome (h : Mirrors s spare) (hplain : e.IsPlain) (hids : e.IsUnused s)
    (hout : Outcome s e s') : Mirrors s' (spare ++ s.crowdedBy e) := by
  have hsame : s.crowdedBy e = [] → Mirrors s' spare → Mirrors s' (spare ++ s.crowdedBy e) :=
    fun hnone hmirrors => by rwa [hnone, List.append_nil]
  cases hout with
  | nothing hnone => exact hsame hnone h
  | number l => exact hsame rfl (h.numbered l)
  | add l =>
    refine hsame rfl ((h.numbered l).takeOver (fun x hx => state_of_mem_number hplain hx) ?_)
    intro x hx y hy
    exact nomatch (hids x hx).symm.trans hy
  | update l updates hupdates => exact hsame rfl (h.updated hplain hupdates)
  | changeState id state old updates hold hupdates =>
    refine hsame rfl (h.updated (fun x hx => ?_) hupdates)
    obtain rfl := List.mem_singleton.mp hx
    exact hplain
  | remove l force hopen =>
    have hcrowded : s.crowdedBy (.remove l force) = s.crowded (s.buried l force) :=
      if_neg (by rw [hopen]; exact Bool.false_ne_true)
    rw [hcrowded]
    exact h.removed l force
  | addRule rule id => exact hsame rfl (h.setRule _)
  | updateRule rule => exact hsame rfl (h.setRule rule)
  | removeRule id => exact hsame rfl (h.parted id)

/-! ## The ids that are given out -/

theorem next_number (c : IdCounter) (l : List Schedule) :
    (number c l).2.next = c.next + Int64.ofNat l.length := by
  induction l generalizing c with
  | nil => exact (Int64.add_zero c.next).symm
  | cons x rest ih =>
    have hnext : (number c (x :: rest)).2 = (number c.take.2 rest).2 := rfl
    rw [hnext, ih, List.length_cons, Nat.add_comm, Int64.ofNat_add, ← Int64.add_assoc]
    rfl

theorem id_of_mem_number {c : IdCounter} (hx : x ∈ (number c l).1) :
    ∃ k < l.length, x.id = c.next + Int64.ofNat k := by
  induction l generalizing c with
  | nil => cases hx
  | cons y rest ih =>
    rcases List.mem_cons.mp hx with rfl | hrest
    · exact ⟨0, by simp, (Int64.add_zero c.next).symm⟩
    · obtain ⟨k, hk, hid⟩ := ih hrest
      refine ⟨k + 1, by simpa using hk, ?_⟩
      rw [hid, Nat.add_comm, Int64.ofNat_add, ← Int64.add_assoc]
      rfl

theorem ofNat_inj {j k : Nat} (hj : j < Int64.size) (hk : k < Int64.size)
    (h : Int64.ofNat j = Int64.ofNat k) : j = k := by
  have hbits := congrArg (fun i : Int64 => i.toBitVec.toNat) h
  simp only [Int64.toBitVec_ofNat', BitVec.toNat_ofNat] at hbits
  rwa [Nat.mod_eq_of_lt hj, Nat.mod_eq_of_lt hk] at hbits

/-- The rows have ids that were given out, counting up from `first`. -/
structure Issued (first : ScheduleId) (count : Nat) (s : Store) : Prop where
  next : s.scheduleIds.next = first + Int64.ofNat count
  rows : ∀ (id : ScheduleId) (x : Schedule), s.row? id = some x →
    ∃ k < count, id = first + Int64.ofNat k

/-- The schedules that a call is to add. -/
def Edit.added : Edit → List Schedule
  | .add l => l
  | _ => []

/-- Until the ids start over again, none is given out twice. -/
theorem Issued.unused {first : ScheduleId} {count : Nat} (h : Issued first count s)
    (hadded : count + e.added.length ≤ Int64.size) : e.IsUnused s := by
  cases e with
  | add l =>
    intro x hx
    rw [Option.eq_none_iff_forall_ne_some]
    intro y hy
    obtain ⟨j, hj, hold⟩ := h.rows x.id y hy
    obtain ⟨k, hk, hnew⟩ := id_of_mem_number hx
    rw [hold, h.next, Int64.add_assoc, ← Int64.ofNat_add, Int64.add_right_inj] at hnew
    have hlength : (Edit.add l).added.length = l.length := rfl
    have hsame := ofNat_inj (by omega) (by omega) hnew
    omega
  | _ => trivial

theorem row_of_enter (hx : (s.enter l).row? id = some x) :
    (∃ y ∈ l, y.id = id) ∨ s.row? id = some x := by
  rw [row_enter, Option.or_eq_some_iff] at hx
  rcases hx with hcopy | ⟨-, hold⟩
  · exact Or.inl ⟨x, (id_of_copyIn hcopy).1, (id_of_copyIn hcopy).2⟩
  · exact Or.inr hold

/-- The rows of a call are those of before, and those of the ids that it gives out. -/
theorem row_of_outcome (h : Mirrors s spare) (hout : Outcome s e s') (hx : s'.row? id = some x) :
    (∃ y, s.row? id = some y) ∨
      ∃ l, e = .add l ∧ ∃ y ∈ (number s.scheduleIds l).1, y.id = id := by
  have hlive : id ∈ s.live → ∃ y, s.row? id = some y := by
    intro hmem
    obtain ⟨y, hy⟩ := mem_iff_get.mp hmem
    exact ⟨y, ((h.live id y).mp hy).1⟩
  have hupdated : ∀ l updates, s.knownUpdates l = .ok updates →
      (s.takeOver updates).row? id = some x → ∃ y, s.row? id = some y := by
    intro l updates hupdates hx
    rcases row_of_enter (row_of_lift hx) with ⟨y, hy, rfl⟩ | hold
    · rw [eq_filter_of_knownUpdates hupdates] at hy
      exact hlive (Std.TreeMap.contains_iff_mem.mp (List.mem_filter.mp hy).2)
    · exact ⟨x, hold⟩
  cases hout with
  | nothing | number | addRule | updateRule => exact Or.inl ⟨x, hx⟩
  | add l =>
    rcases row_of_enter (row_of_lift hx) with hnew | hold
    · exact Or.inr ⟨l, rfl, hnew⟩
    · exact Or.inl ⟨x, hold⟩
  | update l updates hupdates => exact Or.inl (hupdated l updates hupdates hx)
  | changeState k state old updates hold hupdates => exact Or.inl (hupdated _ updates hupdates hx)
  | remove l force =>
    rw [row_bury, Option.or_eq_some_iff] at hx
    rcases hx with hcopy | ⟨-, hold⟩
    · obtain ⟨hmem, rfl⟩ := id_of_copyIn hcopy
      obtain ⟨y, hy, rfl⟩ := List.mem_map.mp hmem
      have hnamed := live_of_mem_named h (List.mem_of_mem_filter hy)
      exact Or.inl (hlive (mem_of_get hnamed))
    · exact Or.inl ⟨x, row_of_strike hold⟩
  | removeRule k =>
    rcases row_of_enter (s := (s.strike _).lift _) hx with ⟨y, hy, rfl⟩ | hold
    · obtain ⟨z, hz, rfl⟩ := List.mem_map.mp hy
      have hmember := live_of_mem_membersOf h (List.mem_of_mem_filter hz)
      exact Or.inl (hlive (mem_of_get hmember))
    · exact Or.inl ⟨x, row_of_strike (row_of_lift hold)⟩

theorem Issued.outcome {first : ScheduleId} {count : Nat} (h : Issued first count s)
    (hmirrors : Mirrors s spare) (hout : Outcome s e s') :
    ∃ more ≤ e.added.length, Issued first (count + more) s' := by
  have hrow : ∀ id x, s'.row? id = some x → (∃ y, s.row? id = some y) ∨
      ∃ l, e = .add l ∧ ∃ y ∈ (number s.scheduleIds l).1, y.id = id :=
    fun id x hx => row_of_outcome hmirrors hout hx
  have hsame : (∀ l, e ≠ .add l) → s'.scheduleIds = s.scheduleIds →
      ∃ more ≤ e.added.length, Issued first (count + more) s' := by
    intro hadd hids
    refine ⟨0, Nat.zero_le _, hids ▸ h.next, fun id x hx => ?_⟩
    rcases hrow id x hx with ⟨y, hy⟩ | ⟨l, hl, -⟩
    · exact h.rows id y hy
    · exact absurd hl (hadd l)
  have hnext : ∀ l : List Schedule,
      (number s.scheduleIds l).2.next = first + Int64.ofNat (count + l.length) := by
    intro l
    rw [next_number, h.next, Int64.add_assoc, ← Int64.ofNat_add]
  have hearlier : ∀ l id x, s.row? id = some x →
      ∃ k < count + List.length (α := Schedule) l, id = first + Int64.ofNat k := by
    intro l id x hx
    obtain ⟨k, hk, hid⟩ := h.rows id x hx
    exact ⟨k, by omega, hid⟩
  cases hout with
  | nothing => exact ⟨0, Nat.zero_le _, h⟩
  | number l => exact ⟨l.length, Nat.le_refl _, hnext l, hearlier l⟩
  | add l =>
    refine ⟨l.length, Nat.le_refl _, hnext l, fun id x hx => ?_⟩
    rcases hrow id x hx with ⟨y, hy⟩ | ⟨l', hl, y, hy, rfl⟩
    · exact hearlier l id y hy
    · obtain rfl := Edit.add.inj hl
      obtain ⟨k, hk, hid⟩ := id_of_mem_number hy
      refine ⟨count + k, by omega, ?_⟩
      rw [hid, h.next, Int64.add_assoc, ← Int64.ofNat_add]
  | update | changeState | remove | addRule | updateRule | removeRule => exact hsame nofun rfl

end Store

end Timeshift
