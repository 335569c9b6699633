import Timeshift.Proofs.Booking.Added
import Timeshift.Proofs.Conflict.Best

/-!
# Booking against certain schedules

Such a booking gets a priority just above the lowest of the schedules that it is booked against. So
it wins against the lowest of them, and against those just above them that are older. Against all
others it loses.
-/

namespace Timeshift

namespace Booking

variable {overrides : List Schedule} {o : Schedule}

theorem next_toInt {p : Priority} (h : p < Priority.highest) : p.next.toInt = p.toInt + 1 := by
  have hone : (1 : Int64).toInt = 1 := by decide
  have hhighest : Priority.highest.toInt = 9223372036854775807 := by decide
  have hlo := p.le_toInt
  rw [Int64.lt_iff_toInt_lt, hhighest] at h
  rw [Priority.next, toInt_boundedAdd, hone]
  omega

/-- The priority of such a booking is one more than the lowest one of the list. -/
theorem exists_lowest (hsome : overrides ≠ []) (hroom : ∀ o ∈ overrides, o.priority < .highest) :
    ∃ low ∈ overrides, (∀ o ∈ overrides, low.priority ≤ o.priority) ∧
      (overridingPriority overrides).toInt = low.priority.toInt + 1 := by
  cases hmin : (overrides.map (·.priority)).min? with
  | none =>
    rw [List.min?_eq_none_iff, List.map_eq_nil_iff] at hmin
    exact absurd hmin hsome
  | some least =>
    obtain ⟨hmem, hle⟩ := List.min?_eq_some_iff.mp hmin
    obtain ⟨low, hlow, rfl⟩ := List.mem_map.mp hmem
    refine ⟨low, hlow, fun o ho => hle _ (List.mem_map_of_mem ho), ?_⟩
    rw [overridingPriority, hmin]
    exact next_toInt (hroom low hlow)

/-- `o` has the lowest priority of the list, or it has that of the booking and is older. -/
def IsWeak (overrides : List Schedule) (added o : Schedule) : Prop :=
  (∀ x ∈ overrides, o.priority ≤ x.priority) ∨ o.priority = added.priority ∧ o.id < added.id

theorem ranksAbove_iff_isWeak {added : Schedule} (hsome : overrides ≠ [])
    (hroom : ∀ o ∈ overrides, o.priority < .highest)
    (hadded : added.priority = overridingPriority overrides) (ho : o ∈ overrides) :
    added.RanksAbove o ↔ IsWeak overrides added o := by
  obtain ⟨low, hlow, hleast, hnext⟩ := exists_lowest hsome hroom
  rw [← hadded] at hnext
  have hlo := Int64.le_iff_toInt_le.mp (hleast o ho)
  -- Nothing lies between the lowest priority and that of the booking.
  have hbelow : o.priority < added.priority ↔ ∀ x ∈ overrides, o.priority ≤ x.priority := by
    rw [Int64.lt_iff_toInt_lt]
    constructor
    · intro hlt x hx
      have hx := Int64.le_iff_toInt_le.mp (hleast x hx)
      rw [Int64.le_iff_toInt_le]
      omega
    · intro hall
      have hle := Int64.le_iff_toInt_le.mp (hall low hlow)
      omega
  rw [Schedule.RanksAbove, IsWeak, hbelow]

/-- A program is booked against some schedules, and none of them has the highest priority. The
booking ranks above those of them that are weak, and above no others. Of two that clash and have one
tuner between them, just the other schedule is listed if it is weak, and only then. -/
theorem overriding_wins_iff (catalog : Catalog) (p : Program) (overrides : List Schedule)
    {s s' : Store} {added : Schedule} (hsome : overrides ≠ [])
    (hroom : ∀ o ∈ overrides, o.priority < .highest)
    (hrun : s.run (addOverriding catalog p overrides) = (.ok added, s')) :
    s'.schedule? added.id = some added ∧
      (∀ o ∈ overrides, added.RanksAbove o ↔ IsWeak overrides added o) ∧
      ∀ o ∈ overrides, Conflict.Clash o added → o.id ≠ Conflict.reservedId →
        (Conflict.among 1 [o, added] = [o] ↔ IsWeak overrides added o) := by
  obtain ⟨input, hbooks⟩ := books_of_addOverriding hrun
  have hpriority : added.priority = overridingPriority overrides := by rw [hbooks.numbered]
  have hranks : ∀ o ∈ overrides, added.RanksAbove o ↔ IsWeak overrides added o :=
    fun o ho => ranksAbove_iff_isWeak hsome hroom hpriority ho
  refine ⟨hbooks.stored, hranks, fun o ho hclash hlisted => ?_⟩
  rw [Conflict.among_pair_iff hclash hlisted]
  exact hranks o ho

/-! ### A weak schedule and a strong one -/

/-- Channel 3 comes in over one tuner. -/
def oneTuner : Catalog :=
  (({} : Catalog).putInput ⟨"tuner", 1, true⟩).putChannel ⟨3, "tuner", "Three", none⟩

/-- A program on channel 3 that runs from 20 to 50. -/
def longProgram : Program :=
  { (default : Program) with id := 7, channelId := 3, starts := 20, ends := 50 }

/-- The program overlaps both of these. -/
def weakAndStrong : List Schedule := [.timed 1 1 20 30 10, .timed 2 2 40 50 50]

def storeOfBoth : Store := [.load 0, .add weakAndStrong].foldl Store.edit {}

def againstBoth : Except Fault Schedule × Store :=
  storeOfBoth.run (addOverriding oneTuner longProgram weakAndStrong)

/-- What is booked has one more than the lower priority. -/
def betweenBoth : Schedule :=
  { Schedule.ofProgram "tuner" longProgram with id := 3, priority := 11 }

theorem overriding_wins_iff_weak :
    weakAndStrong ≠ [] ∧ (∀ o ∈ weakAndStrong, o.priority < .highest) ∧
      againstBoth = (.ok betweenBoth, againstBoth.2) ∧
      againstBoth.2.schedule? 3 = some betweenBoth ∧
      betweenBoth.RanksAbove (.timed 1 1 20 30 10) ∧
      Conflict.among 1 [.timed 1 1 20 30 10, betweenBoth] = [.timed 1 1 20 30 10] := by
  have hrun : againstBoth = (.ok betweenBoth, againstBoth.2) := rfl
  obtain ⟨hstored, hranks, hwins⟩ :=
    overriding_wins_iff oneTuner longProgram weakAndStrong (by decide) (by decide) hrun
  have hweak : IsWeak weakAndStrong betweenBoth (.timed 1 1 20 30 10) := Or.inl (by decide)
  refine ⟨by decide, by decide, hrun, hstored, (hranks _ (by decide)).mpr hweak, ?_⟩
  exact (hwins _ (by decide) ⟨by decide, by decide, by decide, by decide⟩ (by decide)).mpr hweak

/-- The booking is to win against both, but beside the strong one just the booking is listed. So it
takes the tuner from the weak one and is not recorded itself. -/
theorem not_overriding_wins_strong :
    weakAndStrong ≠ [] ∧ (∀ o ∈ weakAndStrong, o.priority < .highest) ∧
      againstBoth = (.ok betweenBoth, againstBoth.2) ∧
      .timed 2 2 40 50 50 ∈ weakAndStrong ∧ Conflict.Clash (.timed 2 2 40 50 50) betweenBoth ∧
      ¬ betweenBoth.RanksAbove (.timed 2 2 40 50 50) ∧
      Conflict.among 1 [.timed 2 2 40 50 50, betweenBoth] = [betweenBoth] ∧
      (Conflict.among 1 againstBoth.2.schedules).map (·.id) = [1, 3] :=
  ⟨by decide, by decide, rfl, by decide, ⟨by decide, by decide, by decide, by decide⟩, by decide,
    by decide, by decide +kernel⟩

end Booking

end Timeshift
