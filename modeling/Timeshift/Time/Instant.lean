/-!
# Instants and bounded arithmetic

An instant is a signed 64-bit count of milliseconds since 1970, UTC. A sum, difference or
product that leaves the 64-bit range stops at the nearer end of it.
-/

namespace Timeshift

/-- Milliseconds since 1970-01-01T00:00:00Z. -/
abbrev Instant := Int64

def Instant.first : Instant := Int64.minValue

def Instant.last : Instant := Int64.maxValue

/-! ## Stopping at the ends of the range -/

/-- The 64-bit number nearest to `n`. -/
def nearest (n : Int) : Int64 :=
  if n < Int64.minValue.toInt then Int64.minValue
  else if Int64.maxValue.toInt < n then Int64.maxValue
  else Int64.ofInt n

/-- The sum, kept inside 64 bits. -/
def boundedAdd (a b : Int64) : Int64 := nearest (a.toInt + b.toInt)

/-- The difference, kept inside 64 bits. -/
def boundedSub (a b : Int64) : Int64 := nearest (a.toInt - b.toInt)

/-- The product, kept inside 64 bits. -/
def boundedMul (a b : Int64) : Int64 := nearest (a.toInt * b.toInt)

theorem toInt_nearest (n : Int) :
    (nearest n).toInt = max (-9223372036854775808) (min 9223372036854775807 n) := by
  unfold nearest
  have hlo : Int64.minValue.toInt = -9223372036854775808 := by decide
  have hhi : Int64.maxValue.toInt = 9223372036854775807 := by decide
  split
  · omega
  · split
    · omega
    · rw [Int64.toInt_ofInt_of_le] <;> omega

theorem nearest_toInt (a : Int64) : nearest a.toInt = a := by
  apply Int64.toInt.inj
  rw [toInt_nearest]
  have := a.le_toInt
  have := a.toInt_lt
  omega

theorem toInt_boundedAdd (a b : Int64) :
    (boundedAdd a b).toInt =
      max (-9223372036854775808) (min 9223372036854775807 (a.toInt + b.toInt)) :=
  toInt_nearest _

theorem toInt_boundedSub (a b : Int64) :
    (boundedSub a b).toInt =
      max (-9223372036854775808) (min 9223372036854775807 (a.toInt - b.toInt)) :=
  toInt_nearest _

theorem toInt_boundedMul (a b : Int64) :
    (boundedMul a b).toInt =
      max (-9223372036854775808) (min 9223372036854775807 (a.toInt * b.toInt)) :=
  toInt_nearest _

end Timeshift
