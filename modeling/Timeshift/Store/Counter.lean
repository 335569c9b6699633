import Timeshift.Time.Instant

/-!
# Ids

Ids count up from 1. After the largest 64-bit number the count goes on at the least one.
-/

namespace Timeshift

/-- The next id that will be given out. -/
structure IdCounter where
  next : Int64 := 1
  deriving DecidableEq, Repr, Inhabited

namespace IdCounter

/-- Makes all further ids larger than `seen`, up to the largest 64-bit number. -/
def skip (c : IdCounter) (seen : Int64) : IdCounter := ⟨max c.next (boundedAdd seen 1)⟩

def take (c : IdCounter) : Int64 × IdCounter := (c.next, ⟨c.next + 1⟩)

/-- Makes all further ids larger than every one in `seen`. -/
def skipAll (c : IdCounter) (seen : List Int64) : IdCounter := seen.foldl skip c

end IdCounter

end Timeshift
