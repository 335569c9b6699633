import Timeshift.Text.Blank

/-!
# Whole numbers in text

A numeral is an optional sign and at least one of the digits 0 to 9. A minus sign belongs to
a numeral only where the range has negative numbers. The digits are read from the left, and
the first thing that is wrong decides the complaint: a character that is no digit, or a number
that has left the range.
-/

namespace Timeshift.Text

/-- The whole numbers from `least` to `most` that a numeral may stand for. -/
structure NumeralRange where
  least : Int
  most : Int

def NumeralRange.signed : NumeralRange := ⟨Int64.minValue.toInt, Int64.maxValue.toInt⟩

def NumeralRange.unsigned : NumeralRange := ⟨0, UInt64.size - 1⟩

/-- Why a text is no numeral of a range. -/
inductive NumeralFault where
  | empty
  | notADigit
  | tooLarge
  | tooSmall
  deriving DecidableEq, Repr

def NumeralFault.message : NumeralFault → String
  | .empty => "cannot parse integer from empty string"
  | .notADigit => "invalid digit found in string"
  | .tooLarge => "number too large to fit in target type"
  | .tooSmall => "number too small to fit in target type"

def digit? (c : Char) : Option Nat :=
  if '0' ≤ c && c ≤ '9' then some (c.toNat - '0'.toNat) else none

/-- Reads on from `value`, where each digit counts `sign`. -/
def readDigits (range : NumeralRange) (sign : Int) : Int → List Char → Except NumeralFault Int
  | value, [] => .ok value
  | value, c :: cs =>
    match digit? c with
    | none => .error .notADigit
    | some d =>
      let value := value * 10 + sign * d
      if range.most < value then .error .tooLarge
      else if value < range.least then .error .tooSmall
      else readDigits range sign value cs

/-- The number that a text without blanks stands for. -/
def readNumeral (range : NumeralRange) : List Char → Except NumeralFault Int
  | [] => .error .empty
  | ['+'] | ['-'] => .error .notADigit
  | '+' :: cs => readDigits range 1 0 cs
  | '-' :: cs =>
    if range.least < 0 then readDigits range (-1) 0 cs else .error .notADigit
  | cs => readDigits range 1 0 cs

/-- The number that a text stands for, with blanks allowed around it. -/
def numeral (range : NumeralRange) (text : String) : Except NumeralFault Int :=
  readNumeral range (trimBlank text.toList)

theorem readDigits_range {range : NumeralRange} {sign start n : Int} {cs : List Char}
    (h : readDigits range sign start cs = .ok n) (lo : range.least ≤ start)
    (hi : start ≤ range.most) : range.least ≤ n ∧ n ≤ range.most := by
  induction cs generalizing start with
  | nil =>
    simp only [readDigits, Except.ok.injEq] at h
    exact h ▸ ⟨lo, hi⟩
  | cons c cs ih =>
    simp only [readDigits] at h
    split at h
    · cases h
    · split at h
      · cases h
      · split at h
        · cases h
        · exact ih h (by omega) (by omega)

end Timeshift.Text
