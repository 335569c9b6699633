import Timeshift.Time.Instant

/-!
# Written forms

Data as other programs read and write it. A record is written with the names of its fields, or
as a list of them in order. Only an optional field may be missing, and only from a record with
names. Fields with other names are ignored.
-/

namespace Timeshift.Wire

inductive Value where
  | null
  | flag (b : Bool)
  | whole (n : Int)
  /-- A number that is written with a fraction, even if it is zero. -/
  | fraction
  | text (s : String)
  | list (items : List Value)
  | record (fields : List (String × Value))
  deriving Inhabited

/-- How the members of a type are written. -/
structure Form (α : Type) where
  write : α → Value
  read? : Value → Option α

namespace Form

variable {α : Type}

def signed : Form Int64 where
  write n := .whole n.toInt
  read? v :=
    match v with
    | .whole n => if Int64.minValue.toInt ≤ n ∧ n ≤ Int64.maxValue.toInt then some (.ofInt n) else none
    | _ => none

def unsigned : Form Nat where
  write n := .whole n
  read? v :=
    match v with
    | .whole n => if 0 ≤ n ∧ n < UInt64.size then some n.toNat else none
    | _ => none

def text : Form String where
  write := .text
  read? v :=
    match v with
    | .text s => some s
    | _ => none

def flag : Form Bool where
  write := .flag
  read? v :=
    match v with
    | .flag b => some b
    | _ => none

def optional (f : Form α) : Form (Option α) where
  write a := a.elim .null f.write
  read? v :=
    match v with
    | .null => some none
    | v => (f.read? v).map some

def listOf (f : Form α) : Form (List α) where
  write l := .list (l.map f.write)
  read? v :=
    match v with
    | .list items => items.mapM f.read?
    | _ => none

/-- One of a few things that have names. The name may also stand as the only field of a record,
with nothing in it. -/
def named (name : α → String) (ofName? : String → Option α) : Form α where
  write a := .text (name a)
  read? v :=
    match v with
    | .text s => ofName? s
    | .record [(s, .null)] => ofName? s
    | _ => none

def checked {β : Type} (f : Form α) (ofAny? : α → Option β) (toAny : β → α) : Form β where
  write b := f.write (toAny b)
  read? v := (f.read? v).bind ofAny?

theorem read?_write_signed (n : Int64) : signed.read? (signed.write n) = some n := by
  have hrange : Int64.minValue.toInt ≤ n.toInt ∧ n.toInt ≤ Int64.maxValue.toInt :=
    ⟨n.minValue_le_toInt, n.toInt_le⟩
  simp only [signed, if_pos hrange, Int64.ofInt_toInt]

theorem read?_write_optional {f : Form α} (h : ∀ a, f.read? (f.write a) = some a)
    (h' : ∀ a, f.write a ≠ .null) (a : Option α) :
    f.optional.read? (f.optional.write a) = some a := by
  cases a with
  | none => rfl
  | some a =>
    have := h' a
    simp [optional, h]

end Form

/-! ## Records -/

structure Field where
  name : String
  isOptional : Bool := false

/-- How records are written. The values stand in the order of the fields. -/
structure RecordForm (α : Type) where
  fields : List Field
  write : α → List Value
  build? : List Value → Option α

namespace RecordForm

variable {α : Type}

/-- The value that a written record has for a field. -/
def lookup (record : List (String × Value)) (name : String) : Option Value :=
  (record.find? (·.1 == name)).map (·.2)

/-- The value of a field. An optional one may be missing. -/
def resolve (record : List (String × Value)) (f : Field) : Option Value :=
  lookup record f.name <|> if f.isOptional then some .null else none

/-- A form for records, which have to be complete. -/
def form (f : RecordForm α) : Form α where
  write a := .record ((f.fields.map (·.name)).zip (f.write a))
  read? v :=
    match v with
    | .record r => (f.fields.mapM (resolve r)).bind f.build?
    | .list items => if items.length = f.fields.length then f.build? items else none
    | _ => none

/-- Reads a record that need not be complete. What is missing is taken from `base`. -/
def readOver? (f : RecordForm α) (base : α) (v : Value) : Option α :=
  let old := f.write base
  match v with
  | .record r =>
    f.build? ((f.fields.zip old).map fun (field, value) => (lookup r field.name).getD value)
  | .list items =>
    if items.length ≤ f.fields.length then f.build? (items ++ old.drop items.length) else none
  | _ => none

end RecordForm

end Timeshift.Wire
