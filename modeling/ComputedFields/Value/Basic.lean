import ComputedFields.Calendar.Iso
import ComputedFields.Decimal.Text
import ComputedFields.Value.ErrorKind

/-! Values of fields and formulas. An error is a value too: it is stored as the result of a
field and flows on into the formulas that read it. Two values are the same (`Value.same`) when
they differ at most in how their numbers are written. -/

namespace ComputedFields

/-- A typed value. -/
inductive Value where
  | null
  | boolean (value : Bool)
  | number (value : Decimal)
  | text (value : String)
  | date (value : Calendar.DateTime)
  | duration (value : Calendar.Duration)
  /-- The values that a lookup gathers from linked records. -/
  | list (items : List Value)
  | error (kind : ErrorKind)

namespace Value

instance : Inhabited Value := ⟨.null⟩

/-! ## Equality -/

mutual

/-- Whether two values are equal, digit for digit. -/
def beq : Value → Value → Bool
  | .null, .null => true
  | .boolean a, .boolean b => a == b
  | .number a, .number b => a == b
  | .text a, .text b => a == b
  | .date a, .date b => a == b
  | .duration a, .duration b => a == b
  | .list as, .list bs => beqAll as bs
  | .error a, .error b => a == b
  | _, _ => false

/-- Whether two lists of values are equal item by item. -/
def beqAll : List Value → List Value → Bool
  | [], [] => true
  | a :: as, b :: bs => beq a b && beqAll as bs
  | _, _ => false

end

mutual

theorem beq_iff : ∀ a b : Value, beq a b = true ↔ a = b
  | .null, b => by cases b <;> simp [beq]
  | .boolean _, b => by cases b <;> simp [beq]
  | .number _, b => by cases b <;> simp [beq]
  | .text _, b => by cases b <;> simp [beq]
  | .date _, b => by cases b <;> simp [beq]
  | .duration _, b => by cases b <;> simp [beq]
  | .error _, b => by cases b <;> simp [beq]
  | .list as, b => by
    cases b with
    | list bs => simp [beq, beqAll_iff as bs]
    | _ => simp [beq]

theorem beqAll_iff : ∀ as bs : List Value, beqAll as bs = true ↔ as = bs
  | [], bs => by cases bs <;> simp [beqAll]
  | a :: as, bs => by
    cases bs with
    | nil => simp [beqAll]
    | cons b bs => simp [beqAll, beq_iff a b, beqAll_iff as bs]

end

instance : DecidableEq Value := fun a b => decidable_of_iff (beq a b = true) (beq_iff a b)

mutual

/-- The value with every number in its shortest form. -/
def normalize : Value → Value
  | .number n => .number n.normalize
  | .list items => .list (normalizeAll items)
  | value => value

/-- The values with every number in its shortest form. -/
def normalizeAll : List Value → List Value
  | [] => []
  | value :: values => normalize value :: normalizeAll values

end

theorem normalizeAll_eq_map (values : List Value) : normalizeAll values = values.map normalize := by
  induction values with
  | nil => rfl
  | cons value values ih => simp [normalizeAll, ih]

/-- Whether two values are the same but for the way their numbers are written. -/
def same (a b : Value) : Bool := a.normalize == b.normalize

/-! ## Observations -/

/-- The kind of an error value. -/
def error? : Value → Option ErrorKind
  | .error kind => some kind
  | _ => none

def isError (value : Value) : Bool := value.error?.isSome

def isNull : Value → Bool
  | .null => true
  | _ => false

/-- Whether the value is null, an empty text or an empty list. -/
def isBlank : Value → Bool
  | .null => true
  | .text s => s.isEmpty
  | .list items => items.isEmpty
  | _ => false

/-! ## Construction -/

/-- The number `n`, or the overflow error when no number holds it. -/
def ofInt (n : Int) : Value :=
  match Decimal.ofInt? n with
  | some d => .number d
  | none => .error .numericOverflow

/-- The value that an evaluation ends in: an error that it raises is its value. -/
def ofResult : Except ErrorKind Value → Value
  | .ok value => value
  | .error kind => .error kind

/-! ## The written form -/

mutual

/-- The text of a value, which concatenation and the text functions use. -/
def toText : Value → String
  | .null => ""
  | .boolean value => if value then "true" else "false"
  | .number value => value.normalize.toText
  | .text value => value
  | .date value => value.toText
  | .duration value => value.toText
  | .list items => joinTexts items
  | .error kind => kind.code

/-- The texts of the items of a list, with a comma and a space between. -/
def joinTexts : List Value → String
  | [] => ""
  | [value] => toText value
  | value :: next :: rest => toText value ++ ", " ++ joinTexts (next :: rest)

end

end Value

end ComputedFields
