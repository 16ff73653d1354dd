import ComputedFields.Calendar.DateTime
import ComputedFields.Formula.Operator
import ComputedFields.Proofs.Text.Bytes

/-!
# Steps that can fault

Whole numbers are held in words of a fixed size, decimals in a mantissa of a fixed size, arguments
in an array, and texts in bytes. An operation on them that is not checked beforehand faults outside
its domain. A guarded computation makes every such fault visible, apart from the errors that are
values of formulas.
-/

namespace ComputedFields

/-- What an operation runs into outside its domain. -/
inductive Fault where
  /-- An argument past the last one. -/
  | argument
  /-- A whole number that its word does not hold. -/
  | word
  /-- A decimal that no mantissa holds, or a span of time past the longest. -/
  | capacity
  /-- A division by zero. -/
  | divisor
  /-- A position past the end of a text or inside one of its characters. -/
  | boundary
deriving DecidableEq, Repr

/-- A computation that may fault, and otherwise ends in a result or an error. -/
abbrev Guarded := ExceptT ErrorKind (Except Fault)

namespace Guarded

variable {α β : Type}

/-- A result that an operation has only in its domain. -/
def orFault (fault : Fault) : Option α → Except Fault α
  | some result => .ok result
  | none => .error fault

/-! ## Operations with a domain -/

/-- The argument with an index. -/
def argument (args : List Value) (index : Nat) : Except Fault Value :=
  orFault .argument args[index]?

/-- The first `count` arguments. -/
def leading (args : List Value) (count : Nat) : Except Fault (List Value) :=
  if count ≤ args.length then .ok (args.take count) else .error .argument

/-- The difference of two words without a sign. -/
def difference (a b : Nat) : Except Fault Nat :=
  if b ≤ a then .ok (a - b) else .error .word

/-- The sum of two words of 64 bits without a sign. -/
def wordSum (a b : Nat) : Except Fault Nat :=
  if a + b < 2 ^ 64 then .ok (a + b) else .error .word

/-- A whole number in a word of this many bits without a sign. -/
def unsigned (bits : Nat) (n : Nat) : Except Fault Nat :=
  if n < 2 ^ bits then .ok n else .error .word

/-- A whole number in a word of this many bits with a sign. -/
def signed (bits : Nat) (n : Int) : Except Fault Int :=
  if -2 ^ (bits - 1) ≤ n ∧ n < 2 ^ (bits - 1) then .ok n else .error .word

/-- The quotient of two words of 64 bits, toward zero. -/
def wordQuotient (a b : Int) : Except Fault Int :=
  if b = 0 then .error .divisor else signed 64 (a.tdiv b)

/-- The characters before a position. Sums of positions need no check of their own: a word holds
every position of a text. -/
def sliceTo (cs : List Char) (position : Nat) : Except Fault (List Char) :=
  orFault .boundary ((Text.splitAtByte? position cs).map Prod.fst)

/-- The characters from a position on. -/
def sliceFrom (cs : List Char) (position : Nat) : Except Fault (List Char) :=
  orFault .boundary ((Text.splitAtByte? position cs).map Prod.snd)

/-- The sum of two decimals. -/
def decimalSum (a b : Decimal) : Except Fault Decimal := orFault .capacity (a.add? b)

/-- The quotient of two decimals. -/
def decimalQuotient (a b : Decimal) : Except Fault Decimal :=
  if b.isZero then .error .divisor else orFault .capacity (a.div? b)

/-- The decimal with the other sign. -/
def decimalNegation (d : Decimal) : Except Fault Decimal :=
  if d.mantissa < Decimal.capacity then .ok d.neg else .error .capacity

/-- The span in the other direction. -/
def spanNegation (d : Calendar.Duration) : Except Fault Calendar.Duration :=
  orFault .capacity (Calendar.Duration.ofNanos? (-d.nanos))

/-! ## Computations without a fault -/

/-- The guarded computation does not fault, and ends as the plain one. -/
def Faultless (x : Guarded α) (y : Except ErrorKind α) : Prop := x.run = .ok y

/-- A computation without operations that can fault. -/
theorem faultless_lift (y : Except ErrorKind α) : Faultless (liftM y) y := rfl

theorem faultless_pure (a : α) : Faultless (pure a) (.ok a) := rfl

theorem Faultless.bind {x : Guarded α} {y : Except ErrorKind α} {f : α → Guarded β}
    {g : α → Except ErrorKind β} (hx : Faultless x y)
    (hf : ∀ a, y = .ok a → Faultless (f a) (g a)) : Faultless (x >>= f) (y >>= g) := by
  rw [Faultless] at hx
  rw [Faultless, ExceptT.run_bind, hx]
  cases y with
  | error kind => rfl
  | ok a => exact hf a rfl

theorem Faultless.map {x : Guarded α} {y : Except ErrorKind α} (hx : Faultless x y) (f : α → β) :
    Faultless (f <$> x) (y.map f) := by
  rw [Faultless] at hx
  rw [Faultless, ExceptT.run_map, hx]
  rfl

/-- A check that is passed. -/
theorem Faultless.passed {x : Except ErrorKind α} {a : α} {f : α → Guarded β}
    {y : Except ErrorKind β} (hx : x = .ok a) (hf : Faultless (f a) y) :
    Faultless (liftM x >>= f) y := by
  rw [hx]
  exact hf

/-- A check that is not. -/
theorem Faultless.failed {x : Except ErrorKind α} {kind : ErrorKind} {f : α → Guarded β}
    (hx : x = .error kind) : Faultless (liftM x >>= f) (.error kind) := by
  rw [hx]
  rfl

/-- An operation inside its domain. -/
theorem Faultless.step {x : Except Fault α} {a : α} {f : α → Guarded β} {y : Except ErrorKind β}
    (hx : x = .ok a) (hf : Faultless (f a) y) : Faultless (liftM x >>= f) y := by
  rw [hx]
  exact hf

/-! ## Operations inside their domain -/

theorem signed_of_bounds {bits : Nat} {whole : Int} (hge : -2 ^ (bits - 1) ≤ whole)
    (hlt : whole < 2 ^ (bits - 1)) : signed bits whole = .ok whole :=
  if_pos ⟨hge, hlt⟩

/-- A whole number is passed on when a word of 64 bits holds it. -/
theorem checkInteger_cases (n : Int) :
    (Value.checkInteger n = .ok n ∧ -2 ^ 63 ≤ n ∧ n < 2 ^ 63) ∨
      Value.checkInteger n = .error .numericOverflow := by
  rw [Value.checkInteger, Value.minInteger, Value.maxInteger]
  split
  · exact .inl ⟨rfl, by omega, by omega⟩
  · exact .inr rfl

theorem signed_of_checkInteger {n whole : Int} (h : Value.checkInteger n = .ok whole) :
    signed 64 whole = .ok whole := by
  rcases checkInteger_cases n with ⟨hpassed, hge, hlt⟩ | hfailed
  · cases hpassed.symm.trans h
    exact signed_of_bounds hge hlt
  · cases hfailed.symm.trans h

theorem sliceTo_append (before after : List Char) :
    sliceTo (before ++ after) (Text.byteLength before) = .ok before := by
  rw [sliceTo, Text.splitAtByte?_append]
  rfl

theorem sliceFrom_append (before after : List Char) :
    sliceFrom (before ++ after) (Text.byteLength before) = .ok after := by
  rw [sliceFrom, Text.splitAtByte?_append]
  rfl

theorem sliceTo_take (cs : List Char) (count : Nat) :
    sliceTo cs (Text.byteLength (cs.take count)) = .ok (cs.take count) := by
  have hslice := sliceTo_append (cs.take count) (cs.drop count)
  rwa [List.take_append_drop] at hslice

theorem sliceFrom_take (cs : List Char) (count : Nat) :
    sliceFrom cs (Text.byteLength (cs.take count)) = .ok (cs.drop count) := by
  have hslice := sliceFrom_append (cs.take count) (cs.drop count)
  rwa [List.take_append_drop] at hslice

example : sliceFrom ['a', 'é', 'b'] 2 = .error .boundary := rfl

end Guarded

end ComputedFields
