import LetLang.Failure

/-!
# Binary operations on values

* `Operator.family`: five operators are arithmetic, two are Boolean, and no other is supported.
* `Arithmetic.apply`: operands are promoted to doubles. Sums, differences and products of integers
  are computed on the doubles and truncated back; quotients and remainders are computed on the
  integers themselves, the quotient on their magnitudes.
* `Arithmetic.quotient_eq_tdiv`, `Arithmetic.remainder_eq_tmod`: these are truncated division.
* `Operator.apply`: the operation, with one report in the log if it is refused.
-/

namespace LetLang

/-! ## Families of operators -/

inductive Arithmetic where
  | add
  | sub
  | mult
  | div
  | mod
  deriving DecidableEq, Repr

def Arithmetic.kind : Arithmetic → TokenKind
  | .add => .add
  | .sub => .sub
  | .mult => .mult
  | .div => .div
  | .mod => .mod

inductive Logical where
  | and
  | or
  deriving DecidableEq, Repr

def Logical.kind : Logical → TokenKind
  | .and => .and
  | .or => .or

inductive OperatorFamily where
  | arithmetic (operation : Arithmetic)
  | logical (operation : Logical)
  | unsupported
  deriving DecidableEq, Repr

def Operator.family : Operator → OperatorFamily
  | .known .add => .arithmetic .add
  | .known .sub => .arithmetic .sub
  | .known .mult => .arithmetic .mult
  | .known .div => .arithmetic .div
  | .known .mod => .arithmetic .mod
  | .known .and => .logical .and
  | .known .or => .logical .or
  | _ => .unsupported

/-! ## Arithmetic -/

def Value.toBinary64? : Value → Option Binary64
  | .integer n => Binary64.ofInt? n
  | .double x => some x
  | _ => none

def Value.integers? : Value → Value → Option (Int × Int)
  | .integer a, .integer b => some (a, b)
  | _, _ => none

namespace Arithmetic

/-- The value of a double result: the result itself, or its integer part for integer operands. -/
def narrow (operation : Arithmetic) (toInteger : Bool) (x : Binary64) (line : Option Int)
    (log : Log) : Outcome Value :=
  if toInteger then
    match x.truncate with
    | .whole n => (.ok (.integer n), log)
    | .infinite => Outcome.refuse (.resultRange operation.kind) line log
    | .undefined => (.error (.breakdown .undefinedInteger), log)
  else
    (.ok (.double x), log)

/-- The greatest integer that is not above `a / b`. -/
def floorQuotient (a b : Int) : Except Breakdown Int :=
  if b = 0 then .error .zeroQuotient else .ok (a.fdiv b)

/-- The quotient of the magnitudes, negated if the operands lie on different sides of zero. -/
def quotient (a b : Int) : Except Breakdown Int :=
  (floorQuotient a.natAbs b.natAbs).map fun q => if a < 0 ↔ b < 0 then q else -q

/-- What `b` times the quotient leaves of `a`. -/
def remainder (a b : Int) : Except Breakdown Int :=
  (quotient a b).map fun q => a - b * q

/-- An integer that was computed without a report, or the breakdown in its place. -/
def settle (computed : Except Breakdown Int) (log : Log) : Outcome Value :=
  match computed with
  | .ok n => (.ok (.integer n), log)
  | .error breakdown => (.error (.breakdown breakdown), log)

/-- Combines two numbers whose doubles are known. A zero divisor is found before a double operand in
`div`, and after it in `mod`. -/
def combine (operation : Arithmetic) (lhs rhs : Value) (x y : Binary64) (line : Option Int)
    (log : Log) : Outcome Value :=
  let integers := Value.integers? lhs rhs
  match operation with
  | .add => narrow .add integers.isSome (x.add y) line log
  | .sub => narrow .sub integers.isSome (x.sub y) line log
  | .mult => narrow .mult integers.isSome (x.mul y) line log
  | .div =>
      if y.isZero then Outcome.refuse .divisionByZero line log
      else
        match integers with
        | some (a, b) => settle (quotient a b) log
        | none => Outcome.refuse (.operandKinds .div .integer lhs.kind rhs.kind) line log
  | .mod =>
      match integers with
      | some (a, b) =>
          if b = 0 then Outcome.refuse .modByZero line log
          else settle (remainder a b) log
      | none => Outcome.refuse (.operandKinds .mod .integer lhs.kind rhs.kind) line log

def apply (operation : Arithmetic) (lhs rhs : Value) (line : Option Int) (log : Log) :
    Outcome Value :=
  if lhs.isNumeric && rhs.isNumeric then
    match lhs.toBinary64?, rhs.toBinary64? with
    | some x, some y => operation.combine lhs rhs x y line log
    | _, _ => Outcome.refuse (.operandRange operation.kind) line log
  else
    Outcome.refuse (.operandKinds operation.kind .numeric lhs.kind rhs.kind) line log

/-! ## Truncated division

The sign is put back after a division of magnitudes, so the fraction is dropped on both sides of
zero, and the remainder goes with the dividend. -/

/-- Of magnitudes, the floor of the quotient is the quotient without its fraction. -/
theorem floorQuotient_natAbs {a b : Int} (hb : b ≠ 0) :
    floorQuotient a.natAbs b.natAbs = .ok ((a.natAbs : Int).tdiv b.natAbs) := by
  have hne : (b.natAbs : Int) ≠ 0 := Int.natCast_ne_zero.2 (Int.natAbs_ne_zero.2 hb)
  rw [floorQuotient, if_neg hne,
    Int.fdiv_eq_tdiv_of_nonneg (Int.natCast_nonneg _) (Int.natCast_nonneg _)]

/-- A truncated quotient is that of the magnitudes with the sign of the two operands together. -/
theorem signed_tdiv_natAbs (a b : Int) :
    (if a < 0 ↔ b < 0 then (a.natAbs : Int).tdiv b.natAbs
      else -(a.natAbs : Int).tdiv b.natAbs) = a.tdiv b := by
  rcases Int.lt_or_le a 0 with ha | ha <;> rcases Int.lt_or_le b 0 with hb | hb
  · rw [if_pos (iff_of_true ha hb), Int.ofNat_natAbs_of_nonpos (Int.le_of_lt ha),
      Int.ofNat_natAbs_of_nonpos (Int.le_of_lt hb), Int.neg_tdiv_neg]
  · rw [if_neg (by omega), Int.ofNat_natAbs_of_nonpos (Int.le_of_lt ha),
      Int.natAbs_of_nonneg hb, Int.neg_tdiv, Int.neg_neg]
  · rw [if_neg (by omega), Int.natAbs_of_nonneg ha,
      Int.ofNat_natAbs_of_nonpos (Int.le_of_lt hb), Int.tdiv_neg, Int.neg_neg]
  · rw [if_pos (by omega), Int.natAbs_of_nonneg ha, Int.natAbs_of_nonneg hb]

theorem quotient_zero (a : Int) : quotient a 0 = .error .zeroQuotient := rfl

/-- The quotient is the exact one with its fraction dropped. -/
theorem quotient_eq_tdiv (a : Int) {b : Int} (hb : b ≠ 0) : quotient a b = .ok (a.tdiv b) := by
  rw [quotient, floorQuotient_natAbs hb, Except.map, signed_tdiv_natAbs]

/-- The remainder goes with the quotient whose fraction is dropped. -/
theorem remainder_eq_tmod (a : Int) {b : Int} (hb : b ≠ 0) : remainder a b = .ok (a.tmod b) := by
  rw [remainder, quotient_eq_tdiv a hb, Except.map, Int.tmod_def]

end Arithmetic

/-! ## Boolean operations -/

namespace Logical

def combine : Logical → Bool → Bool → Bool
  | .and, a, b => a && b
  | .or, a, b => a || b

def apply (operation : Logical) (lhs rhs : Value) (line : Option Int) (log : Log) : Outcome Value :=
  match lhs, rhs with
  | .boolean a, .boolean b => (.ok (.boolean (operation.combine a b)), log)
  | _, _ => Outcome.refuse (.operandKinds operation.kind .boolean lhs.kind rhs.kind) line log

end Logical

/-! ## All operators -/

def Operator.apply (operator : Operator) (lhs rhs : Value) (line : Option Int) (log : Log) :
    Outcome Value :=
  match operator.family with
  | .arithmetic operation => operation.apply lhs rhs line log
  | .logical operation => operation.apply lhs rhs line log
  | .unsupported => Outcome.refuse (.unsupported operator) line log

end LetLang
