import LetLang.Diagnostic
import LetLang.Value

/-!
# Failures

* `Cause`: why evaluation of an operation, a name or a `let` is refused. `Cause.message` is the
  wording of the error, `Cause.diagnosis` the wording of the report about it.
* `RuntimeError`: a cause with the line it is attributed to.
* `Failure`: every way in which evaluation ends without a value.
* `Outcome`: the result of a computation together with the log it leaves behind.
-/

namespace LetLang

/-! ## Causes -/

/-- What an operator asks of both operands. -/
inductive Requirement where
  | numeric
  | integer
  | boolean
  deriving DecidableEq, Repr

def Requirement.name : Requirement → String
  | .numeric => "numeric"
  | .integer => "Integer"
  | .boolean => "Boolean"

def Requirement.operation : Requirement → String
  | .boolean => "Boolean"
  | _ => "Arithmetic"

inductive ErrorClass where
  | general
  | type
  | divisionByZero
  | unsupportedOperator
  | unboundName
  deriving DecidableEq, Repr

inductive Cause where
  /-- The kinds of the operands are not those that the operator requires. -/
  | operandKinds (operator : TokenKind) (requirement : Requirement) (left right : Kind)
  /-- An integer operand rounds to no finite double. -/
  | operandRange (operator : TokenKind)
  /-- The double result of an integer operation is not finite. -/
  | resultRange (operator : TokenKind)
  | divisionByZero
  | modByZero
  | unsupported (operator : Operator)
  | unbound (name : String)
  /-- The token that a `let` binds is no identifier. -/
  | letTarget
  /-- An error stated by a caller in its own words. -/
  | stated (errorClass : ErrorClass) (message : String)
  deriving DecidableEq, Repr

namespace Cause

def errorClass : Cause → ErrorClass
  | .operandKinds .. => .type
  | .operandRange _ => .type
  | .resultRange _ => .type
  | .divisionByZero => .divisionByZero
  | .modByZero => .divisionByZero
  | .unsupported _ => .unsupportedOperator
  | .unbound _ => .unboundName
  | .letTarget => .general
  | .stated c _ => c

/-- The wording of the report about a failure. -/
def diagnosis : Cause → String
  | .operandKinds operator requirement _ _ =>
      requirement.operation ++ " operation '" ++ operator.name ++ "' requires " ++
        requirement.name ++ " operands."
  | .operandRange _ => "Integer operand out of range."
  | .resultRange _ => "Integer result out of range."
  | .divisionByZero => "Division by zero."
  | .modByZero => "Mod by zero."
  | .unsupported operator => "Unsupported binary operator: " ++ operator.label
  | .unbound name => "Unbound identifier '" ++ name ++ "'."
  | .letTarget => "let target must be an identifier"
  | .stated _ message => message

/-- The wording of the error itself, without its line. -/
def message : Cause → String
  | .operandKinds operator requirement left right =>
      diagnosis (.operandKinds operator requirement left right) ++
        " Got " ++ left.name ++ " and " ++ right.name
  | .operandRange operator =>
      "Arithmetic operation '" ++ operator.name ++ "': " ++ diagnosis (.operandRange operator)
  | .resultRange operator =>
      "Arithmetic operation '" ++ operator.name ++ "': " ++ diagnosis (.resultRange operator)
  | .unbound name => "Name '" ++ name ++ "' not found"
  | cause => cause.diagnosis

def operator? : Cause → Option TokenKind
  | .operandKinds operator .. => some operator
  | .operandRange operator => some operator
  | .resultRange operator => some operator
  | .divisionByZero => some .div
  | .modByZero => some .mod
  | .unsupported operator => operator.kind?
  | _ => none

end Cause

/-! ## Errors and failures -/

structure RuntimeError where
  cause : Cause
  line : Option Int := none
  deriving DecidableEq, Repr

namespace RuntimeError

def text (e : RuntimeError) : String :=
  match e.line with
  | none => e.cause.message
  | some line => e.cause.message ++ " (line " ++ numeral line ++ ")"

/-- Gives an error without a line the line of a place that is known. -/
def attributedTo (e : RuntimeError) (line : Option Int) : RuntimeError :=
  match e.line with
  | some _ => e
  | none => { e with line := line }

end RuntimeError

/-- A step that arithmetic has no answer for. -/
inductive Breakdown where
  /-- The truncation of a NaN. -/
  | undefinedInteger
  /-- An integer quotient by zero. -/
  | zeroQuotient
  deriving DecidableEq, Repr

inductive Failure where
  | runtime (error : RuntimeError)
  /-- A tree has a hole where evaluation arrived. -/
  | hole
  | breakdown (cause : Breakdown)
  deriving DecidableEq, Repr

/-! ## Outcomes -/

abbrev Outcome (α : Type) := Except Failure α × Log

namespace Outcome

variable {α β : Type}

/-- Goes on with the result and the log; a failure ends the computation. -/
def andThen (outcome : Outcome α) (next : α → Log → Outcome β) : Outcome β :=
  match outcome with
  | (.ok a, log) => next a log
  | (.error failure, log) => (.error failure, log)

@[simp] theorem andThen_ok (a : α) (log : Log) (next : α → Log → Outcome β) :
    andThen (.ok a, log) next = next a log := rfl

@[simp] theorem andThen_error (failure : Failure) (log : Log) (next : α → Log → Outcome β) :
    andThen (.error failure, log) next = (.error failure, log) := rfl

def refuse (cause : Cause) (line : Option Int) (log : Log) : Outcome α :=
  (.error (.runtime ⟨cause, line⟩), log.record ⟨cause.diagnosis, line, cause.operator?⟩)

end Outcome

end LetLang
