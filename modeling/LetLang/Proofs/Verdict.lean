import LetLang.Operation

/-!
# Verdicts of operations

An operation either gives a value or is refused with a cause. Which of the two happens depends on
the operands alone; the line and the log only decide where a refusal is reported. Arithmetic on
finite doubles gives no NaN, so the double result of an integer operation can always be truncated
or refused.
-/

namespace LetLang

/-! ## Arithmetic on finite doubles -/

namespace Binary64

/-- Neither an infinity nor a NaN. -/
def IsFinite : Binary64 → Prop
  | .finite _ _ => True
  | _ => False

theorem isFinite_of_finite? {x y : Binary64} (h : x.finite? = some y) : y.IsFinite := by
  cases x with
  | finite negative magnitude =>
    cases h
    trivial
  | _ => exact nomatch h

theorem isFinite_of_ofInt? {n : Int} {x : Binary64} (h : ofInt? n = some x) : x.IsFinite :=
  isFinite_of_finite? h

theorem ofInt?_zero : ofInt? 0 = some zero := by
  have hsmall : 2 * 0 < 1 := by decide
  have hround : round false 0 1 = .finite false .zero :=
    round_eq_zero (nearestUnits_eq_zero hsmall)
  have hnumerator : (0 : Int).natAbs * unitsInOne = 0 := by
    rw [Int.natAbs_zero, Nat.zero_mul]
  have hsign : decide ((0 : Int) < 0) = false := rfl
  rw [ofInt?, hnumerator, hsign, hround]
  rfl

theorem isZero_zero : zero.isZero = true := by
  simp [isZero, equals, zero]

theorem round_ne_nan (negative : Bool) (num den : Nat) : round negative num den ≠ .nan := by
  unfold round
  split <;> simp

/-- Sums of finite doubles are numbers or infinities. -/
theorem add_ne_nan {x y : Binary64} (hx : x.IsFinite) (hy : y.IsFinite) : x.add y ≠ .nan := by
  cases x with
  | nan => exact hx.elim
  | infinite _ => exact hx.elim
  | finite n₁ m₁ =>
    cases y with
    | nan => exact hy.elim
    | infinite _ => exact hy.elim
    | finite n₂ m₂ =>
      simp only [add]
      split
      · simp
      · exact round_ne_nan _ _ _

theorem isFinite_neg {x : Binary64} (hx : x.IsFinite) : x.neg.IsFinite := by
  cases x with
  | finite n m => trivial
  | _ => exact hx.elim

theorem sub_ne_nan {x y : Binary64} (hx : x.IsFinite) (hy : y.IsFinite) : x.sub y ≠ .nan :=
  add_ne_nan hx (isFinite_neg hy)

/-- Products of finite doubles are numbers or infinities too. -/
theorem mul_ne_nan {x y : Binary64} (hx : x.IsFinite) (hy : y.IsFinite) : x.mul y ≠ .nan := by
  cases x with
  | nan => exact hx.elim
  | infinite _ => exact hx.elim
  | finite n₁ m₁ =>
    cases y with
    | nan => exact hy.elim
    | infinite _ => exact hy.elim
    | finite n₂ m₂ => exact round_ne_nan _ _ _

/-- Only a NaN has no integer part. -/
theorem truncate_ne_undefined {x : Binary64} (h : x ≠ .nan) : x.truncate ≠ .undefined := by
  cases x with
  | nan => exact absurd rfl h
  | infinite n => exact nofun
  | finite n m => cases n <;> exact nofun

end Binary64

/-! ## Kinds of operations -/

def Kind.IsNative : Kind → Prop
  | .integer | .double | .boolean => True
  | .absent | .text => False

theorem Value.isNative_of_kind {value : Value} (h : value.kind.IsNative) : value.IsNative := by
  cases value with
  | foreign v => cases v <;> exact h
  | _ => trivial

namespace Operator

/-- One of the seven operators that evaluation knows. -/
def IsSupported (operator : Operator) : Prop :=
  ∃ kind ∈ TokenKind.arithmetic ++ TokenKind.boolean, operator = .known kind

/-- The kind of the value when the operands have the given kinds; `none` if the operator does not
take them. -/
def resultKind? : Operator → Kind → Kind → Option Kind
  | .known .add, left, right | .known .sub, left, right | .known .mult, left, right =>
      if left.isNumeric && right.isNumeric then
        some (if left = .integer ∧ right = .integer then .integer else .double)
      else none
  | .known .div, .integer, .integer => some .integer
  | .known .mod, .integer, .integer => some .integer
  | .known .and, .boolean, .boolean => some .boolean
  | .known .or, .boolean, .boolean => some .boolean
  | _, _, _ => none

/-- The result of an operation belongs to the language. -/
theorem isNative_of_resultKind? {operator : Operator} {left right kind : Kind}
    (h : operator.resultKind? left right = some kind) : kind.IsNative := by
  have hnumber (p : Prop) [Decidable p] : (if p then Kind.integer else .double).IsNative := by
    split <;> trivial
  fun_cases resultKind? operator left right with
  | case1 | case3 | case5 =>
    simp_all only [resultKind?, if_pos]
    cases h
    exact hnumber _
  | case2 | case4 | case6 => simp_all [resultKind?]
  | case7 | case8 | case9 | case10 =>
    cases h
    trivial
  | case11 => simp_all [resultKind?]

theorem eq_known_of_family_arithmetic {operator : Operator} {operation : Arithmetic}
    (h : operator.family = .arithmetic operation) : operator = .known operation.kind := by
  cases operator with
  | known kind => cases kind <;> cases h <;> rfl
  | foreignText _ => exact nomatch h
  | foreignNumber _ => exact nomatch h

theorem eq_known_of_family_logical {operator : Operator} {operation : Logical}
    (h : operator.family = .logical operation) : operator = .known operation.kind := by
  cases operator with
  | known kind => cases kind <;> cases h <;> rfl
  | foreignText _ => exact nomatch h
  | foreignNumber _ => exact nomatch h

theorem not_isSupported_of_family_unsupported {operator : Operator}
    (h : operator.family = .unsupported) : ¬ operator.IsSupported := by
  rintro ⟨kind, hmem, rfl⟩
  cases kind with
  | add | sub | mult | div | mod | and | or => exact nomatch h
  | _ => exact absurd hmem (by decide)

theorem resultKind?_arithmetic_of_not_numeric (operation : Arithmetic) {left right : Kind}
    (h : (left.isNumeric && right.isNumeric) = false) :
    resultKind? (.known operation.kind) left right = none := by
  cases operation with
  | add | sub | mult => simp [Arithmetic.kind, resultKind?, h]
  | div | mod =>
    cases left <;> cases right <;> simp_all [Arithmetic.kind, resultKind?, Kind.isNumeric]

end Operator

/-! ## Verdicts -/

/-- What an operation comes to: a value, or the cause of its refusal. -/
abbrev Verdict := Except Cause Value

/-- What a verdict leaves behind. A refusal is reported, once and at its line. -/
def Verdict.outcome (verdict : Verdict) (line : Option Int) (log : Log) : Outcome Value :=
  match verdict with
  | .ok value => (.ok value, log)
  | .error cause => Outcome.refuse cause line log

namespace Operator

/-- The operation comes to the verdict, whatever the line and the log. -/
def Decides (operator : Operator) (lhs rhs : Value) (verdict : Verdict) : Prop :=
  ∀ line log, operator.apply lhs rhs line log = verdict.outcome line log

/-- The verdicts that the kinds of the operands leave open. A zero divisor and an operand out of
range may be found before the kinds are. -/
inductive Permits (operator : Operator) (left right : Kind) : Verdict → Prop where
  | value {value : Value} (h : operator.resultKind? left right = some value.kind) :
      Permits operator left right (.ok value)
  | operandKinds {kind : TokenKind} {requirement : Requirement} (h : operator = .known kind)
      (hkinds : operator.resultKind? left right = none) :
      Permits operator left right (.error (.operandKinds kind requirement left right))
  | operandRange {kind : TokenKind} (h : operator = .known kind) :
      Permits operator left right (.error (.operandRange kind))
  | resultRange {kind : TokenKind} (h : operator = .known kind) :
      Permits operator left right (.error (.resultRange kind))
  | divisionByZero (h : operator = .known .div) :
      Permits operator left right (.error .divisionByZero)
  | modByZero (h : operator = .known .mod) :
      Permits operator left right (.error .modByZero)
  | unsupported (h : ¬ operator.IsSupported) :
      Permits operator left right (.error (.unsupported operator))

end Operator

/-! ## Every operation comes to a permitted verdict -/

/-- Two operands are integers, or one of their kinds is another. -/
theorem Value.integers?_cases (lhs rhs : Value) :
    (∃ a b, lhs = .integer a ∧ rhs = .integer b) ∨
      (integers? lhs rhs = none ∧ ¬ (lhs.kind = .integer ∧ rhs.kind = .integer)) := by
  cases lhs with
  | integer a =>
    cases rhs with
    | integer b => exact .inl ⟨a, b, rfl, rfl⟩
    | foreign v => cases v <;> exact .inr ⟨rfl, by simp [kind]⟩
    | _ => exact .inr ⟨rfl, by simp [kind]⟩
  | foreign v => cases v <;> exact .inr ⟨rfl, by simp [kind]⟩
  | _ => exact .inr ⟨rfl, by simp [kind]⟩

namespace Arithmetic

open Operator (Permits resultKind?)

variable {lhs rhs : Value} {x y : Binary64}

def onDoubles? : Arithmetic → Option (Binary64 → Binary64 → Binary64)
  | .add => some Binary64.add
  | .sub => some Binary64.sub
  | .mult => some Binary64.mul
  | .div => none
  | .mod => none

/-- An operation that is computed on doubles takes all numbers. -/
theorem resultKind?_of_onDoubles? (operation : Arithmetic)
    {compute : Binary64 → Binary64 → Binary64} (h : operation.onDoubles? = some compute)
    {left right : Kind} (hnum : (left.isNumeric && right.isNumeric) = true) :
    resultKind? (.known operation.kind) left right =
      some (if left = .integer ∧ right = .integer then .integer else .double) := by
  cases operation with
  | add | sub | mult => simp [Arithmetic.kind, resultKind?, hnum]
  | div | mod => exact nomatch h

/-- Quotients and remainders take integers only. -/
theorem resultKind?_integral (operation : Arithmetic) (h : operation.onDoubles? = none)
    {left right : Kind} (hkinds : ¬ (left = .integer ∧ right = .integer)) :
    resultKind? (.known operation.kind) left right = none := by
  cases operation with
  | add | sub | mult => exact nomatch h
  | div | mod => cases left <;> cases right <;> simp_all [Arithmetic.kind, resultKind?]

/-- A double result is kept, truncated, or refused for its range. -/
theorem narrow_permitted (operation : Arithmetic) {compute : Binary64 → Binary64 → Binary64}
    (h : operation.onDoubles? = some compute)
    (hnum : (lhs.kind.isNumeric && rhs.kind.isNumeric) = true) {result : Binary64}
    (hnan : (Value.integers? lhs rhs).isSome = true → result ≠ .nan) :
    ∃ verdict, Permits (.known operation.kind) lhs.kind rhs.kind verdict ∧
      ∀ line log, operation.narrow (Value.integers? lhs rhs).isSome result line log =
        Verdict.outcome verdict line log := by
  have hkind := resultKind?_of_onDoubles? operation h hnum
  rcases Value.integers?_cases lhs rhs with ⟨a, b, rfl, rfl⟩ | ⟨hnone, hkinds⟩
  · -- Both operands are integers: the result is truncated, and it is no NaN.
    cases htruncate : result.truncate with
    | whole n =>
      refine ⟨.ok (.integer n), .value hkind, ?_⟩
      intro line log
      simp [narrow, Value.integers?, htruncate, Verdict.outcome]
    | infinite =>
      refine ⟨.error (.resultRange operation.kind), .resultRange rfl, ?_⟩
      intro line log
      simp [narrow, Value.integers?, htruncate, Verdict.outcome]
    | undefined => exact absurd htruncate (Binary64.truncate_ne_undefined (hnan rfl))
  · refine ⟨.ok (.double result), .value ?_, ?_⟩
    · rw [hkind, if_neg hkinds]
      rfl
    · intro line log
      simp [narrow, hnone, Verdict.outcome]

/-- A divisor whose double is not zero is not zero itself. -/
theorem ne_zero_of_not_isZero {b : Int} (hy : Binary64.ofInt? b = some y)
    (hzero : y.isZero = false) : b ≠ 0 := by
  rintro rfl
  rw [Binary64.ofInt?_zero] at hy
  cases hy
  rw [Binary64.isZero_zero] at hzero
  exact nomatch hzero

/-- A quotient is refused for a zero divisor before it is refused for a double operand. -/
theorem div_permitted (hy : rhs.toBinary64? = some y) :
    ∃ verdict, Permits (.known .div) lhs.kind rhs.kind verdict ∧
      ∀ line log, combine .div lhs rhs x y line log = Verdict.outcome verdict line log := by
  cases hzero : y.isZero with
  | true =>
    refine ⟨.error .divisionByZero, .divisionByZero rfl, ?_⟩
    intro line log
    simp [combine, hzero, Verdict.outcome]
  | false =>
    rcases Value.integers?_cases lhs rhs with ⟨a, b, rfl, rfl⟩ | ⟨hnone, hkinds⟩
    · have hb : b ≠ 0 := ne_zero_of_not_isZero hy hzero
      refine ⟨.ok (.integer (a.tdiv b)), .value rfl, ?_⟩
      intro line log
      simp [combine, hzero, Value.integers?, quotient_eq_tdiv a hb, settle, Verdict.outcome]
    · refine ⟨.error (.operandKinds .div .integer lhs.kind rhs.kind),
        .operandKinds rfl (resultKind?_integral .div rfl hkinds), ?_⟩
      intro line log
      simp [combine, hzero, hnone, Verdict.outcome]

/-- A remainder is refused for a double operand before it is refused for a zero divisor. -/
theorem mod_permitted :
    ∃ verdict, Permits (.known .mod) lhs.kind rhs.kind verdict ∧
      ∀ line log, combine .mod lhs rhs x y line log = Verdict.outcome verdict line log := by
  rcases Value.integers?_cases lhs rhs with ⟨a, b, rfl, rfl⟩ | ⟨hnone, hkinds⟩
  · by_cases hb : b = 0
    · refine ⟨.error .modByZero, .modByZero rfl, ?_⟩
      intro line log
      simp [combine, Value.integers?, hb, Verdict.outcome]
    · refine ⟨.ok (.integer (a.tmod b)), .value rfl, ?_⟩
      intro line log
      simp [combine, Value.integers?, hb, remainder_eq_tmod a hb, settle, Verdict.outcome]
  · refine ⟨.error (.operandKinds .mod .integer lhs.kind rhs.kind),
      .operandKinds rfl (resultKind?_integral .mod rfl hkinds), ?_⟩
    intro line log
    simp [combine, hnone, Verdict.outcome]

/-- The doubles of two integers are finite. -/
theorem isFinite_of_integers? (hx : lhs.toBinary64? = some x) (hy : rhs.toBinary64? = some y)
    (h : (Value.integers? lhs rhs).isSome = true) : x.IsFinite ∧ y.IsFinite := by
  rcases Value.integers?_cases lhs rhs with ⟨a, b, rfl, rfl⟩ | ⟨hnone, -⟩
  · exact ⟨Binary64.isFinite_of_ofInt? hx, Binary64.isFinite_of_ofInt? hy⟩
  · rw [hnone] at h
    exact nomatch h

/-- One lemma for each operation: what it comes to is left open by the kinds. -/
theorem combine_permitted (operation : Arithmetic)
    (hnum : (lhs.kind.isNumeric && rhs.kind.isNumeric) = true)
    (hx : lhs.toBinary64? = some x) (hy : rhs.toBinary64? = some y) :
    ∃ verdict, Permits (.known operation.kind) lhs.kind rhs.kind verdict ∧
      ∀ line log, operation.combine lhs rhs x y line log = Verdict.outcome verdict line log := by
  have hfinite := isFinite_of_integers? hx hy
  cases operation with
  | add =>
    exact narrow_permitted .add rfl hnum fun h =>
      Binary64.add_ne_nan (hfinite h).1 (hfinite h).2
  | sub =>
    exact narrow_permitted .sub rfl hnum fun h =>
      Binary64.sub_ne_nan (hfinite h).1 (hfinite h).2
  | mult =>
    exact narrow_permitted .mult rfl hnum fun h =>
      Binary64.mul_ne_nan (hfinite h).1 (hfinite h).2
  | div => exact div_permitted hy
  | mod => exact mod_permitted

/-- Arithmetic comes to a verdict that the kinds of its operands leave open. -/
theorem apply_permitted (operation : Arithmetic) (lhs rhs : Value) :
    ∃ verdict, Permits (.known operation.kind) lhs.kind rhs.kind verdict ∧
      ∀ line log, operation.apply lhs rhs line log = Verdict.outcome verdict line log := by
  cases hnum : lhs.isNumeric && rhs.isNumeric with
  | false =>
    refine ⟨.error (.operandKinds operation.kind .numeric lhs.kind rhs.kind),
      .operandKinds rfl (Operator.resultKind?_arithmetic_of_not_numeric operation hnum), ?_⟩
    intro line log
    simp [apply, hnum, Verdict.outcome]
  | true =>
    cases hx : lhs.toBinary64? with
    | none =>
      refine ⟨.error (.operandRange operation.kind), .operandRange rfl, ?_⟩
      intro line log
      simp [apply, hnum, hx, Verdict.outcome]
    | some x =>
      cases hy : rhs.toBinary64? with
      | none =>
        refine ⟨.error (.operandRange operation.kind), .operandRange rfl, ?_⟩
        intro line log
        simp [apply, hnum, hx, hy, Verdict.outcome]
      | some y =>
        rcases combine_permitted operation hnum hx hy with ⟨verdict, hpermits, hcombine⟩
        refine ⟨verdict, hpermits, ?_⟩
        intro line log
        simp [apply, hnum, hx, hy, hcombine]

end Arithmetic

namespace Logical

theorem resultKind?_of_not_boolean (operation : Logical) {left right : Kind}
    (hkinds : ¬ (left = .boolean ∧ right = .boolean)) :
    Operator.resultKind? (.known operation.kind) left right = none := by
  cases operation <;> cases left <;> cases right <;> simp_all [kind, Operator.resultKind?]

/-- A Boolean operation comes to a verdict that the kinds leave open. -/
theorem apply_permitted (operation : Logical) (lhs rhs : Value) :
    ∃ verdict, Operator.Permits (.known operation.kind) lhs.kind rhs.kind verdict ∧
      ∀ line log, operation.apply lhs rhs line log = Verdict.outcome verdict line log := by
  have hrefuse (hkinds : ¬ (lhs.kind = .boolean ∧ rhs.kind = .boolean))
      (happly : ∀ line log, operation.apply lhs rhs line log =
        Outcome.refuse (.operandKinds operation.kind .boolean lhs.kind rhs.kind) line log) :
      ∃ verdict, Operator.Permits (.known operation.kind) lhs.kind rhs.kind verdict ∧
        ∀ line log, operation.apply lhs rhs line log = Verdict.outcome verdict line log :=
    ⟨.error (.operandKinds operation.kind .boolean lhs.kind rhs.kind),
      .operandKinds rfl (operation.resultKind?_of_not_boolean hkinds), happly⟩
  cases lhs with
  | boolean a =>
    cases rhs with
    | boolean b =>
      refine ⟨.ok (.boolean (operation.combine a b)), .value ?_, fun line log => rfl⟩
      cases operation <;> rfl
    | foreign v => cases v <;> exact hrefuse (by simp [Value.kind]) fun line log => rfl
    | _ => exact hrefuse (by simp [Value.kind]) fun line log => rfl
  | foreign v => cases v <;> exact hrefuse (by simp [Value.kind]) fun line log => rfl
  | _ => exact hrefuse (by simp [Value.kind]) fun line log => rfl

end Logical

namespace Operator

/-- Every operation comes to a verdict that the kinds of its operands permit. -/
theorem exists_verdict (operator : Operator) (lhs rhs : Value) :
    ∃ verdict, operator.Permits lhs.kind rhs.kind verdict ∧ operator.Decides lhs rhs verdict := by
  cases hfamily : operator.family with
  | arithmetic operation =>
    rcases operation.apply_permitted lhs rhs with ⟨verdict, hpermits, happly⟩
    refine ⟨verdict, ?_, ?_⟩
    · simpa [eq_known_of_family_arithmetic hfamily] using hpermits
    · intro line log
      simp [apply, hfamily, happly]
  | logical operation =>
    rcases operation.apply_permitted lhs rhs with ⟨verdict, hpermits, happly⟩
    refine ⟨verdict, ?_, ?_⟩
    · simpa [eq_known_of_family_logical hfamily] using hpermits
    · intro line log
      simp [apply, hfamily, happly]
  | unsupported =>
    refine ⟨.error (.unsupported operator),
      .unsupported (not_isSupported_of_family_unsupported hfamily), ?_⟩
    intro line log
    simp [apply, hfamily, Verdict.outcome]

/-- An operation comes to one verdict. -/
theorem Decides.unique {operator : Operator} {lhs rhs : Value} {verdict verdict' : Verdict}
    (h : operator.Decides lhs rhs verdict) (h' : operator.Decides lhs rhs verdict') :
    verdict = verdict' := by
  have houtcome := (h none .empty).symm.trans (h' none .empty)
  cases verdict <;> cases verdict' <;> simp_all [Verdict.outcome, Outcome.refuse]

/-- The verdict is one that the kinds leave open. -/
theorem Decides.permits {operator : Operator} {lhs rhs : Value} {verdict : Verdict}
    (h : operator.Decides lhs rhs verdict) : operator.Permits lhs.kind rhs.kind verdict := by
  rcases operator.exists_verdict lhs rhs with ⟨verdict', hpermits, hdecides⟩
  rw [h.unique hdecides]
  exact hpermits

/-! ## What a permitted verdict tells -/

namespace Permits

variable {operator : Operator} {left right : Kind} {cause : Cause}

/-- A refused operation is reported under its own operator. -/
theorem operator?_eq (h : operator.Permits left right (.error cause)) :
    cause.operator? = operator.kind? := by
  cases h with
  | unsupported _ => rfl
  | operandKinds h _ | operandRange h | resultRange h | divisionByZero h | modByZero h =>
    rw [h]
    rfl

/-- A supported operation is refused for the type of its operands or for a zero divisor. -/
theorem errorClass_eq (h : operator.Permits left right (.error cause))
    (hsupported : operator.IsSupported) :
    cause.errorClass = .type ∨ cause.errorClass = .divisionByZero := by
  cases h with
  | unsupported hnot => exact absurd hsupported hnot
  | operandKinds _ _ | operandRange _ | resultRange _ => exact .inl rfl
  | divisionByZero _ | modByZero _ => exact .inr rfl

/-- No operation is refused as a `let` is. -/
theorem ne_letTarget (h : operator.Permits left right (.error cause)) : cause ≠ .letTarget := by
  rintro rfl
  exact nomatch h

end Permits

/-- The value of an operation belongs to the language. -/
theorem Permits.isNative {operator : Operator} {left right : Kind} {value : Value}
    (h : operator.Permits left right (.ok value)) : value.IsNative := by
  cases h with
  | value h => exact Value.isNative_of_kind (isNative_of_resultKind? h)

end Operator

end LetLang
