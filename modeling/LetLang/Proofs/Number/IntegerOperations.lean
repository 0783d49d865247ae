import LetLang.Proofs.Number.Nearest
import LetLang.Proofs.Verdict

/-!
# Sums, differences and products of integers

The three operations go through doubles: both operands are rounded, the exact result is rounded
again, and what leaves the finite doubles is refused. `integer_operations_round` says so by the
relation `RoundsTo` alone.
-/

namespace LetLang

namespace Binary64

/-! ## Doubles that hold integers -/

/-- A finite double that is exactly the integer. Both zeros hold `0`. -/
inductive Holds : Binary64 → Int → Prop where
  | nonneg {magnitude : Magnitude} (k : Nat) (h : magnitude.units = k * unitsInOne) :
      Holds (.finite false magnitude) k
  | nonpos {magnitude : Magnitude} (k : Nat) (h : magnitude.units = k * unitsInOne) :
      Holds (.finite true magnitude) (-k)

/-- The double of an integer: its rounding, or an infinity from the limit on. -/
structure Rounds (x : Binary64) (n : Int) : Prop where
  within : n.natAbs < integerLimit → x.Holds (nearestShort n)
  beyond : integerLimit ≤ n.natAbs → ∃ negative, x = .infinite negative

variable {x y : Binary64} {a b n : Int}

/-- Truncation gives back the integer that a double holds. -/
theorem Holds.truncate_eq (h : x.Holds n) : x.truncate = .whole n := by
  cases h with
  | nonneg k h | nonpos k h => rw [truncate, h, Nat.mul_div_cancel _ unitsInOne_pos]

theorem Holds.neg (h : x.Holds n) : x.neg.Holds (-n) := by
  cases h with
  | nonneg k h => exact .nonpos k h
  | nonpos k h =>
    rw [Int.neg_neg]
    exact .nonneg k h

theorem Holds.exists_finite (h : x.Holds n) :
    ∃ negative magnitude, x = .finite negative magnitude ∧
      signedUnits negative magnitude = n * unitsInOne := by
  cases h with
  | nonneg k h =>
    refine ⟨false, _, rfl, ?_⟩
    simp only [signedUnits, h, Int.natCast_mul, Bool.false_eq_true, if_false]
  | nonpos k h =>
    refine ⟨true, _, rfl, ?_⟩
    simp only [signedUnits, h, Int.natCast_mul, if_true, Int.neg_mul]

/-! ## The rounded double -/

theorem round_congr {negative : Bool} {num den num' den' : Nat}
    (h : nearestUnits num den = nearestUnits num' den') :
    round negative num den = round negative num' den' := by
  simp only [round, h]

theorem unitsLimit_eq : unitsLimit = twoPow 1024 * unitsInOne := by
  have hexponent : 2098 = 1024 + 1074 := rfl
  rw [unitsLimit, hexponent, twoPow_add, unitsInOne]

/-- Rounding an integer number of ones, with the sign of the integer. The sign of a zero is free. -/
theorem rounds_round {negative : Bool} (hneg : negative = true → n ≤ 0)
    (hpos : negative = false → 0 ≤ n) :
    (round negative (n.natAbs * unitsInOne) 1).Rounds n := by
  have hunits : nearestUnits (n.natAbs * unitsInOne) 1 = nearestUnits n.natAbs 1 * unitsInOne :=
    nearestUnits_mul_twoPow n.natAbs 1074
  have hfinite : nearestUnits (n.natAbs * unitsInOne) 1 < unitsLimit ↔
      n.natAbs < integerLimit := by
    rw [hunits, unitsLimit_eq, Nat.mul_lt_mul_right unitsInOne_pos, nearestUnits_lt_iff]
  constructor
  · intro hlt
    rw [round, dif_pos (hfinite.2 hlt)]
    cases negative with
    | true =>
      rw [nearestShort_of_nonpos (hneg rfl)]
      exact .nonpos _ hunits
    | false =>
      rw [nearestShort_of_nonneg (hpos rfl)]
      exact .nonneg _ hunits
  · intro hge
    have hinfinite : ¬ nearestUnits (n.natAbs * unitsInOne) 1 < unitsLimit := fun hlt =>
      Nat.not_lt_of_le hge (hfinite.1 hlt)
    rw [round, dif_neg hinfinite]
    exact ⟨negative, rfl⟩

/-- The rounding of doubles, on integers, is the rounding to short integers. -/
theorem rounds_signed (n : Int) : (round (decide (n < 0)) (n.natAbs * unitsInOne) 1).Rounds n := by
  apply rounds_round
  · intro hneg
    exact Int.le_of_lt (of_decide_eq_true hneg)
  · intro hpos
    exact Int.not_lt.1 (of_decide_eq_false hpos)

/-- Below the limit the double of an integer holds its rounding. -/
theorem ofInt?_of_lt (h : n.natAbs < integerLimit) :
    ∃ x, ofInt? n = some x ∧ x.Holds (nearestShort n) := by
  have hholds := (rounds_signed n).within h
  obtain ⟨negative, magnitude, heq, -⟩ := hholds.exists_finite
  refine ⟨_, ?_, hholds⟩
  rw [ofInt?, heq]
  rfl

/-- From the limit on there is no double. -/
theorem ofInt?_of_le (h : integerLimit ≤ n.natAbs) : ofInt? n = none := by
  obtain ⟨negative, heq⟩ := (rounds_signed n).beyond h
  rw [ofInt?, heq]
  rfl

/-! ## Operations on doubles that hold integers -/

theorem rounds_zero (negative : Bool) : (finite negative .zero).Rounds 0 := by
  have hzero : Magnitude.zero.units = 0 * unitsInOne := (Nat.zero_mul _).symm
  constructor
  · intro _
    rw [nearestShort_of_natAbs_le (Nat.zero_le _)]
    cases negative with
    | true => exact .nonpos 0 hzero
    | false => exact .nonneg 0 hzero
  · intro hle
    exact absurd hle (Nat.not_le_of_lt (lt_integerLimit_of_le (Nat.zero_le _)))

/-- The sum of doubles is the rounding of the exact sum. -/
theorem Holds.add (hx : x.Holds a) (hy : y.Holds b) : (x.add y).Rounds (a + b) := by
  obtain ⟨n₁, m₁, rfl, h₁⟩ := hx.exists_finite
  obtain ⟨n₂, m₂, rfl, h₂⟩ := hy.exists_finite
  have hone : (0 : Int) < unitsInOne := Int.natCast_pos.2 unitsInOne_pos
  have hsum : signedUnits n₁ m₁ + signedUnits n₂ m₂ = (a + b) * unitsInOne := by
    rw [h₁, h₂, Int.add_mul]
  simp only [Binary64.add, hsum]
  split
  next hzero =>
    have hab : a + b = 0 := (Int.mul_eq_zero.1 hzero).resolve_right (Int.ne_of_gt hone)
    rw [hab]
    exact rounds_zero _
  next hne =>
    have hsign : (a + b) * (unitsInOne : Int) < 0 ↔ a + b < 0 := by
      rw [← Int.mul_lt_mul_right (b := a + b) (c := 0) hone, Int.zero_mul]
    rw [Int.natAbs_mul, Int.natAbs_natCast, decide_eq_decide.2 hsign]
    exact rounds_signed (a + b)

theorem Holds.sub (hx : x.Holds a) (hy : y.Holds b) : (x.sub y).Rounds (a - b) :=
  hx.add hy.neg

/-- A product of ones is counted in ones again. -/
theorem round_mul_ones (negative : Bool) (k l : Nat) :
    round negative (k * unitsInOne * (l * unitsInOne)) unitsInOne =
      round negative (k * l * unitsInOne) 1 := by
  apply round_congr
  have hsplit : k * unitsInOne * (l * unitsInOne) = unitsInOne * (k * l * unitsInOne) := by
    rw [Nat.mul_mul_mul_comm, ← Nat.mul_assoc, Nat.mul_comm]
  rw [hsplit, nearestUnits_mul_left _ unitsInOne_pos]

/-- The product of doubles is the rounding of the exact product. -/
theorem Holds.mul (hx : x.Holds a) (hy : y.Holds b) : (x.mul y).Rounds (a * b) := by
  have hproduct {negative : Bool} {k l : Nat} {m₁ m₂ : Magnitude}
      (h₁ : m₁.units = k * unitsInOne) (h₂ : m₂.units = l * unitsInOne)
      (habs : (a * b).natAbs = k * l) (hneg : negative = true → a * b ≤ 0)
      (hpos : negative = false → 0 ≤ a * b) :
      (round negative (m₁.units * m₂.units) unitsInOne).Rounds (a * b) := by
    rw [h₁, h₂, round_mul_ones, ← habs]
    exact rounds_round hneg hpos
  -- The four combinations of signs; a product of naturals is not negative.
  cases hx with
  | nonneg k h₁ =>
    cases hy with
    | nonneg l h₂ =>
      have hkl := Int.natCast_mul k l
      exact hproduct h₁ h₂ (by omega) nofun (by omega)
    | nonpos l h₂ =>
      have hkl := Int.natCast_mul k l
      rw [Int.mul_neg] at hproduct ⊢
      exact hproduct h₁ h₂ (by omega) (by omega) nofun
  | nonpos k h₁ =>
    cases hy with
    | nonneg l h₂ =>
      have hkl := Int.natCast_mul k l
      rw [Int.neg_mul] at hproduct ⊢
      exact hproduct h₁ h₂ (by omega) (by omega) nofun
    | nonpos l h₂ =>
      have hkl := Int.natCast_mul k l
      rw [Int.neg_mul_neg] at hproduct ⊢
      exact hproduct h₁ h₂ (by omega) nofun (by omega)

end Binary64

/-! ## Operations of the language -/

namespace Arithmetic

def onIntegers? : Arithmetic → Option (Int → Int → Int)
  | .add => some (· + ·)
  | .sub => some (· - ·)
  | .mult => some (· * ·)
  | .div => none
  | .mod => none

open Binary64 (Holds Rounds integerLimit nearestShort nearestShort_of_natAbs_le
  lt_integerLimit_of_le)

variable {operation : Arithmetic} {exact : Int → Int → Int}

/-- An operation that is computed on doubles rounds its exact result. -/
theorem exists_compute (h : operation.onIntegers? = some exact) :
    ∃ compute, operation.onDoubles? = some compute ∧
      ∀ {x y : Binary64} {a b : Int}, x.Holds a → y.Holds b →
        (compute x y).Rounds (exact a b) := by
  cases operation with
  | add =>
    cases h
    exact ⟨_, rfl, Holds.add⟩
  | sub =>
    cases h
    exact ⟨_, rfl, Holds.sub⟩
  | mult =>
    cases h
    exact ⟨_, rfl, Holds.mul⟩
  | div | mod => exact nomatch h

theorem combine_of_onDoubles? {compute : Binary64 → Binary64 → Binary64}
    (h : operation.onDoubles? = some compute) (lhs rhs : Value) (x y : Binary64)
    (line : Option Int) (log : Log) :
    operation.combine lhs rhs x y line log =
      operation.narrow (Value.integers? lhs rhs).isSome (compute x y) line log := by
  cases operation with
  | add | sub | mult =>
    cases h
    rfl
  | div | mod => exact nomatch h

theorem apply_known (operation : Arithmetic) (lhs rhs : Value) (line : Option Int) (log : Log) :
    (Operator.known operation.kind).apply lhs rhs line log =
      operation.apply lhs rhs line log := by
  cases operation <;> rfl

section Doubles

variable {lhs rhs : Value} (line : Option Int) (log : Log)

/-- Operands with doubles get past the check of their range. -/
theorem apply_of_doubles (hnumeric : (lhs.isNumeric && rhs.isNumeric) = true) {x y : Binary64}
    (hx : lhs.toBinary64? = some x) (hy : rhs.toBinary64? = some y) :
    operation.apply lhs rhs line log = operation.combine lhs rhs x y line log := by
  simp [apply, hnumeric, hx, hy]

/-- An operand without a double is refused. -/
theorem apply_of_no_double (hnumeric : (lhs.isNumeric && rhs.isNumeric) = true)
    (h : lhs.toBinary64? = none ∨ rhs.toBinary64? = none) :
    operation.apply lhs rhs line log = Outcome.refuse (.operandRange operation.kind) line log := by
  rcases h with hlhs | hrhs
  · simp [apply, hnumeric, hlhs]
  · cases hlhs : lhs.toBinary64? <;> simp [apply, hnumeric, hlhs, hrhs]

end Doubles

section Integers

variable {a b : Int}

/-- An operand that reaches the limit is refused, whatever the operation. -/
theorem decides_operandRange (h : integerLimit ≤ a.natAbs ∨ integerLimit ≤ b.natAbs) :
    (Operator.known operation.kind).Decides (.integer a) (.integer b)
      (.error (.operandRange operation.kind)) := by
  intro line log
  rw [apply_known]
  exact apply_of_no_double line log rfl (h.imp Binary64.ofInt?_of_le Binary64.ofInt?_of_le)

/-- Operands within the limit are rounded, and the operation is computed on their doubles. -/
theorem exists_rounds (h : operation.onIntegers? = some exact) (ha : a.natAbs < integerLimit)
    (hb : b.natAbs < integerLimit) :
    ∃ result : Binary64, result.Rounds (exact (nearestShort a) (nearestShort b)) ∧
      ∀ line log, (Operator.known operation.kind).apply (.integer a) (.integer b) line log =
        operation.narrow true result line log := by
  obtain ⟨x, hx, hxa⟩ := Binary64.ofInt?_of_lt ha
  obtain ⟨y, hy, hyb⟩ := Binary64.ofInt?_of_lt hb
  obtain ⟨compute, hcompute, hrounds⟩ := exists_compute h
  refine ⟨compute x y, hrounds hxa hyb, ?_⟩
  intro line log
  have hlhs : (Value.integer a).toBinary64? = some x := hx
  have hrhs : (Value.integer b).toBinary64? = some y := hy
  rw [apply_known, apply_of_doubles line log rfl hlhs hrhs]
  exact combine_of_onDoubles? hcompute _ _ x y line log

/-- A result that reaches the limit is refused. -/
theorem decides_resultRange (h : operation.onIntegers? = some exact) (ha : a.natAbs < integerLimit)
    (hb : b.natAbs < integerLimit)
    (hresult : integerLimit ≤ (exact (nearestShort a) (nearestShort b)).natAbs) :
    (Operator.known operation.kind).Decides (.integer a) (.integer b)
      (.error (.resultRange operation.kind)) := by
  intro line log
  obtain ⟨result, hrounds, happly⟩ := exists_rounds h ha hb
  obtain ⟨negative, rfl⟩ := hrounds.beyond hresult
  exact happly line log

/-- All else is rounded: the operands first, then the result. -/
theorem decides_rounded (h : operation.onIntegers? = some exact) (ha : a.natAbs < integerLimit)
    (hb : b.natAbs < integerLimit)
    (hresult : (exact (nearestShort a) (nearestShort b)).natAbs < integerLimit) :
    (Operator.known operation.kind).Decides (.integer a) (.integer b)
      (.ok (.integer (nearestShort (exact (nearestShort a) (nearestShort b))))) := by
  intro line log
  obtain ⟨result, hrounds, happly⟩ := exists_rounds h ha hb
  rw [happly, narrow, if_pos rfl, (hrounds.within hresult).truncate_eq]
  rfl

/-- Up to `2^53` nothing is rounded. -/
theorem decides_exact (h : operation.onIntegers? = some exact) (ha : a.natAbs ≤ twoPow 53)
    (hb : b.natAbs ≤ twoPow 53) (hresult : (exact a b).natAbs ≤ twoPow 53) :
    (Operator.known operation.kind).Decides (.integer a) (.integer b)
      (.ok (.integer (exact a b))) := by
  have hrounded : nearestShort (exact (nearestShort a) (nearestShort b)) = exact a b := by
    rw [nearestShort_of_natAbs_le ha, nearestShort_of_natAbs_le hb,
      nearestShort_of_natAbs_le hresult]
  rw [← hrounded]
  apply decides_rounded h (lt_integerLimit_of_le ha) (lt_integerLimit_of_le hb)
  rw [nearestShort_of_natAbs_le ha, nearestShort_of_natAbs_le hb]
  exact lt_integerLimit_of_le hresult

/-- There is one verdict for operands out of range, one for results, and one for the rest. -/
theorem integer_cases (h : operation.onIntegers? = some exact) {verdict : Verdict}
    (hdecides : (Operator.known operation.kind).Decides (.integer a) (.integer b) verdict) :
    ((integerLimit ≤ a.natAbs ∨ integerLimit ≤ b.natAbs) ∧
        verdict = .error (.operandRange operation.kind)) ∨
      (integerLimit ≤ (exact (nearestShort a) (nearestShort b)).natAbs ∧
        (a.natAbs < integerLimit ∧ b.natAbs < integerLimit) ∧
        verdict = .error (.resultRange operation.kind)) ∨
      ((exact (nearestShort a) (nearestShort b)).natAbs < integerLimit ∧
        (a.natAbs < integerLimit ∧ b.natAbs < integerLimit) ∧
        verdict = .ok (.integer (nearestShort (exact (nearestShort a) (nearestShort b))))) := by
  by_cases hlimit : integerLimit ≤ a.natAbs ∨ integerLimit ≤ b.natAbs
  · exact .inl ⟨hlimit, hdecides.unique (decides_operandRange hlimit)⟩
  · obtain ⟨ha, hb⟩ := not_or.1 hlimit
    rw [Nat.not_le] at ha hb
    rcases Nat.lt_or_ge (exact (nearestShort a) (nearestShort b)).natAbs integerLimit
      with hresult | hresult
    · exact .inr (.inr ⟨hresult, ⟨ha, hb⟩, hdecides.unique (decides_rounded h ha hb hresult)⟩)
    · exact .inr (.inl ⟨hresult, ⟨ha, hb⟩,
        hdecides.unique (decides_resultRange h ha hb hresult)⟩)

end Integers

end Arithmetic

open Binary64 (integerLimit nearestShort roundsTo_iff)
open Arithmetic

/-- A refusal of the class of type errors, with the given report. -/
def Verdict.IsTypeError (verdict : Verdict) (report : String) : Prop :=
  ∃ cause, verdict = .error cause ∧ cause.errorClass = .type ∧ cause.diagnosis = report

theorem Verdict.isTypeError_operandRange_iff {kind : TokenKind} {report : String} :
    IsTypeError (.error (.operandRange kind)) report ↔
      report = "Integer operand out of range." := by
  constructor
  · rintro ⟨_, ⟨⟩, -, rfl⟩
    rfl
  · rintro rfl
    exact ⟨_, rfl, rfl, rfl⟩

theorem Verdict.isTypeError_resultRange_iff {kind : TokenKind} {report : String} :
    IsTypeError (.error (.resultRange kind)) report ↔
      report = "Integer result out of range." := by
  constructor
  · rintro ⟨_, ⟨⟩, -, rfl⟩
    rfl
  · rintro rfl
    exact ⟨_, rfl, rfl, rfl⟩

theorem Verdict.not_isTypeError_ok {value : Value} {report : String} :
    ¬ IsTypeError (.ok value) report := by
  rintro ⟨_, hverdict, -⟩
  cases hverdict

/-- Sums, differences and products of integers of any size. There is one function that rounds to 53
significant bits; both operands are rounded, and the exact result of the rounded operands is rounded
again. Operands and results that reach the limit are refused, each with its own report, and what
stays within `2^53` is exact. -/
theorem integer_operations_round :
    ∃ rounded : Int → Int, (∀ n r, RoundsTo n r ↔ rounded n = r) ∧
      ∀ (operation : Arithmetic) (exact : Int → Int → Int), operation.onIntegers? = some exact →
        ∀ a b : Int, ∃ verdict,
          (Operator.known operation.kind).Decides (.integer a) (.integer b) verdict ∧
          (verdict.IsTypeError "Integer operand out of range." ↔
            integerLimit ≤ a.natAbs ∨ integerLimit ≤ b.natAbs) ∧
          (a.natAbs < integerLimit → b.natAbs < integerLimit →
            (verdict.IsTypeError "Integer result out of range." ↔
              integerLimit ≤ (exact (rounded a) (rounded b)).natAbs) ∧
            ((exact (rounded a) (rounded b)).natAbs < integerLimit →
              verdict = .ok (.integer (rounded (exact (rounded a) (rounded b)))))) ∧
          (a.natAbs ≤ twoPow 53 → b.natAbs ≤ twoPow 53 → (exact a b).natAbs ≤ twoPow 53 →
            verdict = .ok (.integer (exact a b))) := by
  refine ⟨nearestShort, fun n r => roundsTo_iff, ?_⟩
  intro operation exact h a b
  obtain ⟨verdict, -, hdecides⟩ := (Operator.known operation.kind).exists_verdict
    (.integer a) (.integer b)
  refine ⟨verdict, hdecides, ?_, ?_, ?_⟩
  · rcases integer_cases h hdecides with
      ⟨hlimit, rfl⟩ | ⟨-, ⟨ha, hb⟩, rfl⟩ | ⟨-, ⟨ha, hb⟩, rfl⟩
    · exact iff_of_true (Verdict.isTypeError_operandRange_iff.2 rfl) hlimit
    · have hother : ¬ Verdict.IsTypeError (.error (.resultRange operation.kind))
          "Integer operand out of range." := by
        rw [Verdict.isTypeError_resultRange_iff]
        decide
      exact iff_of_false hother (not_or.2 ⟨Nat.not_le.2 ha, Nat.not_le.2 hb⟩)
    · exact iff_of_false Verdict.not_isTypeError_ok
        (not_or.2 ⟨Nat.not_le.2 ha, Nat.not_le.2 hb⟩)
  · intro ha hb
    rcases integer_cases h hdecides with ⟨hlimit, -⟩ | ⟨hresult, -, rfl⟩ | ⟨hresult, -, rfl⟩
    · exact absurd hlimit (not_or.2 ⟨Nat.not_le.2 ha, Nat.not_le.2 hb⟩)
    · exact ⟨iff_of_true (Verdict.isTypeError_resultRange_iff.2 rfl) hresult,
        fun hlt => absurd hlt (Nat.not_lt.2 hresult)⟩
    · exact ⟨iff_of_false Verdict.not_isTypeError_ok (Nat.not_le.2 hresult), fun _ => rfl⟩
  · intro ha hb hresult
    exact hdecides.unique (decides_exact h ha hb hresult)

/-- One less than `-2^53` lies in the middle of two short integers; the even one is kept. -/
theorem integer_operations_round_tie :
    Arithmetic.sub.onIntegers? = some (· - ·) ∧
      (Operator.known .sub).Decides (.integer (-9007199254740992)) (.integer 1)
        (.ok (.integer (-9007199254740992))) := by
  obtain ⟨rounded, hrounded, hoperation⟩ := integer_operations_round
  have hself : rounded (-9007199254740992) = -9007199254740992 :=
    (hrounded _ _).1 (roundsTo_iff.2 (by decide +kernel))
  have hone : rounded 1 = 1 := (hrounded _ _).1 (roundsTo_iff.2 (by decide +kernel))
  have htie : rounded (-9007199254740992 - 1) = -9007199254740992 :=
    (hrounded _ _).1 (roundsTo_iff.2 (by decide +kernel))
  have hwithin : (-9007199254740992 - 1 : Int).natAbs < integerLimit := by decide +kernel
  obtain ⟨verdict, hdecides, -, hrange, -⟩ :=
    hoperation .sub (· - ·) rfl (-9007199254740992) 1
  have hvalue := (hrange (by decide +kernel) (by decide +kernel)).2
  rw [hself, hone, htie] at hvalue
  rw [hvalue hwithin] at hdecides
  exact ⟨rfl, hdecides⟩

end LetLang
