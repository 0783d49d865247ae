import LetLang.Proofs.Number.IntegerOperations

/-!
# Quotients and remainders of integers

The two operations look at the doubles of their operands only to refuse them; what they return is
computed on the integers themselves, as the quotient of the magnitudes with its sign put back. This
is truncated division, which is said here by what it asks of quotient and remainder.
-/

namespace LetLang

/-! ## Truncated division -/

/-- The quotient `q` of `a` by `b` with its fraction dropped, and the remainder `r`. -/
structure TruncatedDivision (a b q r : Int) : Prop where
  split : a = b * q + r
  small : r.natAbs < b.natAbs
  sign : r = 0 ∨ r.sign = a.sign
  toward_zero : (b * q).natAbs ≤ a.natAbs

namespace TruncatedDivision

variable {a b q r : Int}

/-- Truncated division exists for every divisor but zero. -/
theorem tdiv_tmod (a : Int) (hb : b ≠ 0) : TruncatedDivision a b (a.tdiv b) (a.tmod b) where
  split := (Int.mul_tdiv_add_tmod a b).symm
  small := by
    rw [Int.natAbs_tmod]
    exact Nat.mod_lt _ (Int.natAbs_pos.2 hb)
  sign := by
    by_cases hdvd : b ∣ a
    · exact .inl (Int.tmod_eq_zero_of_dvd hdvd)
    · right
      rw [Int.sign_tmod, if_neg hdvd]
  toward_zero := by
    rw [Int.natAbs_mul, Int.natAbs_tdiv]
    exact Nat.mul_div_le _ _

/-- Quotient and remainder are determined by what is asked of them. -/
theorem unique (h : TruncatedDivision a b q r) : q = a.tdiv b ∧ r = a.tmod b := by
  have hb : b ≠ 0 := Int.natAbs_pos.1 (Nat.zero_lt_of_lt h.small)
  have hsplit : r + b * q = a := by rw [Int.add_comm, ← h.split]
  have hsmall := h.small
  -- The remainder lies on the side of zero on which the dividend lies.
  rcases Int.le_total 0 a with ha | ha
  · have hr : 0 ≤ r := by
      rcases h.sign with hzero | hsign
      · exact Int.le_of_eq hzero.symm
      · exact Int.sign_nonneg_iff.1 (hsign ▸ Int.sign_nonneg_iff.2 ha)
    have hunique := (Int.tdiv_tmod_unique ha hb).2 ⟨hsplit, hr, by omega⟩
    exact ⟨hunique.1.symm, hunique.2.symm⟩
  · have hr : r ≤ 0 := by
      rcases h.sign with hzero | hsign
      · exact Int.le_of_eq hzero
      · exact Int.sign_nonpos_iff.1 (hsign ▸ Int.sign_nonpos_iff.2 ha)
    have hunique := (Int.tdiv_tmod_unique' ha hb).2 ⟨hsplit, by omega, hr⟩
    exact ⟨hunique.1.symm, hunique.2.symm⟩

end TruncatedDivision

/-! ## Doubles of divisors -/

namespace Binary64

theorem Holds.isZero_iff {x : Binary64} {n : Int} (h : x.Holds n) : x.isZero = true ↔ n = 0 := by
  obtain ⟨negative, magnitude, rfl, hunits⟩ := h.exists_finite
  have hone : (unitsInOne : Int) ≠ 0 := Int.natCast_ne_zero.2 (Nat.ne_of_gt unitsInOne_pos)
  have hzero : signedUnits false .zero = 0 := rfl
  rw [isZero, zero, equals, beq_iff_eq, hzero, hunits, Int.mul_eq_zero]
  exact or_iff_left hone

/-- Rounding takes nothing but zero to zero. -/
theorem nearestShort_eq_zero_iff {n : Int} : nearestShort n = 0 ↔ n = 0 := by
  constructor
  · intro h
    apply Decidable.byContradiction
    intro hne
    have hone : twoPow 0 ≤ n.natAbs := Int.natAbs_pos.2 hne
    have hkept : twoPow 0 ≤ nearestUnits n.natAbs 1 := twoPow_le_nearestUnits hone
    rw [twoPow_zero] at hkept
    unfold nearestShort at h
    split at h <;> omega
  · rintro rfl
    exact nearestShort_of_natAbs_le (Nat.zero_le _)

/-- The double of an integer is zero only if the integer is. -/
theorem isZero_ofInt?_iff {n : Int} {x : Binary64} (h : ofInt? n = some x) :
    x.isZero = true ↔ n = 0 := by
  rcases Nat.lt_or_ge n.natAbs integerLimit with hlt | hge
  · obtain ⟨y, hy, hholds⟩ := ofInt?_of_lt hlt
    cases hy.symm.trans h
    rw [hholds.isZero_iff, nearestShort_eq_zero_iff]
  · cases (ofInt?_of_le hge).symm.trans h

end Binary64

/-! ## Operations of the language -/

namespace Arithmetic

open Binary64 (integerLimit)

section Within

variable {a b : Int} (ha : a.natAbs < integerLimit) (hb : b.natAbs < integerLimit)

include ha hb

/-- Integers within the limit have doubles, so they get past the check of their range. -/
theorem exists_doubles (operation : Arithmetic) :
    ∃ x y, Binary64.ofInt? b = some y ∧
      ∀ line log, (Operator.known operation.kind).apply (.integer a) (.integer b) line log =
        operation.combine (.integer a) (.integer b) x y line log := by
  obtain ⟨x, hx, -⟩ := Binary64.ofInt?_of_lt ha
  obtain ⟨y, hy, -⟩ := Binary64.ofInt?_of_lt hb
  have hlhs : (Value.integer a).toBinary64? = some x := hx
  have hrhs : (Value.integer b).toBinary64? = some y := hy
  refine ⟨x, y, hy, ?_⟩
  intro line log
  rw [apply_known, apply_of_doubles line log rfl hlhs hrhs]

/-- The divisor is looked at as a double, which is zero for zero only. -/
theorem decides_divisionByZero (hzero : b = 0) :
    (Operator.known .div).Decides (.integer a) (.integer b) (.error .divisionByZero) := by
  intro line log
  obtain ⟨x, y, hy, happly⟩ := exists_doubles ha hb .div
  have hdouble : y.isZero = true := (Binary64.isZero_ofInt?_iff hy).2 hzero
  exact (happly line log).trans (if_pos hdouble)

theorem decides_modByZero (hzero : b = 0) :
    (Operator.known .mod).Decides (.integer a) (.integer b) (.error .modByZero) := by
  intro line log
  obtain ⟨x, y, -, happly⟩ := exists_doubles ha hb .mod
  exact (happly line log).trans (if_pos hzero)

/-- The division of magnitudes, with its sign put back, drops the fraction. -/
theorem decides_quotient (hne : b ≠ 0) :
    (Operator.known .div).Decides (.integer a) (.integer b) (.ok (.integer (a.tdiv b))) := by
  intro line log
  obtain ⟨x, y, hy, happly⟩ := exists_doubles ha hb .div
  have hdouble : ¬ y.isZero = true := fun hzero => hne ((Binary64.isZero_ofInt?_iff hy).1 hzero)
  have hquotient : settle (quotient a b) log = (.ok (.integer (a.tdiv b)), log) :=
    congrArg (settle · log) (quotient_eq_tdiv a hne)
  exact (happly line log).trans ((if_neg hdouble).trans hquotient)

/-- What the divisor times the quotient leaves over is the remainder of truncated division. -/
theorem decides_remainder (hne : b ≠ 0) :
    (Operator.known .mod).Decides (.integer a) (.integer b) (.ok (.integer (a.tmod b))) := by
  intro line log
  obtain ⟨x, y, -, happly⟩ := exists_doubles ha hb .mod
  have hremainder : settle (remainder a b) log = (.ok (.integer (a.tmod b)), log) :=
    congrArg (settle · log) (remainder_eq_tmod a hne)
  exact (happly line log).trans ((if_neg hne).trans hremainder)

end Within

/-- Whatever the operands are, no quotient by zero is computed. -/
theorem apply_ne_zeroQuotient (operation : Arithmetic) (lhs rhs : Value) (line : Option Int)
    (log : Log) : (operation.apply lhs rhs line log).1 ≠ .error (.breakdown .zeroQuotient) := by
  obtain ⟨verdict, -, happly⟩ := operation.apply_permitted lhs rhs
  rw [happly]
  cases verdict with
  | ok value => exact nofun
  | error cause => exact nofun

end Arithmetic

open Binary64 (integerLimit)
open Arithmetic

def Verdict.IsDivisionByZero (verdict : Verdict) : Prop :=
  ∃ cause, verdict = .error cause ∧ cause.errorClass = .divisionByZero

/-- Quotients and remainders of integers of any size. Operands that reach the limit are refused,
whatever the divisor is; then a divisor of zero is, and its double is zero for no other divisor. All
else has a quotient toward zero and its remainder, which are those of the integers and not of their
doubles. -/
theorem integer_division_truncates (a b : Int) :
    (∀ y, Binary64.ofInt? b = some y → (y.isZero = true ↔ b = 0)) ∧
    (∀ operation : Arithmetic, ∀ line log,
      (operation.apply (.integer a) (.integer b) line log).1 ≠
        .error (.breakdown .zeroQuotient)) ∧
    ∃ quotient remainder : Verdict,
      (Operator.known .div).Decides (.integer a) (.integer b) quotient ∧
      (Operator.known .mod).Decides (.integer a) (.integer b) remainder ∧
      (integerLimit ≤ a.natAbs ∨ integerLimit ≤ b.natAbs →
        quotient.IsTypeError "Integer operand out of range." ∧
        remainder.IsTypeError "Integer operand out of range.") ∧
      (a.natAbs < integerLimit → b.natAbs < integerLimit → b = 0 →
        quotient.IsDivisionByZero ∧ remainder.IsDivisionByZero) ∧
      (a.natAbs < integerLimit → b.natAbs < integerLimit → b ≠ 0 →
        ∃ q r, quotient = .ok (.integer q) ∧ remainder = .ok (.integer r) ∧
          TruncatedDivision a b q r ∧
          ∀ q' r', TruncatedDivision a b q' r' → q' = q ∧ r' = r) := by
  refine ⟨fun y hy => Binary64.isZero_ofInt?_iff hy,
    fun operation line log => operation.apply_ne_zeroQuotient _ _ line log, ?_⟩
  obtain ⟨quotient, -, hquotient⟩ := (Operator.known .div).exists_verdict (.integer a) (.integer b)
  obtain ⟨remainder, -, hremainder⟩ :=
    (Operator.known .mod).exists_verdict (.integer a) (.integer b)
  refine ⟨quotient, remainder, hquotient, hremainder, ?_, ?_, ?_⟩
  · intro hlimit
    rw [hquotient.unique (@decides_operandRange .div a b hlimit),
      hremainder.unique (@decides_operandRange .mod a b hlimit)]
    exact ⟨Verdict.isTypeError_operandRange_iff.2 rfl, Verdict.isTypeError_operandRange_iff.2 rfl⟩
  · intro ha hb hzero
    rw [hquotient.unique (decides_divisionByZero ha hb hzero),
      hremainder.unique (decides_modByZero ha hb hzero)]
    exact ⟨⟨_, rfl, rfl⟩, ⟨_, rfl, rfl⟩⟩
  · intro ha hb hne
    exact ⟨a.tdiv b, a.tmod b, hquotient.unique (decides_quotient ha hb hne),
      hremainder.unique (decides_remainder ha hb hne), .tdiv_tmod a hne,
      fun q' r' h => h.unique⟩

/-- The dividend has no double of its own, and the double next to it leaves no remainder. -/
theorem integer_division_truncates_exactly :
    (Operator.known .div).Decides (.integer 9007199254740993) (.integer (-2))
        (.ok (.integer (-4503599627370496))) ∧
      (Operator.known .mod).Decides (.integer 9007199254740993) (.integer (-2))
        (.ok (.integer 1)) := by
  obtain ⟨-, -, quotient, remainder, hquotient, hremainder, -, -, hvalue⟩ :=
    integer_division_truncates 9007199254740993 (-2)
  obtain ⟨q, r, rfl, rfl, -, hunique⟩ :=
    hvalue (by decide +kernel) (by decide +kernel) (by decide)
  have hdivision : TruncatedDivision 9007199254740993 (-2) (-4503599627370496) 1 :=
    ⟨by decide, by decide, by decide, by decide⟩
  obtain ⟨rfl, rfl⟩ := hunique _ _ hdivision
  exact ⟨hquotient, hremainder⟩

end LetLang
