import LetLang.Number.Binary64

/-!
# Decimal numbers and the doubles nearest to them

* `Decimal` is a number `digits · 10^exponent`.
* `Decimal.toBinary64` rounds it to the nearest double. Exponents may be as large as their text is
  long, so a magnitude that is surely infinite or surely zero is settled without the power of ten.
-/

namespace LetLang

structure Decimal where
  digits : Nat
  exponent : Int
  deriving DecidableEq, Repr

namespace Decimal

/-- The number counted in units of the smallest double, as numerator and denominator. -/
def inUnits (d : Decimal) : Nat × Nat :=
  if 0 ≤ d.exponent then
    (d.digits * tenPow d.exponent.toNat * Binary64.unitsInOne, 1)
  else
    (d.digits * Binary64.unitsInOne, tenPow (-d.exponent).toNat)

theorem inUnits_of_nonneg {d : Decimal} (h : 0 ≤ d.exponent) :
    d.inUnits = (d.digits * tenPow d.exponent.toNat * Binary64.unitsInOne, 1) := by
  rw [inUnits, if_pos h]

theorem inUnits_of_neg {d : Decimal} (h : d.exponent < 0) :
    d.inUnits = (d.digits * Binary64.unitsInOne, tenPow (-d.exponent).toNat) := by
  rw [inUnits, if_neg (by omega)]

/-- A binary exponent obtained by taking ten for eight. With a decimal exponent of at least zero the
number is at least `2^roughExponent`; with a negative one it is below `2^(roughExponent + 1)`. -/
def roughExponent (d : Decimal) : Int :=
  (d.digits.log2 : Int) + 3 * d.exponent

/-- The number is surely beyond the finite doubles. -/
def surelyInfinite (d : Decimal) : Bool :=
  0 ≤ d.exponent && 1024 ≤ d.roughExponent

/-- The number is surely below half of the smallest double. -/
def surelyZero (d : Decimal) : Bool :=
  d.exponent < 0 && d.roughExponent + 1 ≤ -1075

def toBinary64 (negative : Bool) (d : Decimal) : Binary64 :=
  if d.digits = 0 || d.surelyZero then .finite negative .zero
  else if d.surelyInfinite then .infinite negative
  else .round negative d.inUnits.1 d.inUnits.2

/-! ## The short cuts are exact -/

private theorem nearestUnits_of_digits_eq_zero {d : Decimal} (h : d.digits = 0) :
    Binary64.nearestUnits d.inUnits.1 d.inUnits.2 = 0 := by
  have hnum : d.inUnits.1 = 0 := by
    unfold inUnits
    split <;> simp [h]
  have hden : 0 < d.inUnits.2 := by
    unfold inUnits
    split
    · exact Nat.one_pos
    · exact tenPow_pos _
  exact Binary64.nearestUnits_eq_zero (by omega)

private theorem nearestUnits_of_surelyZero {d : Decimal} (h : d.surelyZero = true) :
    Binary64.nearestUnits d.inUnits.1 d.inUnits.2 = 0 := by
  simp only [surelyZero, Bool.and_eq_true, decide_eq_true_eq] at h
  obtain ⟨hneg, hrough⟩ := h
  unfold roughExponent at hrough
  obtain ⟨k, hk⟩ : ∃ k : Nat, d.exponent = -(k : Int) := ⟨(-d.exponent).toNat, by omega⟩
  apply Binary64.nearestUnits_eq_zero
  have hnat : (-d.exponent).toNat = k := by omega
  rw [inUnits_of_neg hneg, hnat]
  calc 2 * (d.digits * Binary64.unitsInOne)
      < 2 * (twoPow (d.digits.log2 + 1) * Binary64.unitsInOne) :=
        Nat.mul_lt_mul_of_pos_left
          (Nat.mul_lt_mul_of_pos_right (lt_twoPow_log2_succ _) Binary64.unitsInOne_pos) (by decide)
    _ = twoPow (1 + (d.digits.log2 + 1 + 1074)) := by
        rw [twoPow_add 1, twoPow_add _ 1074]
        rfl
    _ ≤ twoPow (3 * k) := twoPow_le_twoPow (by omega)
    _ ≤ tenPow k := twoPow_three_mul_le_tenPow k

private theorem limit_le_of_surelyInfinite {d : Decimal} (hne : d.digits ≠ 0)
    (h : d.surelyInfinite = true) : Binary64.unitsLimit ≤ d.inUnits.1 ∧ d.inUnits.2 = 1 := by
  simp only [surelyInfinite, Bool.and_eq_true, decide_eq_true_eq] at h
  obtain ⟨hpos, hrough⟩ := h
  unfold roughExponent at hrough
  obtain ⟨k, hk⟩ : ∃ k : Nat, d.exponent = (k : Int) := ⟨d.exponent.toNat, by omega⟩
  have hnat : d.exponent.toNat = k := by omega
  rw [inUnits_of_nonneg hpos, hnat]
  refine ⟨?_, rfl⟩
  calc Binary64.unitsLimit
      ≤ twoPow (d.digits.log2 + 3 * k + 1074) := twoPow_le_twoPow (by omega)
    _ = twoPow d.digits.log2 * twoPow (3 * k) * Binary64.unitsInOne := by
        rw [twoPow_add, twoPow_add]
        rfl
    _ ≤ d.digits * tenPow k * Binary64.unitsInOne :=
        Nat.mul_le_mul_right _
          (Nat.mul_le_mul (twoPow_log2_le hne) (twoPow_three_mul_le_tenPow k))

/-- The double of a decimal is its number of units, rounded once. -/
theorem toBinary64_eq_round (negative : Bool) (d : Decimal) :
    d.toBinary64 negative = .round negative d.inUnits.1 d.inUnits.2 := by
  unfold toBinary64
  split
  next h =>
    simp only [Bool.or_eq_true, decide_eq_true_eq] at h
    rcases h with h | h
    · exact (Binary64.round_eq_zero (nearestUnits_of_digits_eq_zero h)).symm
    · exact (Binary64.round_eq_zero (nearestUnits_of_surelyZero h)).symm
  next h =>
    split
    next hinf =>
      simp only [Bool.or_eq_true, decide_eq_true_eq, not_or] at h
      obtain ⟨hle, hden⟩ := limit_le_of_surelyInfinite h.1 hinf
      rw [hden, Binary64.round_eq_infinite hle]
    · rfl

end Decimal

end LetLang
