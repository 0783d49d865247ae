import LetLang.Number.Power
import LetLang.Number.Rounding

/-!
# Double-precision numbers

A finite double is a sign and a magnitude; the magnitude is counted in units of `2^-1074`, the
smallest positive double, so every finite double is an exact natural number of units.

* `Binary64.Representable`: at most 53 significant bits and below `2^1024`.
* `Binary64.nearestUnits`: the one rounding function; every operation computes an exact quotient of
  units and rounds it once.
* `Binary64.ofInt?`, `add`, `sub`, `mul`, `truncate`: the arithmetic of the language.

The order of doubles and their division are left out: no operator of the language needs them.
-/

namespace LetLang

namespace Binary64

/-! ## Magnitudes -/

def unitsInOne : Nat := twoPow 1074

/-- The number of units in `2^1024`, the first power of two beyond the finite doubles. -/
def unitsLimit : Nat := twoPow 2098

/-- The distance in units between neighbouring doubles of the binade that holds `units`. -/
def spacing (units : Nat) : Nat := twoPow (units.log2 - 52)

def Representable (units : Nat) : Prop :=
  units < unitsLimit ∧ spacing units ∣ units

instance (units : Nat) : Decidable (Representable units) :=
  inferInstanceAs (Decidable (_ ∧ _))

/-- The magnitude of a finite double, in units. -/
structure Magnitude where
  units : Nat
  representable : Representable units
  deriving DecidableEq

namespace Magnitude

def zero : Magnitude := ⟨0, by decide +kernel⟩

@[ext] theorem ext {a b : Magnitude} (h : a.units = b.units) : a = b := by
  cases a
  cases b
  simp_all

end Magnitude

/-! ## Rounding to a representable number of units -/

/-- The number of units nearest to `num / den` among those with at most 53 significant bits; a tie
goes to the even significand. The result may lie beyond the finite doubles. -/
def nearestUnits (num den : Nat) : Nat :=
  roundDiv num (den * spacing (num / den)) * spacing (num / den)

theorem unitsInOne_pos : 0 < unitsInOne := twoPow_pos 1074

theorem unitsLimit_pos : 0 < unitsLimit := twoPow_pos 2098

theorem spacing_pos (units : Nat) : 0 < spacing units := twoPow_pos _

theorem div_spacing_lt (q : Nat) : q / spacing q < twoPow 53 := by
  rw [Nat.div_lt_iff_lt_mul (spacing_pos q), spacing, ← twoPow_add]
  exact Nat.lt_of_lt_of_le (lt_twoPow_log2_succ q) (twoPow_le_twoPow (by omega))

/-- A multiple of a power of two with at most 53 bits above it is spaced as its binade asks. -/
theorem spacing_dvd_mul_twoPow {m e : Nat} (hm : m ≤ twoPow 53) :
    spacing (m * twoPow e) ∣ m * twoPow e := by
  rcases Nat.eq_zero_or_pos m with rfl | hpos
  · simp
  rcases Nat.lt_or_eq_of_le hm with hlt | rfl
  · have hne : m * twoPow e ≠ 0 := Nat.ne_of_gt (Nat.mul_pos hpos (twoPow_pos e))
    have hmul : m * twoPow e < twoPow (53 + e) := by
      rw [twoPow_add]
      exact Nat.mul_lt_mul_of_pos_right hlt (twoPow_pos e)
    have hlog := log2_lt_of_lt_twoPow hne hmul
    exact Nat.dvd_trans (twoPow_dvd_twoPow (by omega)) (Nat.dvd_mul_left _ m)
  · rw [← twoPow_add, spacing, log2_twoPow]
    exact twoPow_dvd_twoPow (by omega)

/-- Rounding lands on a multiple of the spacing of the binade it lands in. -/
theorem spacing_dvd_nearestUnits (num den : Nat) :
    spacing (nearestUnits num den) ∣ nearestUnits num den := by
  apply spacing_dvd_mul_twoPow
  have hle := roundDiv_le num (den * spacing (num / den))
  have hlt : num / (den * spacing (num / den)) < twoPow 53 := by
    rw [← Nat.div_div_eq_div_mul]
    exact div_spacing_lt (num / den)
  omega

/-- A whole number of units that is spaced as its binade asks is kept by rounding. -/
theorem nearestUnits_mul_self {units c : Nat} (hc : 0 < c) (h : spacing units ∣ units) :
    nearestUnits (c * units) c = units := by
  obtain ⟨k, hk⟩ := h
  have hround : roundDiv (c * units) (c * spacing units) = k := by
    have hsplit : c * units = c * spacing units * k := by
      rw [Nat.mul_assoc, ← hk]
    rw [hsplit]
    exact roundDiv_mul_left k (Nat.mul_pos hc (spacing_pos units))
  rw [nearestUnits, Nat.mul_div_cancel_left _ hc, hround, Nat.mul_comm]
  exact hk.symm

/-- Rounding stays above every power of two that lies below. -/
theorem twoPow_le_nearestUnits {k n : Nat} (h : twoPow k ≤ n) : twoPow k ≤ nearestUnits n 1 := by
  have hpos := twoPow_pos k
  have hself : twoPow n.log2 ≤ n := twoPow_log2_le (by omega)
  have hround : n / spacing n * spacing n ≤ nearestUnits n 1 := by
    simp only [nearestUnits, Nat.div_one, Nat.one_mul]
    exact Nat.mul_le_mul_right _ (le_roundDiv _ _)
  have hfloor : twoPow n.log2 ≤ n / spacing n * spacing n := by
    by_cases hlog : 52 ≤ n.log2
    · have hsplit : twoPow n.log2 = twoPow 52 * spacing n := by
        rw [spacing, ← twoPow_add]
        congr 1
        omega
      rw [hsplit]
      apply Nat.mul_le_mul_right
      rw [Nat.le_div_iff_mul_le (spacing_pos n), ← hsplit]
      exact hself
    · have hone : spacing n = 1 := by
        have hzero : n.log2 - 52 = 0 := by omega
        rw [spacing, hzero, twoPow_zero]
      simpa [hone] using hself
  calc twoPow k ≤ twoPow n.log2 := twoPow_le_twoPow (le_log2_of_twoPow_le h)
    _ ≤ n / spacing n * spacing n := hfloor
    _ ≤ nearestUnits n 1 := hround

/-- What lies below one half rounds to nothing. -/
theorem nearestUnits_eq_zero {num den : Nat} (h : 2 * num < den) : nearestUnits num den = 0 := by
  have hdiv : num / den = 0 := Nat.div_eq_of_lt (by omega)
  have hmod : num % den = num := Nat.mod_eq_of_lt (by omega)
  simp [nearestUnits, hdiv, spacing, roundDiv, hmod, h]

end Binary64

/-! ## The numbers -/

/-- A double-precision number. The sign of a NaN is not kept: nothing shows it. -/
inductive Binary64 where
  | nan
  | infinite (negative : Bool)
  | finite (negative : Bool) (magnitude : Binary64.Magnitude)
  deriving DecidableEq

namespace Binary64

def zero : Binary64 := .finite false .zero

/-- The double nearest to `num / den` units with the given sign; a tie goes to the even significand,
and what rounds to `2^1024` or beyond is infinite. -/
def round (negative : Bool) (num den : Nat) : Binary64 :=
  if h : nearestUnits num den < unitsLimit then
    .finite negative ⟨nearestUnits num den, h, spacing_dvd_nearestUnits num den⟩
  else
    .infinite negative

/-- The number of units of a finite double, with its sign. -/
def signedUnits (negative : Bool) (magnitude : Magnitude) : Int :=
  if negative then -(magnitude.units : Int) else magnitude.units

/-- A representable number of units rounds to itself. -/
theorem round_mul_self (negative : Bool) (magnitude : Magnitude) {c : Nat} (hc : 0 < c) :
    round negative (c * magnitude.units) c = .finite negative magnitude := by
  have h := nearestUnits_mul_self hc magnitude.representable.2
  have hlt : nearestUnits (c * magnitude.units) c < unitsLimit := by
    rw [h]
    exact magnitude.representable.1
  rw [round, dif_pos hlt]
  congr 1
  exact Magnitude.ext h

theorem round_eq_zero {negative : Bool} {num den : Nat} (h : nearestUnits num den = 0) :
    round negative num den = .finite negative .zero := by
  have hlt : nearestUnits num den < unitsLimit := by
    rw [h]
    exact unitsLimit_pos
  rw [round, dif_pos hlt]
  congr 1
  exact Magnitude.ext h

theorem round_eq_infinite {negative : Bool} {n : Nat} (h : unitsLimit ≤ n) :
    round negative n 1 = .infinite negative := by
  have hle : unitsLimit ≤ nearestUnits n 1 := twoPow_le_nearestUnits h
  rw [round, dif_neg (by omega)]

/-! ## Equality -/

/-- Numeric equality: the two zeros are equal, and a NaN equals nothing. -/
def equals : Binary64 → Binary64 → Bool
  | .infinite n₁, .infinite n₂ => n₁ == n₂
  | .finite n₁ m₁, .finite n₂ m₂ => signedUnits n₁ m₁ == signedUnits n₂ m₂
  | _, _ => false

def isZero (x : Binary64) : Bool := x.equals zero

/-! ## Conversions with the integers -/

def finite? : Binary64 → Option Binary64
  | .finite negative magnitude => some (.finite negative magnitude)
  | _ => none

/-- The double nearest to an integer; `none` if the integer rounds to `2^1024` or beyond. -/
def ofInt? (n : Int) : Option Binary64 :=
  (round (decide (n < 0)) (n.natAbs * unitsInOne) 1).finite?

inductive Truncated where
  | whole (n : Int)
  | infinite
  | undefined
  deriving DecidableEq, Repr

def truncate : Binary64 → Truncated
  | .nan => .undefined
  | .infinite _ => .infinite
  | .finite false m => .whole (m.units / unitsInOne : Nat)
  | .finite true m => .whole (-((m.units / unitsInOne : Nat) : Int))

/-! ## Arithmetic -/

def neg : Binary64 → Binary64
  | .nan => .nan
  | .infinite n => .infinite (!n)
  | .finite n m => .finite (!n) m

/-- The exact sum, rounded. A sum of zero is negative only when both operands are. -/
def add : Binary64 → Binary64 → Binary64
  | .nan, _ => .nan
  | _, .nan => .nan
  | .infinite n₁, .infinite n₂ => if n₁ = n₂ then .infinite n₁ else .nan
  | .infinite n, .finite _ _ => .infinite n
  | .finite _ _, .infinite n => .infinite n
  | .finite n₁ m₁, .finite n₂ m₂ =>
      let sum := signedUnits n₁ m₁ + signedUnits n₂ m₂
      if sum = 0 then .finite (n₁ && n₂) .zero
      else round (decide (sum < 0)) sum.natAbs 1

def sub (x y : Binary64) : Binary64 := add x y.neg

/-- The exact product, rounded; an infinity times a zero is undefined. -/
def mul : Binary64 → Binary64 → Binary64
  | .nan, _ => .nan
  | _, .nan => .nan
  | .infinite n₁, .infinite n₂ => .infinite (n₁ != n₂)
  | .infinite n₁, .finite n₂ m₂ => if m₂.units = 0 then .nan else .infinite (n₁ != n₂)
  | .finite n₁ m₁, .infinite n₂ => if m₁.units = 0 then .nan else .infinite (n₁ != n₂)
  | .finite n₁ m₁, .finite n₂ m₂ => round (n₁ != n₂) (m₁.units * m₂.units) unitsInOne

end Binary64

end LetLang
