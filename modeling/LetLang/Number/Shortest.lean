import LetLang.Number.Decimal

/-!
# The shortest decimal that reads back

* `Binary64.Magnitude.shortest` has the fewest digits among the decimals that read back as the
  magnitude, and of those it is the nearest; an exact tie goes to the even digit.
* On the grid of multiples of `10^exponent` only the two neighbours of the magnitude can be the
  nearest decimal that reads back, so only they are tried.
-/

namespace LetLang

namespace Binary64

namespace Magnitude

/-- The magnitude in multiples of `10^exponent`, as numerator and denominator. -/
def onGrid (m : Magnitude) (exponent : Int) : Nat × Nat :=
  if 0 ≤ exponent then
    (m.units, unitsInOne * tenPow exponent.toNat)
  else
    (m.units * tenPow (-exponent).toNat, unitsInOne)

/-- The number of digits before the decimal point of a positive magnitude; zero or negative when the
magnitude is below one tenth. No positive magnitude is below `10^-324`. -/
def integerDigits (m : Magnitude) : Int :=
  let scaled := m.onGrid (-324)
  ((Nat.toDigits 10 (scaled.1 / scaled.2)).length : Int) - 324

def readsBack (m : Magnitude) (d : Decimal) : Bool :=
  d.toBinary64 false == .finite false m

/-- The nearest decimal with the given exponent that reads back as the magnitude. -/
def nearestOnGrid? (m : Magnitude) (exponent : Int) : Option Decimal :=
  let scaled := m.onGrid exponent
  let below := scaled.1 / scaled.2
  ([roundDiv scaled.1 scaled.2, below, below + 1].map (Decimal.mk · exponent)).find? m.readsBack

/-- A unit counted in multiples of `10^-1074`. -/
def unitDigits : Nat := Nat.pow 5 1074

def expansion (m : Magnitude) : Decimal :=
  ⟨m.units * unitDigits, -1074⟩

/-- The shortest decimal that reads back as the magnitude, nearest first; seventeen digits suffice.
-/
def shortest (m : Magnitude) : Decimal :=
  ((List.range 17).findSome? fun (n : Nat) =>
    m.nearestOnGrid? (m.integerDigits - (n + 1))).getD m.expansion

/-! ## The result reads back -/

private theorem unitDigits_mul_unitsInOne : unitDigits * unitsInOne = tenPow 1074 := by
  decide +kernel

/-- The exact expansion reads back, so there is a decimal to fall back on. -/
theorem readsBack_expansion (m : Magnitude) : m.readsBack m.expansion = true := by
  have hunits : m.expansion.inUnits = (tenPow 1074 * m.units, tenPow 1074) := by
    have hneg : m.expansion.exponent < 0 := by
      show (-1074 : Int) < 0
      decide
    rw [Decimal.inUnits_of_neg hneg, expansion, Nat.mul_assoc, unitDigits_mul_unitsInOne,
      Nat.mul_comm]
    rfl
  rw [readsBack, Decimal.toBinary64_eq_round, hunits, round_mul_self false m (tenPow_pos _)]
  exact beq_self_eq_true _

theorem readsBack_of_nearestOnGrid? {m : Magnitude} {exponent : Int} {d : Decimal}
    (h : m.nearestOnGrid? exponent = some d) : m.readsBack d = true :=
  List.find?_some h

/-- The result reads back as the magnitude it was made from. -/
theorem readsBack_shortest (m : Magnitude) : m.readsBack m.shortest = true := by
  unfold shortest
  cases hfind : (List.range 17).findSome? fun (n : Nat) =>
      m.nearestOnGrid? (m.integerDigits - (n + 1)) with
  | none => exact readsBack_expansion m
  | some d =>
    obtain ⟨n, _, hd⟩ := List.exists_of_findSome?_eq_some hfind
    exact readsBack_of_nearestOnGrid? hd

end Magnitude

end Binary64

end LetLang
