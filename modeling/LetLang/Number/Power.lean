/-!
# Powers of two and ten

* `twoPow`, `tenPow`: the powers that binary and decimal numbers are counted in.
-/

namespace LetLang

def twoPow (k : Nat) : Nat := Nat.pow 2 k

def tenPow (k : Nat) : Nat := Nat.pow 10 k

theorem twoPow_pos (k : Nat) : 0 < twoPow k := Nat.pow_pos (by decide)

theorem tenPow_pos (k : Nat) : 0 < tenPow k := Nat.pow_pos (by decide)

@[simp] theorem twoPow_zero : twoPow 0 = 1 := rfl

@[simp] theorem tenPow_zero : tenPow 0 = 1 := rfl

theorem twoPow_add (a b : Nat) : twoPow (a + b) = twoPow a * twoPow b := by
  simp [twoPow, Nat.pow_add]

theorem tenPow_add (a b : Nat) : tenPow (a + b) = tenPow a * tenPow b := by
  simp [tenPow, Nat.pow_add]

theorem twoPow_succ (k : Nat) : twoPow (k + 1) = 2 * twoPow k := by
  rw [Nat.add_comm, twoPow_add]
  rfl

theorem twoPow_le_twoPow {a b : Nat} (h : a ≤ b) : twoPow a ≤ twoPow b :=
  Nat.pow_le_pow_right (by decide) h

theorem twoPow_dvd_twoPow {a b : Nat} (h : a ≤ b) : twoPow a ∣ twoPow b :=
  Nat.pow_dvd_pow 2 h

/-- Ten is at least eight. -/
theorem twoPow_three_mul_le_tenPow (k : Nat) : twoPow (3 * k) ≤ tenPow k := by
  have h : twoPow (3 * k) = Nat.pow 8 k := by
    simp only [twoPow, Nat.pow_eq, Nat.pow_mul]
  rw [h]
  exact Nat.pow_le_pow_left (by decide) k

/-! ## Binary logarithms -/

theorem lt_twoPow_log2_succ (n : Nat) : n < twoPow (n.log2 + 1) := Nat.lt_log2_self

theorem twoPow_log2_le {n : Nat} (h : n ≠ 0) : twoPow n.log2 ≤ n :=
  (Nat.le_log2 h).1 (Nat.le_refl _)

theorem le_log2_of_twoPow_le {k n : Nat} (h : twoPow k ≤ n) : k ≤ n.log2 := by
  have hpos := twoPow_pos k
  exact (Nat.le_log2 (by omega)).2 h

theorem log2_lt_of_lt_twoPow {k n : Nat} (hn : n ≠ 0) (h : n < twoPow k) : n.log2 < k :=
  (Nat.log2_lt hn).2 h

theorem log2_mul_twoPow {a : Nat} (ha : a ≠ 0) (k : Nat) : (a * twoPow k).log2 = a.log2 + k := by
  have hpos : a * twoPow k ≠ 0 := Nat.mul_ne_zero ha (Nat.ne_of_gt (twoPow_pos k))
  refine (Nat.log2_eq_iff hpos).2 ⟨?_, ?_⟩
  · calc twoPow (a.log2 + k) = twoPow a.log2 * twoPow k := twoPow_add _ _
      _ ≤ a * twoPow k := Nat.mul_le_mul_right _ (twoPow_log2_le ha)
  · calc a * twoPow k < twoPow (a.log2 + 1) * twoPow k :=
          Nat.mul_lt_mul_of_pos_right (lt_twoPow_log2_succ a) (twoPow_pos k)
      _ = twoPow (a.log2 + 1 + k) := (twoPow_add _ _).symm
      _ = twoPow (a.log2 + k + 1) := by rw [Nat.add_right_comm]

@[simp] theorem log2_twoPow (k : Nat) : (twoPow k).log2 = k := Nat.log2_two_pow

end LetLang
