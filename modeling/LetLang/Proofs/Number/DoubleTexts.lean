import LetLang.Proofs.LiteralTexts
import LetLang.Proofs.Number.IntegerOperations

/-!
# Texts of doubles

The text of a double is read back as the double, so different doubles have different texts. A text
is made of digits and of the weight of the first one, in one of two layouts; either layout stands
for its digits, and rounding them gives the double.
-/

namespace LetLang

/-! ## Rounding a quotient -/

namespace Binary64

theorem nearestUnits_mul_mul (num den : Nat) {c : Nat} (hc : 0 < c) :
    nearestUnits (c * num) (c * den) = nearestUnits num den := by
  rw [nearestUnits, nearestUnits, Nat.mul_div_mul_left _ _ hc, Nat.mul_assoc,
    roundDiv_mul_mul _ _ hc]

/-- Rounding depends on the quotient only. -/
theorem nearestUnits_eq_of_mul_eq {num den num' den' : Nat} (hden : 0 < den) (hden' : 0 < den')
    (h : num * den' = num' * den) : nearestUnits num den = nearestUnits num' den' := by
  calc nearestUnits num den = nearestUnits (den' * num) (den' * den) :=
        (nearestUnits_mul_mul num den hden').symm
    _ = nearestUnits (den * num') (den * den') := by
        rw [Nat.mul_comm den' num, h, Nat.mul_comm num', Nat.mul_comm den']
    _ = nearestUnits num' den' := nearestUnits_mul_mul num' den' hden

/-- The sign has no part in rounding. -/
theorem round_eq_finite {num den : Nat} {magnitude : Magnitude}
    (h : round false num den = .finite false magnitude) (negative : Bool) :
    round negative num den = .finite negative magnitude := by
  unfold round at h ⊢
  split at h
  · next hlt =>
    cases h
    rw [dif_pos hlt]
  · cases h

end Binary64

/-! ## Digits -/

/-- Digits in front weigh more by a power of ten. -/
theorem digitsValue_append (digits more : List Char) :
    digitsValue (digits ++ more) = digitsValue digits * tenPow more.length + digitsValue more := by
  -- In front of the rest stand the digits that were read before.
  have hfold (start : Nat) : more.foldl (fun n c => 10 * n + (digitValue? c).getD 0) start =
      start * tenPow more.length + digitsValue more := by
    induction more generalizing start with
    | nil => simp [digitsValue]
    | cons c more ih =>
      have hfirst : digitsValue (c :: more) =
          (digitValue? c).getD 0 * tenPow more.length + digitsValue more := by
        have hrest := ih (10 * 0 + (digitValue? c).getD 0)
        rw [Nat.mul_zero, Nat.zero_add] at hrest
        rw [← hrest, digitsValue, List.foldl_cons, Nat.mul_zero, Nat.zero_add]
      have hlength : tenPow (c :: more).length = 10 * tenPow more.length := by
        rw [List.length_cons, Nat.add_comm, tenPow_add]
        rfl
      rw [List.foldl_cons, ih, hfirst, hlength, Nat.add_mul, Nat.mul_left_comm, Nat.mul_assoc,
        Nat.add_assoc]
  rw [digitsValue, List.foldl_append]
  exact hfold _

@[simp] theorem digitsValue_zeros (n : Nat) : digitsValue (List.replicate n '0') = 0 := by
  have hzero : digitsValue ['0'] = 0 := by decide
  induction n with
  | zero => rfl
  | succ n ih => rw [List.replicate_succ', digitsValue_append, ih, hzero, Nat.zero_mul]

theorem isDigit_of_mem_zeros {n : Nat} {c : Char} (h : c ∈ List.replicate n '0') :
    isDigit c = true := by
  rw [List.eq_of_mem_replicate h]
  decide

theorem IsDigits.zeros_append {digits : List Char} (h : IsDigits digits) (n : Nat) :
    IsDigits (List.replicate n '0' ++ digits) := by
  refine ⟨List.append_ne_nil_of_right_ne_nil _ h.1, fun c hc => ?_⟩
  rcases List.mem_append.1 hc with hc | hc
  · exact isDigit_of_mem_zeros hc
  · exact h.2 c hc

theorem isDigits_toDigits (n : Nat) : IsDigits (Nat.toDigits 10 n) := by
  refine ⟨Nat.toDigits_ne_nil, fun c hc => ?_⟩
  exact isDigit_of_isDigit (Nat.isDigit_of_mem_toDigits (by decide) (by decide) hc)

/-- The digits of a number stand for it. -/
theorem digitsValue_toDigits (n : Nat) : digitsValue (Nat.toDigits 10 n) = n := by
  have hdigits : ∀ c ∈ Nat.toDigits 10 n, c.isDigit = true :=
    fun c hc => Nat.isDigit_of_mem_toDigits (by decide) (by decide) hc
  rw [digitsValue_eq_ofDigitChars hdigits, Nat.ofDigitChars_ten_toDigits]

/-! ## Decimals of one number -/

namespace Decimal

theorem inUnits_pos (d : Decimal) : 0 < d.inUnits.2 := by
  unfold inUnits
  split
  · exact Nat.one_pos
  · exact tenPow_pos _

/-- Zeros at the end of the digits may be counted in the exponent. -/
theorem toBinary64_mul_tenPow (negative : Bool) (digits k : Nat) (exponent : Int) :
    toBinary64 negative ⟨digits * tenPow k, exponent⟩ =
      toBinary64 negative ⟨digits, exponent + k⟩ := by
  rw [toBinary64_eq_round, toBinary64_eq_round]
  apply Binary64.round_congr
  apply Binary64.nearestUnits_eq_of_mul_eq (inUnits_pos _) (inUnits_pos _)
  simp only [inUnits]
  generalize Binary64.unitsInOne = unit
  -- The power that moves is a factor of whichever power the signs of the exponents leave.
  split
  next hpos =>
    have hsplit : (exponent + k).toNat = k + exponent.toNat := by omega
    rw [if_pos (by omega), hsplit, tenPow_add]
    simp only [Nat.mul_assoc]
  next hneg =>
    split
    next hpos =>
      have hsplit : tenPow k = tenPow (exponent + k).toNat * tenPow (-exponent).toNat := by
        rw [← tenPow_add]
        congr 1
        omega
      rw [hsplit]
      simp only [Nat.mul_one]
      ac_rfl
    next hneg' =>
      have hsplit : (-exponent).toNat = k + (-(exponent + k)).toNat := by omega
      rw [hsplit, tenPow_add]
      dsimp only
      ac_rfl

/-- The sign has no part in the rounding of a decimal. -/
theorem toBinary64_eq_finite {d : Decimal} {magnitude : Binary64.Magnitude}
    (h : d.toBinary64 false = .finite false magnitude) (negative : Bool) :
    d.toBinary64 negative = .finite negative magnitude := by
  rw [toBinary64_eq_round] at h ⊢
  exact Binary64.round_eq_finite h negative

/-- The number with these digits, the first of which has weight `10^leading`. -/
def ofLeading (digits : List Char) (leading : Int) : Decimal :=
  ⟨digitsValue digits, leading + 1 - digits.length⟩

variable (d : Decimal)

/-- The significant digits are all digits but zeros at the end. -/
theorem exists_toDigits_eq :
    ∃ zeros, Nat.toDigits 10 d.digits = d.significantDigits ++ List.replicate zeros '0' := by
  have hsplit := List.takeWhile_append_dropWhile (p := (· == '0'))
    (l := (Nat.toDigits 10 d.digits).reverse)
  have hzeros : (Nat.toDigits 10 d.digits).reverse.takeWhile (· == '0') =
      List.replicate ((Nat.toDigits 10 d.digits).reverse.takeWhile (· == '0')).length '0' := by
    refine List.eq_replicate_of_mem fun c hc => ?_
    have hzero := List.mem_takeWhile_imp hc
    simpa using hzero
  refine ⟨((Nat.toDigits 10 d.digits).reverse.takeWhile (· == '0')).length, ?_⟩
  rw [hzeros] at hsplit
  have hreverse := congrArg List.reverse hsplit
  rw [List.reverse_append, List.reverse_replicate, List.reverse_reverse] at hreverse
  exact hreverse.symm

theorem isDigit_of_mem_significantDigits {c : Char} (h : c ∈ d.significantDigits) :
    isDigit c = true := by
  obtain ⟨zeros, hzeros⟩ := d.exists_toDigits_eq
  exact (isDigits_toDigits d.digits).2 c (hzeros ▸ List.mem_append_left _ h)

/-- A number that is not zero has a digit that counts. -/
theorem isDigits_significantDigits (h : d.digits ≠ 0) : IsDigits d.significantDigits := by
  refine ⟨fun hnil => h ?_, fun c hc => d.isDigit_of_mem_significantDigits hc⟩
  obtain ⟨zeros, hzeros⟩ := d.exists_toDigits_eq
  rw [hnil, List.nil_append] at hzeros
  rw [← digitsValue_toDigits d.digits, hzeros, digitsValue_zeros]

/-- The digits that count and the weight of the first one make the number. -/
theorem toBinary64_ofLeading (negative : Bool) :
    (ofLeading d.significantDigits d.leadingExponent).toBinary64 negative =
      d.toBinary64 negative := by
  obtain ⟨zeros, hzeros⟩ := d.exists_toDigits_eq
  have hdigits : d.digits = digitsValue d.significantDigits * tenPow zeros := by
    have hvalue := digitsValue_toDigits d.digits
    rw [hzeros, digitsValue_append, digitsValue_zeros, List.length_replicate] at hvalue
    exact hvalue.symm
  have hexponent : d.leadingExponent + 1 - d.significantDigits.length = d.exponent + zeros := by
    rw [leadingExponent, hzeros, List.length_append, List.length_replicate]
    omega
  have hself : d = ⟨digitsValue d.significantDigits * tenPow zeros, d.exponent⟩ := by
    rw [← hdigits]
  rw [ofLeading, hexponent, ← toBinary64_mul_tenPow, ← hself]

/-- Positional text is digits around a point: the digits that it was made from, and maybe zeros
beside them. -/
theorem exists_positional {digits : List Char} (h : IsDigits digits) (leading : Int) :
    ∃ whole fraction, positional digits leading = whole ++ '.' :: fraction ∧ IsDigits whole ∧
      IsDigits fraction ∧ ∃ zeros : Nat,
        digitsValue (whole ++ fraction) = digitsValue digits * tenPow zeros ∧
        -(fraction.length : Int) = leading + 1 - digits.length - zeros := by
  have hzero : IsDigits ['0'] := isDigits_toDigits 0
  have hvalue : digitsValue ['0'] = 0 := digitsValue_toDigits 0
  unfold positional
  split
  next hneg =>
    -- All digits stand behind the point.
    refine ⟨['0'], _, rfl, hzero, h.zeros_append _, 0, ?_, ?_⟩
    · simp only [digitsValue_append, digitsValue_zeros, hvalue, tenPow_zero, Nat.zero_mul,
        Nat.zero_add, Nat.mul_one]
    · rw [List.length_append, List.length_replicate]
      omega
  next hpos =>
    simp only
    split
    next hempty =>
      -- All digits stand in front of the point.
      have hlength : digits.length ≤ leading.toNat + 1 := by simpa using hempty
      have hwhole : IsDigits (digits ++ List.replicate (leading.toNat + 1 - digits.length) '0') :=
        h.append fun c hc => isDigit_of_mem_zeros hc
      rw [List.take_of_length_le hlength]
      refine ⟨_, ['0'], rfl, hwhole, hzero, leading.toNat + 1 - digits.length + 1, ?_, ?_⟩
      · simp only [digitsValue_append, digitsValue_zeros, hvalue, tenPow_add,
          List.length_replicate, List.length_singleton, Nat.add_zero, Nat.mul_assoc]
      · rw [List.length_singleton]
        omega
    next hfraction =>
      -- The digits stand on both sides of the point.
      have hlength : leading.toNat + 1 < digits.length := by simpa using hfraction
      have hwhole : IsDigits (digits.take (leading.toNat + 1)) :=
        ⟨by simp [h.1], fun c hc => h.2 c (List.mem_of_mem_take hc)⟩
      have hrest : IsDigits (digits.drop (leading.toNat + 1)) :=
        ⟨by simpa using hlength, fun c hc => h.2 c (List.mem_of_mem_drop hc)⟩
      have hnone : leading.toNat + 1 - digits.length = 0 := by omega
      rw [hnone, List.replicate_zero, List.append_nil]
      refine ⟨_, _, rfl, hwhole, hrest, 0, ?_, ?_⟩
      · rw [List.take_append_drop, tenPow_zero, Nat.mul_one]
      · rw [List.length_drop]
        omega

end Decimal

/-- A decimal without digits that count would read back as zero. -/
theorem Binary64.Magnitude.digits_shortest_ne_zero {magnitude : Magnitude}
    (h : magnitude.units ≠ 0) : magnitude.shortest.digits ≠ 0 := by
  have hback := magnitude.readsBack_shortest
  rw [readsBack, beq_iff_eq] at hback
  intro hnone
  have hzero : magnitude.shortest.toBinary64 false = .finite false .zero := by
    simp [Decimal.toBinary64, hnone]
  rw [hzero] at hback
  injection hback with _ hmagnitude
  exact h (hmagnitude ▸ rfl)

/-! ## Reading -/

namespace Literal

open Decimal

variable {whole fraction tail digits : List Char}

/-- Digits around a point, in front of an exponent or nothing. -/
theorem decimal?_append_point (hwhole : IsDigits whole) (hfraction : IsDigits fraction)
    (htail : StopsAt isDigit tail) (hunderscore : tail.head? ≠ some '_') :
    decimal? (whole ++ '.' :: (fraction ++ tail)) = (exponent? tail).map fun e =>
      ⟨digitsValue (whole ++ fraction), e - fraction.length⟩ := by
  simp [decimal?, digitRun_of_point hwhole, digitRun_append hfraction htail hunderscore, hwhole.1]

theorem stopsAt_exponent (tail : List Char) : StopsAt isDigit ('e' :: tail) := by
  intro c hc
  cases hc
  decide

/-- Digits without a point, in front of an exponent. -/
theorem decimal?_append_exponent (hwhole : IsDigits whole) (tail : List Char) :
    decimal? (whole ++ 'e' :: tail) = (exponent? ('e' :: tail)).map fun e =>
      ⟨digitsValue whole, e⟩ := by
  have hrun : digitRun (whole ++ 'e' :: tail) = (whole, 'e' :: tail) :=
    digitRun_append hwhole (stopsAt_exponent tail) (by simp)
  simp [decimal?, hrun, hwhole.1]

/-- The sign of an integer and its distance from zero make the integer. -/
theorem signed_natAbs (n : Int) : signed (decide (n < 0)) n.natAbs = n := by
  unfold signed
  split
  · next h =>
    rw [decide_eq_true_eq] at h
    omega
  · next h =>
    rw [decide_eq_true_eq] at h
    omega

/-- The sign and the digits of a numeral. -/
theorem sign_numeralChars (n : Int) :
    sign (numeralChars n) = (decide (n < 0), Nat.toDigits 10 n.natAbs) := by
  unfold numeralChars
  split
  · next h => rw [decide_eq_true h, sign]
  · next h =>
    have hsign := sign_append (isDigits_toDigits n.natAbs) []
    rw [List.append_nil] at hsign
    rw [hsign, decide_eq_false h]

/-- An exponent is read back, whatever zeros stand in front of its digits. -/
theorem exponent?_signed (leading : Int) (zeros : Nat) :
    exponent? ('e' :: (if leading < 0 then '-' else '+') ::
      (List.replicate zeros '0' ++ Nat.toDigits 10 leading.natAbs)) = some leading := by
  have hdigits := (isDigits_toDigits leading.natAbs).zeros_append zeros
  have hvalue : digitsValue (List.replicate zeros '0' ++ Nat.toDigits 10 leading.natAbs) =
      leading.natAbs := by
    rw [digitsValue_append, digitsValue_zeros, digitsValue_toDigits, Nat.zero_mul, Nat.zero_add]
  have hsign (rest : List Char) :
      sign ((if leading < 0 then '-' else '+') :: rest) = (decide (leading < 0), rest) := by
    split <;> simp [sign, *]
  simp only [exponent?, hsign, digitRun_of_isDigits hdigits, hvalue, signed_natAbs]
  simp [hdigits.1]

/-- Digits around a point and nothing else. -/
theorem decimal?_of_point (hwhole : IsDigits whole) (hfraction : IsDigits fraction) :
    decimal? (whole ++ '.' :: fraction) =
      some ⟨digitsValue (whole ++ fraction), -(fraction.length : Int)⟩ := by
  have hnil : StopsAt isDigit [] := by simp [StopsAt]
  have hpoint := decimal?_append_point hwhole hfraction hnil (by simp)
  simpa [exponent?] using hpoint

/-- Positional text stands for its digits, and maybe for zeros behind them. -/
theorem decimal?_positional (h : IsDigits digits) (leading : Int) :
    ∃ zeros : Nat, decimal? (positional digits leading) =
      some ⟨digitsValue digits * tenPow zeros, leading + 1 - digits.length - zeros⟩ := by
  obtain ⟨whole, fraction, htext, hwhole, hfraction, zeros, hvalue, hexponent⟩ :=
    exists_positional h leading
  refine ⟨zeros, ?_⟩
  rw [htext, decimal?_of_point hwhole hfraction, hvalue, hexponent]

/-- Text with an exponent stands for its digits. -/
theorem decimal?_scientific (style : DecimalStyle) (h : IsDigits digits) (leading : Int) :
    decimal? (scientific style digits leading) = some (ofLeading digits leading) := by
  cases digits with
  | nil => exact absurd rfl h.1
  | cons first rest =>
    obtain ⟨hfirst, hrest⟩ := List.forall_mem_cons.1 h.2
    have hsingle : IsDigits [first] := ⟨by simp, List.forall_mem_singleton.2 hfirst⟩
    cases rest with
    | nil =>
      refine (decimal?_append_exponent hsingle _).trans ?_
      rw [exponent?_signed, Option.map_some, ofLeading, List.length_singleton]
      congr 2
      omega
    | cons c rest =>
      have hfraction : IsDigits (c :: rest) := ⟨by simp, hrest⟩
      have hread (tail : List Char) :=
        decimal?_append_point hsingle hfraction (stopsAt_exponent tail) (by simp)
      simp only [List.cons_append, List.nil_append] at hread
      simp only [scientific, List.take_succ_cons, List.take_zero, List.drop_succ_cons,
        List.drop_zero, List.isEmpty_cons, Bool.false_eq_true, if_false, List.cons_append,
        List.nil_append, hread, exponent?_signed, Option.map_some, ofLeading, List.length_cons]
      congr 2
      omega

/-- The text of a decimal stands for the same number. -/
theorem decimal?_written (style : DecimalStyle) {d : Decimal} (h : d.digits ≠ 0) :
    ∃ d', decimal? (d.written style) = some d' ∧
      ∀ negative, d'.toBinary64 negative = d.toBinary64 negative := by
  have hdigits := d.isDigits_significantDigits h
  unfold written
  split
  · obtain ⟨zeros, hread⟩ := decimal?_positional hdigits d.leadingExponent
    refine ⟨_, hread, fun negative => ?_⟩
    rw [toBinary64_mul_tenPow, Int.sub_add_cancel]
    exact d.toBinary64_ofLeading negative
  · exact ⟨_, decimal?_scientific style hdigits _, d.toBinary64_ofLeading⟩

/-- The text of a magnitude starts with a digit and stands for the magnitude. -/
theorem decimal?_magnitude (magnitude : Binary64.Magnitude) :
    ∃ d, decimal? magnitude.written = some d ∧
      ∀ negative, d.toBinary64 negative = .finite negative magnitude := by
  have hback := magnitude.readsBack_shortest
  rw [Binary64.Magnitude.readsBack, beq_iff_eq] at hback
  unfold Binary64.Magnitude.written
  split
  next hzero =>
    have hmagnitude : magnitude = .zero := Binary64.Magnitude.ext hzero
    refine ⟨⟨0, -1⟩, by decide, fun negative => ?_⟩
    simp [Decimal.toBinary64, hmagnitude]
  next hpos =>
    obtain ⟨d, hread, hsame⟩ :=
      decimal?_written .display (Binary64.Magnitude.digits_shortest_ne_zero hpos)
    refine ⟨d, hread, fun negative => ?_⟩
    rw [hsame, Decimal.toBinary64_eq_finite hback]

/-- A text that is read as digits has no sign. -/
theorem sign_of_decimal? {cs : List Char} {d : Decimal} (h : decimal? cs = some d) :
    sign cs = (false, cs) := by
  have hsign {c : Char} (hc : isDigit c = false) (hpoint : c ≠ '.') (cs : List Char) :
      decimal? (c :: cs) = none := by
    simp [decimal?, digitRun, hc, hpoint]
  unfold sign
  split
  · rw [hsign (by decide) (by decide)] at h
    cases h
  · rw [hsign (by decide) (by decide)] at h
    cases h
  · rfl

/-- The text of a double is read as the double. -/
theorem doubleOf?_textChars (x : Binary64) : doubleOf? x.textChars = some x := by
  cases x with
  | nan => decide
  | infinite negative => cases negative <;> decide
  | finite negative magnitude =>
    obtain ⟨d, hread, hround⟩ := decimal?_magnitude magnitude
    have hsign : sign (Binary64.finite negative magnitude).textChars =
        (negative, magnitude.written) := by
      cases negative with
      | false => exact sign_of_decimal? hread
      | true => rfl
    simp only [doubleOf?, hsign, hread, hround]

-- Two decimals of sixteen digits are equally near; the even one is written, and it reads back.
example : (Decimal.toBinary64 false ⟨56294995342131225, -2⟩).text = "562949953421312.2" := by
  decide +kernel

end Literal

namespace Binary64

/-- Different doubles have different texts. -/
theorem text_injective : Function.Injective Binary64.text := by
  intro x y h
  have hchars : x.textChars = y.textChars := String.ofList_injective h
  have hread := Literal.doubleOf?_textChars x
  rw [hchars, Literal.doubleOf?_textChars y] at hread
  exact (Option.some.inj hread).symm

/-! ## Characters -/

def signs : List Char := ['+', '-', '.', 'e', 'i', 'n', 'f', 'a']

def IsTextChar (c : Char) : Prop := isDigit c = true ∨ c ∈ signs

instance (c : Char) : Decidable (IsTextChar c) := inferInstanceAs (Decidable (_ ∨ _))

theorem isTextChar_of_all {text : List Char} (h : text.all (IsTextChar ·) = true) :
    ∀ c ∈ text, IsTextChar c := by
  simpa using h

theorem isTextChar_positional {digits : List Char} (h : ∀ c ∈ digits, isDigit c = true)
    (leading : Int) : ∀ c ∈ Decimal.positional digits leading, IsTextChar c := by
  have hzeros (n : Nat) : ∀ c ∈ List.replicate n '0', IsTextChar c :=
    fun c hc => .inl (isDigit_of_mem_zeros hc)
  unfold Decimal.positional
  split
  · simp only [List.forall_mem_cons, List.forall_mem_append]
    exact ⟨by decide, by decide, hzeros _, fun c hc => .inl (h c hc)⟩
  · simp only [List.forall_mem_cons, List.forall_mem_append]
    refine ⟨⟨fun c hc => .inl (h c (List.mem_of_mem_take hc)), hzeros _⟩, by decide, ?_⟩
    split
    · exact hzeros 1
    · exact fun c hc => .inl (h c (List.mem_of_mem_drop hc))

theorem isTextChar_scientific {digits : List Char} (h : ∀ c ∈ digits, isDigit c = true)
    (style : DecimalStyle) (leading : Int) :
    ∀ c ∈ Decimal.scientific style digits leading, IsTextChar c := by
  unfold Decimal.scientific
  simp only [List.forall_mem_cons, List.forall_mem_append]
  refine ⟨⟨fun c hc => .inl (h c (List.mem_of_mem_take hc)), ?_⟩, by decide, ?_, ?_, ?_⟩
  · split
    · exact List.forall_mem_nil _
    · exact List.forall_mem_cons.2
        ⟨by decide, fun c hc => .inl (h c (List.mem_of_mem_drop hc))⟩
  · split <;> decide
  · exact fun c hc => .inl (isDigit_of_mem_zeros hc)
  · exact fun c hc => .inl ((isDigits_toDigits _).2 c hc)

theorem isTextChar_magnitude (magnitude : Magnitude) : ∀ c ∈ magnitude.written, IsTextChar c := by
  have hdigits := fun c hc => magnitude.shortest.isDigit_of_mem_significantDigits (c := c) hc
  unfold Magnitude.written
  split
  · exact isTextChar_of_all (by decide)
  · unfold Decimal.written
    split
    · exact isTextChar_positional hdigits _
    · exact isTextChar_scientific hdigits _ _

/-- Every text of a double is made of these characters. -/
theorem isTextChar_textChars (x : Binary64) : ∀ c ∈ x.textChars, IsTextChar c := by
  cases x with
  | nan => exact isTextChar_of_all (by decide)
  | infinite negative => exact isTextChar_of_all (by cases negative <;> decide)
  | finite negative magnitude =>
    have hsign : ∀ c ∈ if negative then ['-'] else [], IsTextChar c :=
      isTextChar_of_all (by cases negative <;> decide)
    exact List.forall_mem_append.2 ⟨hsign, isTextChar_magnitude magnitude⟩

/-- The texts of integers have no other characters. -/
theorem isTextChar_numeralChars (n : Int) : ∀ c ∈ numeralChars n, IsTextChar c := by
  have hdigits : ∀ c ∈ Nat.toDigits 10 n.natAbs, IsTextChar c :=
    fun c hc => .inl ((isDigits_toDigits _).2 c hc)
  unfold numeralChars
  split
  · exact List.forall_mem_cons.2 ⟨by decide, hdigits⟩
  · exact hdigits

theorem IsTextChar.isBlank_eq_false {c : Char} (h : IsTextChar c) : isBlank c = false := by
  have hsigns : signs.all (!isBlank ·) = true := by decide
  rcases h with h | h
  · exact isBlank_of_isDigit h
  · simpa using List.all_eq_true.1 hsigns c h

end Binary64

end LetLang
