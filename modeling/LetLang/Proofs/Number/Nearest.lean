import LetLang.Number.Binary64

/-!
# Rounding integers to 53 significant bits

What it means to round an integer is said by a relation that does not mention how the rounding is
computed; the rounding of units satisfies it, and nothing else does.

* `IsShort`: at most 53 significant bits.
-/

namespace LetLang

/-! ## The nearest multiple -/

def distance (a b : Int) : Nat := (a - b).natAbs

/-- The three ways in which a quotient is rounded. -/
theorem roundDiv_cases (num den : Nat) :
    (2 * (num % den) < den ∧ roundDiv num den = num / den) ∨
      (den < 2 * (num % den) ∧ roundDiv num den = num / den + 1) ∨
      (2 * (num % den) = den ∧ roundDiv num den % 2 = 0 ∧
        (roundDiv num den = num / den ∨ roundDiv num den = num / den + 1)) := by
  unfold roundDiv
  split
  · exact .inl ⟨‹_›, rfl⟩
  · split
    · exact .inr (.inl ⟨‹_›, rfl⟩)
    · split
      · exact .inr (.inr ⟨by omega, ‹_›, .inl rfl⟩)
      · exact .inr (.inr ⟨by omega, by omega, .inr rfl⟩)

section Multiples

variable {den : Nat} (num c : Nat)

/-- No multiple of the divisor is nearer than the rounded one. -/
theorem distance_roundDiv_le (hden : 0 < den) :
    distance num (roundDiv num den * den : Nat) ≤ distance num (c * den : Nat) := by
  have hsplit : num / den * den + num % den = num := Nat.div_add_mod' num den
  have hmod : num % den < den := Nat.mod_lt num hden
  have hnext : (num / den + 1) * den = num / den * den + den := Nat.succ_mul _ _
  have hc : c * den ≤ num / den * den ∨ (num / den + 1) * den ≤ c * den := by
    rcases Nat.lt_or_ge (num / den) c with hlt | hle
    · exact .inr (Nat.mul_le_mul_right den hlt)
    · exact .inl (Nat.mul_le_mul_right den hle)
  unfold distance
  rcases roundDiv_cases num den with ⟨_, h⟩ | ⟨_, h⟩ | ⟨_, -, h | h⟩ <;> rw [h] <;> omega

/-- Another multiple that is as near is the odd one of the two neighbours. -/
theorem odd_of_distance_eq (hden : 0 < den) (hne : c ≠ roundDiv num den)
    (htie : distance num (c * den : Nat) = distance num (roundDiv num den * den : Nat)) :
    roundDiv num den % 2 = 0 ∧ c % 2 = 1 ∧ c ≤ num / den + 1 := by
  have hsplit : num / den * den + num % den = num := Nat.div_add_mod' num den
  have hmod : num % den < den := Nat.mod_lt num hden
  have hnext : (num / den + 1) * den = num / den * den + den := Nat.succ_mul _ _
  have hafter : (num / den + 2) * den = num / den * den + 2 * den := Nat.add_mul _ _ _
  have hc : (c + 1) * den ≤ num / den * den ∨ c = num / den ∨ c = num / den + 1 ∨
      (num / den + 2) * den ≤ c * den := by
    rcases Nat.lt_or_ge c (num / den) with hlt | hge
    · exact .inl (Nat.mul_le_mul_right den hlt)
    · rcases Nat.lt_or_ge (num / den + 1) c with hlt | hle
      · exact .inr (.inr (.inr (Nat.mul_le_mul_right den hlt)))
      · omega
  rw [Nat.succ_mul] at hc
  unfold distance at htie
  rcases roundDiv_cases num den with ⟨_, h⟩ | ⟨_, h⟩ | ⟨_, heven, h | h⟩ <;>
    rw [h] at hne htie <;> rcases hc with hc | rfl | rfl | hc <;> omega

end Multiples

/-! ## Short integers -/

def IsShort (n : Int) : Prop := ∃ (m : Int) (e : Nat), m.natAbs < twoPow 53 ∧ n = m * twoPow e

/-- The significand with exactly 53 bits is even. -/
def HasEvenSignificand (n : Int) : Prop :=
  ∃ (m : Int) (e : Nat), twoPow 52 ≤ m.natAbs ∧ m.natAbs < twoPow 53 ∧ m.natAbs % 2 = 0 ∧
    n = m * twoPow e

/-- Nearest among the short integers; where another one is as near, the even significand wins. -/
structure RoundsTo (n r : Int) : Prop where
  short : IsShort r
  nearest : ∀ s, IsShort s → distance n r ≤ distance n s
  even_of_tie : ∀ s, IsShort s → s ≠ r → distance n s = distance n r → HasEvenSignificand r

theorem distance_neg (a b : Int) : distance (-a) (-b) = distance a b := by
  unfold distance
  omega

theorem distance_neg_left (a b : Int) : distance (-a) b = distance a (-b) := by
  unfold distance
  omega

theorem IsShort.neg {n : Int} (h : IsShort n) : IsShort (-n) := by
  obtain ⟨m, e, hm, rfl⟩ := h
  exact ⟨-m, e, by rwa [Int.natAbs_neg], (Int.neg_mul _ _).symm⟩

theorem HasEvenSignificand.neg {n : Int} (h : HasEvenSignificand n) : HasEvenSignificand (-n) := by
  obtain ⟨m, e, hlow, hhigh, heven, rfl⟩ := h
  exact ⟨-m, e, by rwa [Int.natAbs_neg], by rwa [Int.natAbs_neg], by rwa [Int.natAbs_neg],
    (Int.neg_mul _ _).symm⟩

/-- Rounding is the same on both sides of zero. -/
theorem RoundsTo.neg {n r : Int} (h : RoundsTo n r) : RoundsTo (-n) (-r) where
  short := h.short.neg
  nearest s hs := by
    rw [distance_neg, distance_neg_left]
    exact h.nearest _ hs.neg
  even_of_tie s hs hne htie := by
    rw [distance_neg, distance_neg_left] at htie
    exact (h.even_of_tie _ hs.neg (by omega) htie).neg

namespace Binary64

/-- The short natural numbers are those that are spaced as their binade asks. -/
theorem isShort_iff {n : Int} : IsShort n ↔ spacing n.natAbs ∣ n.natAbs := by
  constructor
  · rintro ⟨m, e, hm, rfl⟩
    rw [Int.natAbs_mul, Int.natAbs_natCast]
    exact spacing_dvd_mul_twoPow (Nat.le_of_lt hm)
  · intro h
    have hself : IsShort (n.natAbs : Int) := by
      refine ⟨(n.natAbs / spacing n.natAbs : Nat), n.natAbs.log2 - 52, ?_, ?_⟩
      · rw [Int.natAbs_natCast]
        exact div_spacing_lt n.natAbs
      · have hsplit : n.natAbs / spacing n.natAbs * spacing n.natAbs = n.natAbs :=
          Nat.div_mul_cancel h
        rw [← Int.natCast_mul]
        exact congrArg Nat.cast hsplit.symm
    rcases Int.natAbs_eq n with hn | hn
    · rw [hn]
      exact hself
    · rw [hn]
      exact hself.neg

/-- A number is short exactly if the spacing of its binade divides it. -/
theorem isShort_natCast_iff {n : Nat} : IsShort n ↔ spacing n ∣ n := isShort_iff

variable {n s : Nat}

theorem spacing_dvd_twoPow_log2 (n : Nat) : spacing n ∣ twoPow n.log2 :=
  twoPow_dvd_twoPow (Nat.sub_le _ _)

/-- From the binade of a number upwards, every short number is a multiple of its spacing. -/
theorem spacing_dvd_of_le (hs : spacing s ∣ s) (hle : twoPow n.log2 ≤ s) : spacing n ∣ s := by
  have hlog : n.log2 ≤ s.log2 := le_log2_of_twoPow_le hle
  exact Nat.dvd_trans (twoPow_dvd_twoPow (by omega)) hs

theorem nearestUnits_one (n : Nat) : nearestUnits n 1 = roundDiv n (spacing n) * spacing n := by
  simp only [nearestUnits, Nat.div_one, Nat.one_mul]

/-- A short number below the binade is farther away than the binade's first number. -/
theorem distance_lt_of_lt (hn : n ≠ 0) (hlt : s < twoPow n.log2) :
    distance n (nearestUnits n 1 : Nat) < distance n s := by
  obtain ⟨c, hc⟩ := spacing_dvd_twoPow_log2 n
  have hself : twoPow n.log2 ≤ n := twoPow_log2_le hn
  have hnear := distance_roundDiv_le n c (spacing_pos n)
  rw [← nearestUnits_one, Nat.mul_comm c, ← hc] at hnear
  unfold distance at hnear ⊢
  omega

/-- No short number is nearer than the rounding. -/
theorem distance_nearestUnits_le (hs : spacing s ∣ s) :
    distance n (nearestUnits n 1 : Nat) ≤ distance n s := by
  by_cases hle : twoPow n.log2 ≤ s
  · obtain ⟨c, hc⟩ := spacing_dvd_of_le hs hle
    rw [nearestUnits_one, hc, Nat.mul_comm (spacing n) c]
    exact distance_roundDiv_le n c (spacing_pos n)
  · by_cases hn : n = 0
    · subst hn
      simp [nearestUnits_eq_zero, distance]
    · exact Nat.le_of_lt (distance_lt_of_lt hn (by omega))

/-- Up to `2^53` every number is its own rounding. -/
theorem nearestUnits_of_le (h : n ≤ twoPow 53) : nearestUnits n 1 = n := by
  have hspaced : spacing n ∣ n := by
    have hdvd := spacing_dvd_mul_twoPow (e := 0) h
    rwa [twoPow_zero, Nat.mul_one] at hdvd
  have hround := nearestUnits_mul_self Nat.one_pos hspaced
  rwa [Nat.one_mul] at hround

theorem le_twoPow_of_log2_lt (hlog : n.log2 < 52) : n ≤ twoPow 53 := by
  have hn := lt_twoPow_log2_succ n
  have hle : twoPow (n.log2 + 1) ≤ twoPow 53 := twoPow_le_twoPow (by omega)
  omega

theorem ne_zero_of_le_log2 (hlog : 52 ≤ n.log2) : n ≠ 0 := by
  rintro rfl
  exact absurd hlog (by decide)

/-- From `2^52` on, the first number of a binade has the smallest full significand. -/
theorem twoPow_log2_eq (hlog : 52 ≤ n.log2) : twoPow n.log2 = twoPow 52 * spacing n := by
  rw [spacing, ← twoPow_add]
  congr 1
  omega

/-- Where another short number is as near, it has an odd significand over the same spacing, and the
significand of the rounded number is even. -/
theorem exists_odd_of_tie (hs : spacing s ∣ s) (hne : s ≠ nearestUnits n 1)
    (htie : distance n s = distance n (nearestUnits n 1 : Nat)) :
    52 ≤ n.log2 ∧ roundDiv n (spacing n) % 2 = 0 ∧
      ∃ c, s = c * spacing n ∧ c % 2 = 1 ∧ twoPow 52 ≤ c ∧ c < twoPow 53 := by
  have hlog : 52 ≤ n.log2 := by
    -- Below `2^52` a number is its own rounding, and nothing else is as near.
    rcases Nat.lt_or_ge n.log2 52 with hlt | hge
    · rw [nearestUnits_of_le (le_twoPow_of_log2_lt hlt)] at hne htie
      unfold distance at htie
      omega
    · exact hge
  have hle : twoPow n.log2 ≤ s := by
    rcases Nat.lt_or_ge s (twoPow n.log2) with hlt | hge
    · have hfar := distance_lt_of_lt (ne_zero_of_le_log2 hlog) hlt
      omega
    · exact hge
  obtain ⟨c, hc⟩ := spacing_dvd_of_le hs hle
  rw [Nat.mul_comm] at hc
  rw [nearestUnits_one, hc] at hne htie
  have hother : c ≠ roundDiv n (spacing n) := by
    rintro rfl
    exact hne rfl
  obtain ⟨heven, hodd, hbound⟩ := odd_of_distance_eq n c (spacing_pos n) hother htie
  have hlow : twoPow 52 ≤ c := by
    rw [hc, twoPow_log2_eq hlog] at hle
    exact Nat.le_of_mul_le_mul_right hle (spacing_pos n)
  have hhigh : n / spacing n < twoPow 53 := div_spacing_lt n
  have hdouble : twoPow 53 = 2 * twoPow 52 := twoPow_succ 52
  exact ⟨hlog, heven, c, hc, hodd, hlow, by omega⟩

/-- An even rounded significand is a full one, also where rounding reached the next binade. -/
theorem hasEvenSignificand_nearestUnits (hlog : 52 ≤ n.log2)
    (heven : roundDiv n (spacing n) % 2 = 0) : HasEvenSignificand (nearestUnits n 1 : Nat) := by
  have hlow : twoPow 52 ≤ n / spacing n := by
    rw [Nat.le_div_iff_mul_le (spacing_pos n), ← twoPow_log2_eq hlog]
    exact twoPow_log2_le (ne_zero_of_le_log2 hlog)
  have hhigh : n / spacing n < twoPow 53 := div_spacing_lt n
  have hup := le_roundDiv n (spacing n)
  have hdown := roundDiv_le n (spacing n)
  rw [nearestUnits_one]
  rcases Nat.lt_or_ge (roundDiv n (spacing n)) (twoPow 53) with hlt | hge
  · refine ⟨roundDiv n (spacing n), n.log2 - 52, ?_, ?_, ?_, Int.natCast_mul _ _⟩
    · rw [Int.natAbs_natCast]
      omega
    · rwa [Int.natAbs_natCast]
    · rwa [Int.natAbs_natCast]
  · have hnext : roundDiv n (spacing n) = twoPow 53 := by omega
    have hdouble : twoPow 53 = 2 * twoPow 52 := twoPow_succ 52
    refine ⟨twoPow 52, n.log2 - 52 + 1, ?_, ?_, ?_, ?_⟩
    · exact Nat.le_of_eq (Int.natAbs_natCast _).symm
    · rw [Int.natAbs_natCast]
      omega
    · rw [Int.natAbs_natCast]
      exact Nat.two_pow_mod_two_eq_zero.2 (by decide)
    · have hshift : twoPow 53 * spacing n = twoPow 52 * twoPow (n.log2 - 52 + 1) := by
        rw [spacing, ← twoPow_add, ← twoPow_add]
        congr 1
        omega
      rw [hnext, hshift]
      exact Int.natCast_mul _ _

/-- A full significand is determined by the number. -/
theorem significand_unique {m m' e e' : Nat} (hm : twoPow 52 ≤ m ∧ m < twoPow 53)
    (hm' : twoPow 52 ≤ m' ∧ m' < twoPow 53) (h : m * twoPow e = m' * twoPow e') : m = m' := by
  have hpos := twoPow_pos 52
  have hlog {a : Nat} (ha : twoPow 52 ≤ a ∧ a < twoPow 53) : a.log2 = 52 :=
    (Nat.log2_eq_iff (by omega)).2 ha
  have he : e = e' := by
    have hlogs := congrArg Nat.log2 h
    rw [log2_mul_twoPow (by omega), log2_mul_twoPow (by omega), hlog hm, hlog hm'] at hlogs
    omega
  subst he
  exact Nat.eq_of_mul_eq_mul_right (twoPow_pos e) h

/-- Zero is short, so what lies on the other side of zero is never nearest. -/
theorem distance_lt_of_neg {s : Int} (hs : s < 0) :
    distance n (nearestUnits n 1 : Nat) < distance n s := by
  have hzero : distance n (nearestUnits n 1 : Nat) ≤ distance n (0 : Nat) :=
    distance_nearestUnits_le (Nat.dvd_zero _)
  unfold distance at hzero ⊢
  omega

/-- The computation rounds as the relation says. -/
theorem roundsTo_nearestUnits (n : Nat) : RoundsTo n (nearestUnits n 1 : Nat) where
  short := isShort_natCast_iff.2 (spacing_dvd_nearestUnits n 1)
  nearest s hs := by
    rcases Int.lt_or_le s 0 with hneg | hpos
    · exact Nat.le_of_lt (distance_lt_of_neg hneg)
    · obtain ⟨s, rfl⟩ := Int.eq_ofNat_of_zero_le hpos
      exact distance_nearestUnits_le (isShort_natCast_iff.1 hs)
  even_of_tie s hs hne htie := by
    rcases Int.lt_or_le s 0 with hneg | hpos
    · exact absurd htie (Nat.ne_of_gt (distance_lt_of_neg hneg))
    · obtain ⟨s, rfl⟩ := Int.eq_ofNat_of_zero_le hpos
      have hother : s ≠ nearestUnits n 1 := fun h => hne (congrArg Nat.cast h)
      obtain ⟨hlog, heven, -⟩ := exists_odd_of_tie (isShort_natCast_iff.1 hs) hother htie
      exact hasEvenSignificand_nearestUnits hlog heven

/-- Nothing else is the rounding of a natural number. -/
theorem eq_of_roundsTo {r : Int} (h : RoundsTo n r) : r = (nearestUnits n 1 : Nat) := by
  have htie : distance n r = distance n (nearestUnits n 1 : Nat) :=
    Nat.le_antisymm (h.nearest _ (roundsTo_nearestUnits n).short)
      ((roundsTo_nearestUnits n).nearest _ h.short)
  have hpos : 0 ≤ r := by
    rcases Int.lt_or_le r 0 with hneg | hge
    · exact absurd htie (Nat.ne_of_gt (distance_lt_of_neg hneg))
    · exact hge
  obtain ⟨s, rfl⟩ := Int.eq_ofNat_of_zero_le hpos
  by_cases hsame : s = nearestUnits n 1
  · exact congrArg Nat.cast hsame
  · -- A second nearest number would have a significand that is both even and odd.
    obtain ⟨-, -, c, hc, hodd, hc52, hc53⟩ :=
      exists_odd_of_tie (isShort_natCast_iff.1 h.short) hsame htie
    obtain ⟨m, e, hm52, hm53, heven, hm⟩ := h.even_of_tie (nearestUnits n 1 : Nat)
      (roundsTo_nearestUnits n).short (fun heq => hsame (Int.ofNat.inj heq).symm) htie.symm
    have hvalue : m.natAbs * twoPow e = c * spacing n := by
      rw [← hc]
      have habs := congrArg Int.natAbs hm
      rw [Int.natAbs_mul, Int.natAbs_natCast] at habs
      exact habs.symm
    have hunique := significand_unique ⟨hm52, hm53⟩ ⟨hc52, hc53⟩ hvalue
    omega

/-! ## Rounding on both sides of zero -/

/-- The short integer nearest to `n`; a tie goes to the even significand. -/
def nearestShort (n : Int) : Int :=
  if n < 0 then -(nearestUnits n.natAbs 1 : Nat) else (nearestUnits n.natAbs 1 : Nat)

theorem nearestShort_of_nonneg {n : Int} (h : 0 ≤ n) :
    nearestShort n = (nearestUnits n.natAbs 1 : Nat) := by
  rw [nearestShort, if_neg (Int.not_lt.2 h)]

theorem nearestShort_of_nonpos {n : Int} (h : n ≤ 0) :
    nearestShort n = -(nearestUnits n.natAbs 1 : Nat) := by
  unfold nearestShort
  split
  · rfl
  · have hzero : n = 0 := by omega
    subst hzero
    rw [Int.natAbs_zero, nearestUnits_of_le (Nat.zero_le _)]
    rfl

/-- Every integer has exactly one rounding. -/
theorem roundsTo_iff {n r : Int} : RoundsTo n r ↔ nearestShort n = r := by
  unfold nearestShort
  split
  next hneg =>
    have hn : n = -(n.natAbs : Int) := by omega
    constructor
    · intro h
      rw [hn] at h
      have hr := eq_of_roundsTo (Int.neg_neg (n.natAbs : Int) ▸ h.neg)
      omega
    · rintro rfl
      have h := (roundsTo_nearestUnits n.natAbs).neg
      rwa [← hn] at h
  next hpos =>
    have hn : n = (n.natAbs : Int) := by omega
    constructor
    · intro h
      rw [hn] at h
      exact (eq_of_roundsTo h).symm
    · rintro rfl
      have h := roundsTo_nearestUnits n.natAbs
      rwa [← hn] at h

/-- A short integer is its own rounding. -/
theorem nearestShort_of_natAbs_le {n : Int} (h : n.natAbs ≤ twoPow 53) : nearestShort n = n := by
  unfold nearestShort
  rw [nearestUnits_of_le h]
  split <;> omega

/-! ## Where rounding reaches a power of two -/

theorem twoPow_add_54 (k : Nat) : twoPow (k + 54) = 18014398509481984 * twoPow k := by
  rw [Nat.add_comm, twoPow_add]
  rfl

/-- Half a spacing below a power of two, rounding reaches it: the significand `2^53 - 1` is odd, so
the tie is lost upwards. -/
theorem twoPow_le_nearestUnits_of_le {k : Nat} (h : twoPow (k + 54) - twoPow k ≤ n) :
    twoPow (k + 54) ≤ nearestUnits n 1 := by
  rcases Nat.lt_or_ge n (twoPow (k + 54)) with hlt | hge
  · have hpos := twoPow_pos k
    have hfull := twoPow_add_54 k
    have hdouble : twoPow (k + 54) = 2 * twoPow (k + 53) := twoPow_succ (k + 53)
    have hlow : twoPow (k + 53) ≤ n := by omega
    have hlog : n.log2 = k + 53 := (Nat.log2_eq_iff (by omega)).2 ⟨hlow, hlt⟩
    have hspacing : spacing n = 2 * twoPow k := by
      rw [spacing, hlog]
      exact twoPow_succ k
    have hdiv : n / (2 * twoPow k) = 9007199254740991 :=
      Nat.div_eq_of_lt_le (by omega) (by omega)
    have hmod := Nat.div_add_mod n (2 * twoPow k)
    rw [hdiv] at hmod
    have hround : roundDiv n (2 * twoPow k) = 9007199254740992 := by
      rcases roundDiv_cases n (2 * twoPow k) with ⟨_, hr⟩ | ⟨_, hr⟩ | ⟨_, heven, hr | hr⟩ <;>
        rw [hdiv] at hr <;> omega
    rw [nearestUnits_one, hspacing, hround]
    omega
  · exact twoPow_le_nearestUnits hge

/-- Farther below, the largest short number under the power of two is nearer. -/
theorem nearestUnits_lt_of_lt {k : Nat} (h : n < twoPow (k + 54) - twoPow k) :
    nearestUnits n 1 < twoPow (k + 54) := by
  have hpos := twoPow_pos k
  have hfull := twoPow_add_54 k
  have hlargest : 9007199254740991 * twoPow (k + 1) = 18014398509481982 * twoPow k := by
    rw [twoPow_succ]
    omega
  have hnear : distance n (nearestUnits n 1 : Nat) ≤
      distance n (9007199254740991 * twoPow (k + 1) : Nat) :=
    distance_nearestUnits_le (spacing_dvd_mul_twoPow (by decide))
  rw [hlargest] at hnear
  unfold distance at hnear
  omega

/-- The least number that rounds to `2^1024`: the middle between it and the largest double. -/
def integerLimit : Nat := twoPow 1024 - twoPow 970

theorem integerLimit_le : integerLimit ≤ twoPow 1024 := Nat.sub_le _ _

/-- The limit is the least number that rounds to `2^1024`. -/
theorem nearestUnits_lt_iff (n : Nat) : nearestUnits n 1 < twoPow 1024 ↔ n < integerLimit := by
  have hexponent : 1024 = 970 + 54 := rfl
  rw [integerLimit, hexponent]
  constructor
  · intro h
    rcases Nat.lt_or_ge n (twoPow (970 + 54) - twoPow 970) with hlt | hge
    · exact hlt
    · exact absurd (twoPow_le_nearestUnits_of_le hge) (Nat.not_le_of_lt h)
  · exact nearestUnits_lt_of_lt

theorem lt_integerLimit_of_le (h : n ≤ twoPow 53) : n < integerLimit := by
  rw [← nearestUnits_lt_iff, nearestUnits_of_le h]
  have hpos := twoPow_pos 53
  have hdouble : twoPow 54 = 2 * twoPow 53 := twoPow_succ 53
  have hle : twoPow 54 ≤ twoPow 1024 := twoPow_le_twoPow (by decide)
  omega

/-! ## Rounding does not depend on the unit -/

/-- A common factor makes no difference. -/
theorem roundDiv_mul_mul (num den : Nat) {c : Nat} (hc : 0 < c) :
    roundDiv (c * num) (c * den) = roundDiv num den := by
  simp only [roundDiv, Nat.mul_mod_mul_left, Nat.mul_div_mul_left _ _ hc, Nat.mul_left_comm 2 c,
    Nat.mul_lt_mul_left hc]

/-- A factor of numerator and denominator cancels. -/
theorem nearestUnits_mul_left (n : Nat) {c : Nat} (hc : 0 < c) :
    nearestUnits (c * n) c = nearestUnits n 1 := by
  rw [nearestUnits_one, nearestUnits, Nat.mul_div_cancel_left _ hc, roundDiv_mul_mul _ _ hc]

/-- A number counted in smaller units rounds to the same number. -/
theorem nearestUnits_mul_twoPow (n k : Nat) :
    nearestUnits (n * twoPow k) 1 = nearestUnits n 1 * twoPow k := by
  rcases Nat.lt_or_ge n.log2 52 with hlt | hge
  · have hsmall := le_twoPow_of_log2_lt hlt
    have hround := nearestUnits_mul_self Nat.one_pos (spacing_dvd_mul_twoPow (e := k) hsmall)
    rw [nearestUnits_of_le hsmall]
    rwa [Nat.one_mul] at hround
  · have hspacing : spacing (n * twoPow k) = twoPow k * spacing n := by
      rw [spacing, log2_mul_twoPow (ne_zero_of_le_log2 hge), spacing, ← twoPow_add]
      congr 1
      omega
    rw [nearestUnits_one, nearestUnits_one, hspacing, Nat.mul_comm n,
      roundDiv_mul_mul _ _ (twoPow_pos k), Nat.mul_comm (twoPow k), Nat.mul_assoc]

end Binary64

end LetLang
