/-!
# Decimal numerals of integers

* `numeral n`: the decimal digits of `n`, after a minus sign if `n` is negative.
-/

namespace LetLang

def numeralChars (n : Int) : List Char :=
  if n < 0 then '-' :: Nat.toDigits 10 n.natAbs else Nat.toDigits 10 n.natAbs

def numeral (n : Int) : String := String.ofList (numeralChars n)

@[simp] theorem toList_numeral (n : Int) : (numeral n).toList = numeralChars n := by
  simp [numeral]

end LetLang
