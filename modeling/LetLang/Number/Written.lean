import LetLang.Number.Shortest

/-!
# The text of a double

* `DecimalStyle` holds the decisions of the format, `DecimalStyle.display` the values in use.
* `Binary64.text`: `5.0`, `-0.0`, `0.0001`, `1e+16`, `1.5e-05`, `inf`, `-inf`, `nan`.
-/

namespace LetLang

/-- Which decimal exponents are written positionally, and how many digits an exponent has at least.
-/
structure DecimalStyle where
  leastPositional : Int
  greatestPositional : Int
  exponentDigits : Nat

/-- Positional notation from `0.0001` to below `10^16`; exponents have two digits or more. -/
def DecimalStyle.display : DecimalStyle where
  leastPositional := -4
  greatestPositional := 15
  exponentDigits := 2

namespace Decimal

def significantDigits (d : Decimal) : List Char :=
  ((Nat.toDigits 10 d.digits).reverse.dropWhile (· == '0')).reverse

def leadingExponent (d : Decimal) : Int :=
  (Nat.toDigits 10 d.digits).length - 1 + d.exponent

/-- Positional text of the digits, the first of which has weight `10^leading`. At least one digit
stands on either side of the point. -/
def positional (digits : List Char) (leading : Int) : List Char :=
  if leading < 0 then
    '0' :: '.' :: (List.replicate (-leading - 1).toNat '0' ++ digits)
  else
    let whole := leading.toNat + 1
    let fraction := digits.drop whole
    digits.take whole ++ List.replicate (whole - digits.length) '0' ++
      '.' :: (if fraction.isEmpty then ['0'] else fraction)

/-- Text with one digit before the point and a signed exponent; a lone digit has no point. -/
def scientific (style : DecimalStyle) (digits : List Char) (leading : Int) : List Char :=
  let exponent := Nat.toDigits 10 leading.natAbs
  let fraction := digits.drop 1
  digits.take 1 ++ (if fraction.isEmpty then [] else '.' :: fraction) ++
    'e' :: (if leading < 0 then '-' else '+') ::
      (List.replicate (style.exponentDigits - exponent.length) '0' ++ exponent)

def written (style : DecimalStyle) (d : Decimal) : List Char :=
  if style.leastPositional ≤ d.leadingExponent ∧ d.leadingExponent ≤ style.greatestPositional then
    positional d.significantDigits d.leadingExponent
  else
    scientific style d.significantDigits d.leadingExponent

end Decimal

namespace Binary64

def Magnitude.written (m : Magnitude) : List Char :=
  if m.units = 0 then ['0', '.', '0'] else m.shortest.written .display

def textChars : Binary64 → List Char
  | .nan => ['n', 'a', 'n']
  | .infinite negative => (if negative then ['-'] else []) ++ ['i', 'n', 'f']
  | .finite negative m => (if negative then ['-'] else []) ++ m.written

def text (x : Binary64) : String := String.ofList x.textChars

end Binary64

end LetLang
