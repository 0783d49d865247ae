import LetLang.Source
import LetLang.Text.Blank
import LetLang.Value

/-!
# Literals on their own

A literal that is given outside a source text may carry a sign, an exponent and underscores between
digits, and blanks around it are dropped.

* `Literal.integerOf?`: an integer of at most as many digits as a source text may have.
* `Literal.doubleOf?`: a decimal number, an infinity or a NaN. What is too long for an integer is a
  double.
-/

namespace LetLang

namespace Literal

/-! ## Parts of a number -/

/-- The rest of a run of digits; an underscore counts as part of it when a digit follows. -/
def moreDigits : List Char → List Char × List Char
  | [] => ([], [])
  | '_' :: c :: cs =>
      if isDigit c then
        let tail := moreDigits cs
        (c :: tail.1, tail.2)
      else ([], '_' :: c :: cs)
  | c :: cs =>
      if isDigit c then
        let tail := moreDigits cs
        (c :: tail.1, tail.2)
      else ([], c :: cs)

/-- A run of digits, single underscores between them dropped, and what follows it. -/
def digitRun : List Char → List Char × List Char
  | [] => ([], [])
  | c :: cs =>
      if isDigit c then
        let tail := moreDigits cs
        (c :: tail.1, tail.2)
      else ([], c :: cs)

def sign : List Char → Bool × List Char
  | '-' :: cs => (true, cs)
  | '+' :: cs => (false, cs)
  | cs => (false, cs)

def signed (negative : Bool) (n : Nat) : Int := if negative then -(n : Int) else n

/-! ## Integers -/

def integerOf? (cs : List Char) : Option Int :=
  let (negative, rest) := sign cs
  let (digits, tail) := digitRun rest
  if digits.isEmpty || !tail.isEmpty || Source.maxIntegerDigits < digits.length then none
  else some (signed negative (digitsValue digits))

/-! ## Doubles -/

/-- The exponent that stands behind the digits of a number, to the end of the text. -/
def exponent? : List Char → Option Int
  | [] => some 0
  | c :: cs =>
      if c = 'e' || c = 'E' then
        let (negative, rest) := sign cs
        let (digits, tail) := digitRun rest
        if digits.isEmpty || !tail.isEmpty then none
        else some (signed negative (digitsValue digits))
      else none

/-- Digits with an optional point among or beside them, and an optional exponent. -/
def decimal? (cs : List Char) : Option Decimal :=
  let (whole, rest) := digitRun cs
  let (fraction, tail) :=
    match rest with
    | '.' :: more => digitRun more
    | _ => ([], rest)
  if whole.isEmpty && fraction.isEmpty then none
  else (exponent? tail).map fun e => ⟨digitsValue (whole ++ fraction), e - fraction.length⟩

def special? (negative : Bool) (cs : List Char) : Option Binary64 :=
  let word := String.ofList (cs.map Char.toLower)
  if word = "inf" || word = "infinity" then some (.infinite negative)
  else if word = "nan" then some .nan
  else none

def doubleOf? (cs : List Char) : Option Binary64 :=
  let (negative, rest) := sign cs
  match decimal? rest with
  | some d => some (d.toBinary64 negative)
  | none => special? negative rest

def double? (text : List Char) : Option Binary64 := doubleOf? (trim text)

/-! ## All literals -/

/-- The value of a literal: a truth value, an integer, or else a double. -/
def read? (text : String) : Option Value :=
  let cs := trim text.toList
  if cs = ['t', 'r', 'u', 'e'] then some (.boolean true)
  else if cs = ['f', 'a', 'l', 's', 'e'] then some (.boolean false)
  else
    match integerOf? cs with
    | some n => some (.integer n)
    | none => (doubleOf? cs).map .double

end Literal

end LetLang
