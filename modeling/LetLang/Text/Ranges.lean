/-!
# Character classes given by ranges of code points

* `CodeRanges` is a list of inclusive ranges of code points.
* `CodeRanges.has` decides membership of a character.
-/

namespace LetLang

abbrev CodeRanges := List (Nat × Nat)

def CodeRanges.has (ranges : CodeRanges) (c : Char) : Bool :=
  ranges.any fun range => range.1 ≤ c.toNat && c.toNat ≤ range.2

end LetLang
