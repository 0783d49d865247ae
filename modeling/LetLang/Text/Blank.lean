import LetLang.Text.Ranges

/-!
# Blank characters

* `isBlank`: the twenty-nine characters that Unicode treats as white space in plain text, the
  separators `U+001C` to `U+001F` included.
* `trim`, `firstWord`: what is left of a text when blanks are dropped at its ends, or up to its
  first inner blank.
-/

namespace LetLang

def blankRanges : CodeRanges :=
  [(0x09, 0x0D), (0x1C, 0x20), (0x85, 0x85), (0xA0, 0xA0), (0x1680, 0x1680), (0x2000, 0x200A),
   (0x2028, 0x2029), (0x202F, 0x202F), (0x205F, 0x205F), (0x3000, 0x3000)]

def isBlank (c : Char) : Bool := blankRanges.has c

def trim (cs : List Char) : List Char :=
  ((cs.dropWhile isBlank).reverse.dropWhile isBlank).reverse

/-- Splits a text that starts with no blank into its first word and what follows the blanks after
it. -/
def firstWord (cs : List Char) : List Char × List Char :=
  (cs.takeWhile (!isBlank ·), (cs.dropWhile (!isBlank ·)).dropWhile isBlank)

end LetLang
