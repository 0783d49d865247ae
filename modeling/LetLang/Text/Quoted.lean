import LetLang.Text.Printable

/-!
# Quoted text

* `quoted` writes a text between quotation marks, with escapes for the mark itself, the backslash,
  line breaks, tabs and every character that is not printable.
* Single marks are used unless the text holds a single mark and no double one.
-/

namespace LetLang

def hexCode (width : Nat) (c : Char) : List Char :=
  let digits := Nat.toDigits 16 c.toNat
  List.replicate (width - digits.length) '0' ++ digits

def quotedChar (mark c : Char) : List Char :=
  if c = mark || c = '\\' then ['\\', c]
  else if c = '\n' then ['\\', 'n']
  else if c = '\r' then ['\\', 'r']
  else if c = '\t' then ['\\', 't']
  else if isPrintable c then [c]
  else if c.toNat < 0x100 then '\\' :: 'x' :: hexCode 2 c
  else if c.toNat < 0x10000 then '\\' :: 'u' :: hexCode 4 c
  else '\\' :: 'U' :: hexCode 8 c

/-- The mark around a text: a double one only if that spares escapes. -/
def quoteMark (cs : List Char) : Char :=
  if cs.contains '\'' && !cs.contains '"' then '"' else '\''

def quoted (text : String) : String :=
  let mark := quoteMark text.toList
  String.ofList (mark :: (text.toList.flatMap (quotedChar mark) ++ [mark]))

end LetLang
