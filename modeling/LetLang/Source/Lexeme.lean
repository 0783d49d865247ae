import LetLang.Source.Position
import LetLang.Text.Digit
import LetLang.Text.Identifier
import LetLang.Token

/-!
# Lexemes

* `Lexeme`: a token kind with the text it was read from and the position of its first character.
* `Match`: a lexeme at the front of a text, together with what follows it.
* `number?`, `word?`, `wordAtFront?`, `symbol?`: the matches of each family. A number with digits on
  both sides of a point is a double; a plain word is as long as possible.
-/

namespace LetLang

structure Lexeme where
  kind : TokenKind
  text : List Char
  position : Position
  deriving DecidableEq, Repr

/-- The name of a token kind in messages about source text. -/
def TokenKind.terminal : TokenKind → String
  | .letWord => "_LET"
  | .inWord => "_IN"
  | .assign => "EQUAL"
  | kind => kind.name

structure Match where
  kind : TokenKind
  text : List Char
  rest : List Char
  deriving DecidableEq, Repr

/-- The match splits the text `cs`, and is not empty. -/
def Match.Splits (m : Match) (cs : List Char) : Prop :=
  m.text ++ m.rest = cs ∧ m.text ≠ []

/-! ## Families of lexemes -/

/-- A run of digits, or two runs around a point. -/
def number? (cs : List Char) : Option Match :=
  let whole := cs.takeWhile isDigit
  let rest := cs.dropWhile isDigit
  if whole.isEmpty then none
  else
    match rest with
    | '.' :: more =>
        let fraction := more.takeWhile isDigit
        if fraction.isEmpty then some ⟨.int, whole, rest⟩
        else some ⟨.double, whole ++ '.' :: fraction, more.dropWhile isDigit⟩
    | _ => some ⟨.int, whole, rest⟩

abbrev Keywords := List (List Char × TokenKind)

def Keywords.all : Keywords :=
  [(['l', 'e', 't'], .letWord), (['i', 'n'], .inWord), (['t', 'r', 'u', 'e'], .trueWord),
   (['f', 'a', 'l', 's', 'e'], .falseWord), (['a', 'n', 'd'], .and), (['o', 'r'], .or)]

/-- The kind of a word when only the given keywords have a meaning. -/
def Keywords.kindOf (keywords : Keywords) (word : List Char) : TokenKind :=
  ((keywords.find? (·.1 == word)).map (·.2)).getD .ident

def word? (keywords : Keywords) : List Char → Option Match
  | [] => none
  | c :: cs =>
      if isWordStart c then
        let text := c :: cs.takeWhile isWordPart
        some ⟨keywords.kindOf text, text, cs.dropWhile isWordPart⟩
      else none

/-- A keyword at the front of the text, whatever follows it. -/
def wordAtFront? (keywords : Keywords) (cs : List Char) : Option Match :=
  (keywords.find? (·.1.isPrefixOf cs)).map fun keyword =>
    ⟨keyword.2, keyword.1, cs.drop keyword.1.length⟩

def symbolKind? : Char → Option TokenKind
  | '+' => some .add
  | '-' => some .sub
  | '*' => some .mult
  | '/' => some .div
  | '%' => some .mod
  | '=' => some .assign
  | '(' => some .lpar
  | ')' => some .rpar
  | _ => none

def symbol? (kinds : List TokenKind) : List Char → Option Match
  | [] => none
  | c :: cs =>
      match symbolKind? c with
      | some kind => if kinds.contains kind then some ⟨kind, [c], cs⟩ else none
      | none => none

def symbolKinds : List TokenKind :=
  [.add, .sub, .mult, .div, .mod, .assign, .lpar, .rpar]

/-- The lexeme at the front of a text, regardless of context. -/
def anyLexeme? (cs : List Char) : Option Match :=
  ((number? cs).or (word? .all cs)).or (symbol? symbolKinds cs)

/-! ## Matches split the text -/

theorem number?_splits {cs : List Char} {m : Match} (h : number? cs = some m) : m.Splits cs := by
  have happ : cs.takeWhile isDigit ++ cs.dropWhile isDigit = cs := List.takeWhile_append_dropWhile
  simp only [number?] at h
  split at h
  · exact nomatch h
  next hne =>
    have hwhole : cs.takeWhile isDigit ≠ [] := by simpa using hne
    split at h
    next more hrest =>
      split at h
      · cases h
        exact ⟨happ, hwhole⟩
      · cases h
        refine ⟨?_, by simp⟩
        rw [List.append_assoc, List.cons_append, List.takeWhile_append_dropWhile, ← hrest]
        exact happ
    · cases h
      exact ⟨happ, hwhole⟩

theorem word?_splits {keywords : Keywords} {cs : List Char} {m : Match}
    (h : word? keywords cs = some m) : m.Splits cs := by
  cases cs with
  | nil => exact nomatch h
  | cons c cs =>
    simp only [word?] at h
    split at h
    · cases h
      exact ⟨by simp, by simp⟩
    · exact nomatch h

theorem wordAtFront?_splits {keywords : Keywords} {cs : List Char} {m : Match}
    (hne : ∀ keyword ∈ keywords, keyword.1 ≠ []) (h : wordAtFront? keywords cs = some m) :
    m.Splits cs := by
  simp only [wordAtFront?, Option.map_eq_some_iff] at h
  obtain ⟨keyword, hfind, rfl⟩ := h
  have hprefix : keyword.1 <+: cs := by
    simpa using List.find?_some hfind
  refine ⟨?_, hne keyword (List.mem_of_find?_eq_some hfind)⟩
  obtain ⟨rest, rfl⟩ := hprefix
  simp

theorem symbol?_splits {kinds : List TokenKind} {cs : List Char} {m : Match}
    (h : symbol? kinds cs = some m) : m.Splits cs := by
  cases cs with
  | nil => exact nomatch h
  | cons c cs =>
    simp only [symbol?] at h
    split at h
    · split at h
      · cases h
        exact ⟨rfl, by simp⟩
      · exact nomatch h
    · exact nomatch h

end LetLang
