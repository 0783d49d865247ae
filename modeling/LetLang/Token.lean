import LetLang.Number.Numeral
import LetLang.Text.Quoted

/-!
# Tokens

* `TokenKind`: the kinds of tokens, numbered from one in the order of `TokenKind.all`.
* `Payload`: what a token carries, mostly its text.
* `Token`: a kind, a payload and a position.
* `Operator`: the operator of a binary operation. Any token kind may stand there, and so may a label
  that is no token kind at all; evaluation refuses what it does not know.
-/

namespace LetLang

/-! ## Kinds -/

inductive TokenKind where
  | int | double | ident | trueWord | falseWord
  | letWord | inWord
  | add | sub | mult | div | mod
  | and | or | not
  | eq | neq | lt | lte | gt | gte
  | assign | lpar | rpar
  | eof
  deriving DecidableEq, Repr

namespace TokenKind

def all : List TokenKind :=
  [.int, .double, .ident, .trueWord, .falseWord, .letWord, .inWord, .add, .sub, .mult, .div, .mod,
   .and, .or, .not, .eq, .neq, .lt, .lte, .gt, .gte, .assign, .lpar, .rpar, .eof]

def name : TokenKind → String
  | .int => "INT"
  | .double => "DOUBLE"
  | .ident => "IDENT"
  | .trueWord => "TRUE"
  | .falseWord => "FALSE"
  | .letWord => "LET"
  | .inWord => "IN"
  | .add => "ADD"
  | .sub => "SUB"
  | .mult => "MULT"
  | .div => "DIV"
  | .mod => "MOD"
  | .and => "AND"
  | .or => "OR"
  | .not => "NOT"
  | .eq => "EQ"
  | .neq => "NEQ"
  | .lt => "LT"
  | .lte => "LTE"
  | .gt => "GT"
  | .gte => "GTE"
  | .assign => "ASSIGN"
  | .lpar => "LPAR"
  | .rpar => "RPAR"
  | .eof => "EOF"

def number (kind : TokenKind) : Nat := all.idxOf kind + 1

def ofName? (name : String) : Option TokenKind :=
  all.find? (·.name == name)

def arithmetic : List TokenKind := [.add, .sub, .mult, .div, .mod]

def boolean : List TokenKind := [.and, .or]

end TokenKind

/-! ## Tokens -/

inductive Payload where
  | text (s : String)
  | number (n : Int)
  | absent
  deriving DecidableEq, Repr

namespace Payload

def name : Payload → String
  | .text s => s
  | .number n => numeral n
  | .absent => "None"

def shown : Payload → String
  | .text s => quoted s
  | .number n => numeral n
  | .absent => "None"

end Payload

/-- A token with its position; a position of zero means that none is known. -/
structure Token where
  kind : TokenKind
  payload : Payload
  line : Int := 0
  column : Int := 0
  deriving DecidableEq, Repr

namespace Token

def name (token : Token) : String := token.payload.name

/-- For instance `Tok(IDENT, 'x', 1:2)`. -/
def text (token : Token) : String :=
  "Tok(" ++ token.kind.name ++ ", " ++ token.payload.shown ++ ", " ++
    numeral token.line ++ ":" ++ numeral token.column ++ ")"

end Token

/-! ## Operators -/

inductive Operator where
  | known (kind : TokenKind)
  | foreignText (label : String)
  | foreignNumber (label : Int)
  deriving DecidableEq, Repr

namespace Operator

def label : Operator → String
  | .known kind => kind.name
  | .foreignText s => s
  | .foreignNumber n => numeral n

def kind? : Operator → Option TokenKind
  | .known kind => some kind
  | _ => none

/-- For instance `<TT.ADD: 8>`; a foreign label is shown as such. -/
def text : Operator → String
  | .known kind => "<TT." ++ kind.name ++ ": " ++ numeral kind.number ++ ">"
  | .foreignText s => quoted s
  | .foreignNumber n => numeral n

end Operator

end LetLang
