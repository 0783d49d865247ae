import LetLang.Source.Progress
import LetLang.Source.Stream

/-!
# Source texts

* `Source.parse`: the tree of a source text, or the first thing from the left that rules it out.
* `Source.read`: the same with the limit on the length of integer literals, which is checked when
  the whole text has been accepted.
* `ParseError`: a message with a position, as it is shown.
-/

namespace LetLang

/-! ## Rejections -/

inductive Rejection where
  /-- A lexeme that cannot stand where it does. -/
  | unexpected (lexeme : Lexeme)
  /-- The text ends too early; the position is that of its last lexeme. -/
  | incomplete (position : Position)
  /-- A character that starts no lexeme. -/
  | stray (char : Char) (position : Position)
  deriving DecidableEq, Repr

structure ParseError where
  message : String
  line : Option Int := none
  column : Option Int := none
  deriving DecidableEq, Repr

/-- The message, followed by its position. A column without a line is not shown. -/
def ParseError.text (e : ParseError) : String :=
  match e.line, e.column with
  | none, _ => e.message
  | some line, none => e.message ++ " (line " ++ numeral line ++ ")"
  | some line, some column =>
      e.message ++ " (line " ++ numeral line ++ ", col " ++ numeral column ++ ")"

/-- Characters at which a message is cut, because it keeps to one line; carriage returns, line feeds
and form feeds are layout and never stray. -/
def breaksMessage (c : Char) : Bool :=
  c = '\x0b' || c = '\x1c' || c = '\x1d' || c = '\x1e' || c = '\x85' || c = '\u2028' || c = '\u2029'

namespace Rejection

def position : Rejection → Position
  | .unexpected lexeme => lexeme.position
  | .incomplete position => position
  | .stray _ position => position

private def unexpectedMessage (terminal text : String) (position : Position) : String :=
  "Unexpected token Token('" ++ terminal ++ "', " ++ quoted text ++ ") at line " ++
    numeral position.line ++ ", column " ++ numeral position.column ++ "."

def message : Rejection → String
  | .unexpected lexeme =>
      unexpectedMessage lexeme.kind.terminal (String.ofList lexeme.text) lexeme.position
  | .incomplete position => unexpectedMessage "$END" "" position
  | .stray c position =>
      if breaksMessage c then "No terminal matches '"
      else
        "No terminal matches '" ++ String.singleton c ++
          "' in the current parser context, at line " ++ numeral position.line ++
          " col " ++ numeral position.column

def toParseError (r : Rejection) : ParseError where
  message := r.message
  line := some r.position.line
  column := some r.position.column

end Rejection

inductive SourceError where
  | rejected (rejection : Rejection)
  /-- An integer literal has more digits than are converted. -/
  | oversized (digits : Nat)
  deriving DecidableEq, Repr

namespace Source

/-! ## Reading -/

/-- The position of the last lexeme, or of the first character if there is none. -/
def lastPosition (lexemes : List Lexeme) : Position :=
  (lexemes.getLast?.map (·.position)).getD .start

def parseStream (stream : Stream) : Except Rejection Tree :=
  match Progress.start.run stream.lexemes with
  | .error lexeme => .error (.unexpected lexeme)
  | .ok progress =>
      match stream.ending with
      | .unexpected lexeme => .error (.unexpected lexeme)
      | .stray c position => .error (.stray c position)
      | .complete =>
          match progress.tree? with
          | some tree => .ok tree
          | none => .error (.incomplete (lastPosition stream.lexemes))

/-- The tree of a source text, integer literals of any length included. -/
def parse (source : String) : Except Rejection Tree := parseStream (.ofSource source)

def maxIntegerDigits : Nat := 4300

def oversized? (lexemes : List Lexeme) : Option Lexeme :=
  lexemes.find? fun lexeme => lexeme.kind = .int && maxIntegerDigits < lexeme.text.length

def read (source : String) : Except SourceError Tree :=
  match parse source with
  | .error rejection => .error (.rejected rejection)
  | .ok tree =>
      match oversized? (Stream.ofSource source).lexemes with
      | some lexeme => .error (.oversized lexeme.text.length)
      | none => .ok tree

end Source

def oversizedMessage (digits : Nat) : String :=
  "Error trying to process rule \"int_lit\":\n\nExceeds the limit (" ++
    numeral Source.maxIntegerDigits ++
    " digits) for integer string conversion: value has " ++ numeral digits ++
    " digits; use sys.set_int_max_str_digits() to increase the limit"

end LetLang
