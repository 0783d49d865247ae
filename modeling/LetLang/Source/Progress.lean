import LetLang.Number.Decimal
import LetLang.Source.Lexeme
import LetLang.Tree

/-!
# Trees from lexemes

A tree is built from the left with a stack of frames for everything that is still open: an operation
that waits for its right operand, a parenthesis, a `let` that waits for its value or for its body.

* `precedence`: `or` binds weakest, then `and`, then sums, then products; all group to the left.
* `Progress.tree?`: the tree, once nothing is open any more.

A `let` body extends as far to the right as possible, so only a closing parenthesis, the `in` of an
outer `let` or the end of the text closes it.
-/

namespace LetLang

/-! ## Leaves -/

def doubleOfDigits (text : List Char) : Binary64 :=
  let whole := text.takeWhile isDigit
  let fraction := (text.dropWhile isDigit).drop 1
  Decimal.toBinary64 false ⟨digitsValue (whole ++ fraction), -(fraction.length : Int)⟩

namespace Lexeme

def line (lexeme : Lexeme) : Int := lexeme.position.line

def nameToken (lexeme : Lexeme) : Token where
  kind := .ident
  payload := .text (String.ofList lexeme.text)
  line := lexeme.position.line
  column := lexeme.position.column

def leaf? (lexeme : Lexeme) : Option Tree :=
  match lexeme.kind with
  | .int => some (.int (digitsValue lexeme.text) (some lexeme.line))
  | .double => some (.double (doubleOfDigits lexeme.text) (some lexeme.line))
  | .trueWord => some (.bool true (some lexeme.line))
  | .falseWord => some (.bool false (some lexeme.line))
  | .ident => some (.ident lexeme.nameToken (some lexeme.line))
  | _ => none

end Lexeme

/-! ## Frames -/

/-- How strongly an operator binds; `none` for what is no operator of the language. -/
def precedence : TokenKind → Option Nat
  | .or => some 1
  | .and => some 2
  | .add => some 3
  | .sub => some 3
  | .mult => some 4
  | .div => some 4
  | .mod => some 4
  | _ => none

inductive Frame where
  /-- An operation that waits for its right operand. -/
  | operation (left : Tree) (operator : TokenKind) (strength : Nat) (line : Int)
  | parenthesis
  /-- A `let` that waits for its value. -/
  | letValue (name : Token)
  /-- A `let` that waits for its body. -/
  | letBody (name : Token) (value : Tree)
  deriving DecidableEq

/-- Closes the operations that bind at least as strongly as an operator behind `tree`. -/
def closeOperations (strength : Nat) (tree : Tree) : List Frame → Tree × List Frame
  | .operation left operator own line :: frames =>
      if strength ≤ own then
        closeOperations strength (.binop left (.known operator) tree (some line)) frames
      else (tree, .operation left operator own line :: frames)
  | frames => (tree, frames)

/-- Closes every operation and every `let` body that ends with `tree`. -/
def closeBodies (tree : Tree) : List Frame → Tree × List Frame
  | .operation left operator _ line :: frames =>
      closeBodies (.binop left (.known operator) tree (some line)) frames
  | .letBody name value :: frames =>
      closeBodies (.letIn name value tree (some name.line)) frames
  | frames => (tree, frames)

/-! ## Progress -/

inductive Focus where
  | expression
  | operand
  | binder
  | equals (name : Token)
  | complete (tree : Tree)
  deriving DecidableEq

/-- The open frames, innermost first, and what may come next. -/
structure Progress where
  frames : List Frame
  focus : Focus
  deriving DecidableEq

namespace Progress

def start : Progress := ⟨[], .expression⟩

/-- Takes a lexeme where an expression or an operand starts. -/
def stepOperand (frames : List Frame) (lexeme : Lexeme) : Option Progress :=
  match lexeme.kind with
  | .lpar => some ⟨.parenthesis :: frames, .expression⟩
  | _ => lexeme.leaf?.map fun tree => ⟨frames, .complete tree⟩

/-- Takes a lexeme behind a complete tree. -/
def stepComplete (frames : List Frame) (tree : Tree) (lexeme : Lexeme) : Option Progress :=
  match lexeme.kind with
  | .rpar =>
      match closeBodies tree frames with
      | (inner, .parenthesis :: outer) => some ⟨outer, .complete inner⟩
      | _ => none
  | .inWord =>
      match closeBodies tree frames with
      | (value, .letValue name :: outer) => some ⟨.letBody name value :: outer, .expression⟩
      | _ => none
  | kind =>
      match precedence kind with
      | some strength =>
          let closed := closeOperations strength tree frames
          some ⟨.operation closed.1 kind strength lexeme.line :: closed.2, .operand⟩
      | none => none

/-- Takes one lexeme; `none` if it cannot stand here. -/
def step (progress : Progress) (lexeme : Lexeme) : Option Progress :=
  match progress.focus with
  | .expression =>
      if lexeme.kind = .letWord then some ⟨progress.frames, .binder⟩
      else stepOperand progress.frames lexeme
  | .operand => stepOperand progress.frames lexeme
  | .binder =>
      if lexeme.kind = .ident then some ⟨progress.frames, .equals lexeme.nameToken⟩ else none
  | .equals name =>
      if lexeme.kind = .assign then some ⟨.letValue name :: progress.frames, .expression⟩ else none
  | .complete tree => stepComplete progress.frames tree lexeme

/-- Takes lexemes from the left; fails with the first one that is refused. -/
def run (progress : Progress) : List Lexeme → Except Lexeme Progress
  | [] => .ok progress
  | lexeme :: lexemes =>
      match progress.step lexeme with
      | some next => next.run lexemes
      | none => .error lexeme

def tree? (progress : Progress) : Option Tree :=
  match progress.focus with
  | .complete tree =>
      match closeBodies tree progress.frames with
      | (whole, []) => some whole
      | _ => none
  | _ => none

end Progress

end LetLang
