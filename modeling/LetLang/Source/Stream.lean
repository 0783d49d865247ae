import LetLang.Source.Layout
import LetLang.Source.Lexeme

/-!
# The stream of lexemes of a source text

Which lexemes are recognised depends on what came before: a word after an operand is an operator or
`in`, while the same word in the place of an operand is a name.

* `Context`: the five situations, `Context.next` how a lexeme leads from one to the next.
* `Context.match?`: the lexeme at the front of a text, if it is acceptable in the context.
* `Stream`: the acceptable lexemes of a text from the left, and how the text ends.
-/

namespace LetLang

/-! ## Contexts -/

/-- What the lexemes read so far leave room for. -/
inductive Context where
  /-- An expression, which may start with `let`. -/
  | expression
  /-- An operand behind an operator. -/
  | operand
  /-- The name that a `let` binds. -/
  | binder
  /-- The equals sign of a `let`. -/
  | equals
  /-- An operator, `in` or a closing parenthesis behind an operand. -/
  | continuation
  deriving DecidableEq, Repr

namespace Context

def next (context : Context) : TokenKind → Context
  | .letWord => .binder
  | .ident => if context = .binder then .equals else .continuation
  | .assign => .expression
  | .inWord => .expression
  | .lpar => .expression
  | .add => .operand
  | .sub => .operand
  | .mult => .operand
  | .div => .operand
  | .mod => .operand
  | .and => .operand
  | .or => .operand
  | _ => .continuation

def expressionKeywords : Keywords :=
  [(['l', 'e', 't'], .letWord), (['t', 'r', 'u', 'e'], .trueWord),
   (['f', 'a', 'l', 's', 'e'], .falseWord)]

def operandKeywords : Keywords :=
  [(['t', 'r', 'u', 'e'], .trueWord), (['f', 'a', 'l', 's', 'e'], .falseWord)]

/-- Words that may follow an operand, even without a separator behind them. -/
def continuationKeywords : Keywords :=
  [(['a', 'n', 'd'], .and), (['o', 'r'], .or), (['i', 'n'], .inWord)]

def continuationSymbols : List TokenKind := [.add, .sub, .mult, .div, .mod, .rpar]

def match? (context : Context) (cs : List Char) : Option Match :=
  match context with
  | .expression => ((number? cs).or (word? expressionKeywords cs)).or (symbol? [.lpar] cs)
  | .operand => ((number? cs).or (word? operandKeywords cs)).or (symbol? [.lpar] cs)
  | .binder => word? [] cs
  | .equals => symbol? [.assign] cs
  | .continuation => (wordAtFront? continuationKeywords cs).or (symbol? continuationSymbols cs)

/-- A match takes at least one character, so reading comes to an end. -/
theorem match?_splits {context : Context} {cs : List Char} {m : Match}
    (h : context.match? cs = some m) : m.Splits cs := by
  cases context with
  | expression =>
    simp only [match?, Option.or_eq_some_iff] at h
    rcases h with (h | ⟨_, h⟩) | ⟨_, h⟩
    · exact number?_splits h
    · exact word?_splits h
    · exact symbol?_splits h
  | operand =>
    simp only [match?, Option.or_eq_some_iff] at h
    rcases h with (h | ⟨_, h⟩) | ⟨_, h⟩
    · exact number?_splits h
    · exact word?_splits h
    · exact symbol?_splits h
  | binder => exact word?_splits h
  | equals => exact symbol?_splits h
  | continuation =>
    simp only [match?, Option.or_eq_some_iff] at h
    rcases h with h | ⟨_, h⟩
    · exact wordAtFront?_splits (by decide) h
    · exact symbol?_splits h

end Context

/-! ## Streams -/

inductive Ending where
  /-- Nothing but layout is left. -/
  | complete
  /-- A lexeme that is not acceptable where it stands. -/
  | unexpected (lexeme : Lexeme)
  /-- A character that starts no lexeme at all. -/
  | stray (char : Char) (position : Position)
  deriving DecidableEq, Repr

structure Stream where
  lexemes : List Lexeme
  ending : Ending
  deriving DecidableEq, Repr

namespace Stream

private theorem length_rest_lt {context : Context} {cs front : List Char} {m : Match}
    (hrest : afterLayout cs = front) (hmatch : context.match? front = some m) :
    m.rest.length < cs.length := by
  have hsplit := Context.match?_splits hmatch
  have hle := length_afterLayout_le cs
  have hlen := congrArg List.length hsplit.1
  have hpos := List.length_pos_iff.mpr hsplit.2
  rw [hrest] at hle
  simp only [List.length_append] at hlen
  omega

/-- The stream of a text that stands at a position and in a context. -/
def ofChars (context : Context) (position : Position) (cs : List Char) : Stream :=
  let here := position.after (layout cs)
  match hrest : afterLayout cs with
  | [] => ⟨[], .complete⟩
  | c :: rest =>
      match hmatch : context.match? (c :: rest) with
      | some m =>
          have := length_rest_lt hrest hmatch
          let tail := ofChars (context.next m.kind) (here.after m.text) m.rest
          ⟨⟨m.kind, m.text, here⟩ :: tail.lexemes, tail.ending⟩
      | none =>
          match anyLexeme? (c :: rest) with
          | some m => ⟨[], .unexpected ⟨m.kind, m.text, here⟩⟩
          | none => ⟨[], .stray c here⟩
termination_by cs.length

def ofSource (source : String) : Stream := ofChars .expression .start source.toList

end Stream

end LetLang
