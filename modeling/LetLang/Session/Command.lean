import LetLang.Text.Blank
import LetLang.Text.Identifier

/-!
# Commands of a session

* `Definition.ofChars?`: the argument of a definition, a plain word, an equals sign and a source
  text.
* `completions`: the commands that complete what has been typed.
-/

namespace LetLang

/-! ## Commands -/

inductive Command where
  | clear
  | define (argument : List Char)
  | listBindings
  | trace (argument : List Char)
  | reset
  | toggleTree
  | unknown (name : List Char)
  deriving DecidableEq, Repr

namespace Command

/-- The commands with their descriptions, in the order in which they are offered. -/
def descriptions : List (String × String) :=
  [("/clear", "Clear the terminal screen"),
   ("/def", "Bind a name in the session scope"),
   ("/env", "List session bindings"),
   ("/py-traceback", "Toggle Python traceback on errors"),
   ("/reset", "Reset the REPL environment"),
   ("/tree", "Toggle syntax tree display")]

def ofName (name argument : List Char) : Command :=
  match String.ofList name with
  | "/clear" => .clear
  | "/def" => .define argument
  | "/env" => .listBindings
  | "/py-traceback" => .trace argument
  | "/reset" => .reset
  | "/tree" => .toggleTree
  | _ => .unknown name

/-- The command that a line is; `none` for a line that is to be evaluated. -/
def ofLine? (line : String) : Option Command :=
  match trim line.toList with
  | '/' :: cs =>
      let split := firstWord ('/' :: cs)
      some (ofName split.1 split.2)
  | _ => none

end Command

structure Definition where
  name : List Char
  source : List Char
  deriving DecidableEq, Repr

def Definition.ofChars? : List Char → Option Definition
  | [] => none
  | c :: cs =>
      if isWordStart c then
        match (cs.dropWhile isWordPart).dropWhile isBlank with
        | '=' :: source => some ⟨c :: cs.takeWhile isWordPart, source⟩
        | _ => none
      else none

/-! ## Completion -/

/-- A completion replaces the text from `start`, counted from the cursor. -/
structure Completion where
  text : String
  start : Int
  description : String
  deriving DecidableEq, Repr

def completions (before : List Char) : List Completion :=
  match before with
  | '/' :: _ =>
      let offered := Command.descriptions.filter fun command => before.isPrefixOf command.1.toList
      offered.map fun command => ⟨command.1, -(before.length : Int), command.2⟩
  | _ => []

end LetLang
