import LetLang.Literal
import LetLang.Scope
import LetLang.Text.Identifier

/-!
# Options of the command line

* `Options.ofArguments`: the flags `--tree`, `--verbose`, `--define NAME=LITERAL` and one source
  argument, or the first misuse from the left.
* `Misuse.message`: the wording of a misuse.
-/

namespace LetLang

inductive Misuse where
  | defineWithoutSpec
  | malformedDefine (spec : String)
  | notALiteral (name raw : String)
  | unexpectedArgument (argument : String)
  | emptyInput
  deriving DecidableEq, Repr

def Misuse.message : Misuse → String
  | .defineWithoutSpec => "--define flag requires NAME=LITERAL"
  | .malformedDefine spec => "--define expects NAME=LITERAL, got " ++ quoted spec
  | .notALiteral name raw => "--define " ++ name ++ ": not a literal: " ++ quoted raw
  | .unexpectedArgument argument => "Unexpected argument: " ++ argument
  | .emptyInput => "No input provided on stdin"

structure Options where
  showTree : Bool := false
  verbose : Bool := false
  defines : Bindings := []
  source : Option String := none
  deriving DecidableEq

namespace Options

/-- The name and the value of a specification `NAME=LITERAL`. Blanks around both are dropped. -/
def define? (spec : String) : Except Misuse (String × Value) :=
  let cs := spec.toList
  let name := trim (cs.takeWhile (· != '='))
  match cs.dropWhile (· != '=') with
  | [] => .error (.malformedDefine spec)
  | _ :: rest =>
      if isIdentifier name then
        let raw := String.ofList rest
        match Literal.read? raw with
        | some value => .ok (String.ofList name, value)
        | none => .error (.notALiteral (String.ofList name) raw)
      else .error (.malformedDefine spec)

/-- Adds a definition; the last one of a name counts. -/
def addDefine (options : Options) (spec : String) : Except Misuse Options :=
  match define? spec with
  | .ok (name, value) => .ok { options with defines := options.defines.put name value }
  | .error misuse => .error misuse

/-- Adds a source argument, of which there is at most one. -/
def addSource (options : Options) (argument : String) : Except Misuse Options :=
  match options.source with
  | none => .ok { options with source := some argument }
  | some _ => .error (.unexpectedArgument argument)

inductive Argument where
  | tree
  | verbose
  | define (spec : String)
  | source (text : String)
  deriving DecidableEq, Repr

def defineFlag : List Char := "--define=".toList

def specOf? (argument : String) : Option String :=
  if defineFlag.isPrefixOf argument.toList then
    some (String.ofList (argument.toList.drop defineFlag.length))
  else none

def add (options : Options) : Argument → Except Misuse Options
  | .tree => .ok { options with showTree := true }
  | .verbose => .ok { options with verbose := true }
  | .define spec => options.addDefine spec
  | .source text => options.addSource text

/-- Takes arguments into account from the left; fails at the first misuse. -/
def addAll (options : Options) : List String → Except Misuse Options
  | [] => .ok options
  | "--tree" :: rest => (options.add .tree).bind fun options => options.addAll rest
  | "--verbose" :: rest => (options.add .verbose).bind fun options => options.addAll rest
  | ["--define"] => .error .defineWithoutSpec
  | "--define" :: spec :: rest =>
      (options.add (.define spec)).bind fun options => options.addAll rest
  | argument :: rest =>
      match specOf? argument with
      | some spec => (options.add (.define spec)).bind fun options => options.addAll rest
      | none => (options.add (.source argument)).bind fun options => options.addAll rest

def ofArguments (arguments : List String) : Except Misuse Options := addAll {} arguments

/-- The source argument; none and an empty one mean standard input. -/
def sourceName (options : Options) : String :=
  match options.source with
  | none => "-"
  | some text => if text = "" then "-" else text

end Options

end LetLang
