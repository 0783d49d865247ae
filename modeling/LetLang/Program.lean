import LetLang.Source
import LetLang.Tree.Display
import LetLang.Tree.Eval

/-!
# Running source texts

* `RunError`: why a run gives no value. Parse errors and runtime errors are shown to the user; all
  others end the program that made the run.
* `run`: reads and evaluates a source text.
* `Execution`: a run with its optional tree display, as the session and the command line show it.
* `Transcript`: lines written to the two output streams.
-/

namespace LetLang

inductive RunError where
  | source (error : SourceError)
  | evaluation (failure : Failure)
  deriving DecidableEq, Repr

/-- The text of an error that is shown to the user; `none` for an error that ends the program. -/
def RunError.shown? : RunError → Option String
  | .source (.rejected rejection) => some rejection.toParseError.text
  | .evaluation (.runtime error) => some error.text
  | _ => none

def RunError.text : RunError → String
  | .source (.rejected rejection) => rejection.toParseError.text
  | .source (.oversized digits) => oversizedMessage digits
  | .evaluation (.runtime error) => error.text
  | .evaluation .hole => "SyntaxNode"
  | .evaluation (.breakdown .undefinedInteger) => "a NaN has no integer part"
  | .evaluation (.breakdown .zeroQuotient) => "integer division by zero"

def runTree (tree : Tree) (scope : Scope) (bindings : Bindings) (log : Log) :
    Except RunError Value × Log :=
  match tree.evalTop scope bindings log with
  | (.ok value, log) => (.ok value, log)
  | (.error failure, log) => (.error (.evaluation failure), log)

def run (source : String) (scope : Scope) (bindings : Bindings) (log : Log) :
    Except RunError Value × Log :=
  match Source.read source with
  | .error error => (.error (.source error), log)
  | .ok tree => runTree tree scope bindings log

/-! ## Executions -/

structure Execution where
  treeLines : List String
  result : Except RunError Value
  log : Log

def execute (source : String) (scope : Scope) (showTree : Bool) : Execution :=
  match Source.read source with
  | .error error => ⟨[], .error (.source error), .empty⟩
  | .ok tree =>
      let outcome := runTree tree scope [] .empty
      ⟨if showTree then tree.displayLines 0 else [], outcome.1, outcome.2⟩

/-! ## Transcripts -/

structure Transcript where
  out : List String := []
  err : List String := []
  deriving DecidableEq, Repr

namespace Transcript

def empty : Transcript := {}

def append (s t : Transcript) : Transcript := ⟨s.out ++ t.out, s.err ++ t.err⟩

instance : Append Transcript := ⟨append⟩

def textOf (lines : List String) : String := String.join (lines.map (· ++ "\n"))

def outText (t : Transcript) : String := textOf t.out

def errText (t : Transcript) : String := textOf t.err

end Transcript

/-- What stands for the trace of an error; its text is not determined. -/
def traceLine : String := "<traceback>"

end LetLang
