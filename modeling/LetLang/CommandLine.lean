import LetLang.CommandLine.Options
import LetLang.CommandLine.Surroundings
import LetLang.Session.PromptLoop

/-!
# The command line

* `CommandLine.run`: runs it.
* `CommandLine.start`: the same, or the prompt loop if there are no arguments.
-/

namespace LetLang

inductive Exit where
  | code (n : Nat)
  /-- The prompt loop came to its end. -/
  | finished
  | misuse (cause : Misuse)
  /-- A source file is not valid UTF-8. -/
  | undecodable
  | uncaught (error : RunError)
  deriving DecidableEq, Repr

structure Report where
  exit : Exit
  transcript : Transcript := .empty

namespace CommandLine

/-- The source text that a name stands for: standard input, the contents of a file, or the name
itself. -/
def source (surroundings : Surroundings) (name : String) : Except Exit String :=
  if name = "-" then
    let input := readText surroundings.input
    if input = "" then .error (.misuse .emptyInput) else .ok input
  else
    match surroundings.file? name with
    | some bytes =>
        match String.fromUTF8? bytes with
        | some text => .ok (readText text)
        | none => .error .undecodable
    | none => .ok name

/-- The log as it is written when debugging is asked for. -/
def logLines (log : Log) : List String :=
  log.entries.map fun d => "DEBUG:minilang.diagnostics:" ++ d.text

def runSource (settings : Settings) (options : Options) (text : String) : Report :=
  let execution := execute text (.ofBindings options.defines) options.showTree
  let level := if options.verbose then Settings.debugLevel else settings.level Settings.warningLevel
  let logged := if level ≤ Settings.debugLevel then logLines execution.log else []
  match execution.result with
  | .ok value => ⟨.code 0, ⟨execution.treeLines ++ [value.text], logged⟩⟩
  | .error error =>
      match error.shown? with
      | some text =>
          let trace := if settings.traces then [traceLine] else []
          ⟨.code 1, ⟨execution.treeLines, logged ++ ("Error: " ++ text) :: trace⟩⟩
      | none => ⟨.uncaught error, ⟨execution.treeLines, logged⟩⟩

def run (surroundings : Surroundings) (arguments : List String) : Report :=
  match Options.ofArguments arguments with
  | .error misuse => { exit := .misuse misuse }
  | .ok options =>
      match source surroundings options.sourceName with
      | .error exit => { exit }
      | .ok text => runSource surroundings.settings options text

def interact (settings : Settings) (entries : List Entry) : Report :=
  let finished := PromptLoop.run settings.traces entries
  match finished.uncaught with
  | some error => ⟨.uncaught error, finished.transcript⟩
  | none => ⟨.finished, finished.transcript⟩

def start (surroundings : Surroundings) (arguments : List String) (entries : List Entry) : Report :=
  if arguments.isEmpty then interact surroundings.settings entries else run surroundings arguments

end CommandLine

end LetLang
