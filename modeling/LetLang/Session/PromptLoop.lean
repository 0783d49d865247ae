import LetLang.Session

/-!
# The prompt loop

* `Entry`: what a prompt yields, a line or an interruption.
* `withoutInvisible`: drops invisible characters from a line.
* `PromptLoop.enter`: the effect of one entry; a line of blanks has none.
* `PromptLoop.run`: the loop over all entries. At the end of the input it writes an empty line; an
  error that is not shown ends it at once.
-/

namespace LetLang

/-- Zero-width characters, the no-break space and the carriage return. -/
def isInvisible (c : Char) : Bool :=
  c = '\u200b' || c = '\u200c' || c = '\u200d' || c = '\ufeff' || c = '\u00a0' || c = '\r'

def withoutInvisible (line : String) : String :=
  String.ofList (line.toList.filter (!isInvisible ·))

inductive Entry where
  | line (text : String)
  | interrupt
  deriving DecidableEq, Repr

namespace PromptLoop

def prompt : String := ">>> "

def banner : String := "minilang repl, Ctrl-D to exit, / for commands"

def enter (session : Session) : Entry → Entered
  | .interrupt => { session, transcript := ⟨["KeyboardInterrupt"], []⟩ }
  | .line text =>
      let line := withoutInvisible text
      if (trim line.toList).isEmpty then { session } else session.enter line

/-- A finished loop: what was written before each prompt, what was written after the last one, and
the error that ended it, if one did. -/
structure Run where
  beforePrompts : List Transcript
  last : Transcript
  session : Session
  uncaught : Option RunError

/-- Goes on with a session in which `written` stands since the last prompt. -/
def loop (session : Session) (written : Transcript) : List Entry → Run
  | [] => ⟨[written], ⟨[""], []⟩, session, none⟩
  | entry :: entries =>
      let entered := enter session entry
      match entered.uncaught with
      | some error => ⟨[written], entered.transcript, entered.session, some error⟩
      | none =>
          let rest := loop entered.session entered.transcript entries
          { rest with beforePrompts := written :: rest.beforePrompts }

def run (traces : Bool) (entries : List Entry) : Run :=
  loop { traces } ⟨[banner], []⟩ entries

def Run.transcript (run : Run) : Transcript :=
  run.beforePrompts.foldl (· ++ ·) .empty ++ run.last

end PromptLoop

end LetLang
