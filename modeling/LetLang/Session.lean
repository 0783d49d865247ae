import LetLang.Program
import LetLang.Session.Command

/-!
# Interactive sessions

A line that starts with a slash is a command; any other line is evaluated in the scope of the
session.

* `Session`: the scope, whether trees are displayed, whether errors are followed by a trace.
* `Session.enter`: the effect of one line: the next session, what is written, and the error that
  ends the program, if there is one.

Only a definition that succeeds and a reset change the scope; the names that an expression binds by
`let` do not outlive it.
-/

namespace LetLang

structure Session where
  scope : Scope := .empty
  showTree : Bool := false
  traces : Bool := false
  deriving DecidableEq

structure Entered where
  session : Session
  transcript : Transcript := .empty
  /-- The error that ends the program. -/
  uncaught : Option RunError := none

namespace Session

def onOff (b : Bool) : String := if b then "on" else "off"

def errorLines (session : Session) (text : String) : List String :=
  ("Error: " ++ text) :: if session.traces then ["", "Python traceback:", traceLine] else []

/-- The effect of an error, behind lines that have been written: it is shown, or it ends the
program. -/
def fail (session : Session) (written : List String) (error : RunError) : Entered :=
  match error.shown? with
  | some text => { session, transcript := ⟨written, session.errorLines text⟩ }
  | none => { session, transcript := ⟨written, []⟩, uncaught := some error }

def evaluate (session : Session) (line : String) : Entered :=
  let execution := execute line session.scope session.showTree
  match execution.result with
  | .ok value => { session, transcript := ⟨execution.treeLines ++ [value.text], []⟩ }
  | .error error => session.fail execution.treeLines error

def bindingLine (name : String) (value : Value) : String := name ++ " = " ++ value.shown

def define (session : Session) (argument : List Char) : Entered :=
  match Definition.ofChars? (trim argument) with
  | none => { session, transcript := ⟨[], ["Usage: /def NAME = EXPR"]⟩ }
  | some definition =>
      let name := String.ofList definition.name
      match (run (String.ofList definition.source) session.scope [] .empty).1 with
      | .ok value =>
          { session := { session with scope := session.scope.bind name value }
            transcript := ⟨[bindingLine name value], []⟩ }
      | .error error => session.fail [] error

def listBindings (session : Session) : Entered :=
  match session.scope.visible with
  | [] => { session, transcript := ⟨["(no bindings)"], []⟩ }
  | bindings => { session, transcript := ⟨bindings.map fun pair => bindingLine pair.1 pair.2, []⟩ }

/-- What the argument of the trace command asks for; no argument toggles. -/
def traceAfter? (traces : Bool) (argument : List Char) : Option Bool :=
  match String.ofList (argument.map Char.toLower) with
  | "on" => some true
  | "1" => some true
  | "true" => some true
  | "yes" => some true
  | "off" => some false
  | "0" => some false
  | "false" => some false
  | "no" => some false
  | "" => some (!traces)
  | _ => none

def setTrace (session : Session) (argument : List Char) : Entered :=
  match traceAfter? session.traces argument with
  | some traces =>
      { session := { session with traces := traces }
        transcript := ⟨["Python traceback: " ++ onOff traces], []⟩ }
  | none => { session, transcript := ⟨[], ["Usage: /py-traceback [on|off]"]⟩ }

def carryOut (session : Session) : Command → Entered
  | .clear => { session, transcript := ⟨["<clear>"], []⟩ }
  | .define argument => session.define argument
  | .listBindings => session.listBindings
  | .trace argument => session.setTrace argument
  | .reset =>
      { session := { session with scope := .empty }, transcript := ⟨["Environment reset."], []⟩ }
  | .toggleTree =>
      { session := { session with showTree := !session.showTree }
        transcript := ⟨["Tree display: " ++ onOff (!session.showTree)], []⟩ }
  | .unknown name =>
      { session, transcript := ⟨[], ["Unknown command: " ++ String.ofList name]⟩ }

def enter (session : Session) (line : String) : Entered :=
  match Command.ofLine? line with
  | some command => session.carryOut command
  | none => session.evaluate line

end Session

end LetLang
