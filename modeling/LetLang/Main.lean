import LetLang.CommandLine

/-!
# The program

With arguments the program runs a source text, without any it prompts for lines. This module only
moves text between the surroundings and the library.
-/

namespace LetLang

namespace Console

def write (transcript : Transcript) : IO Unit := do
  IO.print transcript.outText
  (← IO.getStdout).flush
  IO.eprint transcript.errText

/-- Reads a stream to its end. -/
partial def readAll (stream : IO.FS.Stream) (bytes : ByteArray) : IO ByteArray := do
  let chunk ← stream.read 65536
  if chunk.isEmpty then return bytes else readAll stream (bytes ++ chunk)

def settings : IO Settings := do
  let trace ← IO.getEnv Settings.traceVariable
  let logLevel ← IO.getEnv Settings.logLevelVariable
  return { trace, logLevel }

def contents (path : String) : IO (Option ByteArray) := do
  try
    return some (← IO.FS.readBinFile path)
  catch _ =>
    return none

/-- Prompts for a line until the input ends. -/
partial def prompt (session : Session) : IO UInt32 := do
  IO.print PromptLoop.prompt
  (← IO.getStdout).flush
  let line ← (← IO.getStdin).getLine
  if line.isEmpty then
    write ⟨[""], []⟩
    return 0
  let text := String.ofList (line.toList.reverse.dropWhile (· == '\n')).reverse
  let entered := PromptLoop.enter session (.line text)
  write entered.transcript
  match entered.uncaught with
  | some error =>
      IO.eprintln error.text
      return 1
  | none => prompt entered.session

def runArguments (arguments : List String) : IO UInt32 := do
  let name := match Options.ofArguments arguments with
    | .ok options => options.sourceName
    | .error _ => ""
  let input ← if name = "-" then readAll (← IO.getStdin) .empty else pure .empty
  let file ← contents name
  let surroundings : Surroundings :=
    { input := (String.fromUTF8? input).getD ""
      file? := fun path => if path = name then file else none
      settings := ← settings }
  let report := CommandLine.run surroundings arguments
  write report.transcript
  match report.exit with
  | .code n => return n.toUInt32
  | .finished => return 0
  | .misuse misuse =>
      IO.eprintln misuse.message
      return 1
  | .undecodable =>
      IO.eprintln "The source is not valid UTF-8."
      return 1
  | .uncaught error =>
      IO.eprintln error.text
      return 1

end Console

end LetLang

def main (arguments : List String) : IO UInt32 := do
  if arguments.isEmpty then
    LetLang.Console.write ⟨[LetLang.PromptLoop.banner], []⟩
    LetLang.Console.prompt { traces := (← LetLang.Console.settings).traces }
  else
    LetLang.Console.runArguments arguments
