import LetLang.Text.Blank

/-!
# Settings from the surroundings

* `Settings`: the texts of the two environment variables that are consulted.
* `Settings.traces`: errors are followed by a trace if the variable for it is not empty.
* `Settings.level`: the level named by the other variable, blanks and case aside, or a default.
-/

namespace LetLang

structure Settings where
  trace : Option String := none
  logLevel : Option String := none
  deriving DecidableEq, Repr

namespace Settings

def traceVariable : String := "MINILANG_DEBUG_PY_TRACE"

def logLevelVariable : String := "MINILANG_LOG_LEVEL"

def traces (settings : Settings) : Bool := settings.trace.any (· != "")

/-! ## Log levels -/

def debugLevel : Int := 10

def warningLevel : Int := 30

def levelNamed? : String → Option Int
  | "CRITICAL" => some 50
  | "FATAL" => some 50
  | "ERROR" => some 40
  | "WARNING" => some warningLevel
  | "WARN" => some warningLevel
  | "INFO" => some 20
  | "DEBUG" => some debugLevel
  | "NOTSET" => some 0
  | _ => none

/-- The capital of a letter, as far as it is one of the letters A to Z: besides the small ASCII
letters the dotless i and the long s have such a capital. -/
def capital (c : Char) : Char :=
  if c = '\u0131' then 'I' else if c = '\u017f' then 'S' else c.toUpper

def level (settings : Settings) (default : Int) : Int :=
  match settings.logLevel with
  | none => default
  | some text => (levelNamed? (String.ofList ((trim text.toList).map capital))).getD default

end Settings

end LetLang
