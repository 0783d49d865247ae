import LetLang.Token

/-!
# Diagnostics

* `Diagnostic`: what is reported about a failure.
* `Log`: the reports of one collector, oldest first.
-/

namespace LetLang

structure Diagnostic where
  message : String
  line : Option Int := none
  operator : Option TokenKind := none
  deriving DecidableEq, Repr

/-- For instance `line 3: Division by zero.`. -/
def Diagnostic.text (d : Diagnostic) : String :=
  match d.line with
  | none => d.message
  | some line => "line " ++ numeral line ++ ": " ++ d.message

structure Log where
  entries : List Diagnostic := []
  deriving DecidableEq, Repr

namespace Log

def empty : Log := {}

def record (log : Log) (d : Diagnostic) : Log := ⟨log.entries ++ [d]⟩

def messages (log : Log) : List String := log.entries.map (·.message)

def size (log : Log) : Nat := log.entries.length

@[simp] theorem entries_empty : empty.entries = [] := rfl

@[simp] theorem entries_record (log : Log) (d : Diagnostic) :
    (log.record d).entries = log.entries ++ [d] := rfl

@[simp] theorem size_record (log : Log) (d : Diagnostic) : (log.record d).size = log.size + 1 := by
  simp [size]

end Log

end LetLang
