import LetLang.Failure
import LetLang.Scope

/-!
# References to bindings

* `Reference`: how a caller refers to a binding, by a name, by a token that stands for a name, or by
  no name at all.
* `Scope.extend`, `Scope.lookup`, `Scope.has`: the operations of a scope through a reference.
-/

namespace LetLang

inductive Reference where
  | name (text : String)
  | token (t : Token)
  | unnamed
  deriving DecidableEq, Repr

/-- The name that a reference stands for. A token stands for the text of what it carries. -/
def Reference.key : Reference → Option String
  | .name text => some text
  | .token t => some t.name
  | .unnamed => none

namespace Scope

def extend (scope : Scope) (reference : Reference) (value : Value) : Scope :=
  scope.push reference.key value

def lookup (scope : Scope) (reference : Reference) : Except RuntimeError Value :=
  match scope.lookup? reference.key with
  | some value => .ok value
  | none => .error { cause := .unbound (reference.key.getD "") }

def has (scope : Scope) (reference : Reference) : Bool :=
  scope.frames.any (·.name == reference.key)

/-- Extends a scope by a `let` binding. A token line of zero is no line. -/
def bindLet (scope : Scope) (name : Token) (value : Value) : Except RuntimeError Scope :=
  if name.kind = .ident then .ok (scope.bind name.name value)
  else .error ⟨.letTarget, if name.line = 0 then none else some name.line⟩

/-! ## Laws -/

theorem lookup_name (scope : Scope) (name : String) :
    scope.lookup (.name name) =
      match scope.find? name with
      | some value => .ok value
      | none => .error { cause := .unbound name } := rfl

/-- A scope has what look-up finds. -/
theorem has_eq_isSome (scope : Scope) (reference : Reference) :
    scope.has reference = (scope.lookup? reference.key).isSome := by
  rw [has, lookup?, Option.isSome_map, List.isSome_find?]

end Scope

end LetLang
