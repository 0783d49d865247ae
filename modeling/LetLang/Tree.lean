import LetLang.Number.Binary64
import LetLang.Token

/-!
# Expression trees

* `Tree`: literals, names, binary operations and `let`. A node may carry the line it was read from.
  A hole stands for a node that has no rule: it can be neither evaluated nor displayed.
* `Tree.equals`: equality of all fields, lines included; doubles are compared as numbers, and a hole
  equals nothing.
-/

namespace LetLang

inductive Tree where
  | int (value : Int) (line : Option Int)
  | double (value : Binary64) (line : Option Int)
  | bool (value : Bool) (line : Option Int)
  | ident (name : Token) (line : Option Int)
  | binop (left : Tree) (operator : Operator) (right : Tree) (line : Option Int)
  /-- `let name = value in body`; the name is bound in the body only. -/
  | letIn (name : Token) (value body : Tree) (line : Option Int)
  | hole
  deriving DecidableEq

namespace Tree

def line : Tree → Option Int
  | .int _ line => line
  | .double _ line => line
  | .bool _ line => line
  | .ident _ line => line
  | .binop _ _ _ line => line
  | .letIn _ _ _ line => line
  | .hole => none

/-- The tree has no hole. -/
def isWhole : Tree → Bool
  | .binop left _ right _ => left.isWhole && right.isWhole
  | .letIn _ value body _ => value.isWhole && body.isWhole
  | .hole => false
  | _ => true

def equals : Tree → Tree → Bool
  | .int n₁ l₁, .int n₂ l₂ => n₁ == n₂ && l₁ == l₂
  | .double x₁ l₁, .double x₂ l₂ => x₁.equals x₂ && l₁ == l₂
  | .bool b₁ l₁, .bool b₂ l₂ => b₁ == b₂ && l₁ == l₂
  | .ident t₁ l₁, .ident t₂ l₂ => t₁ == t₂ && l₁ == l₂
  | .binop a₁ o₁ b₁ l₁, .binop a₂ o₂ b₂ l₂ =>
      a₁.equals a₂ && o₁ == o₂ && b₁.equals b₂ && l₁ == l₂
  | .letIn t₁ a₁ b₁ l₁, .letIn t₂ a₂ b₂ l₂ =>
      t₁ == t₂ && a₁.equals a₂ && b₁.equals b₂ && l₁ == l₂
  | _, _ => false

end Tree

end LetLang
