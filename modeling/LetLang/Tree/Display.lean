import LetLang.Number.Written
import LetLang.Tree

/-!
# Display of trees

* `Tree.displayLines`: one line per leaf, two for the frame of an operation, and headed sections for
  a `let`.
* `Tree.display?`: the same for a tree without holes; no other tree has a display.
* `Tree.inspect` and `Tree.text`: the tree in constructor form. `text` abbreviates a `let` at the
  root and, from there on, its value and its body.
-/

namespace LetLang

/-- The text after `indent` spaces; a negative indent gives none. -/
def indented (indent : Int) (text : String) : String :=
  String.ofList (List.replicate indent.toNat ' ') ++ text

namespace Tree

/-! ## Indented lines -/

def boolWord (b : Bool) : String := if b then "true" else "false"

/-- The lines of a tree at an indent; a hole has none. -/
def displayLines : Tree → Int → List String
  | .int n _, indent => [indented indent ("Int(" ++ numeral n ++ ")")]
  | .double x _, indent => [indented indent ("Double(" ++ x.text ++ ")")]
  | .bool b _, indent => [indented indent ("Bool(" ++ boolWord b ++ ")")]
  | .ident token _, indent => [indented indent ("Id(" ++ token.name ++ ")")]
  | .binop left operator right _, indent =>
      indented indent ("BinOp[" ++ operator.label ++ "](") ::
        (left.displayLines (indent + 2) ++ right.displayLines (indent + 2) ++ [indented indent ")"])
  | .letIn name value body _, indent =>
      indented indent ("Let: " ++ name.name) ::
        (indented indent " Value Expression:" :: value.displayLines (indent + 4) ++
          indented indent " Body Expression:" :: body.displayLines (indent + 4))
  | .hole, _ => []

def display? (tree : Tree) (indent : Int) : Option (List String) :=
  if tree.isWhole then some (tree.displayLines indent) else none

def pretty (tree : Tree) (indent : Int) : String :=
  "\n".intercalate (tree.displayLines indent)

/-! ## Constructor form -/

def lineField : Option Int → String
  | none => "line=None)"
  | some line => "line=" ++ numeral line ++ ")"

def inspect : Tree → String
  | .int n line => "IntNode(value=" ++ numeral n ++ ", " ++ lineField line
  | .double x line => "DoubleNode(value=" ++ x.text ++ ", " ++ lineField line
  | .bool b line => "BoolNode(value=" ++ (if b then "True" else "False") ++ ", " ++ lineField line
  | .ident token line => "IdentNode(name=" ++ token.text ++ ", " ++ lineField line
  | .binop left operator right line =>
      "BinOpNode(left=" ++ left.inspect ++ ", op=" ++ operator.text ++
        ", right=" ++ right.inspect ++ ", " ++ lineField line
  | .letIn name value body line =>
      "LetNode(ident=" ++ name.text ++ ", value_expr=" ++ value.inspect ++
        ", body_expr=" ++ body.inspect ++ ", " ++ lineField line
  | .hole => "SyntaxNode()"

/-- The tree in constructor form, with an outer `let` abbreviated. -/
def text : Tree → String
  | .letIn name value body _ =>
      "Let(" ++ name.name ++ ", " ++ value.text ++ ", " ++ body.text ++ ")"
  | tree => tree.inspect

end Tree

end LetLang
