import LetLang.Operation
import LetLang.Scope.Reference
import LetLang.Tree

/-!
# Evaluation

Evaluation is strict and goes from left to right: both operands of every operator are evaluated, and
the value of a `let` is evaluated even if its name is never used. The first failure ends it.

* `Tree.evalTop`: the value of a whole program under additional bindings; an error without a line
  takes the line of the root.

Depth is idealised, here and wherever a tree is read, displayed or run: recursion follows a tree to
any depth. An evaluator with a bounded stack gives up on trees that are nested too deeply, and that
ending has no counterpart in `Failure`.
-/

namespace LetLang

namespace Tree

/-- The value of a tree in a scope. A name or an operation that is refused is reported in the log; a
`let` whose token is no identifier is not. -/
def eval : Tree → Scope → Log → Outcome Value
  | .int n _, _, log => (.ok (.integer n), log)
  | .double x _, _, log => (.ok (.double x), log)
  | .bool b _, _, log => (.ok (.boolean b), log)
  | .ident token line, scope, log =>
      match scope.find? token.name with
      | some value => (.ok value, log)
      | none => Outcome.refuse (.unbound token.name) line log
  | .binop left operator right line, scope, log =>
      (left.eval scope log).andThen fun lhs log =>
        (right.eval scope log).andThen fun rhs log =>
          operator.apply lhs rhs line log
  | .letIn name value body _, scope, log =>
      (value.eval scope log).andThen fun v log =>
        match scope.bindLet name v with
        | .ok inner => body.eval inner log
        | .error error => (.error (.runtime error), log)
  | .hole, _, log => (.error .hole, log)

def evalTop (tree : Tree) (scope : Scope) (bindings : Bindings) (log : Log) : Outcome Value :=
  match tree.eval (scope.bindAll bindings) log with
  | (.error (.runtime error), log) => (.error (.runtime (error.attributedTo tree.line)), log)
  | outcome => outcome

end Tree

end LetLang
