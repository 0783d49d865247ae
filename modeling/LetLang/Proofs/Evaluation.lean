import LetLang.Proofs.Verdict
import LetLang.Tree.Eval

/-!
# Evaluation as a relation

`Tree.eval` threads a log through the tree. This file states the same evaluation by rules that
mention no log:

* `Tree.Evaluates t scope value`: the tree has the value in the scope;
* `Tree.RefusedAt t scope node error`: evaluation ends at `node`, the first node in the order left
  operand, right operand, operation, respectively value, name, body, whose own step is refused, and
  `error` is the error of that step.

Holes are left out: no rule speaks about them, and a tree without holes is in one of the two cases.
`Tree.IsSupported` trees have known operators only, and every `let` binds an identifier.
-/

namespace LetLang

/-- The log after an error. A `let` that binds no identifier is not reported, everything else is
reported once. -/
def RuntimeError.reportTo (error : RuntimeError) (log : Log) : Log :=
  match error.cause with
  | .letTarget => log
  | cause => log.record ⟨cause.diagnosis, error.line, cause.operator?⟩

theorem RuntimeError.reportTo_of_ne {cause : Cause} (h : cause ≠ .letTarget) (line : Option Int)
    (log : Log) :
    reportTo ⟨cause, line⟩ log = log.record ⟨cause.diagnosis, line, cause.operator?⟩ := by
  cases cause with
  | letTarget => exact absurd rfl h
  | _ => rfl

namespace Tree

/-! ## Rules -/

inductive Evaluates : Tree → Scope → Value → Prop where
  | int (n : Int) (line : Option Int) (scope : Scope) :
      Evaluates (.int n line) scope (.integer n)
  | double (x : Binary64) (line : Option Int) (scope : Scope) :
      Evaluates (.double x line) scope (.double x)
  | bool (b : Bool) (line : Option Int) (scope : Scope) :
      Evaluates (.bool b line) scope (.boolean b)
  | ident {token : Token} {line : Option Int} {scope : Scope} {value : Value}
      (h : scope.find? token.name = some value) :
      Evaluates (.ident token line) scope value
  | binop {left right : Tree} {operator : Operator} {line : Option Int} {scope : Scope}
      {lhs rhs value : Value} (hleft : Evaluates left scope lhs) (hright : Evaluates right scope rhs)
      (hverdict : operator.Decides lhs rhs (.ok value)) :
      Evaluates (.binop left operator right line) scope value
  | letIn {name : Token} {value body : Tree} {line : Option Int} {scope : Scope} {v result : Value}
      (hvalue : Evaluates value scope v) (hname : name.kind = .ident)
      (hbody : Evaluates body (scope.bind name.name v) result) :
      Evaluates (.letIn name value body line) scope result

inductive RefusedAt : Tree → Scope → Tree → RuntimeError → Prop where
  | ident {token : Token} {line : Option Int} {scope : Scope} (h : scope.find? token.name = none) :
      RefusedAt (.ident token line) scope (.ident token line) ⟨.unbound token.name, line⟩
  | left {left right node : Tree} {operator : Operator} {line : Option Int} {scope : Scope}
      {error : RuntimeError} (hleft : RefusedAt left scope node error) :
      RefusedAt (.binop left operator right line) scope node error
  | right {left right node : Tree} {operator : Operator} {line : Option Int} {scope : Scope}
      {lhs : Value} {error : RuntimeError} (hleft : Evaluates left scope lhs)
      (hright : RefusedAt right scope node error) :
      RefusedAt (.binop left operator right line) scope node error
  | operation {left right : Tree} {operator : Operator} {line : Option Int} {scope : Scope}
      {lhs rhs : Value} {cause : Cause} (hleft : Evaluates left scope lhs)
      (hright : Evaluates right scope rhs) (hverdict : operator.Decides lhs rhs (.error cause)) :
      RefusedAt (.binop left operator right line) scope (.binop left operator right line)
        ⟨cause, line⟩
  | letValue {name : Token} {value body node : Tree} {line : Option Int} {scope : Scope}
      {error : RuntimeError} (hvalue : RefusedAt value scope node error) :
      RefusedAt (.letIn name value body line) scope node error
  | letName {name : Token} {value body : Tree} {line : Option Int} {scope : Scope} {v : Value}
      (hvalue : Evaluates value scope v) (hname : name.kind ≠ .ident) :
      RefusedAt (.letIn name value body line) scope (.letIn name value body line)
        ⟨.letTarget, if name.line = 0 then none else some name.line⟩
  | letBody {name : Token} {value body node : Tree} {line : Option Int} {scope : Scope} {v : Value}
      {error : RuntimeError} (hvalue : Evaluates value scope v) (hname : name.kind = .ident)
      (hbody : RefusedAt body (scope.bind name.name v) node error) :
      RefusedAt (.letIn name value body line) scope node error

variable {t node : Tree} {scope : Scope} {value : Value} {error : RuntimeError}

/-! ## The evaluator follows the rules -/

/-- The rules for values are sound: evaluation gives the value and reports nothing. -/
theorem Evaluates.eval_eq (h : Evaluates t scope value) (log : Log) :
    t.eval scope log = (.ok value, log) := by
  induction h with
  | int n line scope => rfl
  | double x line scope => rfl
  | bool b line scope => rfl
  | ident h => simp [eval, h]
  | binop _ _ hverdict ihleft ihright =>
    simp [eval, ihleft, ihright, hverdict _ log, Verdict.outcome]
  | letIn _ hname _ ihvalue ihbody =>
    simp [eval, ihvalue, Scope.bindLet, hname, ihbody]

/-- The rules for errors are sound: evaluation ends with the error and reports it once. -/
theorem RefusedAt.eval_eq (h : RefusedAt t scope node error) (log : Log) :
    t.eval scope log = (.error (.runtime error), error.reportTo log) := by
  induction h with
  | ident h => simp [eval, h, Outcome.refuse, RuntimeError.reportTo]
  | left _ ih => simp [eval, ih]
  | right hleft _ ih => simp [eval, hleft.eval_eq, ih]
  | operation hleft hright hverdict =>
    have hreport := RuntimeError.reportTo_of_ne hverdict.permits.ne_letTarget
    simp [eval, hleft.eval_eq, hright.eval_eq, hverdict _ log, Verdict.outcome, Outcome.refuse,
      hreport]
  | letValue _ ih => simp [eval, ih]
  | letName hvalue hname =>
    simp [eval, hvalue.eval_eq, Scope.bindLet, hname, RuntimeError.reportTo]
  | letBody hvalue hname _ ih => simp [eval, hvalue.eval_eq, Scope.bindLet, hname, ih]

/-- A tree without holes has a value or is refused at some node. -/
theorem evaluates_or_refusedAt (t : Tree) (h : t.isWhole = true) (scope : Scope) :
    (∃ value, Evaluates t scope value) ∨ ∃ node error, RefusedAt t scope node error := by
  induction t generalizing scope with
  | int n line => exact .inl ⟨_, .int n line scope⟩
  | double x line => exact .inl ⟨_, .double x line scope⟩
  | bool b line => exact .inl ⟨_, .bool b line scope⟩
  | ident token line =>
    cases hfind : scope.find? token.name with
    | some value => exact .inl ⟨value, .ident hfind⟩
    | none => exact .inr ⟨_, _, .ident hfind⟩
  | binop left operator right line ihleft ihright =>
    simp only [isWhole, Bool.and_eq_true] at h
    -- The right operand is reached only if the left one has a value.
    rcases ihleft h.1 scope with ⟨lhs, hleft⟩ | ⟨node, error, hleft⟩
    · rcases ihright h.2 scope with ⟨rhs, hright⟩ | ⟨node, error, hright⟩
      · rcases operator.exists_verdict lhs rhs with ⟨verdict, -, hverdict⟩
        cases verdict with
        | ok value => exact .inl ⟨value, .binop hleft hright hverdict⟩
        | error cause => exact .inr ⟨_, _, .operation hleft hright hverdict⟩
      · exact .inr ⟨node, error, .right hleft hright⟩
    · exact .inr ⟨node, error, .left hleft⟩
  | letIn name value body line ihvalue ihbody =>
    simp only [isWhole, Bool.and_eq_true] at h
    rcases ihvalue h.1 scope with ⟨v, hvalue⟩ | ⟨node, error, hvalue⟩
    · by_cases hname : name.kind = .ident
      · rcases ihbody h.2 (scope.bind name.name v) with ⟨result, hbody⟩ | ⟨node, error, hbody⟩
        · exact .inl ⟨result, .letIn hvalue hname hbody⟩
        · exact .inr ⟨node, error, .letBody hvalue hname hbody⟩
      · exact .inr ⟨_, _, .letName hvalue hname⟩
    · exact .inr ⟨node, error, .letValue hvalue⟩
  | hole => exact nomatch h

/-! ## Properties of all nodes -/

def Everywhere (property : Tree → Prop) : Tree → Prop
  | .binop left operator right line =>
      property (.binop left operator right line) ∧ left.Everywhere property ∧
        right.Everywhere property
  | .letIn name value body line =>
      property (.letIn name value body line) ∧ value.Everywhere property ∧
        body.Everywhere property
  | t => property t

theorem Everywhere.root {property : Tree → Prop} (h : t.Everywhere property) : property t := by
  cases t with
  | binop _ _ _ _ | letIn _ _ _ _ => exact h.1
  | _ => exact h

/-- What has a property everywhere has it where evaluation is refused. -/
theorem RefusedAt.property {property : Tree → Prop} (h : RefusedAt t scope node error)
    (hall : t.Everywhere property) : property node := by
  induction h with
  | ident _ | operation _ _ _ | letName _ _ => exact hall.root
  | left _ ih | letValue _ ih => exact ih hall.2.1
  | right _ _ ih | letBody _ _ _ ih => exact ih hall.2.2

def IsSupportedNode : Tree → Prop
  | .binop _ operator _ _ => operator.IsSupported
  | .letIn name _ _ _ => name.kind = .ident
  | .hole => False
  | _ => True

def IsSupported (t : Tree) : Prop := t.Everywhere IsSupportedNode

theorem IsSupported.isWhole (h : t.IsSupported) : t.isWhole = true := by
  induction t with
  | binop left operator right line ihleft ihright =>
    simp [Tree.isWhole, ihleft h.2.1, ihright h.2.2]
  | letIn name value body line ihvalue ihbody =>
    simp [Tree.isWhole, ihvalue h.2.1, ihbody h.2.2]
  | hole => exact h.elim
  | _ => rfl

end Tree

end LetLang
