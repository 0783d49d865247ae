import LetLang.Proofs.Evaluation

/-!
# Sub-trees and their scopes

A sub-tree may occur in several places of a tree, so it is found by a path. Its scope extends that
of the tree by the values of the lets whose bodies the path passes through. If a tree has a value,
so has every sub-tree in its own scope.
-/

namespace LetLang

/-! ## Paths -/

/-- The parts of a node: the operands of an operation, the value and the body of a `let`. -/
inductive Branch where
  | left
  | right
  | value
  | body
  deriving DecidableEq, Repr

abbrev Path := List Branch

namespace Tree

def part? : Tree → Branch → Option Tree
  | .binop left _ _ _, .left => some left
  | .binop _ _ right _, .right => some right
  | .letIn _ value _ _, .value => some value
  | .letIn _ _ body _, .body => some body
  | _, _ => none

/-- The sub-tree that a path leads to. -/
def subtree? : Tree → Path → Option Tree
  | t, [] => some t
  | t, branch :: path =>
      match t.part? branch with
      | some part => part.subtree? path
      | none => none

@[simp] theorem subtree?_nil (t : Tree) : t.subtree? [] = some t := by
  simp [subtree?]

/-- The scope of the sub-tree at a path. Only the body of a `let` has a scope of its own. -/
inductive ScopeAt : Tree → Scope → Path → Scope → Prop where
  | root {t : Tree} {scope : Scope} : ScopeAt t scope [] scope
  | left {left right : Tree} {operator : Operator} {line : Option Int} {scope inner : Scope}
      {path : Path} (h : ScopeAt left scope path inner) :
      ScopeAt (.binop left operator right line) scope (.left :: path) inner
  | right {left right : Tree} {operator : Operator} {line : Option Int} {scope inner : Scope}
      {path : Path} (h : ScopeAt right scope path inner) :
      ScopeAt (.binop left operator right line) scope (.right :: path) inner
  | value {name : Token} {value body : Tree} {line : Option Int} {scope inner : Scope}
      {path : Path} (h : ScopeAt value scope path inner) :
      ScopeAt (.letIn name value body line) scope (.value :: path) inner
  | body {name : Token} {value body : Tree} {line : Option Int} {scope inner : Scope}
      {path : Path} {v : Value} (hvalue : value.Evaluates scope v)
      (h : ScopeAt body (scope.bind name.name v) path inner) :
      ScopeAt (.letIn name value body line) scope (.body :: path) inner

end Tree

/-! ## The evaluator and the rules -/

namespace Outcome

variable {α β : Type} {outcome : Outcome α} {next : α → Log → Outcome β} {after : Log}

/-- A computation in two parts gives a result only if both parts do. -/
theorem parts_of_andThen_ok {b : β} (h : outcome.andThen next = (.ok b, after)) :
    ∃ a log, outcome = (.ok a, log) ∧ next a log = (.ok b, after) := by
  rcases outcome with ⟨result, log⟩
  cases result with
  | ok a => exact ⟨a, log, rfl, h⟩
  | error failure => exact nomatch h

/-- A computation in two parts fails in the first part, or in the second one after the first. -/
theorem parts_of_andThen_error {failure : Failure}
    (h : outcome.andThen next = (.error failure, after)) :
    outcome = (.error failure, after) ∨
      ∃ a log, outcome = (.ok a, log) ∧ next a log = (.error failure, after) := by
  rcases outcome with ⟨result, log⟩
  cases result with
  | ok a => exact .inr ⟨a, log, rfl, h⟩
  | error failure' =>
    cases h
    exact .inl rfl

end Outcome

def Scope.bindTarget (scope : Scope) (name : Token) (value : Value) (log : Log) : Outcome Scope :=
  match scope.bindLet name value with
  | .ok inner => (.ok inner, log)
  | .error error => (.error (.runtime error), log)

theorem Scope.bindTarget_of_ident {name : Token} (h : name.kind = .ident) (scope : Scope)
    (value : Value) (log : Log) :
    scope.bindTarget name value log = (.ok (scope.bind name.name value), log) := by
  simp [bindTarget, bindLet, h]

/-- A name that is bound is an identifier, and binding it leaves no report. -/
theorem Scope.eq_of_bindTarget {scope inner : Scope} {name : Token} {value : Value}
    {log after : Log} (h : scope.bindTarget name value log = (.ok inner, after)) :
    name.kind = .ident ∧ inner = scope.bind name.name value ∧ after = log := by
  by_cases hname : name.kind = .ident
  · rw [bindTarget_of_ident hname] at h
    cases h
    exact ⟨hname, rfl, rfl⟩
  · simp [bindTarget, bindLet, hname] at h

/-- An operation that gives a value decides for it, and leaves the log alone. -/
theorem Operator.decides_of_apply {operator : Operator} {lhs rhs value : Value} {line : Option Int}
    {log after : Log} (h : operator.apply lhs rhs line log = (.ok value, after)) :
    operator.Decides lhs rhs (.ok value) ∧ after = log := by
  rcases operator.exists_verdict lhs rhs with ⟨verdict, -, hverdict⟩
  rw [hverdict] at h
  cases verdict with
  | ok value' =>
    cases h
    exact ⟨hverdict, rfl⟩
  | error cause => exact nomatch h

namespace Tree

variable {t part : Tree} {scope : Scope} {value : Value} {log after : Log} {path : Path}

/-- A `let` evaluates its value, binds its name, and evaluates its body. -/
theorem eval_letIn (name : Token) (value body : Tree) (line : Option Int) (scope : Scope)
    (log : Log) :
    (letIn name value body line).eval scope log =
      (value.eval scope log).andThen fun v log =>
        (scope.bindTarget name v log).andThen fun inner log => body.eval inner log := by
  rw [eval]
  congr
  funext v log
  unfold Scope.bindTarget
  cases scope.bindLet name v <;> rfl

/-- Two lets of one name agree if their values do and their bodies do in the scopes they see. -/
theorem eval_letIn_congr {name : Token} {value value' body body' : Tree} {line : Option Int}
    {scope scope' : Scope} (hvalue : ∀ log, value.eval scope log = value'.eval scope' log)
    (hbody : ∀ v log, body.eval (scope.bind name.name v) log =
      body'.eval (scope'.bind name.name v) log) (log : Log) :
    (letIn name value body line).eval scope log =
      (letIn name value' body' line).eval scope' log := by
  by_cases hname : name.kind = .ident
  · simp only [eval_letIn, hvalue, Scope.bindTarget_of_ident hname, Outcome.andThen_ok, hbody]
  · simp [eval, hvalue, Scope.bindLet, hname]

/-- A value that evaluation gives follows by the rules. -/
theorem evaluates_of_eval (h : t.eval scope log = (.ok value, after)) :
    t.Evaluates scope value ∧ after = log := by
  induction t generalizing scope value log after with
  | int n line =>
    cases h
    exact ⟨.int n line scope, rfl⟩
  | double x line =>
    cases h
    exact ⟨.double x line scope, rfl⟩
  | bool b line =>
    cases h
    exact ⟨.bool b line scope, rfl⟩
  | ident token line =>
    simp only [eval] at h
    split at h
    next found hfind =>
      cases h
      exact ⟨.ident hfind, rfl⟩
    · cases h
  | binop left operator right line ihleft ihright =>
    rcases Outcome.parts_of_andThen_ok h with ⟨lhs, _, hleft, hrest⟩
    rcases Outcome.parts_of_andThen_ok hrest with ⟨rhs, _, hright, happly⟩
    -- Each part leaves the log as it found it, so all three see the same one.
    rcases ihleft hleft with ⟨hlhs, rfl⟩
    rcases ihright hright with ⟨hrhs, rfl⟩
    rcases Operator.decides_of_apply happly with ⟨hverdict, rfl⟩
    exact ⟨.binop hlhs hrhs hverdict, rfl⟩
  | letIn name value body line ihvalue ihbody =>
    rw [eval_letIn] at h
    rcases Outcome.parts_of_andThen_ok h with ⟨v, _, hvalue, hrest⟩
    rcases Outcome.parts_of_andThen_ok hrest with ⟨inner, _, hbind, hbody⟩
    rcases ihvalue hvalue with ⟨hv, rfl⟩
    rcases Scope.eq_of_bindTarget hbind with ⟨hname, rfl, rfl⟩
    rcases ihbody hbody with ⟨hresult, rfl⟩
    exact ⟨.letIn hv hname hresult, rfl⟩
  | hole => cases h

/-- The evaluator gives a value exactly if the rules do, and it leaves the log alone. -/
theorem evaluates_iff :
    t.eval scope log = (.ok value, after) ↔ t.Evaluates scope value ∧ after = log := by
  constructor
  · exact evaluates_of_eval
  · rintro ⟨h, rfl⟩
    exact h.eval_eq after

/-! ## Sub-trees of a tree that has a value -/

/-- If a tree has a value, so has every sub-tree in its own scope. -/
theorem Evaluates.subtree (h : t.Evaluates scope value) (hpath : t.subtree? path = some part) :
    ∃ inner v, t.ScopeAt scope path inner ∧ part.Evaluates inner v := by
  induction path generalizing t scope value with
  | nil =>
    cases hpath
    exact ⟨scope, value, .root, h⟩
  | cons branch path ih =>
    -- Only operations and lets have parts, and their rules evaluate all of them.
    cases h with
    | binop hleft hright _ =>
      cases branch with
      | left =>
        rcases ih hleft hpath with ⟨inner, v, hscope, hpart⟩
        exact ⟨inner, v, .left hscope, hpart⟩
      | right =>
        rcases ih hright hpath with ⟨inner, v, hscope, hpart⟩
        exact ⟨inner, v, .right hscope, hpart⟩
      | value | body => exact nomatch hpath
    | letIn hvalue _ hbody =>
      cases branch with
      | value =>
        rcases ih hvalue hpath with ⟨inner, v, hscope, hpart⟩
        exact ⟨inner, v, .value hscope, hpart⟩
      | body =>
        rcases ih hbody hpath with ⟨inner, v, hscope, hpart⟩
        exact ⟨inner, v, .body hvalue hscope, hpart⟩
      | left | right => exact nomatch hpath
    | int _ _ _ | double _ _ _ | bool _ _ _ | ident _ => cases branch <;> exact nomatch hpath

end Tree

end LetLang
