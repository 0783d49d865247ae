import LetLang.Proofs.Evaluation

/-!
# Static kinds

The kind of a tree can be told from the kinds of its names, without evaluating it. A tree that has
a value has its static kind; a tree that has a static kind is refused for a zero divisor or for the
range of the integers only.
-/

namespace LetLang

abbrev Kinds := String → Option Kind

/-- Assigns a kind to one more name; an older assignment of the name is hidden. -/
def Kinds.assign (kinds : Kinds) (name : String) (kind : Kind) : Kinds :=
  fun other => if other = name then some kind else kinds other

/-- The visible bindings of the scope have the assigned kinds, and no other name is bound. -/
def Scope.HasKinds (scope : Scope) (kinds : Kinds) : Prop :=
  ∀ name, (scope.find? name).map Value.kind = kinds name

/-- A binding takes the kind of its value with it. -/
theorem Scope.HasKinds.bind {scope : Scope} {kinds : Kinds} (h : scope.HasKinds kinds)
    (name : String) (value : Value) :
    (scope.bind name value).HasKinds (kinds.assign name value.kind) := by
  intro other
  rw [Scope.find?_bind, Kinds.assign]
  split
  · rfl
  · exact h other

/-- The errors that no kind rules out: a zero divisor, and an integer out of range. -/
def Cause.IsNumericLimit : Cause → Prop
  | .divisionByZero | .modByZero | .operandRange _ | .resultRange _ => True
  | _ => False

/-- Where the kinds fit, only the limits of numbers are left to refuse an operation. -/
theorem Operator.Permits.isNumericLimit {operator : Operator} {left right kind : Kind}
    {cause : Cause} (h : operator.Permits left right (.error cause))
    (hsupported : operator.IsSupported) (hkind : operator.resultKind? left right = some kind) :
    cause.IsNumericLimit := by
  cases h with
  | operandKinds _ hkinds =>
    rw [hkind] at hkinds
    exact nomatch hkinds
  | unsupported hnot => exact absurd hsupported hnot
  | operandRange _ | resultRange _ | divisionByZero _ | modByZero _ => trivial

namespace Tree

def kind? : Tree → Kinds → Option Kind
  | .int _ _, _ => some .integer
  | .double _ _, _ => some .double
  | .bool _ _, _ => some .boolean
  | .ident token _, kinds => kinds token.name
  | .binop left operator right _, kinds =>
      match left.kind? kinds, right.kind? kinds with
      | some l, some r => operator.resultKind? l r
      | _, _ => none
  | .letIn name value body _, kinds =>
      match value.kind? kinds with
      | some v => body.kind? (kinds.assign name.name v)
      | none => none
  | .hole, _ => none

variable {t node : Tree} {scope : Scope} {value : Value} {error : RuntimeError} {kinds : Kinds}
  {kind : Kind}

/-- A tree that has a value has the kind of the value. -/
theorem Evaluates.kind?_eq (h : Evaluates t scope value) (hscope : scope.HasKinds kinds) :
    t.kind? kinds = some value.kind := by
  induction h generalizing kinds with
  | int n line scope => rfl
  | double x line scope => rfl
  | bool b line scope => rfl
  | @ident token line scope value h =>
    have hname := hscope token.name
    rw [h] at hname
    exact hname.symm
  | binop _ _ hverdict ihleft ihright =>
    rw [kind?, ihleft hscope, ihright hscope]
    cases hverdict.permits with
    | value hkind => exact hkind
  | @letIn name _ _ _ _ v _ _ _ _ ihvalue ihbody =>
    rw [kind?, ihvalue hscope]
    exact ihbody (hscope.bind name.name v)

/-- A tree that has a kind is refused for a numeric limit only. -/
theorem RefusedAt.isNumericLimit (h : RefusedAt t scope node error) (ht : t.IsSupported)
    (hscope : scope.HasKinds kinds) (hkind : t.kind? kinds = some kind) :
    error.cause.IsNumericLimit := by
  induction h generalizing kinds kind with
  | @ident token line scope h =>
    have hname := hscope token.name
    rw [h] at hname
    rw [kind?, ← hname] at hkind
    exact nomatch hkind
  | @left left right _ _ _ _ _ _ ih =>
    rw [kind?] at hkind
    cases hleft : left.kind? kinds with
    | some l => exact ih ht.2.1 hscope hleft
    | none =>
      rw [hleft] at hkind
      exact nomatch hkind
  | @right left right _ _ _ _ _ _ hleft _ ih =>
    -- The left operand has been evaluated, so its kind is known and the right one has a kind too.
    rw [kind?, hleft.kind?_eq hscope] at hkind
    cases hright : right.kind? kinds with
    | some r => exact ih ht.2.2 hscope hright
    | none =>
      rw [hright] at hkind
      exact nomatch hkind
  | operation hleft hright hverdict =>
    rw [kind?, hleft.kind?_eq hscope, hright.kind?_eq hscope] at hkind
    exact hverdict.permits.isNumericLimit ht.1 hkind
  | @letValue _ value _ _ _ _ _ _ ih =>
    rw [kind?] at hkind
    cases hvalue : value.kind? kinds with
    | some v => exact ih ht.2.1 hscope hvalue
    | none =>
      rw [hvalue] at hkind
      exact nomatch hkind
  | letName _ hname => exact absurd ht.1 hname
  | letBody hvalue _ _ ih =>
    rw [kind?, hvalue.kind?_eq hscope] at hkind
    exact ih ht.2.2 (hscope.bind _ _) hkind

/-- Evaluation keeps to the static kinds. A tree that evaluates has a kind, and its value is of that
kind. A tree that has a kind evaluates to a value of that kind, or fails for a numeric limit. -/
theorem eval_kind? (t : Tree) (ht : t.IsSupported) (scope : Scope) (kinds : Kinds)
    (hscope : scope.HasKinds kinds) (log : Log) :
    (∀ value after, t.eval scope log = (.ok value, after) → t.kind? kinds = some value.kind) ∧
      ∀ kind, t.kind? kinds = some kind →
        (∃ value, t.eval scope log = (.ok value, log) ∧ value.kind = kind) ∨
          ∃ error after, t.eval scope log = (.error (.runtime error), after) ∧
            error.cause.IsNumericLimit := by
  rcases t.evaluates_or_refusedAt ht.isWhole scope with ⟨value, h⟩ | ⟨node, error, h⟩
  · have heval := h.eval_eq log
    have hkind := h.kind?_eq hscope
    constructor
    · intro value' after hok
      rw [heval] at hok
      cases hok
      exact hkind
    · intro kind hsome
      rw [hkind] at hsome
      exact .inl ⟨value, heval, Option.some.inj hsome⟩
  · have heval := h.eval_eq log
    constructor
    · intro value after hok
      rw [heval] at hok
      exact nomatch hok
    · intro kind hsome
      exact .inr ⟨error, error.reportTo log, heval, h.isNumericLimit ht hscope hsome⟩

/-- `let x = 3 in x / y`, where the scope binds `y` to zero: the kind does not rule the divisor
out. -/
theorem eval_kind?_zero_divisor :
    ∃ (t : Tree) (scope : Scope) (kinds : Kinds), t.IsSupported ∧ scope.HasKinds kinds ∧
      scope.find? "y" = some (.integer 0) ∧ t.kind? kinds = some .integer ∧
        ((∃ value, t.eval scope .empty = (.ok value, .empty) ∧ value.kind = .integer) ∨
          ∃ error after, t.eval scope .empty = (.error (.runtime error), after) ∧
            error.cause.IsNumericLimit) := by
  have hquotient : (Operator.known .div).IsSupported := ⟨.div, by decide, rfl⟩
  have hempty : Scope.empty.HasKinds fun _ => none := fun name => rfl
  have hscope := hempty.bind "y" (.integer 0)
  have ht : Tree.IsSupported
      (.letIn ⟨.ident, .text "x", 1, 5⟩ (.int 3 (some 1))
        (.binop (.ident ⟨.ident, .text "x", 1, 14⟩ (some 1)) (.known .div)
          (.ident ⟨.ident, .text "y", 1, 18⟩ (some 1)) (some 1)) (some 1)) :=
    ⟨rfl, trivial, hquotient, trivial, trivial⟩
  exact ⟨_, _, _, ht, hscope, by simp, rfl, (eval_kind? _ ht _ _ hscope .empty).2 .integer rfl⟩

end Tree

end LetLang
