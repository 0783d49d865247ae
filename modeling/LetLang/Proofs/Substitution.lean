import LetLang.Proofs.FreeNames

/-!
# Substitution

A `let` may be read as a substitution: its body is evaluated as if a literal of the value stood for
the name. An inner `let` of the same name is entered at its value, not at its body.
-/

namespace LetLang

namespace Tree

/-! ## Replacing free identifiers -/

/-- The tree with the free identifiers of a name replaced. -/
def replaceFree (name : String) (new : Token → Option Int → Tree) : Tree → Tree
  | .ident token line => if token.name = name then new token line else .ident token line
  | .binop left operator right line =>
      .binop (left.replaceFree name new) operator (right.replaceFree name new) line
  | .letIn token value body line =>
      .letIn token (value.replaceFree name new)
        (if token.name = name then body else body.replaceFree name new) line
  | t => t

def substitute (t : Tree) (name : String) (new : Tree) : Tree := t.replaceFree name fun _ _ => new

/-- The tree with another name in the free identifiers of a name. -/
def renameFree (t : Tree) (name other : String) : Tree :=
  t.replaceFree name fun token line => .ident { token with payload := .text other } line

def names : Tree → List String
  | .ident token _ => [token.name]
  | .binop left _ right _ => left.names ++ right.names
  | .letIn token value body _ => token.name :: (value.names ++ body.names)
  | _ => []

inductive IsLiteral : Tree → Value → Prop where
  | int (n : Int) (line : Option Int) : IsLiteral (.int n line) (.integer n)
  | double (x : Binary64) (line : Option Int) : IsLiteral (.double x line) (.double x)
  | bool (b : Bool) (line : Option Int) : IsLiteral (.bool b line) (.boolean b)

/-- A literal has its value in every scope. -/
theorem IsLiteral.eval_eq {t : Tree} {v : Value} (h : t.IsLiteral v) (scope : Scope) (log : Log) :
    t.eval scope log = (.ok v, log) := by
  cases h with
  | int _ _ | double _ _ | bool _ _ => rfl

theorem IsFree.mem_names {t : Tree} {name : String} (h : t.IsFree name) : name ∈ t.names := by
  rcases h with ⟨path, token, line, hpath, rfl, -⟩
  induction path generalizing t with
  | nil =>
    cases hpath
    simp [names]
  | cons branch path ih =>
    cases t <;> cases branch <;> simp_all [subtree?, part?, names]

/-! ## Evaluation after replacement -/

/-- What is put in has the value in every scope that differs from the given one in the given names
only. -/
def StandsFor (new : Token → Option Int → Tree) (v : Value) (names : List String)
    (scope : Scope) : Prop :=
  ∀ inner : Scope, (∀ name, name ∉ names → inner.find? name = scope.find? name) →
    ∀ token line log, (new token line).eval inner log = (.ok v, log)

namespace StandsFor

variable {new : Token → Option Int → Tree} {v : Value} {names names' : List String} {scope : Scope}

theorem of_subset (h : StandsFor new v names scope) (hsubset : names' ⊆ names) :
    StandsFor new v names' scope := by
  intro inner hinner
  exact h inner fun name hname => hinner name fun hmem => hname (hsubset hmem)

/-- One more binding of the given names makes no difference. -/
theorem bind (h : StandsFor new v names scope) {name : String} (hname : name ∈ names)
    (value : Value) : StandsFor new v names (scope.bind name value) := by
  intro inner hinner
  refine h inner ?_
  intro other hother
  have hne : other ≠ name := fun heq => hother (heq ▸ hname)
  rw [hinner other hother, Scope.find?_bind_of_ne scope value hne]

/-- A literal has its value everywhere. -/
theorem literal {t : Tree} (h : t.IsLiteral v) : StandsFor (fun _ _ => t) v names scope := by
  intro inner _ _ _ log
  exact h.eval_eq inner log

/-- A name that is bound to the value has it as long as nothing else binds the name. -/
theorem ident {name : String} (hname : name ∉ names) (hscope : scope.find? name = some v) :
    StandsFor (fun token line => .ident { token with payload := .text name } line) v names
      scope := by
  intro inner hinner token line log
  have hfind : inner.find? name = some v := by rw [hinner name hname, hscope]
  simp only [eval, Token.name, Payload.name, hfind]

end StandsFor

/-- Evaluation does not tell a name that is bound to a value from what stands for the value, if the
scopes agree on all other names. -/
theorem eval_replaceFree {t : Tree} {name : String} {new : Token → Option Int → Tree} {v : Value}
    {s₁ s₂ : Scope} (hagree : ∀ other, t.IsFree other → other ≠ name →
      s₁.find? other = s₂.find? other)
    (hname : s₁.find? name = some v) (hnew : StandsFor new v t.names s₂) (log : Log) :
    t.eval s₁ log = (t.replaceFree name new).eval s₂ log := by
  -- Both scopes vary, because a `let` extends them alike.
  induction t generalizing s₁ s₂ log with
  | int _ _ | double _ _ | bool _ _ | hole => rfl
  | ident token line =>
    by_cases heq : token.name = name
    · have hvalue := hnew s₂ (fun _ _ => rfl) token line log
      simp [replaceFree, eval, heq, hname, hvalue]
    · have hfind := hagree token.name (isFree_ident token line) heq
      simp [replaceFree, eval, heq, hfind]
  | binop left operator right line ihleft ihright =>
    have hleft := ihleft (fun other hfree => hagree other (hfree.of_unbound_part .left rfl rfl))
      hname (hnew.of_subset (by simp [names]))
    have hright := ihright (fun other hfree => hagree other (hfree.of_unbound_part .right rfl rfl))
      hname (hnew.of_subset (by simp [names]))
    simp only [replaceFree, eval, hleft, hright]
  | letIn token value body line ihvalue ihbody =>
    have hvalue := ihvalue (fun other hfree => hagree other (hfree.of_unbound_part .value rfl rfl))
      hname (hnew.of_subset (by simp [names]))
    refine eval_letIn_congr hvalue ?_ log
    intro w
    -- Names other than the one replaced agree in the body as they do outside.
    have hbody (other : String) (hfree : body.IsFree other) (hne : other ≠ name) :
        (s₁.bind token.name w).find? other = (s₂.bind token.name w).find? other := by
      refine Scope.find?_bind_congr w fun hother => ?_
      exact hagree other (hfree.of_part .body rfl (binder?_body_ne hother)) hne
    by_cases heq : token.name = name
    · -- The inner `let` binds the name itself, so its body is left alone and agrees everywhere.
      rw [if_pos heq]
      refine eval_eq_of_agree ?_
      intro other hfree
      by_cases hne : other = name
      · rw [hne, ← heq, Scope.find?_bind_self, Scope.find?_bind_self]
      · exact hbody other hfree hne
    · rw [if_neg heq]
      have hkept : (s₁.bind token.name w).find? name = some v := by
        rw [Scope.find?_bind_of_ne s₁ w fun h => heq h.symm, hname]
      have hbound : StandsFor new v (letIn token value body line).names (s₂.bind token.name w) :=
        hnew.bind (by simp [names]) w
      exact ihbody hbody hkept (hbound.of_subset (by simp [names]))

/-! ## The law for lets -/

section

variable {name : Token} {value body : Tree} {line : Option Int} {scope : Scope} {log after : Log}
  {v : Value}

/-- A `let` whose value expression gives a value runs its body with that value under the name. -/
theorem eval_letIn_of_ok (hname : name.kind = .ident)
    (hvalue : value.eval scope log = (.ok v, after)) :
    (letIn name value body line).eval scope log = body.eval (scope.bind name.name v) after := by
  rw [eval_letIn, hvalue, Outcome.andThen_ok, Scope.bindTarget_of_ident hname, Outcome.andThen_ok]

/-- A `let` whose value expression gives a value is its body with a literal of the value. -/
theorem eval_letIn_eq_substitute {literal : Tree} (hname : name.kind = .ident)
    (hvalue : value.eval scope log = (.ok v, after)) (hliteral : literal.IsLiteral v) :
    (letIn name value body line).eval scope log =
      (body.substitute name.name literal).eval scope log := by
  have hlog : after = log := (evaluates_of_eval hvalue).2
  rw [eval_letIn_of_ok hname hvalue, hlog]
  refine eval_replaceFree ?_ (Scope.find?_bind_self ..) (.literal hliteral) log
  intro other _ hother
  exact Scope.find?_bind_of_ne scope v hother

/-- The name of a `let` may be any name that is not in its body. -/
theorem eval_letIn_renameFree {other : Token} (hname : name.kind = .ident)
    (hother : other.kind = .ident) (hfresh : other.name ∉ body.names) :
    (letIn other value (body.renameFree name.name other.name) line).eval scope log =
      (letIn name value body line).eval scope log := by
  have hbody (v : Value) (log : Log) :
      (body.renameFree name.name other.name).eval (scope.bind other.name v) log =
        body.eval (scope.bind name.name v) log := by
    refine (eval_replaceFree ?_ (Scope.find?_bind_self ..) ?_ log).symm
    · -- No free name of the body is the new one, so neither binding is seen under it.
      intro seen hfree hne
      have hseen : seen ≠ other.name := fun heq => hfresh (heq ▸ hfree.mem_names)
      rw [Scope.find?_bind_of_ne scope v hne, Scope.find?_bind_of_ne scope v hseen]
    · exact .ident hfresh (Scope.find?_bind_self ..)
  simp only [eval_letIn, Scope.bindTarget_of_ident hname, Scope.bindTarget_of_ident hother,
    Outcome.andThen_ok, hbody]

end

/-- The substitution law for lets. A `let` of a literal, and a `let` whose value expression gives
the value of a literal, have the outcome of the body with the literal in the place of the free
occurrences of the name. So the name itself does not matter: a `let` has the outcome that it has
with any other name that is not in its body. -/
theorem let_eq_substitute (name : Token) (hname : name.kind = .ident) (body : Tree)
    (line : Option Int) (scope : Scope) (log : Log) :
    (∀ literal v, literal.IsLiteral v →
      (letIn name literal body line).eval scope log =
        (body.substitute name.name literal).eval scope log) ∧
    (∀ value literal v after, value.eval scope log = (.ok v, after) → literal.IsLiteral v →
      (letIn name value body line).eval scope log =
        (body.substitute name.name literal).eval scope log) ∧
    ∀ value (other : Token), other.kind = .ident → other.name ∉ body.names →
      (letIn other value (body.renameFree name.name other.name) line).eval scope log =
        (letIn name value body line).eval scope log := by
  refine ⟨?_, ?_, ?_⟩
  · intro literal v hliteral
    exact eval_letIn_eq_substitute hname (hliteral.eval_eq scope log) hliteral
  · intro value literal v after hvalue hliteral
    exact eval_letIn_eq_substitute hname hvalue hliteral
  · intro value other hother hfresh
    exact eval_letIn_renameFree hname hother hfresh

/-- `let x = true in (let x = x in x) and x`: the substitution enters the value of the inner `let`
and leaves its body alone. -/
theorem let_eq_substitute_rebound :
    (letIn ⟨.ident, .text "x", 1, 5⟩ (.bool true (some 1))
      (.binop
        (letIn ⟨.ident, .text "x", 1, 22⟩ (.ident ⟨.ident, .text "x", 1, 26⟩ (some 1))
          (.ident ⟨.ident, .text "x", 1, 31⟩ (some 1)) (some 1))
        (.known .and) (.ident ⟨.ident, .text "x", 1, 38⟩ (some 1)) (some 1)) (some 1)).eval
      .empty .empty =
    (binop
      (letIn ⟨.ident, .text "x", 1, 22⟩ (.bool true (some 1))
        (.ident ⟨.ident, .text "x", 1, 31⟩ (some 1)) (some 1))
      (.known .and) (.bool true (some 1)) (some 1)).eval .empty .empty :=
  (let_eq_substitute _ rfl _ _ _ _).1 _ _ (.bool true (some 1))

end Tree

end LetLang
