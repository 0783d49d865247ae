import LetLang.Proofs.Occurrence

/-!
# Free names

A name occurs free where no enclosing `let` binds it in a body that contains the occurrence; the
value of a `let` is not part of its body. Evaluation sees the scope through the free names only.

* `Tree.BindsOn`: a `let` whose body the path enters binds the name.
-/

namespace LetLang

/-- Extending two scopes alike keeps what they agree on. -/
theorem Scope.find?_bind_congr {s₁ s₂ : Scope} {name other : String} (value : Value)
    (h : other ≠ name → s₁.find? other = s₂.find? other) :
    (s₁.bind name value).find? other = (s₂.bind name value).find? other := by
  rw [find?_bind, find?_bind]
  split
  · rfl
  next hne => exact h hne

namespace Tree

/-! ## Free occurrences -/

def binder? : Tree → Branch → Option String
  | .letIn token _ _ _, .body => some token.name
  | _, _ => none

inductive BindsOn (name : String) : Tree → Path → Prop where
  | here {t : Tree} {branch : Branch} {path : Path} (h : t.binder? branch = some name) :
      BindsOn name t (branch :: path)
  | inside {t part : Tree} {branch : Branch} {path : Path} (hpart : t.part? branch = some part)
      (h : BindsOn name part path) : BindsOn name t (branch :: path)

/-- The name occurs free: somewhere an identifier has this name, and no `let` whose body contains
the occurrence binds it. -/
def IsFree (t : Tree) (name : String) : Prop :=
  ∃ path token line, t.subtree? path = some (.ident token line) ∧ token.name = name ∧
    ¬ BindsOn name t path

theorem binder?_body_ne {token : Token} {value body : Tree} {line : Option Int} {name : String}
    (h : name ≠ token.name) : (letIn token value body line).binder? .body ≠ some name := by
  intro hbinds
  exact h (Option.some.inj hbinds).symm

theorem isFree_ident (token : Token) (line : Option Int) :
    (Tree.ident token line).IsFree token.name :=
  ⟨[], token, line, rfl, rfl, nofun⟩

/-- What occurs free in a part of a node occurs free in the node, unless the node binds it there. -/
theorem IsFree.of_part {t part : Tree} {name : String} (h : part.IsFree name) (branch : Branch)
    (hpart : t.part? branch = some part) (hbinder : t.binder? branch ≠ some name) :
    t.IsFree name := by
  rcases h with ⟨path, token, line, hpath, hname, hfree⟩
  refine ⟨branch :: path, token, line, ?_, hname, ?_⟩
  · rw [subtree?, hpart]
    exact hpath
  · intro hbinds
    cases hbinds with
    | here h => exact hbinder h
    | inside hpart' h =>
      rw [hpart] at hpart'
      cases hpart'
      exact hfree h

/-- What is free in a part is free in the whole, unless the whole binds it there. -/
theorem IsFree.of_unbound_part {t part : Tree} {name : String} (h : part.IsFree name)
    (branch : Branch) (hpart : t.part? branch = some part) (hbinder : t.binder? branch = none) :
    t.IsFree name :=
  h.of_part branch hpart (by simp [hbinder])

/-- Where no `let` around an occurrence binds a name, the name stands for what it stands for
outside the tree. -/
theorem ScopeAt.find?_eq {t : Tree} {scope inner : Scope} {path : Path}
    (h : t.ScopeAt scope path inner) {name : String} (hfree : ¬ BindsOn name t path) :
    inner.find? name = scope.find? name := by
  induction h with
  | root => rfl
  | left _ ih | right _ ih | value _ ih => exact ih fun h => hfree (.inside rfl h)
  | @body token _ _ _ scope _ _ v _ _ ih =>
    have hne : name ≠ token.name := fun h => hfree (.here (congrArg some h.symm))
    rw [ih fun h => hfree (.inside rfl h), Scope.find?_bind_of_ne scope v hne]

/-! ## Scopes that agree -/

/-- Scopes that agree on the free names of a tree evaluate it alike. -/
theorem eval_eq_of_agree {t : Tree} {s₁ s₂ : Scope}
    (h : ∀ name, t.IsFree name → s₁.find? name = s₂.find? name) (log : Log) :
    t.eval s₁ log = t.eval s₂ log := by
  induction t generalizing s₁ s₂ log with
  | int _ _ | double _ _ | bool _ _ | hole => rfl
  | ident token line =>
    have hname := h token.name (isFree_ident token line)
    simp only [eval, hname]
  | binop left operator right line ihleft ihright =>
    have hleft := ihleft fun name hname => h name (hname.of_unbound_part .left rfl rfl)
    have hright := ihright fun name hname => h name (hname.of_unbound_part .right rfl rfl)
    simp only [eval, hleft, hright]
  | letIn token value body line ihvalue ihbody =>
    have hvalue := ihvalue fun name hname => h name (hname.of_unbound_part .value rfl rfl)
    refine eval_letIn_congr hvalue ?_ log
    -- In the body the name of the `let` agrees anyway, and every other free name is free outside.
    intro v
    refine ihbody ?_
    intro name hname
    refine Scope.find?_bind_congr v fun hne => ?_
    exact h name (hname.of_part .body rfl (binder?_body_ne hne))

end Tree

/-! ## Chains of bindings -/

namespace Scope

/-- The unnamed binding at the end of the chain is found by no name. -/
theorem find?_eq_map (scope : Scope) (name : String) :
    scope.find? name = (scope.bindings.find? (·.name == some name)).map (·.value) := by
  simp [find?, lookup?, frames, List.find?_append]

/-- A binding is not seen by names other than its own, wherever it stands in the chain. -/
theorem find?_append_cons_of_ne {front rest : List Binding} {binding : Binding} {name : String}
    (h : binding.name ≠ some name) :
    find? ⟨front ++ binding :: rest⟩ name = find? ⟨front ++ rest⟩ name := by
  simp [find?_eq_map, List.find?_append, h]

/-! ### Visible bindings -/

/-- The named bindings of a chain without those that an inner one hides. -/
def unshadowed : List Binding → Bindings
  | [] => []
  | ⟨none, _⟩ :: rest => unshadowed rest
  | ⟨some name, value⟩ :: rest => (name, value) :: (unshadowed rest).filter (·.1 != name)

/-- The rest of a chain adds what it does not hide itself, without the names seen before. -/
theorem foldl_see (seen : Bindings) (chain : List Binding) :
    chain.foldl see seen = seen ++ (unshadowed chain).filter (·.1 ∉ seen.map (·.1)) := by
  induction chain generalizing seen with
  | nil => simp [unshadowed]
  | cons frame rest ih =>
    rcases frame with ⟨own, value⟩
    cases own with
    | none => exact ih seen
    | some name =>
      rw [List.foldl_cons, ih, unshadowed, List.filter_cons, List.filter_filter]
      by_cases hseen : name ∈ seen.map (·.1)
      · -- A name seen before hides nothing that is not hidden already.
        rw [see_of_mem hseen, if_neg (by simpa using hseen)]
        congr 1
        refine List.filter_congr fun pair _ => ?_
        by_cases hname : pair.1 = name
        · simp [hname, hseen]
        · simp [hname]
      · -- A new name is noted, and hides its older bindings from here on.
        rw [see_of_notMem hseen, if_pos (by simpa using hseen), List.append_assoc,
          List.singleton_append]
        congr 2
        refine List.filter_congr fun pair _ => ?_
        rw [Bool.eq_iff_iff]
        simp [not_or]

/-- The loop over the chain leaves out what is hidden, and nothing else. -/
theorem visible_eq_unshadowed (scope : Scope) : scope.visible = unshadowed scope.bindings := by
  calc scope.visible
      = scope.bindings.foldl see [] := by rw [visible, frames, List.foldl_append]; rfl
    _ = unshadowed scope.bindings := by simp [foldl_see]

/-- The visible bindings are those that look-up finds. -/
theorem mem_visible_iff (scope : Scope) (name : String) (value : Value) :
    (name, value) ∈ scope.visible ↔ scope.find? name = some value := by
  rcases scope with ⟨bindings⟩
  rw [find?_eq_map, visible_eq_unshadowed]
  induction bindings with
  | nil => simp [unshadowed]
  | cons binding rest ih =>
    rcases binding with ⟨own, first⟩
    cases own with
    | none => simpa [unshadowed] using ih
    | some own =>
      by_cases hname : own = name
      · simp [unshadowed, hname, eq_comm]
      · have hne : name ≠ own := fun h => hname h.symm
        simpa [unshadowed, hname, hne] using ih

end Scope

/-! ## Evaluation sees the free names only -/

/-- Evaluation depends only on what the free names of a tree stand for. So it depends on the visible
bindings of a scope only, not on their order or on what they hide; a binding of a name that is not
free changes nothing, wherever it stands in the chain; and the name of a `let` keeps its meaning
outside the body of the `let`. -/
theorem Tree.eval_depends_on_free (t : Tree) (log : Log) :
    (∀ s₁ s₂ : Scope, (∀ name, t.IsFree name → s₁.find? name = s₂.find? name) →
        t.eval s₁ log = t.eval s₂ log) ∧
      (∀ s₁ s₂ : Scope, (∀ pair, pair ∈ s₁.visible ↔ pair ∈ s₂.visible) →
        t.eval s₁ log = t.eval s₂ log) ∧
      (∀ (front rest : List Binding) (binding : Binding),
        (∀ name, binding.name = some name → ¬ t.IsFree name) →
          t.eval ⟨front ++ binding :: rest⟩ log = t.eval ⟨front ++ rest⟩ log) ∧
      ∀ (scope inner : Scope) (path : Path) (name : String), t.ScopeAt scope path inner →
        ¬ BindsOn name t path → inner.find? name = scope.find? name := by
  refine ⟨fun s₁ s₂ h => eval_eq_of_agree h log, ?_, ?_, fun _ _ _ _ h hfree => h.find?_eq hfree⟩
  · intro s₁ s₂ h
    refine eval_eq_of_agree ?_ log
    intro name _
    -- Two look-ups are equal if they find the same values.
    apply Option.ext
    intro value
    rw [← Scope.mem_visible_iff, ← Scope.mem_visible_iff]
    exact h (name, value)
  · intro front rest binding h
    refine eval_eq_of_agree ?_ log
    intro name hname
    exact Scope.find?_append_cons_of_ne fun hbinding => h name hbinding hname

end LetLang
