import LetLang.Proofs.Endings
import LetLang.Proofs.Source.Placement

/-!
# Evaluation apart from lines

Lines are read into a tree and shown with its errors. They have no influence on what happens: each
rule holds of the tree without its lines. The converse takes no second induction, because a tree
without holes is always in one of two cases.
-/

namespace LetLang

/-! ## Trees -/

namespace Tree

variable {t t' node : Tree} {scope : Scope} {value : Value} {error : RuntimeError}

/-- The value does not depend on lines and columns. -/
theorem Evaluates.bare (h : Evaluates t scope value) : Evaluates t.bare scope value := by
  induction h with
  | int n line scope => exact .int n none scope
  | double x line scope => exact .double x none scope
  | bool b line scope => exact .bool b none scope
  | ident h => exact .ident h
  | binop _ _ hverdict ihleft ihright => exact .binop ihleft ihright hverdict
  | letIn _ hname _ ihvalue ihbody => exact .letIn ihvalue hname ihbody

/-- The cause of an error does not depend on lines and columns. -/
theorem RefusedAt.bare (h : RefusedAt t scope node error) :
    RefusedAt t.bare scope node.bare ⟨error.cause, none⟩ := by
  induction h with
  | ident h => exact .ident h
  | left _ ih => exact .left ih
  | right hleft _ ih => exact .right hleft.bare ih
  | operation hleft hright hverdict => exact .operation hleft.bare hright.bare hverdict
  | letValue _ ih => exact .letValue ih
  | letName hvalue hname => exact .letName hvalue.bare hname
  | letBody hvalue hname _ ih => exact .letBody hvalue.bare hname ih

theorem Evaluates.of_bare_eq (h : Evaluates t scope value) (hwhole : t'.isWhole = true)
    (hbare : t.bare = t'.bare) : Evaluates t' scope value := by
  -- Whichever case the other tree is in, without its lines it is in the same one as this tree.
  have hvalue := hbare ▸ h.bare
  have heval := hvalue.eval_eq .empty
  rcases t'.evaluates_or_refusedAt hwhole scope with ⟨value', h'⟩ | ⟨node, error, h'⟩
  · rw [h'.bare.eval_eq] at heval
    cases heval
    exact h'
  · rw [h'.bare.eval_eq] at heval
    cases heval

/-- Trees that differ in lines and columns only are refused for the same cause. -/
theorem RefusedAt.of_bare_eq (h : RefusedAt t scope node error) (hwhole : t'.isWhole = true)
    (hbare : t.bare = t'.bare) :
    ∃ node' line, RefusedAt t' scope node' ⟨error.cause, line⟩ := by
  have hrefused := hbare ▸ h.bare
  have heval := hrefused.eval_eq .empty
  rcases t'.evaluates_or_refusedAt hwhole scope with ⟨value, h'⟩ | ⟨node', ⟨cause, line⟩, h'⟩
  · rw [h'.bare.eval_eq] at heval
    cases heval
  · rw [h'.bare.eval_eq] at heval
    have hcause : cause = error.cause := by
      injection heval with hresult
      injection hresult with hfailure
      injection hfailure with herror
      injection herror
    exact ⟨node', line, hcause ▸ h'⟩

end Tree

/-! ## Runs -/

inductive SameUpToLine : RunError → RunError → Prop where
  | runtime (cause : Cause) (line line' : Int) :
      SameUpToLine (.evaluation (.runtime ⟨cause, some line⟩))
        (.evaluation (.runtime ⟨cause, some line'⟩))

section

variable {source : String} {tree : Tree}

theorem Source.everywhere_of_read (h : Source.read source = .ok tree) :
    tree.Everywhere (Source.IsNode source) := by
  rcases Source.read_eq_ok_iff.1 h with ⟨d, htokens, rfl, -⟩
  exact Source.everywhere_of_parse (Source.parse_eq_ok_iff.2 ⟨d, htokens, rfl⟩)

theorem Source.isWhole_of_read (h : Source.read source = .ok tree) : tree.isWhole = true := by
  have hsupported : tree.IsSupported := (Source.everywhere_of_read h).imp fun node h => h.1
  exact hsupported.isWhole

variable (hread : Source.read source = .ok tree) {scope : Scope} {log : Log}

include hread

/-- An error of a text that is read has a line of the text. -/
theorem run_of_refusedAt {node : Tree} {cause : Cause} {line : Option Int}
    (h : tree.RefusedAt scope node ⟨cause, line⟩) :
    ∃ number, line = some number ∧
      (run source scope [] log).1 = .error (.evaluation (.runtime ⟨cause, some number⟩)) := by
  have heverywhere := Source.everywhere_of_read hread
  have hsupported : tree.IsSupported := heverywhere.imp fun node h => h.1
  have hline : line = node.line := (h.foreseen hsupported).2
  rcases (h.property heverywhere).2 with ⟨number, hnumber, -⟩
  rw [hnumber] at hline
  subst hline
  refine ⟨number, rfl, ?_⟩
  simp [run, hread, runTree_of_refusedAt h, RuntimeError.attributedTo]

/-- A run of a text with a tree gives the values that the tree has. -/
theorem run_eq_ok_iff {value : Value} :
    (run source scope [] log).1 = .ok value ↔ tree.Evaluates scope value := by
  have hrun : run source scope [] log = runTree tree scope [] log := by simp [run, hread]
  rcases tree.evaluates_or_refusedAt (Source.isWhole_of_read hread) scope with
    ⟨value', h⟩ | ⟨node, error, h⟩
  · have hresult : (run source scope [] log).1 = .ok value' := by
      rw [hrun, runTree_of_evaluates h]
    constructor
    · intro hvalue
      cases hvalue.symm.trans hresult
      exact h
    · intro hvalue
      rw [hrun, runTree_of_evaluates hvalue]
  · rcases run_of_refusedAt hread h with ⟨number, -, hresult⟩
    constructor
    · intro hvalue
      cases hvalue.symm.trans hresult
    · intro hvalue
      have heval := hvalue.eval_eq .empty
      rw [h.eval_eq] at heval
      cases heval

/-- An error of a run is a refusal at a node of the tree, which has a line. -/
theorem refusedAt_of_run {error : RunError} (h : (run source scope [] log).1 = .error error) :
    ∃ node cause number, tree.RefusedAt scope node ⟨cause, some number⟩ ∧
      error = .evaluation (.runtime ⟨cause, some number⟩) := by
  rcases tree.evaluates_or_refusedAt (Source.isWhole_of_read hread) scope with
    ⟨value, hvalue⟩ | ⟨node, ⟨cause, line⟩, hrefused⟩
  · cases h.symm.trans ((run_eq_ok_iff hread).2 hvalue)
  · rcases run_of_refusedAt hread hrefused with ⟨number, rfl, hresult⟩
    cases h.symm.trans hresult
    exact ⟨node, cause, number, hrefused, rfl⟩

end

end LetLang
