import LetLang.Program
import LetLang.Proofs.Source.Reading

/-!
# How a run ends

A run on values of the language (`Scope.IsNative`) ends with such a value, or in one of five
foreseen ways: `run_concludes`.
-/

namespace LetLang

/-! ## Values of the language -/

def Scope.IsNative (scope : Scope) : Prop :=
  ∀ name value, scope.find? name = some value → value.IsNative

namespace Scope

theorem isNative_empty : empty.IsNative := by
  intro name value h
  exact nomatch h

theorem IsNative.bind {scope : Scope} (h : scope.IsNative) (name : String) {value : Value}
    (hvalue : value.IsNative) : (scope.bind name value).IsNative := by
  intro other result hresult
  rw [find?_bind] at hresult
  split at hresult
  · cases hresult
    exact hvalue
  · exact h other result hresult

/-- What is not bound inside is not bound outside. -/
theorem find?_eq_none_of_bind {scope : Scope} {name other : String} {value : Value}
    (h : (scope.bind name value).find? other = none) : scope.find? other = none := by
  rw [find?_bind] at h
  split at h
  · exact nomatch h
  · exact h

/-- The name is bound exactly if look-up finds a value. -/
theorem has_name (scope : Scope) (name : String) :
    scope.has (.name name) = (scope.find? name).isSome := has_eq_isSome scope (.name name)

end Scope

namespace Tree

variable {t node : Tree} {scope : Scope} {value : Value} {error : RuntimeError}

/-- Evaluation does not leave the language. -/
theorem Evaluates.isNative (h : Evaluates t scope value) (hscope : scope.IsNative) :
    value.IsNative := by
  induction h with
  | int _ _ _ | double _ _ _ | bool _ _ _ => trivial
  | ident h => exact hscope _ _ h
  | binop _ _ hverdict _ _ => exact hverdict.permits.isNative
  | letIn _ _ _ ihvalue ihbody => exact ihbody (hscope.bind _ (ihvalue hscope))

end Tree

/-! ## Errors of supported trees -/

/-- An operation is refused for its operands, or a name is not bound in the scope. -/
inductive Cause.IsForeseen (scope : Scope) : Cause → Prop where
  | operands {cause : Cause} (h : cause.errorClass = .type ∨ cause.errorClass = .divisionByZero) :
      IsForeseen scope cause
  | unbound {name : String} (h : scope.has (.name name) = false) : IsForeseen scope (.unbound name)

/-- What is foreseen in a body is foreseen around the `let`. -/
theorem Cause.IsForeseen.of_bind {scope : Scope} {name : String} {value : Value} {cause : Cause}
    (h : cause.IsForeseen (scope.bind name value)) : cause.IsForeseen scope := by
  cases h with
  | operands h => exact .operands h
  | unbound h =>
    rw [Scope.has_name, Option.isSome_eq_false_iff] at h
    have houter := Scope.find?_eq_none_of_bind (Option.isNone_iff_eq_none.1 h)
    exact .unbound (by rw [Scope.has_name, houter]; rfl)

/-- A supported tree is refused for a foreseen cause, on the line of the node. -/
theorem Tree.RefusedAt.foreseen {t node : Tree} {scope : Scope} {error : RuntimeError}
    (h : RefusedAt t scope node error) (ht : t.IsSupported) :
    error.cause.IsForeseen scope ∧ error.line = node.line := by
  induction h with
  | ident h => exact ⟨.unbound (by rw [Scope.has_name, h]; rfl), rfl⟩
  | left _ ih => exact ih ht.2.1
  | right _ _ ih => exact ih ht.2.2
  | operation _ _ hverdict => exact ⟨.operands (hverdict.permits.errorClass_eq ht.1), rfl⟩
  | letValue _ ih => exact ih ht.2.1
  | letName _ hname => exact absurd ht.1 hname
  | letBody _ _ _ ih =>
    -- A name that is not bound in the body is not bound outside either.
    rcases ih ht.2.2 with ⟨hcause, hline⟩
    exact ⟨hcause.of_bind, hline⟩

/-! ## Results of a run -/

/-- The foreseen results of a run. -/
inductive Concludes (source : String) (scope : Scope) : Except RunError Value → Prop where
  | value {value : Value} (h : value.IsNative) : Concludes source scope (.ok value)
  | rejected {rejection : Rejection} :
      Concludes source scope (.error (.source (.rejected rejection)))
  | oversized {digits : Nat} : Concludes source scope (.error (.source (.oversized digits)))
  | runtime {error : RuntimeError} (hcause : error.cause.IsForeseen scope)
      (hline : Source.OnLine source error.line) :
      Concludes source scope (.error (.evaluation (.runtime error)))

/-- A tree with a value is run to that value, and nothing is reported. -/
theorem runTree_of_evaluates {t : Tree} {scope : Scope} {value : Value}
    (h : t.Evaluates scope value) (log : Log) : runTree t scope [] log = (.ok value, log) := by
  have heval := h.eval_eq log
  simp [runTree, Tree.evalTop, Scope.bindAll, heval]

/-- A refusal is the error of the run, on the line of the root if it has none of its own. -/
theorem runTree_of_refusedAt {t node : Tree} {scope : Scope} {error : RuntimeError}
    (h : t.RefusedAt scope node error) (log : Log) :
    runTree t scope [] log =
      (.error (.evaluation (.runtime (error.attributedTo t.line))), error.reportTo log) := by
  have heval := h.eval_eq log
  simp [runTree, Tree.evalTop, Scope.bindAll, heval]

theorem runTree_ne_source (t : Tree) (scope : Scope) (bindings : Bindings) (log : Log)
    (error : SourceError) : (runTree t scope bindings log).1 ≠ .error (.source error) := by
  unfold runTree
  split
  · simp
  · simp

/-- The tree of a source text ends in a foreseen way. -/
theorem runTree_concludes {source : String} {t : Tree} (ht : t.Everywhere (Source.IsNode source))
    {scope : Scope} (hscope : scope.IsNative) (log : Log) :
    Concludes source scope (runTree t scope [] log).1 := by
  have hsupported : t.IsSupported := ht.imp fun node h => h.1
  rcases t.evaluates_or_refusedAt hsupported.isWhole scope with ⟨value, h⟩ | ⟨node, error, h⟩
  · rw [runTree_of_evaluates h]
    exact .value (h.isNative hscope)
  · rcases h.foreseen hsupported with ⟨hcause, hline⟩
    have hnode : Source.OnLine source error.line := hline ▸ (h.property ht).2
    -- The error has a line already, so it does not take the line of the root.
    have hkept : error.attributedTo t.line = error := by
      rcases hnode with ⟨number, hnumber, -⟩
      simp [RuntimeError.attributedTo, hnumber]
    rw [runTree_of_refusedAt h, hkept]
    exact .runtime hcause hnode

/-- A run on values of the language ends in one of the foreseen ways. It ends with a parse error
exactly if the text is not accepted, and with an integer literal that is too long exactly if the
text is accepted and has one. -/
theorem run_concludes (source : String) (scope : Scope) (hscope : scope.IsNative) (log : Log) :
    Concludes source scope (run source scope [] log).1 ∧
      ((∃ rejection, (run source scope [] log).1 = .error (.source (.rejected rejection))) ↔
        ¬ Source.Accepts source) ∧
      ((∃ digits, (run source scope [] log).1 = .error (.source (.oversized digits))) ↔
        Source.IsOversized source) := by
  rcases Source.read_cases source with
    ⟨hrejected, rejection, hread⟩ | ⟨hlong, digits, hread⟩ | ⟨haccepts, hshort, tree, hread, htree⟩
  · have hrun : (run source scope [] log).1 = .error (.source (.rejected rejection)) := by
      simp [run, hread]
    have hnot : ¬ Source.IsOversized source := fun h => hrejected (h.imp fun d h => h.1)
    rw [hrun]
    exact ⟨.rejected, by simpa using hrejected, by simpa using hnot⟩
  · have hrun : (run source scope [] log).1 = .error (.source (.oversized digits)) := by
      simp [run, hread]
    have haccepts : Source.Accepts source := hlong.imp fun d h => h.1
    rw [hrun]
    exact ⟨.oversized, by simpa using haccepts, by simpa using hlong⟩
  · have hrun : run source scope [] log = runTree tree scope [] log := by simp [run, hread]
    have hconcludes := runTree_concludes htree hscope log
    rw [hrun]
    have hsource := runTree_ne_source tree scope [] log
    exact ⟨hconcludes, by simp [hsource, haccepts], by simp [hsource, hshort]⟩

/-- The theorem speaks of texts that fail as well: this one divides by a name of the scope. -/
theorem run_concludes_zero_divisor :
    (Scope.empty.bind "x" (.integer 0)).IsNative ∧
      Concludes "let y = 1 in\ny / x" (Scope.empty.bind "x" (.integer 0))
        (run "let y = 1 in\ny / x" (Scope.empty.bind "x" (.integer 0)) [] .empty).1 := by
  have hscope : (Scope.empty.bind "x" (.integer 0)).IsNative :=
    Scope.isNative_empty.bind "x" trivial
  exact ⟨hscope, (run_concludes _ _ hscope _).1⟩

end LetLang
