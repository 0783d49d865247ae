import LetLang.Proofs.Endings

/-!
# One report for each failure

A refusal adds one report, with the line of the error and the operator of the node; only a `let`
that binds no identifier adds none. A `Collector` is a log that several runs share.
-/

namespace LetLang

/-! ## Reports of one evaluation -/

namespace Tree

def operator? : Tree → Option TokenKind
  | .binop _ operator _ _ => operator.kind?
  | _ => none

def BindsNoName : Tree → Prop
  | .letIn name _ _ _ => name.kind ≠ .ident
  | _ => False

variable {t node : Tree} {scope : Scope} {error : RuntimeError}

/-- A `let` without a name is the only refusal without a report. -/
theorem RefusedAt.reportTo_eq (h : RefusedAt t scope node error) (log : Log) :
    (node.BindsNoName ∧ error.reportTo log = log) ∨
      (¬ node.BindsNoName ∧
        error.reportTo log = log.record ⟨error.cause.diagnosis, error.line, node.operator?⟩) := by
  induction h with
  | ident _ => exact .inr ⟨id, rfl⟩
  | operation _ _ hverdict =>
    have hreport := RuntimeError.reportTo_of_ne hverdict.permits.ne_letTarget
    have hoperator := hverdict.permits.operator?_eq
    exact .inr ⟨id, by simp [hreport, hoperator, operator?]⟩
  | letName _ hname => exact .inl ⟨hname, rfl⟩
  | left _ ih | right _ _ ih | letValue _ ih | letBody _ _ _ ih => exact ih

/-- What evaluation of the tree may leave in the log. -/
inductive Reports (t : Tree) (scope : Scope) (log : Log) : Outcome Value → Prop where
  | value {value : Value} : Reports t scope log (.ok value, log)
  | silent {node : Tree} {error : RuntimeError} (h : t.RefusedAt scope node error)
      (hlet : node.BindsNoName) : Reports t scope log (.error (.runtime error), log)
  | reported {node : Tree} {error : RuntimeError} (h : t.RefusedAt scope node error)
      (hlet : ¬ node.BindsNoName) :
      Reports t scope log
        (.error (.runtime error), log.record ⟨error.cause.diagnosis, error.line, node.operator?⟩)

/-- Evaluation of a tree without holes leaves one report or none. -/
theorem eval_reports (t : Tree) (ht : t.isWhole = true) (scope : Scope) (log : Log) :
    t.Reports scope log (t.eval scope log) := by
  rcases t.evaluates_or_refusedAt ht scope with ⟨value, h⟩ | ⟨node, error, h⟩
  · rw [h.eval_eq]
    exact .value
  · rw [h.eval_eq]
    rcases h.reportTo_eq log with ⟨hlet, hlog⟩ | ⟨hlet, hlog⟩
    · rw [hlog]
      exact .silent h hlet
    · rw [hlog]
      exact .reported h hlet

/-- In a supported tree no failure is silent. -/
theorem RefusedAt.size_reportTo (h : RefusedAt t scope node error) (ht : t.IsSupported)
    (log : Log) : (error.reportTo log).size = log.size + 1 := by
  have hnode : node.IsSupportedNode := h.property ht
  rcases h.reportTo_eq log with ⟨hlet, -⟩ | ⟨-, hlog⟩
  · -- A silent failure needs a `let` that binds no identifier.
    cases node with
    | letIn name value body line => exact absurd hnode hlet
    | _ => exact hlet.elim
  · rw [hlog, Log.size_record]

end Tree

/-! ## Reports of several runs -/

def isRuntimeError : Except RunError Value → Bool
  | .error (.evaluation (.runtime _)) => true
  | _ => false

/-- A run adds as many reports as it has runtime errors. -/
theorem runTree_size {t : Tree} (ht : t.IsSupported) (scope : Scope) (log : Log) :
    (runTree t scope [] log).2.size =
      log.size + [(runTree t scope [] log).1].countP isRuntimeError := by
  rcases t.evaluates_or_refusedAt ht.isWhole scope with ⟨value, h⟩ | ⟨node, error, h⟩
  · rw [runTree_of_evaluates h]
    rfl
  · rw [runTree_of_refusedAt h]
    exact h.size_reportTo ht log

/-- A run adds one report if it ends in a runtime error, and none if not. -/
theorem run_size (source : String) (scope : Scope) (log : Log) :
    (run source scope [] log).2.size =
      log.size + [(run source scope [] log).1].countP isRuntimeError := by
  rcases Source.read_cases source with
    ⟨-, rejection, hread⟩ | ⟨-, digits, hread⟩ | ⟨-, -, tree, hread, htree⟩
  · simp [run, hread, isRuntimeError]
  · simp [run, hread, isRuntimeError]
  · have hsupported : tree.IsSupported := htree.imp fun node h => h.1
    have hsize := runTree_size hsupported scope log
    simpa [run, hread] using hsize

inductive Use where
  | run (source : String) (scope : Scope)
  | clear

/-- A log that several runs share, and their results since it was last cleared. -/
structure Collector where
  log : Log := .empty
  results : List (Except RunError Value) := []

namespace Collector

def use (collector : Collector) : Use → Collector
  | .run source scope =>
      let outcome := LetLang.run source scope [] collector.log
      ⟨outcome.2, collector.results ++ [outcome.1]⟩
  | .clear => {}

def after (uses : List Use) : Collector := uses.foldl use {}

/-- The log holds one report for each runtime error. -/
def IsExact (collector : Collector) : Prop :=
  collector.log.size = collector.results.countP isRuntimeError

/-- One use keeps the count. -/
theorem IsExact.use {collector : Collector} (h : collector.IsExact) (u : Use) :
    (collector.use u).IsExact := by
  cases u with
  | run source scope =>
    have hrun := run_size source scope collector.log
    simp only [IsExact, Collector.use, List.countP_append] at h ⊢
    rw [hrun, h]
  | clear => rfl

/-- By induction on the uses. -/
theorem isExact_after (uses : List Use) : (after uses).IsExact := by
  have hfold (collector : Collector) (h : collector.IsExact) :
      (uses.foldl Collector.use collector).IsExact := by
    induction uses generalizing collector with
    | nil => exact h
    | cons u uses ih => exact ih (collector.use u) (h.use u)
  exact hfold {} rfl

end Collector

/-- Every failure is reported once. An evaluation that succeeds leaves the log as it is; one that is
refused adds one report, with the line of the error and the operator of the node, unless a `let`
binds no identifier. So a log that several runs share holds as many reports as runs since it was last
cleared ended in a runtime error. -/
theorem failures_reported_once :
    (∀ (t : Tree) (scope : Scope) (log : Log), t.isWhole = true →
        t.Reports scope log (t.eval scope log)) ∧
      ∀ uses : List Use, (Collector.after uses).log.size =
        (Collector.after uses).results.countP isRuntimeError :=
  ⟨fun t scope log ht => t.eval_reports ht scope log, Collector.isExact_after⟩

end LetLang
