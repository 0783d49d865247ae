import LetLang.Proofs.Order

/-!
# The line of an error

An error that leaves a tree has the line of the node whose own step failed. If there is none, the
whole program gives it the line of its root, and no other node has a say: the result does not
change when all other nodes get other lines (`Tree.relined`).
-/

namespace LetLang

namespace Tree

/-! ## Lines of nodes -/

/-- The line of a failure of the node's own step. A `let` fails at its token, and a token line of
zero is no line. -/
def ownLine : Tree → Option Int
  | .letIn name _ _ _ => if name.line = 0 then none else some name.line
  | t => t.line

/-- The tree in which the node at each path has the given line. -/
def relined : Tree → (Path → Option Int) → Tree
  | .int n _, lines => .int n (lines [])
  | .double x _, lines => .double x (lines [])
  | .bool b _, lines => .bool b (lines [])
  | .ident token _, lines => .ident token (lines [])
  | .binop left operator right _, lines =>
      .binop (left.relined fun path => lines (.left :: path)) operator
        (right.relined fun path => lines (.right :: path)) (lines [])
  | .letIn name value body _, lines =>
      .letIn name (value.relined fun path => lines (.value :: path))
        (body.relined fun path => lines (.body :: path)) (lines [])
  | .hole, _ => .hole

variable {t node : Tree} {scope : Scope} {value : Value} {error : RuntimeError}

/-- The root of a tree without holes takes the line that its path is given. -/
theorem line_relined (h : t.isWhole = true) (lines : Path → Option Int) :
    (t.relined lines).line = lines [] := by
  cases t with
  | hole => exact nomatch h
  | _ => rfl

/-- The value of a tree does not depend on lines. -/
theorem Evaluates.relined (h : t.Evaluates scope value) (lines : Path → Option Int) :
    (t.relined lines).Evaluates scope value := by
  induction h generalizing lines with
  | int n _ scope => exact .int n _ scope
  | double x _ scope => exact .double x _ scope
  | bool b _ scope => exact .bool b _ scope
  | ident h => exact .ident h
  | binop _ _ hverdict ihleft ihright => exact .binop (ihleft _) (ihright _) hverdict
  | letIn _ hname _ ihvalue ihbody => exact .letIn (ihvalue _) hname (ihbody _)

/-! ## The refused node -/

/-- An error has the line of the node that is refused. -/
theorem RefusedAt.line_eq (h : t.RefusedAt scope node error) : error.line = node.ownLine := by
  induction h with
  | ident _ | operation _ _ _ | letName _ _ => rfl
  | left _ ih | right _ _ ih | letValue _ ih | letBody _ _ _ ih => exact ih

/-- Where evaluation is refused the first step that fails is that of the refused node. As long as
this node keeps its line the error stays the same, whatever lines the others have. -/
theorem RefusedAt.exists_failsFirst (h : t.RefusedAt scope node error) (log : Log) :
    ∃ before path later,
      t.FailsFirst scope log before path later (.runtime error) (error.reportTo log) ∧
      t.subtree? path = some node ∧
      ∀ lines, lines path = node.line → ∃ node', (t.relined lines).RefusedAt scope node' error := by
  have heval := h.eval_eq log
  -- On the way down to the refused node, the parts that were evaluated before keep their values.
  induction h with
  | @ident token line scope h =>
    refine ⟨[], [], [], .last rfl (by simp) (.leaf (fun _ => rfl) (Outcome.done_of_error heval))
      heval, rfl, ?_⟩
    intro lines hline
    obtain rfl : lines [] = line := hline
    exact ⟨_, .ident h⟩
  | left hleft ih =>
    obtain ⟨_, _, _, hfails, hnode, hlines⟩ := ih (hleft.eval_eq log)
    refine ⟨_, _, _, hfails.inLeft, hnode, ?_⟩
    intro lines hline
    obtain ⟨node', hrefused⟩ := hlines (fun path => lines (.left :: path)) hline
    exact ⟨node', .left hrefused⟩
  | right hleft hright ih =>
    obtain ⟨_, _, _, hfails, hnode, hlines⟩ := ih (hright.eval_eq log)
    refine ⟨_, _, _, hfails.inRight hleft, hnode, ?_⟩
    intro lines hline
    obtain ⟨node', hrefused⟩ := hlines (fun path => lines (.right :: path)) hline
    exact ⟨node', .right (hleft.relined _) hrefused⟩
  | @operation left right operator line scope lhs rhs cause hleft hright hverdict =>
    have happly : operator.apply lhs rhs line log =
        (.error (.runtime ⟨cause, line⟩), RuntimeError.reportTo ⟨cause, line⟩ log) := by
      simpa [eval, hleft.eval_eq, hright.eval_eq] using heval
    refine ⟨_, _, _, .operation hleft hright happly, rfl, ?_⟩
    intro lines hline
    obtain rfl : lines [] = line := hline
    exact ⟨_, .operation (hleft.relined _) (hright.relined _) hverdict⟩
  | letValue hvalue ih =>
    obtain ⟨_, _, _, hfails, hnode, hlines⟩ := ih (hvalue.eval_eq log)
    refine ⟨_, _, _, hfails.inValue, hnode, ?_⟩
    intro lines hline
    obtain ⟨node', hrefused⟩ := hlines (fun path => lines (.value :: path)) hline
    exact ⟨node', .letValue hrefused⟩
  | letName hvalue hname =>
    -- The failure is at the token, so the line of the node need not stay.
    refine ⟨_, _, _, .binding hvalue ?_, rfl, ?_⟩
    · simp [Scope.bindTarget, Scope.bindLet, hname, RuntimeError.reportTo]
    · intro lines _
      exact ⟨_, .letName (hvalue.relined _) hname⟩
  | letBody hvalue hname hbody ih =>
    obtain ⟨_, _, _, hfails, hnode, hlines⟩ := ih (hbody.eval_eq log)
    refine ⟨_, _, _, hfails.inBody hvalue (Scope.bindTarget_of_ident hname _ _ log), hnode, ?_⟩
    intro lines hline
    obtain ⟨node', hrefused⟩ := hlines (fun path => lines (.body :: path)) hline
    exact ⟨node', .letBody (hvalue.relined _) hname hrefused⟩

/-! ## Whole programs -/

theorem evalTop_of_evaluates {bindings : Bindings}
    (h : t.Evaluates (scope.bindAll bindings) value) (log : Log) :
    t.evalTop scope bindings log = (.ok value, log) := by
  rw [evalTop, h.eval_eq]

/-- An error without a line gets that of the root, and an error with one keeps it. -/
theorem evalTop_of_refusedAt {bindings : Bindings}
    (h : t.RefusedAt (scope.bindAll bindings) node error) (log : Log) :
    t.evalTop scope bindings log =
      (.error (.runtime ⟨error.cause, error.line.or t.line⟩), error.reportTo log) := by
  have hattributed : error.attributedTo t.line = ⟨error.cause, error.line.or t.line⟩ := by
    obtain ⟨cause, line⟩ := error
    cases line with
    | none => rfl
    | some _ => rfl
  simp only [evalTop, h.eval_eq, hattributed]

/-- A whole program has the value of its tree. If it fails, it fails as the tree does, and the line
of the error is that of the node whose own step fails first, or else that of the root, or else there
is none. The lines of all other nodes may be changed without effect. -/
theorem errors_name_failing_line (t : Tree) (ht : t.isWhole = true) (scope : Scope)
    (bindings : Bindings) (log : Log) :
    (∀ value after, t.evalTop scope bindings log = (.ok value, after) ↔
        t.eval (scope.bindAll bindings) log = (.ok value, after)) ∧
      ∀ failure after, t.evalTop scope bindings log = (.error failure, after) →
        ∃ before path later node cause,
          t.FailsFirst (scope.bindAll bindings) log before path later
            (.runtime ⟨cause, node.ownLine⟩) after ∧
          t.subtree? path = some node ∧
          t.eval (scope.bindAll bindings) log =
            (.error (.runtime ⟨cause, node.ownLine⟩), after) ∧
          failure = .runtime ⟨cause, node.ownLine.or t.line⟩ ∧
          ∀ lines, lines [] = t.line → lines path = node.line →
            (t.relined lines).evalTop scope bindings log = (.error failure, after) := by
  rcases t.evaluates_or_refusedAt ht (scope.bindAll bindings) with
    ⟨v, h⟩ | ⟨node, ⟨cause, line⟩, h⟩
  · rw [evalTop_of_evaluates h, h.eval_eq]
    refine ⟨fun _ _ => Iff.rfl, ?_⟩
    intro failure after hfailure
    cases hfailure
  · have htop := evalTop_of_refusedAt h log
    have heval := h.eval_eq log
    obtain rfl : line = node.ownLine := h.line_eq
    rw [htop, heval]
    refine ⟨fun value after => ⟨nofun, nofun⟩, ?_⟩
    rintro failure after hfailure
    cases hfailure
    obtain ⟨before, path, later, hfails, hnode, hlines⟩ := h.exists_failsFirst log
    refine ⟨before, path, later, node, cause, hfails, hnode, rfl, rfl, ?_⟩
    intro lines hroot hline
    obtain ⟨node', hrefused⟩ := hlines lines hline
    rw [evalTop_of_refusedAt hrefused log, line_relined ht, hroot]

/-- The name `y` is not bound and has no line, so its error takes the line of the root. It does not
take the line of the `let` in between. -/
theorem errors_name_failing_line_between :
    let tree : Tree := .binop (.int 1 (some 1)) (.known .add)
      (.letIn ⟨.ident, .text "x", 3, 5⟩ (.int 2 (some 3)) (.ident ⟨.ident, .text "y", 0, 0⟩ none)
        (some 3)) (some 2)
    tree.isWhole = true ∧ ∃ path node cause,
      tree.subtree? path = some node ∧
      (tree.eval (Scope.empty.bindAll [("z", .integer 0)]) .empty).1 =
        .error (.runtime ⟨cause, node.ownLine⟩) ∧
      Failure.runtime ⟨.unbound "y", some 2⟩ = .runtime ⟨cause, node.ownLine.or (some 2)⟩ ∧
      ∀ lines, lines [] = some 2 → lines path = node.line →
        ((tree.relined lines).evalTop .empty [("z", .integer 0)] .empty).1 =
          .error (.runtime ⟨.unbound "y", some 2⟩) := by
  intro tree
  have hwhole : tree.isWhole = true := rfl
  have htop : tree.evalTop .empty [("z", .integer 0)] .empty =
      (.error (.runtime ⟨.unbound "y", some 2⟩),
        Log.empty.record ⟨Cause.diagnosis (.unbound "y"), none, none⟩) := rfl
  obtain ⟨_, path, _, node, cause, -, hnode, heval, hfailure, hlines⟩ :=
    (errors_name_failing_line tree hwhole .empty [("z", .integer 0)] .empty).2 _ _ htop
  refine ⟨hwhole, path, node, cause, hnode, congrArg Prod.fst heval, hfailure, ?_⟩
  intro lines hroot hline
  rw [hlines lines hroot hline]

end Tree

end LetLang
