import LetLang.Proofs.Occurrence

/-!
# The order of evaluation

Every node of a tree takes one step of its own: a literal gives its value, a name is looked up, an
operation is applied to the values of its operands, and a `let` binds the value of its name. This
file says in which order these steps are taken, and that the first one that fails ends evaluation,
whatever stands behind it.
-/

namespace LetLang

def Outcome.done {α : Type} (outcome : Outcome α) : Outcome Unit :=
  outcome.andThen fun _ log => (.ok (), log)

theorem Outcome.done_of_ok {α : Type} {outcome : Outcome α} {a : α} {after : Log}
    (h : outcome = (.ok a, after)) : outcome.done = (.ok (), after) := by
  rw [h]
  rfl

theorem Outcome.done_of_error {α : Type} {outcome : Outcome α} {failure : Failure} {after : Log}
    (h : outcome = (.error failure, after)) : outcome.done = (.error failure, after) := by
  rw [h]
  rfl

namespace Tree

/-! ## Steps -/

/-- The own step of a node, when the parts that it needs have been evaluated: whether it fails, and
the log that it leaves behind. A node without parts has no other step. -/
inductive OwnStep (scope : Scope) (log : Log) : Tree → Outcome Unit → Prop where
  | leaf {t : Tree} {outcome : Outcome Unit} (hleaf : ∀ branch, t.part? branch = none)
      (h : (t.eval scope log).done = outcome) : OwnStep scope log t outcome
  | operation {left right : Tree} {operator : Operator} {line : Option Int} {lhs rhs : Value}
      {outcome : Outcome Unit} (hleft : left.Evaluates scope lhs)
      (hright : right.Evaluates scope rhs)
      (h : (operator.apply lhs rhs line log).done = outcome) :
      OwnStep scope log (.binop left operator right line) outcome
  | binding {name : Token} {value body : Tree} {line : Option Int} {v : Value}
      {outcome : Outcome Unit} (hvalue : value.Evaluates scope v)
      (h : (scope.bindTarget name v log).done = outcome) :
      OwnStep scope log (.letIn name value body line) outcome

/-- The step of the node at a path, when the whole tree stands in a scope. -/
def StepAt (t : Tree) (scope : Scope) (log : Log) (path : Path)
    (outcome : Outcome Unit) : Prop :=
  ∃ node inner, t.subtree? path = some node ∧ t.ScopeAt scope path inner ∧
    node.OwnStep inner log outcome

/-- The paths of all nodes in the order of their steps: left operand, right operand, operation;
value, name, body. -/
def steps : Tree → List Path
  | .binop left _ right _ =>
      left.steps.map (.left :: ·) ++ (right.steps.map (.right :: ·) ++ [[]])
  | .letIn _ value body _ =>
      value.steps.map (.value :: ·) ++ [] :: body.steps.map (.body :: ·)
  | _ => [[]]

/-! ## A step has one outcome -/

/-- A tree has at most one value. -/
theorem Evaluates.unique {t : Tree} {scope : Scope} {v w : Value} (h : t.Evaluates scope v)
    (h' : t.Evaluates scope w) : v = w := by
  have heval := h.eval_eq .empty
  rw [h'.eval_eq .empty] at heval
  cases heval
  rfl

/-- A path leads to at most one scope. -/
theorem ScopeAt.unique {t : Tree} {scope inner inner' : Scope} {path : Path}
    (h : t.ScopeAt scope path inner) (h' : t.ScopeAt scope path inner') : inner = inner' := by
  induction h with
  | root =>
    cases h'
    rfl
  | left _ ih =>
    cases h' with
    | left h' => exact ih h'
  | right _ ih =>
    cases h' with
    | right h' => exact ih h'
  | value _ ih =>
    cases h' with
    | value h' => exact ih h'
  | body hvalue _ ih =>
    cases h' with
    | body hvalue' h' =>
      cases hvalue.unique hvalue'
      exact ih h'

/-- The own step of a node has at most one outcome. -/
theorem OwnStep.unique {t : Tree} {scope : Scope} {log : Log} {outcome outcome' : Outcome Unit}
    (h : t.OwnStep scope log outcome) (h' : t.OwnStep scope log outcome') : outcome = outcome' := by
  cases h with
  | leaf hleaf h =>
    cases h' with
    | leaf _ h' => exact h.symm.trans h'
    | operation _ _ _ => exact nomatch hleaf .left
    | binding _ _ => exact nomatch hleaf .value
  | operation hleft hright h =>
    cases h' with
    | leaf hleaf _ => exact nomatch hleaf .left
    | operation hleft' hright' h' =>
      cases hleft.unique hleft'
      cases hright.unique hright'
      exact h.symm.trans h'
  | binding hvalue h =>
    cases h' with
    | leaf hleaf _ => exact nomatch hleaf .value
    | binding hvalue' h' =>
      cases hvalue.unique hvalue'
      exact h.symm.trans h'

/-- The step at a path has at most one outcome. -/
theorem StepAt.unique {t : Tree} {scope : Scope} {log : Log} {path : Path}
    {outcome outcome' : Outcome Unit} (h : t.StepAt scope log path outcome)
    (h' : t.StepAt scope log path outcome') : outcome = outcome' := by
  rcases h with ⟨node, inner, hnode, hscope, hstep⟩
  rcases h' with ⟨node', inner', hnode', hscope', hstep'⟩
  rw [hnode] at hnode'
  cases hnode'
  cases hscope.unique hscope'
  exact hstep.unique hstep'

/-! ## Every node takes one step -/

/-- Every node has a step. -/
theorem mem_steps_iff {t : Tree} {path : Path} :
    path ∈ t.steps ↔ ∃ part, t.subtree? path = some part := by
  induction t generalizing path with
  | binop left operator right line ihleft ihright =>
    cases path with
    | nil => simp [steps]
    | cons branch path => cases branch <;> simp [steps, ihleft, ihright, subtree?, part?]
  | letIn name value body line ihvalue ihbody =>
    cases path with
    | nil => simp [steps]
    | cons branch path => cases branch <;> simp [steps, ihvalue, ihbody, subtree?, part?]
  | int _ _ | double _ _ | bool _ _ | ident _ _ | hole =>
    cases path with
    | nil => simp [steps]
    | cons branch path => cases branch <;> simp [steps, subtree?, part?]

/-- No node has two steps. -/
theorem nodup_steps (t : Tree) : t.steps.Nodup := by
  have hmap (branch : Branch) {paths : List Path} (h : paths.Nodup) :
      (paths.map (branch :: ·)).Nodup :=
    List.pairwise_map.2 (h.imp fun hne heq => hne (List.cons.inj heq).2)
  -- Paths of different parts differ in their first branch.
  induction t with
  | binop left operator right line ihleft ihright =>
    have hright : (right.steps.map (Branch.right :: ·) ++ [[]]).Nodup :=
      List.nodup_append.2 ⟨hmap .right ihright, by simp, by simp⟩
    refine List.nodup_append.2 ⟨hmap .left ihleft, hright, ?_⟩
    rintro path hleft _ hother rfl
    rcases List.mem_map.1 hleft with ⟨inner, -, rfl⟩
    simp at hother
  | letIn name value body line ihvalue ihbody =>
    have hbody : ([] :: body.steps.map (Branch.body :: ·)).Nodup :=
      List.nodup_cons.2 ⟨by simp, hmap .body ihbody⟩
    refine List.nodup_append.2 ⟨hmap .value ihvalue, hbody, ?_⟩
    rintro path hvalue _ hother rfl
    rcases List.mem_map.1 hvalue with ⟨inner, -, rfl⟩
    simp at hother
  | int _ _ | double _ _ | bool _ _ | ident _ _ | hole => simp [steps]

/-- If a tree has a value, its own step succeeds. -/
theorem Evaluates.ownStep {t : Tree} {scope : Scope} {value : Value} (h : t.Evaluates scope value)
    (log : Log) : t.OwnStep scope log (.ok (), log) := by
  have hdone := Outcome.done_of_ok (h.eval_eq log)
  cases h with
  | int _ _ | double _ _ | bool _ _ | ident _ => exact .leaf (fun _ => rfl) hdone
  | binop hleft hright hverdict =>
    exact .operation hleft hright (Outcome.done_of_ok (hverdict _ log))
  | letIn hvalue hname _ =>
    exact .binding hvalue (Outcome.done_of_ok (Scope.bindTarget_of_ident hname _ _ log))

/-- If a tree has a value, all its steps succeed. -/
theorem Evaluates.stepAt {t : Tree} {scope : Scope} {value : Value} (h : t.Evaluates scope value)
    (log : Log) : ∀ path ∈ t.steps, t.StepAt scope log path (.ok (), log) := by
  intro path hpath
  rcases mem_steps_iff.1 hpath with ⟨part, hpart⟩
  rcases h.subtree hpart with ⟨inner, v, hscope, hvalue⟩
  exact ⟨part, inner, hpart, hscope, hvalue.ownStep log⟩

/-! ## Steps of parts -/

namespace StepAt

variable {left right value body : Tree} {operator : Operator} {name : Token} {line : Option Int}
  {scope : Scope} {log : Log} {path : Path} {outcome : Outcome Unit}

theorem root {t : Tree} (h : t.OwnStep scope log outcome) : t.StepAt scope log [] outcome :=
  ⟨t, scope, rfl, .root, h⟩

theorem inLeft (h : left.StepAt scope log path outcome) :
    (binop left operator right line).StepAt scope log (.left :: path) outcome := by
  rcases h with ⟨node, inner, hnode, hscope, hstep⟩
  exact ⟨node, inner, hnode, .left hscope, hstep⟩

theorem inRight (h : right.StepAt scope log path outcome) :
    (binop left operator right line).StepAt scope log (.right :: path) outcome := by
  rcases h with ⟨node, inner, hnode, hscope, hstep⟩
  exact ⟨node, inner, hnode, .right hscope, hstep⟩

theorem inValue (h : value.StepAt scope log path outcome) :
    (letIn name value body line).StepAt scope log (.value :: path) outcome := by
  rcases h with ⟨node, inner, hnode, hscope, hstep⟩
  exact ⟨node, inner, hnode, .value hscope, hstep⟩

theorem inBody {v : Value} (hvalue : value.Evaluates scope v)
    (h : body.StepAt (scope.bind name.name v) log path outcome) :
    (letIn name value body line).StepAt scope log (.body :: path) outcome := by
  rcases h with ⟨node, inner, hnode, hscope, hstep⟩
  exact ⟨node, inner, hnode, .body hvalue hscope, hstep⟩

end StepAt

/-! ## Replaced sub-trees -/

/-- The tree with the sub-trees at some paths replaced. -/
def graft : Tree → (Path → Option Tree) → Tree
  | .binop left operator right line, replacement =>
      (replacement []).getD
        (.binop (left.graft fun path => replacement (.left :: path)) operator
          (right.graft fun path => replacement (.right :: path)) line)
  | .letIn name value body line, replacement =>
      (replacement []).getD
        (.letIn name (value.graft fun path => replacement (.value :: path))
          (body.graft fun path => replacement (.body :: path)) line)
  | t, replacement => (replacement []).getD t

/-- Only sub-trees are replaced all of whose nodes are among the given ones. -/
def ReplacesOnly (t : Tree) (nodes : List Path) (replacement : Path → Option Tree) : Prop :=
  ∀ path, replacement path ≠ none → ∀ rest, path ++ rest ∈ t.steps → path ++ rest ∈ nodes

namespace ReplacesOnly

variable {t part : Tree} {nodes nodes' : List Path} {replacement : Path → Option Tree}

/-- The tree is not replaced as a whole if one of its nodes is not among the given ones. -/
theorem root_eq_none (h : t.ReplacesOnly nodes replacement) (path : Path) (hpath : path ∈ t.steps)
    (hnot : path ∉ nodes) : replacement [] = none := by
  cases hnew : replacement [] with
  | none => rfl
  | some new => exact absurd (h [] (by simp [hnew]) path hpath) hnot

/-- In a part only those nodes are replaced that are replaced in the whole. -/
theorem inPart (h : t.ReplacesOnly nodes replacement) (branch : Branch)
    (hsteps : ∀ path ∈ part.steps, branch :: path ∈ t.steps)
    (hnodes : ∀ path, branch :: path ∈ nodes → path ∈ nodes') :
    part.ReplacesOnly nodes' fun path => replacement (branch :: path) := by
  intro path hpath rest hrest
  exact hnodes _ (h (branch :: path) hpath rest (hsteps _ hrest))

end ReplacesOnly

/-- Where nothing is replaced, nothing changes. -/
theorem graft_eq_self {t : Tree} {replacement : Path → Option Tree}
    (h : t.ReplacesOnly [] replacement) : t.graft replacement = t := by
  have hroot (t : Tree) (replacement : Path → Option Tree) (h : t.ReplacesOnly [] replacement) :
      replacement [] = none :=
    h.root_eq_none [] (mem_steps_iff.2 ⟨t, rfl⟩) (by simp)
  induction t generalizing replacement with
  | binop left operator right line ihleft ihright =>
    have hleft := ihleft (h.inPart .left (by simp [steps]) (by simp))
    have hright := ihright (h.inPart .right (by simp [steps]) (by simp))
    simp [graft, hroot _ _ h, hleft, hright]
  | letIn name value body line ihvalue ihbody =>
    have hvalue := ihvalue (h.inPart .value (by simp [steps]) (by simp))
    have hbody := ihbody (h.inPart .body (by simp [steps]) (by simp))
    simp [graft, hroot _ _ h, hvalue, hbody]
  | int _ _ | double _ _ | bool _ _ | ident _ _ | hole => simp [graft, hroot _ _ h]

/-! ## The first step that fails -/

/-- The step of one node fails, all steps before it succeed, and so evaluation ends there, whatever
stands in the place of the sub-trees behind it. -/
structure FailsFirst (t : Tree) (scope : Scope) (log : Log) (before : List Path) (path : Path)
    (later : List Path) (failure : Failure) (after : Log) : Prop where
  order : t.steps = before ++ path :: later
  succeed : ∀ earlier ∈ before, t.StepAt scope log earlier (.ok (), log)
  fails : t.StepAt scope log path (.error failure, after)
  stable : ∀ replacement, t.ReplacesOnly later replacement →
    (t.graft replacement).eval scope log = (.error failure, after)

namespace FailsFirst

variable {t left right value body : Tree} {operator : Operator} {name : Token} {line : Option Int}
  {scope : Scope} {log after : Log} {before later : List Path} {path : Path} {failure : Failure}

theorem path_mem (h : t.FailsFirst scope log before path later failure after) :
    path ∈ t.steps := by
  simp [h.order]

/-- The failing step is not among the later ones. -/
theorem path_not_mem (h : t.FailsFirst scope log before path later failure after) :
    path ∉ later := by
  have hnodup := t.nodup_steps
  rw [h.order] at hnodup
  exact (List.nodup_cons.1 (List.nodup_append.1 hnodup).2.1).1

theorem inLeft (h : left.FailsFirst scope log before path later failure after) :
    (binop left operator right line).FailsFirst scope log (before.map (.left :: ·)) (.left :: path)
      (later.map (.left :: ·) ++ (right.steps.map (.right :: ·) ++ [[]])) failure after where
  order := by simp [steps, h.order]
  succeed := List.forall_mem_map.2 fun inner hinner => (h.succeed inner hinner).inLeft
  fails := h.fails.inLeft
  stable := by
    intro replacement honly
    -- The failing node is kept, so the operation around it is kept as well.
    have hroot : replacement [] = none :=
      honly.root_eq_none (.left :: path) (by simp [steps, h.path_mem]) (by simp [h.path_not_mem])
    have hleft := h.stable _ (honly.inPart .left (by simp [steps]) (by simp))
    simp [graft, hroot, eval, hleft]

theorem inRight {lhs : Value} (hleft : left.Evaluates scope lhs)
    (h : right.FailsFirst scope log before path later failure after) :
    (binop left operator right line).FailsFirst scope log
      (left.steps.map (.left :: ·) ++ before.map (.right :: ·)) (.right :: path)
      (later.map (.right :: ·) ++ [[]]) failure after where
  order := by simp [steps, h.order]
  succeed := by
    refine List.forall_mem_append.2 ⟨List.forall_mem_map.2 ?_, List.forall_mem_map.2 ?_⟩
    · intro inner hinner
      exact (hleft.stepAt log inner hinner).inLeft
    · intro inner hinner
      exact (h.succeed inner hinner).inRight
  fails := h.fails.inRight
  stable := by
    intro replacement honly
    have hroot : replacement [] = none :=
      honly.root_eq_none (.right :: path) (by simp [steps, h.path_mem]) (by simp [h.path_not_mem])
    -- The left operand comes first, so nothing in it is replaced.
    have hkept : left.ReplacesOnly [] fun path => replacement (.left :: path) :=
      honly.inPart .left (by simp [steps]) (by simp)
    have hright := h.stable _ (honly.inPart .right (by simp [steps]) (by simp))
    simp [graft, hroot, eval, graft_eq_self hkept, hleft.eval_eq, hright]

theorem inValue (h : value.FailsFirst scope log before path later failure after) :
    (letIn name value body line).FailsFirst scope log (before.map (.value :: ·)) (.value :: path)
      (later.map (.value :: ·) ++ [] :: body.steps.map (.body :: ·)) failure after where
  order := by simp [steps, h.order]
  succeed := List.forall_mem_map.2 fun inner hinner => (h.succeed inner hinner).inValue
  fails := h.fails.inValue
  stable := by
    intro replacement honly
    have hroot : replacement [] = none :=
      honly.root_eq_none (.value :: path) (by simp [steps, h.path_mem]) (by simp [h.path_not_mem])
    have hvalue := h.stable _ (honly.inPart .value (by simp [steps]) (by simp))
    simp [graft, hroot, eval, hvalue]

theorem inBody {v : Value} (hvalue : value.Evaluates scope v)
    (hbind : scope.bindTarget name v log = (.ok (scope.bind name.name v), log))
    (h : body.FailsFirst (scope.bind name.name v) log before path later failure after) :
    (letIn name value body line).FailsFirst scope log
      (value.steps.map (.value :: ·) ++ [] :: before.map (.body :: ·)) (.body :: path)
      (later.map (.body :: ·)) failure after where
  order := by simp [steps, h.order]
  succeed := by
    refine List.forall_mem_append.2 ⟨List.forall_mem_map.2 ?_, List.forall_mem_cons.2
      ⟨.root (.binding hvalue (Outcome.done_of_ok hbind)), List.forall_mem_map.2 ?_⟩⟩
    · intro inner hinner
      exact (hvalue.stepAt log inner hinner).inValue
    · intro inner hinner
      exact (h.succeed inner hinner).inBody hvalue
  fails := h.fails.inBody hvalue
  stable := by
    intro replacement honly
    have hroot : replacement [] = none :=
      honly.root_eq_none (.body :: path) (by simp [steps, h.path_mem]) (by simp [h.path_not_mem])
    -- The value comes first, so nothing in it is replaced.
    have hkept : value.ReplacesOnly [] fun path => replacement (.value :: path) :=
      honly.inPart .value (by simp [steps]) (by simp)
    have hbody := h.stable _ (honly.inPart .body (by simp [steps]) (by simp))
    simp [graft, hroot, eval_letIn, graft_eq_self hkept, hvalue.eval_eq, hbind, hbody]

/-- The step of the root is the last one. -/
theorem last (hsteps : t.steps = before ++ [[]])
    (hbefore : ∀ earlier ∈ before, t.StepAt scope log earlier (.ok (), log))
    (hstep : t.OwnStep scope log (.error failure, after))
    (heval : t.eval scope log = (.error failure, after)) :
    t.FailsFirst scope log before [] [] failure after where
  order := hsteps
  succeed := hbefore
  fails := .root hstep
  stable := by
    intro replacement honly
    rw [graft_eq_self honly]
    exact heval

/-- The operation fails behind both operands. -/
theorem operation {lhs rhs : Value} (hleft : left.Evaluates scope lhs)
    (hright : right.Evaluates scope rhs)
    (happly : operator.apply lhs rhs line log = (.error failure, after)) :
    (binop left operator right line).FailsFirst scope log
      (left.steps.map (.left :: ·) ++ right.steps.map (.right :: ·)) [] [] failure after := by
  refine last (by simp [steps]) ?_
    (.operation hleft hright (Outcome.done_of_error happly)) ?_
  · refine List.forall_mem_append.2 ⟨List.forall_mem_map.2 ?_, List.forall_mem_map.2 ?_⟩
    · intro inner hinner
      exact (hleft.stepAt log inner hinner).inLeft
    · intro inner hinner
      exact (hright.stepAt log inner hinner).inRight
  · simp [eval, hleft.eval_eq, hright.eval_eq, happly]

/-- The name fails behind the value, and the body is never reached. -/
theorem binding {v : Value} (hvalue : value.Evaluates scope v)
    (hbind : scope.bindTarget name v log = (.error failure, after)) :
    (letIn name value body line).FailsFirst scope log (value.steps.map (.value :: ·)) []
      (body.steps.map (.body :: ·)) failure after where
  order := by simp [steps]
  succeed := List.forall_mem_map.2 fun inner hinner => (hvalue.stepAt log inner hinner).inValue
  fails := .root (.binding hvalue (Outcome.done_of_error hbind))
  stable := by
    intro replacement honly
    have hroot : replacement [] = none :=
      honly.root_eq_none [] (by simp [steps]) (by simp)
    have hkept : value.ReplacesOnly [] fun path => replacement (.value :: path) :=
      honly.inPart .value (by simp [steps]) (by simp)
    simp [graft, hroot, eval_letIn, graft_eq_self hkept, hvalue.eval_eq, hbind]

end FailsFirst

/-- An evaluation that fails has a first step that does. -/
theorem exists_failsFirst {t : Tree} {scope : Scope} {log after : Log} {failure : Failure}
    (h : t.eval scope log = (.error failure, after)) :
    ∃ before path later, t.FailsFirst scope log before path later failure after := by
  -- Each case follows the evaluator: a part fails, or it succeeds and leaves the log as it was.
  induction t generalizing scope log after with
  | int _ _ | double _ _ | bool _ _ | ident _ _ | hole =>
    exact ⟨[], [], [], .last rfl (by simp) (.leaf (fun _ => rfl) (Outcome.done_of_error h)) h⟩
  | binop left operator right line ihleft ihright =>
    rcases Outcome.parts_of_andThen_error h with hleft | ⟨lhs, _, hleft, hrest⟩
    · rcases ihleft hleft with ⟨_, _, _, hfails⟩
      exact ⟨_, _, _, hfails.inLeft⟩
    · rcases evaluates_iff.1 hleft with ⟨hlhs, rfl⟩
      rcases Outcome.parts_of_andThen_error hrest with hright | ⟨rhs, _, hright, happly⟩
      · rcases ihright hright with ⟨_, _, _, hfails⟩
        exact ⟨_, _, _, hfails.inRight hlhs⟩
      · rcases evaluates_iff.1 hright with ⟨hrhs, rfl⟩
        exact ⟨_, _, _, .operation hlhs hrhs happly⟩
  | letIn name value body line ihvalue ihbody =>
    rw [eval_letIn] at h
    rcases Outcome.parts_of_andThen_error h with hvalue | ⟨v, _, hvalue, hrest⟩
    · rcases ihvalue hvalue with ⟨_, _, _, hfails⟩
      exact ⟨_, _, _, hfails.inValue⟩
    · rcases evaluates_iff.1 hvalue with ⟨hv, rfl⟩
      rcases Outcome.parts_of_andThen_error hrest with hbind | ⟨inner, _, hbind, hbody⟩
      · exact ⟨_, _, _, .binding hv hbind⟩
      · rcases Scope.eq_of_bindTarget hbind with ⟨-, rfl, rfl⟩
        rcases ihbody hbody with ⟨_, _, _, hfails⟩
        exact ⟨_, _, _, hfails.inBody hv hbind⟩

/-! ## Strict evaluation -/

/-- Evaluation is strict, goes from left to right, and ends with the first failure. If it succeeds,
every sub-tree evaluates in its own scope. If it fails, the failure and the log are those of the step
of some node, all steps before it succeed, and nothing changes when sub-trees behind it are replaced.
The step of a node has one outcome only, so this node is the first whose step fails. -/
theorem eval_strict (t : Tree) (scope : Scope) (log : Log) :
    (∀ value after, t.eval scope log = (.ok value, after) →
        after = log ∧ ∀ path part, t.subtree? path = some part →
          ∃ inner v, t.ScopeAt scope path inner ∧ part.eval inner log = (.ok v, log)) ∧
      (∀ failure after, t.eval scope log = (.error failure, after) →
        ∃ before path later, t.steps = before ++ path :: later ∧
          (∀ earlier ∈ before, t.StepAt scope log earlier (.ok (), log)) ∧
          t.StepAt scope log path (.error failure, after) ∧
          ∀ replacement, t.ReplacesOnly later replacement →
            (t.graft replacement).eval scope log = (.error failure, after)) ∧
      ∀ path outcome outcome', t.StepAt scope log path outcome → t.StepAt scope log path outcome' →
        outcome = outcome' := by
  refine ⟨?_, ?_, fun path outcome outcome' h h' => h.unique h'⟩
  · intro value after h
    rcases evaluates_iff.1 h with ⟨hvalue, hlog⟩
    refine ⟨hlog, ?_⟩
    intro path part hpart
    rcases hvalue.subtree hpart with ⟨inner, v, hscope, hv⟩
    exact ⟨inner, v, hscope, hv.eval_eq log⟩
  · intro failure after h
    rcases exists_failsFirst h with ⟨before, path, later, hfails⟩
    exact ⟨before, path, later, hfails.order, hfails.succeed, hfails.fails, hfails.stable⟩

end Tree

end LetLang
