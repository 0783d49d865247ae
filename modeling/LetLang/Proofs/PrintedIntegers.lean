import LetLang.CommandLine
import LetLang.Proofs.Convertible
import LetLang.Proofs.Definitions
import LetLang.Proofs.History

/-!
# Integers that the drivers write

Everything that a session or the command line writes to the standard output is a fixed notice, the
text of a value, a binding, or the display of a tree. The integers among these are within the limit
of conversion, and so are those that a session binds: one entry keeps this, and so do all.
-/

namespace LetLang

/-! ## Output -/

inductive Printed where
  | notice (text : String)
  | result (value : Value)
  | binding (name : String) (value : Value)
  | tree (tree : Tree)

namespace Printed

def lines : Printed → List String
  | .notice text => [text]
  | .result value => [value.text]
  | .binding name value => [Session.bindingLine name value]
  | .tree t => t.displayLines 0

def notices : List String :=
  [PromptLoop.banner, "", "KeyboardInterrupt", "<clear>", "(no bindings)", "Environment reset.",
    "Tree display: on", "Tree display: off", "Python traceback: on", "Python traceback: off"]

/-- A fixed text, or a part whose integers are within the limit. A name is a plain word, and a tree
was read from a source text. -/
def IsPlain : Printed → Prop
  | .notice text => text ∈ notices
  | .result value => value.IsPlain
  | .binding name value => TokenKind.ident.Spells name.toList ∧ value.IsPlain
  | .tree t => (∃ source, Source.read source = .ok t) ∧ t.Everywhere Tree.IsConvertibleNode

end Printed

/-- The lines are made of such parts. -/
def ArePrinted (lines : List String) : Prop :=
  ∃ parts : List Printed, lines = parts.flatMap Printed.lines ∧ ∀ part ∈ parts, part.IsPlain

theorem arePrinted_nil : ArePrinted [] := ⟨[], rfl, fun _ hpart => absurd hpart List.not_mem_nil⟩

theorem arePrinted_lines {part : Printed} (h : part.IsPlain) : ArePrinted part.lines := by
  refine ⟨[part], (List.flatMap_singleton _ _).symm, ?_⟩
  intro other hother
  rw [List.mem_singleton.1 hother]
  exact h

/-- Output in two parts is plain if both are. -/
theorem ArePrinted.append {lines more : List String} (h : ArePrinted lines)
    (hmore : ArePrinted more) : ArePrinted (lines ++ more) := by
  obtain ⟨parts, rfl, hparts⟩ := h
  obtain ⟨others, rfl, hothers⟩ := hmore
  refine ⟨parts ++ others, List.flatMap_append.symm, ?_⟩
  intro part hpart
  rcases List.mem_append.1 hpart with hpart | hpart
  · exact hparts part hpart
  · exact hothers part hpart

theorem arePrinted_notice {text : String} (h : text ∈ Printed.notices) : ArePrinted [text] := by
  have hnotice : (Printed.notice text).IsPlain := h
  exact arePrinted_lines hnotice

theorem arePrinted_result {value : Value} (h : value.IsPlain) : ArePrinted [value.text] := by
  have hresult : (Printed.result value).IsPlain := h
  exact arePrinted_lines hresult

theorem arePrinted_binding {name : String} {value : Value}
    (hname : TokenKind.ident.Spells name.toList) (hvalue : value.IsPlain) :
    ArePrinted [Session.bindingLine name value] := by
  have hbinding : (Printed.binding name value).IsPlain := ⟨hname, hvalue⟩
  exact arePrinted_lines hbinding

theorem arePrinted_bindings {bindings : Bindings}
    (h : ∀ pair ∈ bindings, TokenKind.ident.Spells pair.1.toList ∧ pair.2.IsPlain) :
    ArePrinted (bindings.map fun pair => Session.bindingLine pair.1 pair.2) := by
  induction bindings with
  | nil => exact arePrinted_nil
  | cons pair rest ih =>
    obtain ⟨⟨hname, hvalue⟩, hrest⟩ := List.forall_mem_cons.1 h
    exact (arePrinted_binding hname hvalue).append (ih hrest)

/-- The display of a tree that was read shows integers within the limit only. -/
theorem arePrinted_tree {source : String} {t : Tree} (h : Source.read source = .ok t) :
    ArePrinted (t.displayLines 0) := by
  have htree : (Printed.tree t).IsPlain := ⟨⟨source, h⟩, Source.everywhere_convertible h⟩
  exact arePrinted_lines htree

/-! ## Scopes -/

namespace Scope

def HasPlainValues (scope : Scope) : Prop := ∀ binding ∈ scope.bindings, binding.value.IsPlain

structure IsPlain (scope : Scope) : Prop where
  values : scope.HasPlainValues
  names : ∀ binding ∈ scope.bindings,
    ∃ name, binding.name = some name ∧ TokenKind.ident.Spells name.toList

variable {scope : Scope}

theorem isPlain_empty : empty.IsPlain where
  values _ hbinding := absurd hbinding List.not_mem_nil
  names _ hbinding := absurd hbinding List.not_mem_nil

theorem IsPlain.bind (h : scope.IsPlain) {name : String} {value : Value}
    (hname : TokenKind.ident.Spells name.toList) (hvalue : value.IsPlain) :
    (scope.bind name value).IsPlain where
  values := List.forall_mem_cons.2 ⟨hvalue, h.values⟩
  names := List.forall_mem_cons.2 ⟨⟨name, rfl, hname⟩, h.names⟩

/-- What is found was bound. -/
theorem mem_of_find? {name : String} {value : Value} (h : scope.find? name = some value) :
    ∃ binding ∈ scope.bindings, binding.value = value := by
  rw [find?_eq_map, Option.map_eq_some_iff] at h
  obtain ⟨binding, hbinding, hvalue⟩ := h
  exact ⟨binding, List.mem_of_find?_eq_some hbinding, hvalue⟩

/-- What is visible was bound. -/
theorem mem_of_mem_visible {pair : String × Value} (h : pair ∈ scope.visible) :
    ⟨some pair.1, pair.2⟩ ∈ scope.bindings := by
  obtain ⟨bindings⟩ := scope
  rw [visible_eq_unshadowed] at h
  fun_induction unshadowed bindings with
  | case1 => exact absurd h List.not_mem_nil
  | case2 value rest ih => exact List.mem_cons_of_mem _ (ih h)
  | case3 name value rest ih =>
    rcases List.mem_cons.1 h with rfl | hrest
    · exact List.mem_cons_self
    · exact List.mem_cons_of_mem _ (ih (List.mem_of_mem_filter hrest))

theorem HasPlainValues.isNative (h : scope.HasPlainValues) : scope.IsNative := by
  intro name value hfind
  obtain ⟨binding, hbinding, rfl⟩ := mem_of_find? hfind
  exact (h binding hbinding).1

theorem HasPlainValues.isConvertible (h : scope.HasPlainValues) : scope.IsConvertible := by
  intro name n hfind
  obtain ⟨binding, hbinding, hvalue⟩ := mem_of_find? hfind
  have hplain := (h binding hbinding).2
  rw [hvalue] at hplain
  exact hplain

theorem hasPlainValues_ofBindings {bindings : Bindings} (h : ∀ pair ∈ bindings, pair.2.IsPlain) :
    (ofBindings bindings).HasPlainValues := by
  intro binding hbinding
  rw [ofBindings_eq_ofHistory] at hbinding
  obtain ⟨pair, hpair, rfl⟩ := List.mem_map.1 hbinding
  exact h pair (List.mem_reverse.1 hpair)

end Scope

/-! ## Executions -/

section Runs

variable {source : String} {scope : Scope} (h : scope.HasPlainValues)

include h

/-- The value of a run in a plain scope is plain. -/
theorem isPlain_of_run {log : Log} {value : Value}
    (hrun : (run source scope [] log).1 = .ok value) : value.IsPlain := by
  refine ⟨?_, isConvertible_of_run h.isConvertible hrun⟩
  cases hread : Source.read source with
  | error error => simp [run, hread] at hrun
  | ok tree => exact ((run_eq_ok_iff hread).1 hrun).isNative h.isNative

/-- What an execution shows: the tree on request, then the value. -/
theorem execute_isPlain (source : String) (showTree : Bool) :
    ArePrinted (execute source scope showTree).treeLines ∧
      ∀ value, (execute source scope showTree).result = .ok value → value.IsPlain := by
  unfold execute
  cases hread : Source.read source with
  | error error =>
    refine ⟨arePrinted_nil, ?_⟩
    intro value hvalue
    cases hvalue
  | ok tree =>
    refine ⟨?_, ?_⟩
    · cases showTree with
      | true => exact arePrinted_tree hread
      | false => exact arePrinted_nil
    · intro value hvalue
      have hrun : (run source scope [] .empty).1 = .ok value := by
        rw [run, hread]
        exact hvalue
      exact isPlain_of_run h hrun

end Runs

/-! ## One line of a session -/

structure Entered.IsPlain (entered : Entered) : Prop where
  scope : entered.session.scope.IsPlain
  out : ArePrinted entered.transcript.out

/-- The name of a definition is a plain word. -/
theorem Definition.spells_name {cs : List Char} {definition : Definition}
    (h : Definition.ofChars? cs = some definition) : TokenKind.ident.Spells definition.name := by
  unfold Definition.ofChars? at h
  split at h
  · cases h
  · next c cs =>
    split at h
    · next hc =>
      split at h
      · cases h
        exact ⟨c, cs.takeWhile isWordPart, rfl, hc, fun d hd => mem_takeWhile_imp hd⟩
      · cases h
    · cases h

namespace Session

variable {session : Session} (h : session.scope.IsPlain)

include h

/-- An error leaves the scope alone and prints no integer. -/
theorem fail_isPlain {written : List String} (hwritten : ArePrinted written) (error : RunError) :
    (session.fail written error).IsPlain := by
  unfold fail
  split
  · exact ⟨h, hwritten⟩
  · exact ⟨h, hwritten⟩

/-- A line that is evaluated keeps the scope plain and prints plain values. -/
theorem evaluate_isPlain (line : String) : (session.evaluate line).IsPlain := by
  obtain ⟨htree, hvalue⟩ := execute_isPlain h.values line session.showTree
  simp only [evaluate]
  split
  · next value hresult =>
    exact ⟨h, htree.append (arePrinted_result (hvalue value hresult))⟩
  · exact fail_isPlain h htree _

/-- A definition binds a plain value under a plain word. -/
theorem define_isPlain (argument : List Char) : (session.define argument).IsPlain := by
  unfold define
  split
  · exact ⟨h, arePrinted_nil⟩
  · next definition hdefinition =>
    have hname : TokenKind.ident.Spells (String.ofList definition.name).toList := by
      rw [String.toList_ofList]
      exact Definition.spells_name hdefinition
    simp only
    split
    · next value hrun =>
      have hvalue := isPlain_of_run h.values hrun
      exact ⟨h.bind hname hvalue, arePrinted_binding hname hvalue⟩
    · exact fail_isPlain h arePrinted_nil _

theorem listBindings_isPlain : session.listBindings.IsPlain := by
  have hall : ∀ pair ∈ session.scope.visible,
      TokenKind.ident.Spells pair.1.toList ∧ pair.2.IsPlain := by
    intro pair hpair
    have hmem := Scope.mem_of_mem_visible hpair
    obtain ⟨name, hname, hspells⟩ := h.names _ hmem
    cases hname
    exact ⟨hspells, h.values _ hmem⟩
  cases hvisible : session.scope.visible with
  | nil =>
    simp only [listBindings, hvisible]
    exact ⟨h, arePrinted_notice (by decide)⟩
  | cons pair rest =>
    simp only [listBindings, hvisible]
    rw [hvisible] at hall
    exact ⟨h, arePrinted_bindings hall⟩

theorem setTrace_isPlain (argument : List Char) : (session.setTrace argument).IsPlain := by
  unfold setTrace
  split
  · next traces _ => exact ⟨h, arePrinted_notice (by cases traces <;> decide)⟩
  · exact ⟨h, arePrinted_nil⟩

/-- A command keeps scope and output plain; each one has its own lemma. -/
theorem carryOut_isPlain (command : Command) : (session.carryOut command).IsPlain := by
  cases command with
  | clear => exact ⟨h, arePrinted_notice (by decide)⟩
  | define argument => exact define_isPlain h argument
  | listBindings => exact listBindings_isPlain h
  | trace argument => exact setTrace_isPlain h argument
  | reset => exact ⟨Scope.isPlain_empty, arePrinted_notice (by decide)⟩
  | toggleTree =>
    refine ⟨h, arePrinted_notice ?_⟩
    cases session.showTree <;> decide
  | unknown name => exact ⟨h, arePrinted_nil⟩

end Session

namespace PromptLoop

/-- The step: whatever is entered, scope and output stay plain. -/
theorem enter_isPlain {session : Session} (h : session.scope.IsPlain) (entry : Entry) :
    (enter session entry).IsPlain := by
  cases entry with
  | interrupt => exact ⟨h, arePrinted_notice (by decide)⟩
  | line text =>
    simp only [enter, Session.enter]
    split
    · exact ⟨h, arePrinted_nil⟩
    · split
      · exact Session.carryOut_isPlain h _
      · exact Session.evaluate_isPlain h _

/-! ## Whole sessions -/

structure Run.IsPlain (run : Run) : Prop where
  scope : run.session.scope.IsPlain
  beforePrompts : ∀ transcript ∈ run.beforePrompts, ArePrinted transcript.out
  last : ArePrinted run.last.out

/-- The run: by induction on the entries, from any plain session. -/
theorem loop_isPlain {session : Session} (h : session.scope.IsPlain) {written : Transcript}
    (hwritten : ArePrinted written.out) (entries : List Entry) :
    (loop session written entries).IsPlain := by
  -- Each line leaves a plain scope for the next, and its answer stands before the next prompt.
  induction entries generalizing session written with
  | nil =>
    have hprompts : ∀ t ∈ [written], ArePrinted t.out := List.forall_mem_singleton.2 hwritten
    exact ⟨h, hprompts, arePrinted_notice (by decide)⟩
  | cons entry entries ih =>
    have hentered := enter_isPlain h entry
    cases huncaught : (enter session entry).uncaught with
    | none =>
      have hrest := ih hentered.scope hentered.out
      rw [loop_cons_of_caught huncaught]
      exact ⟨hrest.scope, List.forall_mem_cons.2 ⟨hwritten, hrest.beforePrompts⟩, hrest.last⟩
    | some error =>
      rw [loop_cons_of_uncaught huncaught]
      exact ⟨hentered.scope, List.forall_mem_singleton.2 hwritten, hentered.out⟩

theorem arePrinted_foldl {transcripts : List Transcript}
    (h : ∀ transcript ∈ transcripts, ArePrinted transcript.out) {start : Transcript}
    (hstart : ArePrinted start.out) : ArePrinted (transcripts.foldl (· ++ ·) start).out := by
  induction transcripts generalizing start with
  | nil => exact hstart
  | cons transcript transcripts ih =>
    obtain ⟨hfirst, hrest⟩ := List.forall_mem_cons.1 h
    exact ih hrest (hstart.append hfirst)

theorem Run.IsPlain.transcript {run : Run} (h : run.IsPlain) : ArePrinted run.transcript.out :=
  (arePrinted_foldl h.beforePrompts arePrinted_nil).append h.last

theorem run_isPlain (traces : Bool) (entries : List Entry) : (run traces entries).IsPlain :=
  loop_isPlain Scope.isPlain_empty (arePrinted_notice (by decide)) entries

end PromptLoop

/-! ## The command line -/

namespace CommandLine

/-- Under plain definitions the command line prints plain values only. -/
theorem runSource_isPlain (settings : Settings) {options : Options} (h : options.IsPlain)
    (text : String) : ArePrinted (runSource settings options text).transcript.out := by
  obtain ⟨htree, hvalue⟩ :=
    execute_isPlain (Scope.hasPlainValues_ofBindings h) text options.showTree
  simp only [runSource]
  split
  · next value hresult => exact htree.append (arePrinted_result (hvalue value hresult))
  · split
    · exact htree
    · exact htree

theorem run_isPlain (surroundings : Surroundings) (arguments : List String) :
    ArePrinted (run surroundings arguments).transcript.out := by
  unfold run
  split
  · exact arePrinted_nil
  · next options hoptions =>
    split
    · exact arePrinted_nil
    · exact runSource_isPlain _ (Options.isPlain_of_ofArguments hoptions) _

end CommandLine

/-! ## Main statement -/

/-- Integers stay within the limit of conversion, which is a limit on their digits. A run in a scope
whose integers are within it has no other integer for its value; the integers of a tree that was
read are natural numbers within it; whatever is entered in a session or given on the command line,
the integers that are bound and those that are written are within it; and an arithmetic operation
gives integers below `2^1024` only. -/
theorem integers_stay_convertible :
    (∀ n, IsConvertible n ↔ (Nat.toDigits 10 n.natAbs).length ≤ Source.maxIntegerDigits) ∧
      (∀ source scope log n,
        (∀ name m, scope.find? name = some (.integer m) → IsConvertible m) →
          (run source scope [] log).1 = .ok (.integer n) → IsConvertible n) ∧
      (∀ source tree, Source.read source = .ok tree → tree.Everywhere Tree.IsConvertibleNode) ∧
      (∀ traces entries,
        (∀ binding ∈ (PromptLoop.run traces entries).session.scope.bindings,
          binding.value.IsConvertible) ∧
          ArePrinted (PromptLoop.run traces entries).transcript.out) ∧
      (∀ surroundings arguments,
        (∀ options, Options.ofArguments arguments = .ok options →
          ∀ binding ∈ (Scope.ofBindings options.defines).bindings,
            binding.value.IsConvertible) ∧
          ArePrinted (CommandLine.run surroundings arguments).transcript.out) ∧
      ∀ (operation : Arithmetic) lhs rhs line log n after,
        (Operator.known operation.kind).apply lhs rhs line log = (.ok (.integer n), after) →
          n.natAbs < twoPow 1024 := by
  refine ⟨fun n => isConvertible_iff, ?_, ?_, ?_, ?_, ?_⟩
  · intro source scope log n hscope h
    exact isConvertible_of_run hscope h
  · intro source tree h
    exact Source.everywhere_convertible h
  · intro traces entries
    have hrun := PromptLoop.run_isPlain traces entries
    exact ⟨fun binding hbinding => (hrun.scope.values binding hbinding).2, hrun.transcript⟩
  · intro surroundings arguments
    refine ⟨?_, CommandLine.run_isPlain surroundings arguments⟩
    intro options hoptions binding hbinding
    have hvalues := Scope.hasPlainValues_ofBindings (Options.isPlain_of_ofArguments hoptions)
    exact (hvalues binding hbinding).2
  · intro operation lhs rhs line log n after h
    rw [Arithmetic.apply_known] at h
    exact Arithmetic.natAbs_lt_of_apply h

end LetLang
