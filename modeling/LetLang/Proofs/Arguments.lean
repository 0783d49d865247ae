import LetLang.CommandLine.Options
import LetLang.Proofs.History
import LetLang.Proofs.LiteralTexts

/-!
# Arguments of the command line

How arguments are written, and what the ones that define literals and name a source text make of
the options: `Options.ofArguments_written`. A text that is a flag cannot be a source text.
-/

namespace LetLang

/-! ## Definitions that replace one another -/

namespace Bindings

variable {bindings : Bindings} {name other : String} {value v : Value}

theorem mem_keys_put :
    other ∈ (bindings.put name value).map (·.1) ↔ other = name ∨ other ∈ bindings.map (·.1) := by
  induction bindings with
  | nil => simp [put]
  | cons pair rest ih =>
    obtain ⟨n, w⟩ := pair
    by_cases hn : n = name
    · simp [put, hn]
    · simp only [put, if_neg hn, List.map_cons, List.mem_cons, ih]
      exact or_left_comm

theorem nodup_put (h : (bindings.map (·.1)).Nodup) :
    ((bindings.put name value).map (·.1)).Nodup := by
  induction bindings with
  | nil => simp [put]
  | cons pair rest ih =>
    obtain ⟨n, w⟩ := pair
    rw [List.map_cons, List.nodup_cons] at h
    by_cases hn : n = name
    · rw [put, if_pos hn, List.map_cons, List.nodup_cons]
      exact h
    · rw [put, if_neg hn, List.map_cons, List.nodup_cons, mem_keys_put]
      exact ⟨fun hmem => hmem.elim hn h.1, ih h.2⟩

/-- Setting a name changes that name and nothing else. -/
theorem mem_put_iff (h : (bindings.map (·.1)).Nodup) :
    (other, v) ∈ bindings.put name value ↔
      if other = name then v = value else (other, v) ∈ bindings := by
  induction bindings with
  | nil => by_cases hother : other = name <;> simp [put, hother]
  | cons pair rest ih =>
    obtain ⟨n, w⟩ := pair
    rw [List.map_cons, List.nodup_cons] at h
    -- A name that the first entry has stands nowhere else.
    have hfresh {u : Value} (hmem : (n, u) ∈ rest) : False :=
      h.1 (List.mem_map.2 ⟨(n, u), hmem, rfl⟩)
    by_cases hn : n = name
    · subst hn
      by_cases hother : other = n
      · subst hother
        simp only [put, if_true, List.mem_cons, Prod.mk.injEq, true_and]
        exact ⟨fun hmem => hmem.elim id fun hrest => (hfresh hrest).elim, .inl⟩
      · simp [put, hother]
    · by_cases hother : other = name
      · subst hother
        have hne : other ≠ n := fun heq => hn heq.symm
        simpa [put, hn, hne] using ih h.2
      · simpa [put, hn, hother] using or_congr_right (ih h.2)

end Bindings

namespace Scope

/-- Where no name stands twice, every named value is found. -/
theorem find?_ofBindings_of_nodup {bindings : Bindings} (h : (bindings.map (·.1)).Nodup)
    {name : String} {value : Value} :
    (ofBindings bindings).find? name = some value ↔ (name, value) ∈ bindings := by
  have hreverse : (bindings.reverse.map (·.1)).Nodup := by
    rw [List.map_reverse]
    exact List.pairwise_reverse.2 (h.imp Ne.symm)
  rw [ofBindings_eq_ofHistory, find?_ofHistory_of_nodup hreverse, List.mem_reverse]

/-- A name that is set in its place is found like one that is bound anew. -/
theorem find?_ofBindings_put {bindings : Bindings} (h : (bindings.map (·.1)).Nodup)
    (name other : String) (value : Value) :
    (ofBindings (bindings.put name value)).find? other =
      ((ofBindings bindings).bind name value).find? other := by
  apply Option.ext
  intro v
  rw [find?_ofBindings_of_nodup (Bindings.nodup_put h), Bindings.mem_put_iff h, find?_bind]
  split
  · rw [Option.some.injEq, eq_comm]
  · rw [find?_ofBindings_of_nodup h]

/-- By induction on the definitions, from any bindings that a chain agrees with. -/
theorem find?_ofBindings_foldl {bindings : Bindings} (h : (bindings.map (·.1)).Nodup)
    {scope : Scope} (hscope : ∀ name, (ofBindings bindings).find? name = scope.find? name)
    (pairs : Bindings) (name : String) :
    (ofBindings (pairs.foldl (fun bindings pair => bindings.put pair.1 pair.2) bindings)).find?
      name = (scope.bindAll pairs).find? name := by
  -- No name stands twice, and both find the same values: one more definition keeps this.
  induction pairs generalizing bindings scope with
  | nil => exact hscope name
  | cons pair pairs ih =>
    refine ih (Bindings.nodup_put h) ?_
    intro other
    rw [find?_ofBindings_put h]
    exact find?_bind_congr _ fun _ => hscope other

/-- Definitions that replace one another bind like a chain that grows. -/
theorem find?_ofBindings_ofList (pairs : Bindings) (name : String) :
    (ofBindings (.ofList pairs)).find? name = (ofBindings pairs).find? name := by
  have hnone : (([] : Bindings).map (·.1)).Nodup := List.nodup_nil
  exact find?_ofBindings_foldl hnone (fun _ => rfl) pairs name

end Scope

/-! ## Names -/

theorem TokenKind.isWordPart_of_ident {text : List Char} (h : TokenKind.ident.Spells text) :
    ∀ c ∈ text, isWordPart c = true := by
  obtain ⟨c, cs, rfl, hc, hcs⟩ := h
  exact List.forall_mem_cons.2 ⟨isWordPart_of_isWordStart hc, hcs⟩

theorem isIdentifierPart_of_isWordPart {c : Char} (h : isWordPart c = true) :
    isIdentifierPart c = true := by
  have hascii : c.toNat < 0x80 := by
    have hbounds := isWordPart_bounds h
    omega
  rw [isIdentifierPart, if_pos hascii]
  exact h

theorem trim_of_ident {name : List Char} (h : TokenKind.ident.Spells name) : trim name = name := by
  have hne : name ≠ [] := by
    obtain ⟨c, cs, rfl, -⟩ := h
    exact List.cons_ne_nil c cs
  have htrim : trim ([] ++ (name ++ [])) = name :=
    Literal.trim_eq_of_blanks (by simp) (by simp) hne (TokenKind.isBlank_of_ident h)
  rwa [List.nil_append, List.append_nil] at htrim

def LiteralDefinition.spec (definition : LiteralDefinition) : String :=
  definition.name ++ "=" ++ definition.text

/-! ## Arguments -/

namespace Options

def IsFlag (text : String) : Prop :=
  text = "--tree" ∨ text = "--verbose" ∨ text = "--define" ∨ (specOf? text).isSome = true

instance (text : String) : Decidable (IsFlag text) :=
  inferInstanceAs (Decidable (_ ∨ _ ∨ _ ∨ _))

def Argument.written : Argument → List String
  | .tree => ["--tree"]
  | .verbose => ["--verbose"]
  | .define spec => ["--define", spec]
  | .source text => [text]

/-- A source text that is a flag would be taken for it. -/
def Argument.IsLegible : Argument → Prop
  | .source text => ¬ IsFlag text
  | _ => True

/-- A legible argument is taken into account before what follows it. -/
theorem addAll_written {argument : Argument} (h : argument.IsLegible) (options : Options)
    (rest : List String) :
    options.addAll (argument.written ++ rest) =
      (options.add argument).bind fun options => options.addAll rest := by
  cases argument with
  | tree | verbose | define spec =>
    simp only [Argument.written, List.cons_append, List.nil_append, addAll]
  | source text =>
    have hspec : specOf? text = none := by
      cases hspec : specOf? text with
      | none => rfl
      | some spec => exact absurd (.inr (.inr (.inr (by rw [hspec]; rfl)))) h
    have htree : text ≠ "--tree" := fun heq => h (.inl heq)
    have hverbose : text ≠ "--verbose" := fun heq => h (.inr (.inl heq))
    have hdefine : text ≠ "--define" := fun heq => h (.inr (.inr (.inl heq)))
    simp [Argument.written, addAll, hspec, hdefine]

/-- Legible arguments are taken into account one after the other. -/
theorem addAll_flatMap_written {arguments : List Argument}
    (h : ∀ argument ∈ arguments, argument.IsLegible) (options : Options) :
    options.addAll (arguments.flatMap Argument.written) = arguments.foldlM add options := by
  induction arguments generalizing options with
  | nil => rfl
  | cons argument arguments ih =>
    obtain ⟨hargument, harguments⟩ := List.forall_mem_cons.1 h
    rw [List.flatMap_cons, addAll_written hargument, List.foldlM_cons]
    exact congrArg _ (funext fun options => ih harguments options)

/-! ## The flag for trees -/

def withTree (options : Options) (flag : Bool) : Options :=
  { options with showTree := options.showTree || flag }

theorem withTree_false (options : Options) : options.withTree false = options := by
  simp [withTree]

theorem withTree_withTree (options : Options) (flag flag' : Bool) :
    (options.withTree flag).withTree flag' = options.withTree (flag || flag') := by
  simp [withTree, Bool.or_assoc]

/-- The flag for trees can be set before or after any other argument. -/
theorem add_withTree (options : Options) (flag : Bool) (argument : Argument) :
    (options.withTree flag).add argument = (options.add argument).map (·.withTree flag) := by
  cases argument with
  | tree => simp [add, withTree, Except.map]
  | verbose => rfl
  | define spec =>
    simp only [add, addDefine]
    cases define? spec with
    | error misuse => rfl
    | ok pair => rfl
  | source text =>
    simp only [add, addSource, withTree]
    cases options.source with
    | none => rfl
    | some earlier => rfl

theorem foldlM_withTree (arguments : List Argument) (options : Options) (flag : Bool) :
    arguments.foldlM add (options.withTree flag) =
      (arguments.foldlM add options).map (·.withTree flag) := by
  induction arguments generalizing options with
  | nil => rfl
  | cons argument arguments ih =>
    rw [List.foldlM_cons, List.foldlM_cons, add_withTree]
    cases options.add argument with
    | error misuse => rfl
    | ok options' => exact ih options'

/-- The flag may stand anywhere, and more than once. -/
theorem foldlM_add_eq (arguments : List Argument) (options : Options) :
    arguments.foldlM add options =
      ((arguments.filter (· ≠ .tree)).foldlM add options).map
        (·.withTree (decide (.tree ∈ arguments))) := by
  induction arguments generalizing options with
  | nil => simp [Except.map, withTree_false, pure, Except.pure]
  | cons argument arguments ih =>
    rw [List.foldlM_cons]
    by_cases hargument : argument = .tree
    · subst hargument
      have hflag : options.add .tree = .ok (options.withTree true) := by simp [add, withTree]
      have hmem : decide (Argument.tree ∈ Argument.tree :: arguments) = true :=
        decide_eq_true List.mem_cons_self
      rw [hflag, List.filter_cons_of_neg (by simp), hmem]
      -- The flag is taken first; what is left comes to the same without it, apart from the flag.
      refine (ih (options.withTree true)).trans ?_
      rw [foldlM_withTree]
      cases (arguments.filter (· ≠ .tree)).foldlM add options with
      | error misuse => rfl
      | ok options' => simp [Except.map, withTree_withTree]
    · have hmem : decide (Argument.tree ∈ argument :: arguments) =
          decide (Argument.tree ∈ arguments) := by
        simp [Ne.symm hargument]
      rw [List.filter_cons_of_pos (by simpa using hargument), List.foldlM_cons, hmem]
      cases options.add argument with
      | error misuse => rfl
      | ok options' => exact ih options'

/-! ## Definitions of literals -/

/-- The text of a definition is read as its name and its value. -/
theorem define?_spec (definition : LiteralDefinition) :
    define? definition.spec = .ok definition.binding := by
  have hname := definition.isName
  have hequals : ∀ c ∈ definition.name.toList, (c != '=') = true := by
    intro c hc
    have hpart := TokenKind.isWordPart_of_ident hname c hc
    simp only [bne_iff_ne]
    rintro rfl
    exact absurd hpart (by decide)
  have hstop : StopsAt (· != '=') ('=' :: definition.text.toList) := by
    intro c hc
    cases hc
    decide
  have hspec : definition.spec.toList =
      definition.name.toList ++ '=' :: definition.text.toList := by
    simp [LiteralDefinition.spec]
  have hidentifier : isIdentifier definition.name.toList = true := by
    obtain ⟨c, cs, htext, hc, hcs⟩ := hname
    rw [htext, isIdentifier, isIdentifierStart_of_isWordStart hc, Bool.true_and, List.all_eq_true]
    exact fun d hd => isIdentifierPart_of_isWordPart (hcs d hd)
  simp only [define?, hspec, takeWhile_append_of_stopsAt hequals hstop,
    dropWhile_append_of_stopsAt hequals hstop, trim_of_ident hname, hidentifier, if_true,
    String.ofList_toList, definition.read?_eq]
  rfl

/-- Definitions of literals are all accepted. -/
theorem foldlM_define (definitions : List LiteralDefinition) (options : Options) :
    (definitions.map fun definition => Argument.define definition.spec).foldlM add options =
      .ok { options with
        defines := (definitions.map (·.binding)).foldl
          (fun bindings pair => bindings.put pair.1 pair.2) options.defines } := by
  induction definitions generalizing options with
  | nil => rfl
  | cons definition definitions ih =>
    have hadd : options.add (.define definition.spec) =
        .ok { options with
          defines := options.defines.put definition.name definition.value } := by
      simp only [add, addDefine, define?_spec]
      rfl
    rw [List.map_cons, List.foldlM_cons, hadd]
    exact ih _

/-- The options that definitions of literals and a source text make. -/
theorem ofArguments_written {definitions : List LiteralDefinition} {source : String}
    {arguments : List Argument} (hsource : ¬ IsFlag source)
    (h : arguments.filter (· ≠ .tree) =
      (definitions.map fun definition => Argument.define definition.spec) ++ [.source source]) :
    ofArguments (arguments.flatMap Argument.written) =
      .ok ⟨decide (.tree ∈ arguments), false, .ofList (definitions.map (·.binding)),
        some source⟩ := by
  -- The only source text among the arguments is the given one.
  have hlegible : ∀ argument ∈ arguments, argument.IsLegible := by
    intro argument hmem
    cases argument with
    | tree | verbose | define spec => trivial
    | source text =>
      have hfilter : Argument.source text ∈ arguments.filter (· ≠ .tree) :=
        List.mem_filter.2 ⟨hmem, by simp⟩
      rw [h] at hfilter
      simp only [List.mem_append, List.mem_map, reduceCtorEq, and_false, exists_false,
        List.mem_singleton, Argument.source.injEq, false_or] at hfilter
      exact hfilter ▸ hsource
  rw [ofArguments, addAll_flatMap_written hlegible, foldlM_add_eq, h, List.foldlM_append,
    foldlM_define]
  simp [bind, Except.bind, pure, Except.pure, add, addSource, Except.map, withTree,
    Bindings.ofList]

end Options

end LetLang
