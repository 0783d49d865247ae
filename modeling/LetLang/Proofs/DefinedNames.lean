import LetLang.CommandLine.Options
import LetLang.Proofs.LiteralTexts

/-!
# Names that the command line defines

A definition on the command line takes any identifier for a name. The program that consists of the
name alone has the defined value, as far as the name is a plain word of the language: three words
are read as something else where an expression starts.
-/

namespace LetLang

open Grammar

/-! ## Names -/

/-- A definition is accepted for identifiers only. -/
theorem Options.isIdentifier_of_define? {spec name : String} {value : Value}
    (h : define? spec = .ok (name, value)) : isIdentifier name.toList = true := by
  simp only [define?] at h
  split at h
  · cases h
  · split at h
    next hname =>
      split at h
      · cases h
        simpa using hname
      · cases h
    · cases h

/-- An identifier of ASCII characters is a plain word. -/
theorem spells_of_isIdentifier {name : List Char} (h : isIdentifier name = true)
    (hascii : ∀ c ∈ name, c.toNat < 0x80) : TokenKind.ident.Spells name := by
  cases name with
  | nil => cases h
  | cons c cs =>
    obtain ⟨hc, hcs⟩ := List.forall_mem_cons.1 hascii
    simp only [isIdentifier, Bool.and_eq_true, List.all_eq_true] at h
    refine ⟨c, cs, rfl, ?_, fun d hd => ?_⟩
    · simpa [isIdentifierStart, hc] using h.1
    · simpa [isIdentifierPart, hcs d hd] using h.2 d hd

/-! ## Programs of one word -/

theorem Source.read_boolWord (b : Bool) :
    Source.read (Tree.boolWord b) = .ok (.bool b (some 1)) := by
  cases b <;> decide +kernel

theorem run_of_read {source : String} {tree : Tree} {scope : Scope} {value : Value}
    (hread : Source.read source = .ok tree) (h : tree.Evaluates scope value) (log : Log) :
    run source scope [] log = (.ok value, log) := by
  rw [run, hread]
  exact runTree_of_evaluates h log

/-- A plain word that is no keyword is run as the name that it is. -/
theorem run_name {name : String} (hword : TokenKind.ident.Spells name.toList)
    (hplain : name ∉ ["let", "true", "false"]) {scope : Scope} {value : Value}
    (hvalue : scope.find? name = some value) (log : Log) :
    run name scope [] log = (.ok value, log) := by
  have htakes : Context.Takes .expression ⟨.ident, name.toList⟩ :=
    Context.takes (by decide) hword fun _ _ hkeyword haccepts =>
      Context.IsOperand.plain (.inl rfl) hplain hkeyword haccepts
  have htoken : Token.name ⟨.ident, .text (String.ofList name.toList), 1, 1⟩ = name :=
    String.ofList_toList
  have hread := Source.read_of_leaf (List.forall_mem_nil _) htakes (.ident rfl) nofun
  rw [List.nil_append, String.ofList_toList] at hread
  exact run_of_read hread (.ident (by rw [← hvalue]; exact congrArg scope.find? htoken)) log

theorem run_boolWord (b : Bool) (scope : Scope) (log : Log) :
    run (Tree.boolWord b) scope [] log = (.ok (.boolean b), log) :=
  run_of_read (Source.read_boolWord b) (.bool b _ scope) log

/-- The word is the start of an expression that never comes. -/
theorem run_letWord (scope : Scope) (log : Log) :
    run "let" scope [] log = (.error (.source (.rejected (.incomplete ⟨1, 1⟩))), log) := by
  have hread : Source.read "let" = .error (.rejected (.incomplete ⟨1, 1⟩)) := by decide +kernel
  rw [run, hread]

/-! ## Defined names -/

/-- A name of ASCII characters that a definition takes has the defined value as a program, unless it
is one of three words: these are read as what they are, whatever is defined. -/
theorem defined_names_are_usable {spec name : String} {value : Value}
    (hdefine : Options.define? spec = .ok (name, value))
    (hascii : ∀ c ∈ name.toList, c.toNat < 0x80) (log : Log) :
    let outcome := run name (.ofBindings [(name, value)]) [] log
    (name ∉ ["let", "true", "false"] → outcome = (.ok value, log)) ∧
      (name = "true" → outcome = (.ok (.boolean true), log)) ∧
      (name = "false" → outcome = (.ok (.boolean false), log)) ∧
      (name = "let" → outcome = (.error (.source (.rejected (.incomplete ⟨1, 1⟩))), log)) := by
  have hword := spells_of_isIdentifier (Options.isIdentifier_of_define? hdefine) hascii
  refine ⟨fun hplain => ?_, ?_, ?_, ?_⟩
  · exact run_name hword hplain (Scope.find?_bind_self .empty name value) log
  · rintro rfl
    exact run_boolWord true _ log
  · rintro rfl
    exact run_boolWord false _ log
  · rintro rfl
    exact run_letWord _ log

/-- A word that ends the value of a binding elsewhere is a name like any other on its own. -/
theorem defined_names_are_usable_in :
    run "in" (.ofBindings [("in", .integer 7)]) [] .empty = (.ok (.integer 7), .empty) := by
  have hdefine : Options.define? "in=7" = .ok ("in", .integer 7) := by rfl
  have hascii : ∀ c ∈ "in".toList, c.toNat < 0x80 := by simp
  exact (defined_names_are_usable hdefine hascii .empty).1 (by decide)

/-- A definition may take a word that is no name, and a name that is no word. -/
theorem defined_names_not_all_usable :
    (¬ ∀ (spec name : String) (value : Value), Options.define? spec = .ok (name, value) →
      (run name (.ofBindings [(name, value)]) [] .empty).1 = .ok value) ∧
    ¬ ∀ (spec name : String) (value : Value), Options.define? spec = .ok (name, value) →
      name ∉ ["let", "true", "false"] →
      (run name (.ofBindings [(name, value)]) [] .empty).1 = .ok value := by
  refine ⟨fun h => ?_, fun h => ?_⟩
  · have hdefine : Options.define? "let=1" = .ok ("let", .integer 1) := by rfl
    have hvalue := h _ _ _ hdefine
    rw [run_letWord] at hvalue
    cases hvalue
  · have hdefine : Options.define? "日本=1" = .ok ("日本", .integer 1) := by decide +kernel
    have hread : Source.read "日本" = .error (.rejected (.stray '日' ⟨1, 1⟩)) := by decide +kernel
    have hvalue := h _ _ _ hdefine (by decide)
    rw [run, hread] at hvalue
    cases hvalue

end LetLang
