import LetLang.Proofs.Evaluation
import LetLang.Proofs.Source.Parsing

/-!
# Trees that are read from source

A text is rejected, has an integer literal that is too long, or has a tree. The nodes of the tree
are supported, and stand on lines of the text.
-/

namespace LetLang

open Grammar

/-! ## Lines -/

theorem Position.line_after (position : Position) (text : List Char) :
    (position.after text).line = position.line + text.count '\n' := by
  induction text generalizing position with
  | nil => simp
  | cons c text ih =>
    rw [after_cons, ih]
    by_cases hc : c = '\n'
    · subst hc
      have hnext : (position.next '\n').line = position.line + 1 := rfl
      rw [hnext, List.count_cons_self]
      omega
    · simp [next, hc]

/-- Every lexeme stands on a line between the first and the last one of the text. -/
theorem Tokenizes.line_le {context : Context} {position : Position} {cs : List Char}
    {lexemes : List Lexeme} (h : Tokenizes context position cs lexemes) :
    ∀ lexeme ∈ lexemes, position.line ≤ lexeme.position.line ∧
      lexeme.position.line ≤ position.line + cs.count '\n' := by
  induction h with
  | done _ => simp
  | @lexeme context position gap text rest kind lexemes _ _ _ ih =>
    intro lexeme hlexeme
    have hgap := position.line_after gap
    -- The lexeme starts behind the gap; all later ones start behind its text.
    rcases List.mem_cons.1 hlexeme with rfl | hlater
    · simp only [hgap, List.count_append]
      omega
    · have hrest := ih lexeme hlater
      have htext := (position.after gap).line_after text
      simp only [List.count_append]
      omega

namespace Source

/-- The tokenization of the text has a derivation. -/
def Accepts (source : String) : Prop :=
  ∃ d : Derivation .expression, Tokenized source d.yield

/-- A line of the text, counted from one. -/
def OnLine (source : String) (line : Option Int) : Prop :=
  ∃ number : Int, line = some number ∧ 1 ≤ number ∧ number ≤ 1 + source.toList.count '\n'

/-- Lexemes stand on lines of the text. -/
theorem Tokenized.onLine {source : String} {lexemes : List Lexeme}
    (h : Tokenized source lexemes) {lexeme : Lexeme} (hlexeme : lexeme ∈ lexemes) :
    OnLine source (some lexeme.line) := by
  have hbounds := Tokenizes.line_le h lexeme hlexeme
  have hstart : Position.start.line = 1 := rfl
  refine ⟨lexeme.line, rfl, ?_, ?_⟩
  · simp only [Lexeme.line]
    omega
  · simp only [Lexeme.line]
    omega

end Source

/-! ## Nodes -/

theorem Tree.Everywhere.imp {property property' : Tree → Prop}
    (himp : ∀ node, property node → property' node) {t : Tree} (h : t.Everywhere property) :
    t.Everywhere property' := by
  induction t with
  | binop left operator right line ihleft ihright =>
    exact ⟨himp _ h.1, ihleft h.2.1, ihright h.2.2⟩
  | letIn name value body line ihvalue ihbody =>
    exact ⟨himp _ h.1, ihvalue h.2.1, ihbody h.2.2⟩
  | int _ _ | double _ _ | bool _ _ | ident _ _ | hole => exact himp _ h

/-- The operators of the grammar are the supported ones. -/
theorem Grammar.Level.isSupported {level : Level} {kind : TokenKind} (h : kind ∈ level.operators) :
    (Operator.known kind).IsSupported := by
  refine ⟨kind, ?_, rfl⟩
  cases level <;> revert kind <;> decide

namespace Grammar

def IsRootedIn (lexemes : List Lexeme) (node : Tree) : Prop :=
  node.IsSupportedNode ∧ ∃ lexeme ∈ lexemes, node.line = some lexeme.line

theorem Leaf.everywhere {lexeme : Lexeme} {tree : Tree} (h : Leaf lexeme tree)
    {lexemes : List Lexeme} (hlexeme : lexeme ∈ lexemes) :
    tree.Everywhere (IsRootedIn lexemes) := by
  cases h with
  | int _ | double _ | true _ | false _ | ident _ => exact ⟨trivial, lexeme, hlexeme, rfl⟩

/-- By induction on the derivation: nodes take their lines from lexemes. -/
theorem Derivation.tree_everywhere {n : Nonterminal} (d : Derivation n) {lexemes : List Lexeme}
    (h : d.yield ⊆ lexemes) : d.tree.Everywhere (IsRootedIn lexemes) := by
  induction d with
  | letIn letWord name equals value inWord body ihvalue ihbody =>
    have hname : name.lexeme ∈ lexemes := h (by simp [yield])
    have hvalue : value.yield ⊆ lexemes := fun l hl => h (by simp [yield, hl])
    have hbody : body.yield ⊆ lexemes := fun l hl => h (by simp [yield, hl])
    exact ⟨⟨rfl, name.lexeme, hname, rfl⟩, ihvalue hvalue, ihbody hbody⟩
  | operations inner ih | operand level inner ih => exact ih h
  | operation level left operator right ihleft ihright =>
    have hoperator : operator.lexeme ∈ lexemes := h (by simp [yield])
    have hleft : left.yield ⊆ lexemes := fun l hl => h (by simp [yield, hl])
    have hright : right.yield ⊆ lexemes := fun l hl => h (by simp [yield, hl])
    have hroot : IsRootedIn lexemes (operation level left operator right).tree :=
      ⟨Level.isSupported operator.kind_mem, operator.lexeme, hoperator, rfl⟩
    exact ⟨hroot, ihleft hleft, ihright hright⟩
  | leaf lexeme tree isLeaf => exact isLeaf.everywhere (h (by simp [yield]))
  | parenthesis lpar inner rpar ih => exact ih fun l hl => h (by simp [yield, hl])

end Grammar

/-! ## Texts that are read -/

namespace Source

variable {source : String} {tree : Tree}

/-- A node that the text can bring into a tree. -/
def IsNode (source : String) (node : Tree) : Prop :=
  node.IsSupportedNode ∧ OnLine source node.line

/-- Every node of a tree that was parsed is one that the text can bring. -/
theorem everywhere_of_parse (h : parse source = .ok tree) : tree.Everywhere (IsNode source) := by
  rcases parse_eq_ok_iff.1 h with ⟨d, htokens, rfl⟩
  have hrooted := d.tree_everywhere fun lexeme hlexeme => hlexeme
  refine hrooted.imp ?_
  rintro node ⟨hsupported, lexeme, hlexeme, hline⟩
  exact ⟨hsupported, hline ▸ htokens.onLine hlexeme⟩

/-- A text is accepted exactly if it has a tree. -/
theorem accepts_iff : Accepts source ↔ ∃ tree, parse source = .ok tree := by
  constructor
  · rintro ⟨d, htokens⟩
    exact ⟨d.tree, parse_eq_ok_iff.2 ⟨d, htokens, rfl⟩⟩
  · rintro ⟨tree, h⟩
    rcases parse_eq_ok_iff.1 h with ⟨d, htokens, -⟩
    exact ⟨d, htokens⟩

/-- What is not accepted is rejected. -/
theorem read_of_not_accepts (h : ¬ Accepts source) :
    ∃ rejection, read source = .error (.rejected rejection) := by
  cases hparse : parse source with
  | error rejection => exact ⟨rejection, by simp [read, hparse]⟩
  | ok tree => exact absurd (accepts_iff.2 ⟨tree, hparse⟩) h

/-- The text is accepted, and one of its integer literals has more digits than are converted. -/
def IsOversized (source : String) : Prop :=
  ∃ d : Derivation .expression, Tokenized source d.yield ∧
    ∃ lexeme ∈ d.yield, lexeme.kind = .int ∧ maxIntegerDigits < lexeme.text.length

theorem oversized?_isSome_iff {lexemes : List Lexeme} :
    (oversized? lexemes).isSome = true ↔
      ∃ lexeme ∈ lexemes, lexeme.kind = .int ∧ maxIntegerDigits < lexeme.text.length := by
  simp [oversized?]

theorem oversized?_eq_none_iff {lexemes : List Lexeme} :
    oversized? lexemes = none ↔
      ∀ lexeme ∈ lexemes, lexeme.kind = .int → lexeme.text.length ≤ maxIntegerDigits := by
  simp [oversized?]

/-- What reading comes to, apart from what is wrong with a text that is not accepted. -/
theorem read_of_tokenized {d : Derivation .expression} (h : Tokenized source d.yield) :
    read source = (oversized? d.yield).elim (.ok d.tree) fun lexeme =>
      .error (.oversized lexeme.text.length) := by
  have hparse : parse source = .ok d.tree := parse_eq_ok_iff.2 ⟨d, h, rfl⟩
  have hstream : Stream.ofSource source = ⟨d.yield, .complete⟩ := h.ofChars_eq
  cases hfind : oversized? d.yield with
  | some lexeme => simp [read, hparse, hstream, hfind]
  | none => simp [read, hparse, hstream, hfind]

/-- What is accepted and too long is reported for its length. -/
theorem read_of_isOversized (h : IsOversized source) :
    ∃ digits, read source = .error (.oversized digits) := by
  rcases h with ⟨d, htokens, hlong⟩
  have hsome := oversized?_isSome_iff.2 hlong
  rcases Option.isSome_iff_exists.1 hsome with ⟨lexeme, hlexeme⟩
  refine ⟨lexeme.text.length, ?_⟩
  rw [read_of_tokenized htokens, hlexeme]
  rfl

/-- What is accepted and not too long has a tree. -/
theorem read_of_accepts (h : Accepts source) (hshort : ¬ IsOversized source) :
    ∃ tree, read source = .ok tree ∧ tree.Everywhere (IsNode source) := by
  rcases h with ⟨d, htokens⟩
  have hnone : oversized? d.yield = none := by
    cases hfind : oversized? d.yield with
    | none => rfl
    | some lexeme =>
      have hlong := oversized?_isSome_iff.1 (Option.isSome_of_eq_some hfind)
      exact absurd ⟨d, htokens, hlong⟩ hshort
  refine ⟨d.tree, ?_, everywhere_of_parse (parse_eq_ok_iff.2 ⟨d, htokens, rfl⟩)⟩
  rw [read_of_tokenized htokens, hnone]
  rfl

/-- The three ways in which reading ends. -/
theorem read_cases (source : String) :
    (¬ Accepts source ∧ ∃ rejection, read source = .error (.rejected rejection)) ∨
      (IsOversized source ∧ ∃ digits, read source = .error (.oversized digits)) ∨
      (Accepts source ∧ ¬ IsOversized source ∧
        ∃ tree, read source = .ok tree ∧ tree.Everywhere (IsNode source)) := by
  by_cases haccepts : Accepts source
  · by_cases hlong : IsOversized source
    · exact .inr (.inl ⟨hlong, read_of_isOversized hlong⟩)
    · exact .inr (.inr ⟨haccepts, hlong, read_of_accepts haccepts hlong⟩)
  · exact .inl ⟨haccepts, read_of_not_accepts haccepts⟩

end Source

end LetLang
