import LetLang.Proofs.Source.Placement
import LetLang.Proofs.Source.Unambiguity

/-!
# Trees up to columns

Columns have no part in what lexemes derive, apart from the columns of the tokens in the tree. So a
text with the same words on the same lines is read as the same tree up to columns.
-/

namespace LetLang

open Grammar

def Token.withoutColumn (token : Token) : Token := { token with column := 0 }

/-- The tree without the columns of its tokens. -/
def Tree.withoutColumns : Tree → Tree
  | .ident token line => .ident token.withoutColumn line
  | .binop left operator right line =>
      .binop left.withoutColumns operator right.withoutColumns line
  | .letIn token value body line =>
      .letIn token.withoutColumn value.withoutColumns body.withoutColumns line
  | tree => tree

def Lexeme.withoutColumn (lexeme : Lexeme) : Lexeme :=
  { lexeme with position := ⟨lexeme.position.line, 0⟩ }

@[simp] theorem Lexeme.word_withoutColumn (lexeme : Lexeme) :
    lexeme.withoutColumn.word = lexeme.word := rfl

namespace Grammar

/-! ## Derivations -/

theorem Leaf.withoutColumn {lexeme : Lexeme} {tree : Tree} (h : Leaf lexeme tree) :
    Leaf lexeme.withoutColumn tree.withoutColumns := by
  cases h with
  | int h => exact @Leaf.int lexeme.withoutColumn h
  | double h => exact @Leaf.double lexeme.withoutColumn h
  | true h => exact @Leaf.true lexeme.withoutColumn h
  | false h => exact @Leaf.false lexeme.withoutColumn h
  | ident h => exact @Leaf.ident lexeme.withoutColumn h

def Terminal.withoutColumn {kinds : List TokenKind} (terminal : Terminal kinds) : Terminal kinds :=
  ⟨terminal.lexeme.withoutColumn, terminal.kind_mem⟩

namespace Derivation

def withoutColumns {n : Nonterminal} : Derivation n → Derivation n
  | .letIn letWord name equals value inWord body =>
      .letIn letWord.withoutColumn name.withoutColumn equals.withoutColumn value.withoutColumns
        inWord.withoutColumn body.withoutColumns
  | .operations inner => .operations inner.withoutColumns
  | .operand level inner => .operand level inner.withoutColumns
  | .operation level left operator right =>
      .operation level left.withoutColumns operator.withoutColumn right.withoutColumns
  | .leaf lexeme tree isLeaf => .leaf lexeme.withoutColumn tree.withoutColumns isLeaf.withoutColumn
  | .parenthesis lpar inner rpar =>
      .parenthesis lpar.withoutColumn inner.withoutColumns rpar.withoutColumn

variable {n : Nonterminal}

/-- The derivation keeps its lexemes, apart from columns. -/
theorem yield_withoutColumns (d : Derivation n) :
    d.withoutColumns.yield = d.yield.map Lexeme.withoutColumn := by
  induction d with
  | letIn letWord name equals value inWord body ihvalue ihbody =>
    simp [withoutColumns, yield, ihvalue, ihbody, Terminal.withoutColumn]
  | operations inner ih | operand level inner ih => exact ih
  | operation level left operator right ihleft ihright =>
    simp [withoutColumns, yield, ihleft, ihright, Terminal.withoutColumn]
  | leaf lexeme tree isLeaf => rfl
  | parenthesis lpar inner rpar ih => simp [withoutColumns, yield, ih, Terminal.withoutColumn]

/-- The derivation keeps its tree, apart from columns. -/
theorem tree_withoutColumns (d : Derivation n) : d.withoutColumns.tree = d.tree.withoutColumns := by
  induction d with
  | letIn letWord name equals value inWord body ihvalue ihbody =>
    rw [withoutColumns, tree, tree, Tree.withoutColumns, ihvalue, ihbody]
    rfl
  | operations inner ih | operand level inner ih => exact ih
  | operation level left operator right ihleft ihright =>
    rw [withoutColumns, tree, tree, Tree.withoutColumns, ihleft, ihright]
    rfl
  | leaf lexeme tree isLeaf => rfl
  | parenthesis lpar inner rpar ih => exact ih

/-- Lexemes on the same lines derive the same tree up to columns. -/
theorem withoutColumns_tree_eq {d d' : Derivation n}
    (h : d.yield.map Lexeme.withoutColumn = d'.yield.map Lexeme.withoutColumn) :
    d.tree.withoutColumns = d'.tree.withoutColumns := by
  rw [← yield_withoutColumns, ← yield_withoutColumns] at h
  rw [← tree_withoutColumns, ← tree_withoutColumns, yield_injective h]

end Derivation

end Grammar

/-! ## Source texts -/

/-- Words on the same lines are read as the same tree up to columns. -/
theorem Source.exists_read_of_lines {source source' : String} {lexemes lexemes' : List Lexeme}
    {t : Tree} (hread : read source = .ok t) (htokens : Tokenized source lexemes)
    (htokens' : Tokenized source' lexemes')
    (h : lexemes'.map Lexeme.withoutColumn = lexemes.map Lexeme.withoutColumn) :
    ∃ t', read source' = .ok t' ∧ t'.withoutColumns = t.withoutColumns := by
  obtain ⟨d, hyield, rfl, hshort⟩ := read_eq_ok_iff.1 hread
  have hsame : d.yield = lexemes := by
    have hstream := Tokenizes.ofChars_eq hyield
    rw [Tokenizes.ofChars_eq htokens] at hstream
    exact (congrArg Stream.lexemes hstream).symm
  have hwords : lexemes'.map Lexeme.word = d.yield.map Lexeme.word := by
    have hmap := congrArg (List.map Lexeme.word) h
    simpa [hsame, Function.comp_def] using hmap
  obtain ⟨_, ⟨d', rfl, rfl⟩, -⟩ := d.derivesBare_of_words hwords
  refine ⟨d'.tree, read_eq_ok_iff.2 ⟨d', htokens', rfl, oversized?_of_words hwords hshort⟩, ?_⟩
  exact Derivation.withoutColumns_tree_eq (by rw [h, hsame])

end LetLang
