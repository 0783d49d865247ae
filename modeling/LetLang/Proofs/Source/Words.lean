import LetLang.Proofs.Source.Tokenization

/-!
# Words

Words with one space between them are read back one by one, if each of them may stand where it
does. A `Word` is a lexeme without its position.
-/

namespace LetLang

/-! ## Words -/

structure Word where
  kind : TokenKind
  text : List Char
  deriving DecidableEq, Repr

namespace Word

/-- The word of a terminal that has only one text. -/
def fixed (kind : TokenKind) : Word := ⟨kind, kind.spelling?.getD []⟩

def joined (words : List Word) : List Char := [' '].intercalate (words.map (·.text))

end Word

def Lexeme.word (lexeme : Lexeme) : Word := ⟨lexeme.kind, lexeme.text⟩

/-! ## Words that are read -/

def EndsWord (rest : List Char) : Prop := ∀ c ∈ rest.head?, c = ' '

theorem EndsWord.stopsAt {rest : List Char} (h : EndsWord rest) {p : Char → Bool}
    (hspace : p ' ' = false) : StopsAt p rest := by
  intro c hc
  rw [h c hc, hspace]

theorem TokenKind.ident_spells_of_keyword {kind : TokenKind} {text : List Char}
    (hkeyword : kind ∈ keywords) (hspelling : kind.spelling? = some text) :
    TokenKind.ident.Spells text := by
  cases kind with
  | letWord | inWord | trueWord | falseWord | and | or =>
    cases hspelling
    exact ⟨_, _, rfl, by decide, List.all_eq_true.1 (by decide)⟩
  | _ => exact absurd hkeyword (by decide)

namespace Context

/-- The word is read as what it is, whatever comes behind the space that follows it. -/
def Takes (context : Context) (word : Word) : Prop :=
  ∀ rest, EndsWord rest → context.Reads word.kind word.text rest

/-- A word that stands for an acceptable terminal is read as such. A name must not be spelled like
an acceptable keyword. -/
theorem takes {context : Context} {kind : TokenKind} {text : List Char}
    (haccepts : kind ∈ context.accepts) (hspells : kind.Spells text)
    (hplain : kind = .ident →
      ∀ keyword ∈ TokenKind.keywords, keyword ∈ context.accepts → ¬ keyword.Spells text) :
    context.Takes ⟨kind, text⟩ := by
  intro rest hends
  have hdigits : StopsAt isDigit rest := hends.stopsAt (by decide)
  have hname (h : TokenKind.ident.Spells text) : TokenKind.ident.SpellsLongest text rest := by
    rcases h with ⟨c, cs, htext, hc, hcs⟩
    exact ident_spellsLongest_iff.2 ⟨c, cs, htext, hc, hcs, hends.stopsAt (by decide)⟩
  -- Where names are acceptable a keyword is read as a word, elsewhere by its text alone.
  have hfixed (hspelling : kind.spelling? = some text) : context.Reads kind text rest := by
    by_cases hword : .ident ∈ context.accepts ∧ kind ∈ TokenKind.keywords
    · have hspells' := TokenKind.ident_spells_of_keyword hword.2 hspelling
      exact .keyword hword.1 (hname hspells') hword.2 haccepts hspells
    · exact .fixed haccepts hspelling fun hkeyword hident => hword ⟨hident, hkeyword⟩
  cases kind with
  | double =>
    rcases hspells with ⟨whole, fraction, htext, hwhole, hfraction⟩
    exact .double haccepts
      (double_spellsLongest_iff.2 ⟨whole, fraction, htext, hwhole, hfraction, hdigits⟩)
  | int =>
    refine .int haccepts ((no_double_iff hspells hdigits).2 ?_)
      (int_spellsLongest_iff.2 ⟨hspells, hdigits⟩)
    -- A point would have to follow the digits.
    rintro more rfl
    exact absurd (hends '.' rfl) (by decide)
  | ident => exact .name haccepts (hname hspells) (hplain rfl)
  | _ => exact hfixed hspells

/-- A terminal with one text is read as such where it is acceptable. -/
theorem takes_fixed {context : Context} {kind : TokenKind} (haccepts : kind ∈ context.accepts)
    (hspelling : kind.spelling?.isSome = true) : context.Takes (.fixed kind) := by
  rcases Option.isSome_iff_exists.1 hspelling with ⟨text, htext⟩
  have hword : Word.fixed kind = ⟨kind, text⟩ := by simp [Word.fixed, htext]
  rw [hword]
  cases kind with
  | int | double | ident => exact nomatch htext
  | _ => exact takes haccepts htext nofun

end Context

/-- Every word is read as what it is, and leads to the context of the next one. -/
def Word.Legible : Context → List Word → Prop
  | _, [] => True
  | context, word :: words => context.Takes word ∧ Legible (context.next word.kind) words

def Context.IsOperand (context : Context) : Prop := context = .expression ∨ context = .operand

theorem Context.IsOperand.accepts {context : Context} (h : context.IsOperand) {kind : TokenKind}
    (hkind : kind ∈ Context.accepts .operand) : kind ∈ context.accepts := by
  rcases h with rfl | rfl
  · revert kind
    decide
  · exact hkind

/-- In the place of an operand only three keywords are told from names. -/
theorem Context.IsOperand.plain {context : Context} (h : context.IsOperand) {name : String}
    (hname : name ∉ ["let", "true", "false"]) {keyword : TokenKind}
    (hkeyword : keyword ∈ TokenKind.keywords) (haccepts : keyword ∈ context.accepts) :
    ¬ keyword.Spells name.toList := by
  have hexpression : keyword ∈ Context.accepts .expression := by
    rcases h with rfl | rfl
    · exact haccepts
    · revert keyword
      decide
  intro hspells
  refine hname ?_
  cases keyword with
  | letWord | trueWord | falseWord =>
    have htext := Option.some.inj hspells
    simp [← String.toList_inj, ← htext]
  | inWord | and | or => exact absurd hexpression (by decide)
  | _ => exact absurd hkeyword (by decide)

/-- Behind an operand an operator leads to the next operand. -/
theorem Word.legible_operator {kind : TokenKind} {rest : List Word}
    (hkind : kind ∈ TokenKind.arithmetic ++ TokenKind.boolean) (hrest : Legible .operand rest) :
    Legible .continuation (fixed kind :: rest) := by
  have htable : ∀ kind ∈ TokenKind.arithmetic ++ TokenKind.boolean,
      kind ∈ Context.accepts .continuation ∧ kind.spelling?.isSome = true ∧
        Context.next .continuation kind = .operand := by
    decide
  rcases htable kind hkind with ⟨haccepts, hspelling, hnext⟩
  refine ⟨Context.takes_fixed haccepts hspelling, ?_⟩
  rw [fixed, hnext]
  exact hrest

/-- The head of a `let` leads to its value. Where the name is bound every word is a name. -/
theorem Word.legible_binding {name : List Char} {rest : List Word}
    (hname : TokenKind.ident.Spells name) (hrest : Legible .expression rest) :
    Legible .expression (fixed .letWord :: ⟨.ident, name⟩ :: fixed .assign :: rest) := by
  have hbinder : Context.Takes .binder ⟨.ident, name⟩ := by
    refine Context.takes (by decide) hname ?_
    intro _ keyword hkeyword haccepts
    exact absurd haccepts (by revert keyword; decide)
  exact ⟨Context.takes_fixed (by decide) rfl, hbinder,
    Context.takes_fixed (show _ ∈ Context.accepts .equals by decide) rfl, hrest⟩

/-! ## Tokenization -/

theorem gap_nil_cons {c : Char} (hspacing : isSpacing c = false) (hcomment : c ≠ '#')
    (cs : List Char) : Gap [] (c :: cs) := by
  refine .nil ?_ (by simpa using hcomment)
  intro d hd
  cases hd
  exact hspacing

/-- A character of a class without layout is no layout. -/
theorem gap_nil_of_class {p : Char → Bool} {c : Char} (hc : p c = true)
    (hlayout : [' ', '\t', '\x0c', '\r', '\n', '#'].any p = false) (cs : List Char) :
    Gap [] (c :: cs) := by
  have hne : ∀ d ∈ [' ', '\t', '\x0c', '\r', '\n', '#'], c ≠ d := by
    rintro d hd rfl
    exact List.any_eq_false.1 hlayout c hd hc
  simp only [List.forall_mem_cons, List.not_mem_nil] at hne
  rcases hne with ⟨hspace, htab, hfeed, hreturn, hline, hcomment, -⟩
  exact gap_nil_cons (by simp [isSpacing, hspace, htab, hfeed, hreturn, hline]) hcomment cs

theorem IsDigits.gap_nil {text : List Char} (h : IsDigits text) (rest : List Char) :
    Gap [] (text ++ rest) := by
  cases text with
  | nil => exact absurd rfl h.1
  | cons c cs => exact gap_nil_of_class (h.2 c (by simp)) (by decide) _

/-- A lexeme starts with no layout. -/
theorem Context.Reads.gap_nil {context : Context} {kind : TokenKind} {text rest : List Char}
    (h : context.Reads kind text rest) : Gap [] (text ++ rest) := by
  cases h with
  | double _ htext =>
    rcases htext.1 with ⟨whole, fraction, rfl, hwhole, -⟩
    rw [List.append_assoc]
    exact hwhole.gap_nil _
  | int _ _ htext => exact htext.1.gap_nil rest
  | name _ htext _ | keyword _ htext _ _ _ =>
    rcases htext.1 with ⟨c, cs, rfl, hc, -⟩
    exact gap_nil_of_class hc (by decide) _
  | fixed _ hspelling _ =>
    cases kind <;> cases hspelling <;> exact gap_nil_cons (by decide) (by decide) _

namespace Word

/-- One word, and a space unless it is the last one. -/
theorem joined_cons (word : Word) (words : List Word) :
    ∃ gap, (gap = [] ∨ gap = [' ']) ∧ joined (word :: words) = word.text ++ (gap ++ joined words) ∧
      EndsWord (gap ++ joined words) := by
  cases words with
  | nil => exact ⟨[], .inl rfl, by simp [joined], by simp [joined, EndsWord]⟩
  | cons next words =>
    exact ⟨[' '], .inr rfl, by simp [joined, List.intercalate_cons_cons], by simp [EndsWord]⟩

/-- The tokenization of legible words is the words. The gap is what separates them from an earlier
word, if there is one. -/
theorem tokenizes_joined {context : Context} {words : List Word} (h : Legible context words)
    {gap : List Char} (hgap : gap = [] ∨ gap = [' ']) (position : Position) :
    ∃ lexemes, Tokenizes context position (gap ++ joined words) lexemes ∧
      lexemes.map Lexeme.word = words := by
  -- The gap varies: the first word has none in front of it, and every other one a space.
  induction words generalizing context gap position with
  | nil =>
    have hend : Gap [] [] := .nil (by simp [StopsAt]) (by simp)
    have hdone : Gap (gap ++ joined []) [] := by
      rcases hgap with rfl | rfl
      · exact hend
      · exact .spacing (by decide) hend
    exact ⟨[], .done hdone, rfl⟩
  | cons word words ih =>
    rcases joined_cons word words with ⟨after, hafter, hjoined, hends⟩
    have hreads := h.1 _ hends
    have hlayout : Gap gap (word.text ++ (after ++ joined words)) := by
      rcases hgap with rfl | rfl
      · exact hreads.gap_nil
      · exact .spacing (by decide) hreads.gap_nil
    rcases ih h.2 hafter ((position.after gap).after word.text) with ⟨lexemes, hlexemes, hwords⟩
    refine ⟨⟨word.kind, word.text, position.after gap⟩ :: lexemes, ?_, ?_⟩
    · rw [hjoined]
      exact .lexeme hlayout hreads hlexemes
    · rw [List.map_cons, hwords]
      rfl

end Word

end LetLang
