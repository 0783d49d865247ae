import LetLang.Proofs.Source.Incomplete
import LetLang.Proofs.Source.Printing
import LetLang.Text.Blank

/-!
# Texts in other places

A text that is read stands for the same tree, apart from lines and columns, wherever it is placed.
So a `let` is read as its parts, one text behind the other. Blanks at the end of a text do not
matter, not even those that only a comment may hold.
-/

namespace LetLang

open Grammar

/-! ## Derivations by words -/

theorem Lexeme.bare_nameToken {lexeme lexeme' : Lexeme} (h : lexeme'.word = lexeme.word) :
    lexeme'.nameToken.bare = lexeme.nameToken.bare := by
  have htext : lexeme'.text = lexeme.text := congrArg Word.text h
  simp [Lexeme.nameToken, Token.bare, htext]

namespace Grammar

/-- Another place for a lexeme gives the same leaf, apart from the place. -/
theorem Leaf.of_word {lexeme lexeme' : Lexeme} {tree : Tree} (hleaf : Leaf lexeme tree)
    (h : lexeme'.word = lexeme.word) : DerivesBare .atom [lexeme'] tree := by
  have hkind : lexeme'.kind = lexeme.kind := congrArg Word.kind h
  have htext : lexeme'.text = lexeme.text := congrArg Word.text h
  cases hleaf with
  | int hleaf | double hleaf | true hleaf | false hleaf | ident hleaf =>
    refine ⟨_, .leaf (by rw [Lexeme.leaf?, hkind, hleaf]), ?_⟩
    simp [Tree.bare, htext, Lexeme.bare_nameToken h]

/-- What lexemes derive depends on their words only, apart from lines and columns. -/
theorem Derivation.derivesBare_of_words {n : Nonterminal} (d : Derivation n)
    {lexemes : List Lexeme} (h : lexemes.map Lexeme.word = d.yield.map Lexeme.word) :
    DerivesBare n lexemes d.tree := by
  -- The words of a derivation split like its lexemes, so each part has lexemes of its own.
  induction d generalizing lexemes with
  | letIn letWord name equals value inWord body ihvalue ihbody =>
    simp only [yield, List.map_cons, List.map_append] at h
    rcases List.map_eq_cons_iff.1 h with ⟨letWord', more, rfl, hlet, h⟩
    rcases List.map_eq_cons_iff.1 h with ⟨name', more, rfl, hname, h⟩
    rcases List.map_eq_cons_iff.1 h with ⟨equals', more, rfl, hequals, h⟩
    rcases List.map_eq_append_iff.1 h with ⟨before, more, rfl, hvalue, h⟩
    rcases List.map_eq_cons_iff.1 h with ⟨inWord', behind, rfl, hin, hbody⟩
    rcases ihvalue hvalue with ⟨v, hv, hvbare⟩
    rcases ihbody hbody with ⟨b, hb, hbbare⟩
    refine ⟨_, .letIn ((congrArg Word.kind hlet).trans letWord.kind_eq)
      ((congrArg Word.kind hname).trans name.kind_eq)
      ((congrArg Word.kind hequals).trans equals.kind_eq)
      ((congrArg Word.kind hin).trans inWord.kind_eq) hv hb, ?_⟩
    simp [Tree.bare, tree, hvbare, hbbare, Lexeme.bare_nameToken hname]
  | operations inner ih =>
    rcases ih h with ⟨tree, hderives, hbare⟩
    exact ⟨tree, hderives.operations, hbare⟩
  | operand level inner ih =>
    rcases ih h with ⟨tree, hderives, hbare⟩
    exact ⟨tree, hderives.operand, hbare⟩
  | operation level left operator right ihleft ihright =>
    simp only [yield, List.map_append, List.map_cons] at h
    rcases List.map_eq_append_iff.1 h with ⟨before, more, rfl, hleft, h⟩
    rcases List.map_eq_cons_iff.1 h with ⟨operator', behind, rfl, hoperator, hright⟩
    have hkind : operator'.kind = operator.lexeme.kind := congrArg Word.kind hoperator
    have hstrength := Level.mem_operators_iff.1 operator.kind_mem
    rw [tree, ← hkind] at *
    exact (ihleft hleft).operation hstrength (ihright hright)
  | leaf lexeme tree isLeaf =>
    rcases List.map_eq_singleton_iff.1 h with ⟨lexeme', rfl, hword⟩
    exact isLeaf.of_word hword
  | parenthesis lpar inner rpar ih =>
    simp only [yield, List.map_cons, List.map_append] at h
    rcases List.map_eq_cons_iff.1 h with ⟨lpar', more, rfl, hlpar, h⟩
    rcases List.map_eq_append_iff.1 h with ⟨inside, last, rfl, hinner, h⟩
    rcases List.map_eq_singleton_iff.1 h with ⟨rpar', rfl, hrpar⟩
    rcases ih hinner with ⟨tree, hderives, hbare⟩
    exact ⟨tree, hderives.parenthesis ((congrArg Word.kind hlpar).trans lpar.kind_eq)
      ((congrArg Word.kind hrpar).trans rpar.kind_eq), hbare⟩

/-- Behind an expression an operator may follow. -/
theorem Derives.after_eq {lexemes : List Lexeme} {tree : Tree}
    (h : Derives .expression lexemes tree) : Context.after .expression lexemes = .continuation := by
  rcases Progress.accepts_iff.2 h with ⟨⟨frames, focus⟩, hrun, htree⟩
  have hcontext := Progress.run_context hrun
  cases focus with
  | complete tree => exact hcontext.symm
  | expression | operand | binder | equals name => cases htree

end Grammar

/-! ## Blanks -/

theorem isBlank_eq_false {c : Char}
    (h : ∀ range ∈ blankRanges, c.toNat < range.1 ∨ range.2 < c.toNat) : isBlank c = false := by
  rw [isBlank, CodeRanges.has, List.any_eq_false]
  intro range hrange
  have houtside := h range hrange
  simp only [Bool.and_eq_true, decide_eq_true_eq, not_and, Nat.not_le]
  omega

/-- The layout of source texts is blank. -/
theorem isBlank_of_isSpacing {c : Char} (h : isSpacing c = true) : isBlank c = true := by
  simp only [isSpacing, Bool.or_eq_true, decide_eq_true_eq] at h
  rcases h with (((rfl | rfl) | rfl) | rfl) | rfl <;> decide

theorem isBlank_of_isDigit {c : Char} (h : isDigit c = true) : isBlank c = false := by
  -- No block of ten digits meets a range of blanks.
  have hranges : ∀ range ∈ blankRanges, ∀ first ∈ digitZeros,
      first + 10 ≤ range.1 ∨ range.2 < first := by decide
  have hdigit : ∃ first ∈ digitZeros, first ≤ c.toNat ∧ c.toNat < first + 10 := by
    simpa [isDigit, digitValue?] using h
  rcases hdigit with ⟨first, hfirst, hbounds⟩
  refine isBlank_eq_false fun range hrange => ?_
  have hdisjoint := hranges range hrange first hfirst
  omega

theorem isWordPart_bounds {c : Char} (h : isWordPart c = true) :
    48 ≤ c.toNat ∧ c.toNat ≤ 122 := by
  have hcases : isWordStart c = true ∨ c.isDigit = true := by
    simpa [isWordPart, isWordStart, Char.isAlphanum, or_right_comm] using h
  rcases hcases with hstart | hdigit
  · have hbounds := isWordStart_bounds hstart
    omega
  · simp only [Char.isDigit, Bool.and_eq_true, decide_eq_true_eq, UInt32.le_iff_toNat_le] at hdigit
    change 48 ≤ c.toNat ∧ c.toNat ≤ 57 at hdigit
    omega

theorem isBlank_of_isWordPart {c : Char} (h : isWordPart c = true) : isBlank c = false := by
  have hranges : ∀ range ∈ blankRanges, 122 < range.1 ∨ range.2 < 48 := by decide
  have hbounds := isWordPart_bounds h
  refine isBlank_eq_false fun range hrange => ?_
  have hdisjoint := hranges range hrange
  omega

/-- A name holds no blank, and neither does a word that is spelled like one. -/
theorem TokenKind.isBlank_of_ident {text : List Char} (h : TokenKind.ident.Spells text) :
    ∀ c ∈ text, isBlank c = false := by
  rcases h with ⟨c, cs, rfl, hc, hcs⟩
  intro d hd
  rcases List.mem_cons.1 hd with rfl | hd
  · exact isBlank_of_isWordPart (isWordPart_of_isWordStart hc)
  · exact isBlank_of_isWordPart (hcs d hd)

/-- No lexeme holds a blank. -/
theorem Context.Reads.isBlank_eq_false {context : Context} {kind : TokenKind}
    {text rest : List Char} (h : context.Reads kind text rest) : ∀ c ∈ text, isBlank c = false := by
  cases h with
  | double _ htext =>
    rcases htext.1 with ⟨whole, fraction, rfl, hwhole, hfraction⟩
    intro c hc
    rcases List.mem_append.1 hc with hc | hc
    · exact isBlank_of_isDigit (hwhole.2 c hc)
    · rcases List.mem_cons.1 hc with rfl | hc
      · decide
      · exact isBlank_of_isDigit (hfraction.2 c hc)
  | int _ _ htext =>
    intro c hc
    exact isBlank_of_isDigit (htext.1.2 c hc)
  | name _ htext _ | keyword _ htext _ _ _ => exact TokenKind.isBlank_of_ident htext.1
  | fixed _ hspelling _ =>
    have hnone : text.any isBlank = false := by
      cases kind <;> cases hspelling <;> decide
    simpa using hnone

/-! ## Tokenizations in other places -/

/-- What is read at the front of a text is read there if the text ends earlier, behind it. -/
theorem Context.Reads.of_append {context : Context} {kind : TokenKind} {text rest more : List Char}
    (h : context.Reads kind text (rest ++ more)) : context.Reads kind text rest := by
  have hlongest {kind : TokenKind} (htext : kind.SpellsLongest text (rest ++ more)) :
      kind.SpellsLongest text rest := by
    refine ⟨htext.1, fun longer rest' hrest hspells => ?_⟩
    exact htext.2 longer (rest' ++ more) (by simp [hrest]) hspells
  cases h with
  | double haccepts htext => exact .double haccepts (hlongest htext)
  | int haccepts hdouble htext =>
    refine .int haccepts (fun text' rest' hsplit => ?_) (hlongest htext)
    exact hdouble text' (rest' ++ more) (by simp [← List.append_assoc, hsplit])
  | name haccepts htext hplain => exact .name haccepts (hlongest htext) hplain
  | keyword haccepts htext hkeyword hkind hspells =>
    exact .keyword haccepts (hlongest htext) hkeyword hkind hspells
  | fixed hkind hspelling hword => exact .fixed hkind hspelling hword

theorem Context.Reads.text_ne_nil {context : Context} {kind : TokenKind} {text rest : List Char}
    (h : context.Reads kind text rest) : text ≠ [] :=
  (Context.match?_splits h.match?_eq).2

/-- Layout up to the end of a text is layout if the text ends earlier. -/
theorem Gap.of_append {gap more : List Char} (h : Gap (gap ++ more) []) : Gap gap [] := by
  have hend : Gap [] [] := .nil (by simp [StopsAt]) (by simp)
  -- The induction is on the layout of the longer text, so both texts vary.
  generalize hwhole : gap ++ more = whole at h
  generalize hrest : ([] : List Char) = rest at h
  induction h generalizing gap with
  | nil _ _ =>
    cases (List.append_eq_nil_iff.1 hwhole).1
    exact hrest ▸ hend
  | @spacing c gap' rest hc hgap ih =>
    cases gap with
    | nil => exact hrest ▸ hend
    | cons d gap =>
      rw [List.cons_append, List.cons.injEq] at hwhole
      exact hwhole.1 ▸ .spacing hc (ih hwhole.2 hrest)
  | @comment body gap' rest hbody hfollows hgap ih =>
    subst hrest
    cases gap with
    | nil => exact hend
    | cons d gap =>
      rw [List.cons_append, List.cons_append, List.cons.injEq] at hwhole
      rcases hwhole with ⟨rfl, hwhole⟩
      -- The text ends inside the comment or behind it.
      rcases List.append_eq_append_iff.1 hwhole with ⟨cut, rfl, -⟩ | ⟨cut, rfl, hgap'⟩
      · have hcomment : Gap ('#' :: gap ++ []) [] :=
          .comment (fun hmem => hbody (by simp [hmem])) (by simp) hend
        simpa using hcomment
      · refine .comment hbody ?_ (ih hgap'.symm rfl)
        rw [hgap'] at hfollows
        cases cut with
        | nil => simp
        | cons c cut => simpa using hfollows

/-- Blanks at the end of a text stand behind every piece of it that ends with something else. -/
theorem exists_cut {cs blanks gap text rest : List Char}
    (h : cs ++ blanks = gap ++ (text ++ rest)) (hblanks : ∀ c ∈ blanks, isBlank c = true)
    (hne : text ≠ []) (htext : ∀ c ∈ text, isBlank c = false) :
    ∃ cut, cs = gap ++ (text ++ cut) ∧ rest = cut ++ blanks := by
  rw [← List.append_assoc] at h
  rcases List.append_eq_append_iff.1 h with ⟨cut, hfront, hcut⟩ | ⟨cut, hfront, hcut⟩
  · -- If blanks reached into the piece, its last character would be one of them.
    cases cut with
    | nil => exact ⟨[], by simpa using hfront.symm, by simpa using hcut.symm⟩
    | cons c cut =>
      have hlast : some (text.getLast hne) = (c :: cut).getLast? :=
        calc some (text.getLast hne)
            = (gap ++ text).getLast? := by
              simp [List.getLast?_append, List.getLast?_eq_some_getLast hne]
          _ = (cs ++ c :: cut).getLast? := congrArg List.getLast? hfront
          _ = (c :: cut).getLast? := by simp [List.getLast?_append, List.getLast?_cons]
      have hblank : isBlank (text.getLast hne) = true := by
        refine hblanks _ ?_
        rw [hcut]
        exact List.mem_append_left _ (List.mem_of_getLast? hlast.symm)
      rw [htext _ (List.getLast_mem hne)] at hblank
      cases hblank
  · exact ⟨cut, by simpa using hfront, hcut⟩

namespace Tokenizes

variable {context : Context} {position : Position} {cs : List Char} {lexemes : List Lexeme}

/-- A text has the same words at every position. -/
theorem moved (h : Tokenizes context position cs lexemes) (position' : Position) :
    ∃ lexemes', Tokenizes context position' cs lexemes' ∧
      lexemes'.map Lexeme.word = lexemes.map Lexeme.word := by
  induction h generalizing position' with
  | done hgap => exact ⟨[], .done hgap, rfl⟩
  | lexeme hgap hreads _ ih =>
    rcases ih _ with ⟨lexemes', hlexemes', hwords⟩
    refine ⟨_, .lexeme hgap hreads hlexemes', ?_⟩
    rw [List.map_cons, List.map_cons, hwords]
    rfl

/-- Spacing in front of a text moves it. -/
theorem spacing {c : Char} (hc : isSpacing c = true)
    (h : Tokenizes context (position.next c) cs lexemes) :
    Tokenizes context position (c :: cs) lexemes := by
  cases h with
  | done hgap => exact .done (.spacing hc hgap)
  | lexeme hgap hreads hrest =>
    rw [← List.cons_append]
    exact .lexeme (.spacing hc hgap) hreads hrest

/-- A word that ends in front of the rest of a text. -/
theorem word {word : Word} (hword : context.Takes word) (hends : EndsWord cs)
    (h : Tokenizes (context.next word.kind) (position.after word.text) cs lexemes) :
    Tokenizes context position (word.text ++ cs) (⟨word.kind, word.text, position⟩ :: lexemes) := by
  have hreads := hword cs hends
  exact .lexeme hreads.gap_nil hreads h

/-- Blanks at the end of a text do not matter. -/
theorem withoutBlanks {blanks : List Char} (h : Tokenizes context position (cs ++ blanks) lexemes)
    (hblanks : ∀ c ∈ blanks, isBlank c = true) : Tokenizes context position cs lexemes := by
  generalize hwhole : cs ++ blanks = whole at h
  induction h generalizing cs with
  | done hgap =>
    subst hwhole
    exact .done hgap.of_append
  | @lexeme context position gap text rest kind lexemes hgap hreads _ ih =>
    have hne := hreads.text_ne_nil
    rcases exists_cut hwhole hblanks hne hreads.isBlank_eq_false with ⟨cut, rfl, rfl⟩
    have hlayout : Gap gap (text ++ cut) := by
      cases text with
      | nil => exact absurd rfl hne
      | cons c text => exact hgap.of_head _
    exact .lexeme hlayout hreads.of_append (ih rfl)

end Tokenizes

/-! ## The front of a text -/

/-- No operand starts with a slash. -/
theorem Context.Reads.front {kind : TokenKind} {text rest : List Char}
    (h : Context.Reads .expression kind text rest) : ∃ c cs, text = c :: cs ∧ c ≠ '/' := by
  have hnumber {digits : List Char} (hdigits : IsDigits digits) (more : List Char) :
      ∃ c cs, digits ++ more = c :: cs ∧ c ≠ '/' := by
    cases digits with
    | nil => exact absurd rfl hdigits.1
    | cons c digits =>
      refine ⟨c, digits ++ more, rfl, ?_⟩
      rintro rfl
      exact absurd (hdigits.2 '/' List.mem_cons_self) (by decide)
  cases h with
  | double _ htext =>
    rcases htext.1 with ⟨whole, fraction, rfl, hwhole, -⟩
    exact hnumber hwhole _
  | int _ _ htext => simpa using hnumber htext.1 []
  | name _ htext _ | keyword _ htext _ _ _ =>
    rcases htext.1 with ⟨c, cs, rfl, hc, -⟩
    refine ⟨c, cs, rfl, ?_⟩
    rintro rfl
    exact absurd hc (by decide)
  | fixed hkind hspelling _ =>
    cases kind with
    | letWord | trueWord | falseWord | lpar =>
      cases hspelling
      exact ⟨_, _, rfl, by decide⟩
    | int | double | ident => cases hspelling
    | _ => exact absurd hkind (by decide)

/-- Blanks at the front are followed by a comment, or by what the layout leads to. -/
theorem Gap.front {gap rest : List Char} {c : Char} (h : Gap gap (c :: rest))
    (hblank : isBlank c = false) (hc : c ≠ '/') :
    ∃ d more, (gap ++ c :: rest).dropWhile isBlank = d :: more ∧ d ≠ '/' := by
  generalize hcs : c :: rest = cs at h
  induction h with
  | nil _ _ =>
    subst hcs
    exact ⟨c, rest, by simp [hblank], hc⟩
  | @spacing d gap cs hspacing hgap ih =>
    simpa [isBlank_of_isSpacing hspacing] using ih hcs
  | @comment body gap cs _ _ _ _ =>
    have hhash : isBlank '#' = false := by decide
    exact ⟨'#', body ++ gap ++ cs, by simp [hhash], by decide⟩

/-! ## Reading in other places -/

namespace Source

/-- The limit on digits depends on the words only. -/
theorem oversized?_of_words {lexemes lexemes' : List Lexeme}
    (hwords : lexemes'.map Lexeme.word = lexemes.map Lexeme.word)
    (h : oversized? lexemes = none) : oversized? lexemes' = none := by
  have hfind (lexemes : List Lexeme) : oversized? lexemes = none ↔
      ∀ word ∈ lexemes.map Lexeme.word,
        (word.kind = .int && maxIntegerDigits < word.text.length) = false := by
    simp [oversized?, Lexeme.word]
  rw [hfind, hwords]
  exact (hfind lexemes).1 h

theorem oversized?_append (lexemes lexemes' : List Lexeme) :
    oversized? (lexemes ++ lexemes') = (oversized? lexemes).or (oversized? lexemes') :=
  List.find?_append

theorem oversized?_cons_of_ne {lexeme : Lexeme} (h : lexeme.kind ≠ .int) (lexemes : List Lexeme) :
    oversized? (lexeme :: lexemes) = oversized? lexemes := by
  simp [oversized?, h]

/-- Wherever the text is placed it is read as the tree, apart from lines and columns. -/
def ReadsAs (cs : List Char) (t : Tree) : Prop :=
  ∀ position, ∃ lexemes, Tokenizes .expression position cs lexemes ∧
    DerivesBare .expression lexemes t ∧ oversized? lexemes = none

/-- A text is read as a tree exactly if a derivation says so and its integers are short enough. -/
theorem read_eq_ok_iff {source : String} {tree : Tree} :
    read source = .ok tree ↔
      ∃ d : Derivation .expression, Tokenized source d.yield ∧ d.tree = tree ∧
        oversized? d.yield = none := by
  constructor
  · intro h
    have haccepts : Accepts source := by
      rcases read_cases source with ⟨-, _, hread⟩ | ⟨-, _, hread⟩ | ⟨haccepts, -⟩
      · cases h.symm.trans hread
      · cases h.symm.trans hread
      · exact haccepts
    rcases haccepts with ⟨d, htokens⟩
    rw [read_of_tokenized htokens] at h
    cases hlong : oversized? d.yield with
    | some lexeme =>
      rw [hlong] at h
      cases h
    | none =>
      rw [hlong] at h
      exact ⟨d, htokens, Except.ok.inj h, hlong⟩
  · rintro ⟨d, htokens, rfl, hshort⟩
    rw [read_of_tokenized htokens, hshort]
    rfl

/-- What is read in one place is read so in every place. -/
theorem readsAs_of_read {source : String} {tree : Tree} (h : read source = .ok tree) :
    ReadsAs source.toList tree := by
  rcases read_eq_ok_iff.1 h with ⟨d, htokens, rfl, hshort⟩
  intro position
  rcases htokens.moved position with ⟨lexemes, hlexemes, hwords⟩
  exact ⟨lexemes, hlexemes, d.derivesBare_of_words hwords, oversized?_of_words hwords hshort⟩

namespace ReadsAs

variable {cs : List Char} {t : Tree}

/-- What is read so in every place is read where a source text starts. -/
theorem exists_read {source : String} (h : ReadsAs source.toList t) :
    ∃ tree, read source = .ok tree ∧ tree.bare = t.bare := by
  rcases h .start with ⟨lexemes, htokens, ⟨tree, ⟨d, rfl, rfl⟩, hbare⟩, hshort⟩
  exact ⟨d.tree, read_eq_ok_iff.2 ⟨d, htokens, rfl, hshort⟩, hbare⟩

/-- Layout in front changes places only. -/
theorem spacing {c : Char} (hc : isSpacing c = true) (h : ReadsAs cs t) : ReadsAs (c :: cs) t := by
  intro position
  rcases h (position.next c) with ⟨lexemes, htokens, hrest⟩
  exact ⟨lexemes, htokens.spacing hc, hrest⟩

/-- Blanks at the end can be dropped. -/
theorem withoutBlanks {blanks : List Char} (h : ReadsAs (cs ++ blanks) t)
    (hblanks : ∀ c ∈ blanks, isBlank c = true) : ReadsAs cs t := by
  intro position
  rcases h position with ⟨lexemes, htokens, hrest⟩
  exact ⟨lexemes, htokens.withoutBlanks hblanks, hrest⟩

/-- Behind its blanks the text does not start with a slash: it starts with a comment or an
operand. -/
theorem front (h : ReadsAs cs t) : ∃ c rest, cs.dropWhile isBlank = c :: rest ∧ c ≠ '/' := by
  rcases h .start with ⟨lexemes, htokens, ⟨tree, hderives, -⟩, -⟩
  cases htokens with
  | done hgap => cases hderives.after_eq
  | lexeme hgap hreads _ =>
    rcases hreads.front with ⟨c, text, rfl, hc⟩
    have hblank := hreads.isBlank_eq_false c List.mem_cons_self
    exact hgap.front hblank hc

/-- The head of a `let` leads to its value. -/
theorem behindHead {name : List Char} (hname : TokenKind.ident.Spells name) (h : ReadsAs cs t)
    (position : Position) :
    ∃ letWord binder equals lexemes,
      Tokenizes .expression position (['l', 'e', 't', ' '] ++ (name ++ ([' ', '=', ' '] ++ cs)))
        (letWord :: binder :: equals :: lexemes) ∧
      letWord.word = .fixed .letWord ∧ binder.word = ⟨.ident, name⟩ ∧
      equals.word = .fixed .assign ∧ DerivesBare .expression lexemes t ∧
      oversized? lexemes = none := by
  have hspace : isSpacing ' ' = true := by decide
  have hends (rest : List Char) : EndsWord (' ' :: rest) := by simp [EndsWord]
  have hlegible : Word.Legible .expression [.fixed .letWord, ⟨.ident, name⟩, .fixed .assign] :=
    Word.legible_binding hname trivial
  rcases hlegible with ⟨hlet, hbinder, hequals, -⟩
  let behind := ((position.after ['l', 'e', 't']).next ' ').after name
  rcases h.spacing hspace ((behind.next ' ').after ['=']) with ⟨lexemes, htokens, hrest⟩
  have hvalue := Tokenizes.word hequals (hends cs) htokens
  have hbound := Tokenizes.word hbinder (hends _) (hvalue.spacing hspace)
  exact ⟨_, _, _, lexemes, .word hlet (hends _) (hbound.spacing hspace), rfl, rfl, rfl, hrest⟩

/-- Behind a value `in` leads to the body. -/
theorem behindIn (h : ReadsAs cs t) (position : Position) :
    ∃ inWord lexemes,
      Tokenizes .continuation position (['i', 'n', ' '] ++ cs) (inWord :: lexemes) ∧
      inWord.word = .fixed .inWord ∧ DerivesBare .expression lexemes t ∧
      oversized? lexemes = none := by
  have hin : Context.Takes .continuation (.fixed .inWord) := Context.takes_fixed (by decide) rfl
  have hspace : isSpacing ' ' = true := by decide
  rcases h.spacing hspace (position.after ['i', 'n']) with ⟨lexemes, htokens, hrest⟩
  exact ⟨_, lexemes, .word hin (by simp [EndsWord]) htokens, rfl, hrest⟩

/-- A `let` is read as its parts, one text behind the other. The value may end with a comment, so
`in` stands on a line of its own. -/
theorem letIn {name value body : List Char} {v b : Tree} (hname : TokenKind.ident.Spells name)
    (hvalue : ReadsAs value v) (hbody : ReadsAs body b) :
    ReadsAs (['l', 'e', 't', ' '] ++ (name ++ ([' ', '=', ' '] ++ value)) ++
      '\n' :: (['i', 'n', ' '] ++ body))
      (.letIn ⟨.ident, .text (String.ofList name), 0, 0⟩ v b none) := by
  have htoken : Token.IsWord ⟨.ident, .text (String.ofList name), 0, 0⟩ :=
    ⟨rfl, String.ofList name, rfl, by simpa using hname⟩
  intro position
  rcases hvalue.behindHead hname position with
    ⟨letWord, binder, equals, before, hfirst, hlet, hbinder, hequals, hv, hvshort⟩
  rcases hbody.behindIn (position.after (_ ++ ['\n'])) with
    ⟨inWord, behind, hsecond, hin, hb, hbshort⟩
  have hletKind : letWord.kind = .letWord := congrArg Word.kind hlet
  have hbinderKind : binder.kind = .ident := congrArg Word.kind hbinder
  have hequalsKind : equals.kind = .assign := congrArg Word.kind hequals
  have hinKind : inWord.kind = .inWord := congrArg Word.kind hin
  -- The value is complete, so `in` is read as a keyword.
  have hafter : Context.after .expression (letWord :: binder :: equals :: before) =
      .continuation := by
    rcases hv with ⟨_, hderives, -⟩
    rw [← hderives.after_eq]
    simp [Context.after, Context.next, hletKind, hbinderKind, hequalsKind]
  refine ⟨_, hfirst.newline (hafter ▸ hsecond), ?_, ?_⟩
  · have hname' : binder.word =
        ⟨.ident, (Token.name ⟨.ident, .text (String.ofList name), 0, 0⟩).toList⟩ := by
      simp [hbinder, Token.name, Payload.name]
    exact DerivesBare.letIn htoken hlet hname' hequals hin hv hb
  · simp [oversized?_cons_of_ne, oversized?_append, hletKind, hbinderKind, hequalsKind, hinKind,
      hvshort, hbshort]

end ReadsAs

end Source

end LetLang
