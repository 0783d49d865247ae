import LetLang.Proofs.Source.Placement

/-!
# Texts of lexemes

A lexeme has a text of its kind, whether its context accepts it or not. Such a text is plain: in a
message it stands between single marks as it is, digits of all scripts included.
-/

namespace LetLang

/-! ## Kinds and their texts -/

theorem TokenKind.spells_of_spelling? {kind : TokenKind} {text : List Char}
    (h : kind.spelling? = some text) : kind.Spells text := by
  cases kind with
  | int | double | ident => cases h
  | _ => exact h

/-- What is read as a terminal is spelled like it. -/
theorem Context.Reads.spells {context : Context} {kind : TokenKind} {text rest : List Char}
    (h : context.Reads kind text rest) : kind.Spells text := by
  cases h with
  | double _ htext | int _ _ htext | name _ htext _ => exact htext.1
  | keyword _ _ _ _ hspells => exact hspells
  | fixed _ hspelling _ => exact TokenKind.spells_of_spelling? hspelling

/-- Every lexeme is spelled by a part of the text. -/
theorem Tokenizes.spells_of_mem {context : Context} {position : Position} {cs : List Char}
    {lexemes : List Lexeme} (h : Tokenizes context position cs lexemes) :
    ∀ lexeme ∈ lexemes, lexeme.kind.Spells lexeme.text ∧ lexeme.text ⊆ cs := by
  induction h with
  | done _ => simp
  | @lexeme context position gap text rest kind lexemes _ hreads _ ih =>
    refine List.forall_mem_cons.2 ⟨⟨hreads.spells, ?_⟩, ?_⟩
    · exact fun c hc => List.mem_append_right _ (List.mem_append_left _ hc)
    · intro lexeme hlexeme
      obtain ⟨hspells, hsubset⟩ := ih lexeme hlexeme
      exact ⟨hspells, fun c hc => List.mem_append_right _ (List.mem_append_right _ (hsubset hc))⟩

theorem Keywords.spells_kindOf_all {text : List Char} (h : TokenKind.ident.Spells text) :
    (Keywords.all.kindOf text).Spells text := by
  have htable : ∀ keyword ∈ Keywords.all, keyword.2.spelling? = some keyword.1 := by decide
  unfold Keywords.kindOf
  cases hfind : Keywords.all.find? (·.1 == text) with
  | none => exact h
  | some keyword =>
    have htext : keyword.1 = text := by simpa using List.find?_some hfind
    have hspelling := htable keyword (List.mem_of_find?_eq_some hfind)
    rw [htext] at hspelling
    exact TokenKind.spells_of_spelling? hspelling

/-- A lexeme is a front of the text and not empty. -/
theorem anyLexeme?_splits {cs : List Char} {m : Match} (h : anyLexeme? cs = some m) :
    m.Splits cs := by
  simp only [anyLexeme?, Option.or_eq_some_iff] at h
  rcases h with (h | ⟨-, h⟩) | ⟨-, h⟩
  · exact number?_splits h
  · exact word?_splits h
  · exact symbol?_splits h

/-- A lexeme that is found regardless of context has a text of its kind. -/
theorem anyLexeme?_spells {cs : List Char} {m : Match} (h : anyLexeme? cs = some m) :
    m.kind.Spells m.text := by
  simp only [anyLexeme?, Option.or_eq_some_iff] at h
  rcases h with (h | ⟨-, h⟩) | ⟨-, h⟩
  · have hreads : Context.Reads .expression m.kind m.text m.rest :=
      reads_of_number? (by decide) (by decide) h
    exact hreads.spells
  · cases cs with
    | nil => cases h
    | cons c cs =>
      simp only [word?] at h
      split at h
      next hc =>
        cases h
        exact Keywords.spells_kindOf_all ⟨c, _, rfl, hc, fun d hd => mem_takeWhile_imp hd⟩
      · cases h
  · exact TokenKind.spells_of_spelling? (Context.symbol?_cases h).2

/-! ## Quotation -/

theorem quotedChar_of_isPrintable {c : Char} (h : isPrintable c = true) (hmark : c ≠ '\'')
    (hescape : c ≠ '\\') : quotedChar '\'' c = [c] := by
  have hline : c ≠ '\n' := by rintro rfl; exact absurd h (by decide)
  have hreturn : c ≠ '\r' := by rintro rfl; exact absurd h (by decide)
  have htab : c ≠ '\t' := by rintro rfl; exact absurd h (by decide)
  simp [quotedChar, hmark, hescape, hline, hreturn, htab, h]

/-- Digits of all scripts are printable. -/
theorem quotedChar_of_isDigit {c : Char} (h : isDigit c = true) : quotedChar '\'' c = [c] := by
  -- Every block of ten digits lies outside the tables, and above the mark.
  have hblocks : ∀ first ∈ digitZeros, 48 ≤ first ∧ (first + 10 ≤ 0x7F ∨ 0x80 ≤ first) := by decide
  have htable : (unprintableRanges.all fun range =>
      digitZeros.all fun first => (first + 10).ble range.1 || range.2.blt first) = true := by
    decide +kernel
  have hdigit : ∃ first ∈ digitZeros, first ≤ c.toNat ∧ c.toNat < first + 10 := by
    simpa [isDigit, digitValue?] using h
  rcases hdigit with ⟨first, hfirst, hbounds⟩
  have hblock := hblocks first hfirst
  have hprintable : isPrintable c = true := by
    unfold isPrintable
    split
    next hascii =>
      simp only [Bool.and_eq_true, decide_eq_true_eq]
      omega
    next =>
      rw [CodeRanges.has, Bool.not_eq_true', List.any_eq_false]
      intro range hrange
      have hdisjoint := List.all_eq_true.1 (List.all_eq_true.1 htable range hrange) first hfirst
      simp only [Bool.or_eq_true, Nat.ble_eq, Nat.blt_eq] at hdisjoint
      simp only [Bool.and_eq_true, decide_eq_true_eq, not_and, Nat.not_le]
      omega
  refine quotedChar_of_isPrintable hprintable ?_ ?_
  · rintro rfl
    exact absurd h (by decide)
  · rintro rfl
    exact absurd h (by decide)

theorem quotedChar_of_isWordPart {c : Char} (h : isWordPart c = true) :
    quotedChar '\'' c = [c] := by
  have hbounds := isWordPart_bounds h
  have hascii : c.toNat < 0x80 := by omega
  have hprintable : isPrintable c = true := by
    rw [isPrintable, if_pos hascii, Bool.and_eq_true, decide_eq_true_eq, decide_eq_true_eq]
    omega
  refine quotedChar_of_isPrintable hprintable ?_ ?_
  · rintro rfl
    exact absurd h (by decide)
  · rintro rfl
    exact absurd h (by decide)

/-- Nothing in the text of a lexeme is escaped. -/
theorem TokenKind.Spells.quotedChar_eq {kind : TokenKind} {text : List Char}
    (h : kind.Spells text) : ∀ c ∈ text, quotedChar '\'' c = [c] := by
  cases kind with
  | int => exact fun c hc => quotedChar_of_isDigit (h.2 c hc)
  | double =>
    rcases h with ⟨whole, fraction, rfl, hwhole, hfraction⟩
    intro c hc
    rcases List.mem_append.1 hc with hc | hc
    · exact quotedChar_of_isDigit (hwhole.2 c hc)
    · rcases List.mem_cons.1 hc with rfl | hc
      · decide
      · exact quotedChar_of_isDigit (hfraction.2 c hc)
  | ident =>
    rcases h with ⟨d, cs, rfl, hd, hcs⟩
    intro c hc
    rcases List.mem_cons.1 hc with rfl | hc
    · exact quotedChar_of_isWordPart (isWordPart_of_isWordStart hd)
    · exact quotedChar_of_isWordPart (hcs c hc)
  | not | eq | neq | lt | lte | gt | gte | eof => cases h
  | _ =>
    have hall : text.all (fun c => quotedChar '\'' c == [c]) = true := by
      cases h
      decide
    simpa using hall

/-- In a message the text of a lexeme stands between single marks. -/
theorem TokenKind.Spells.quoted_eq {kind : TokenKind} {text : List Char} (h : kind.Spells text) :
    quoted (String.ofList text) = "'" ++ String.ofList text ++ "'" := by
  have hplain := h.quotedChar_eq
  have hmark : '\'' ∉ text := fun hmem => absurd (hplain _ hmem) (by decide)
  have hkept : text.flatMap (quotedChar '\'') = text := by
    clear hmark h
    induction text with
    | nil => rfl
    | cons c text ih =>
      rw [List.flatMap_cons, hplain c List.mem_cons_self, ih fun d hd => hplain d (by simp [hd])]
      rfl
  apply String.ext
  simp [quoted, quoteMark, hmark, hkept]

end LetLang
