import LetLang.Proofs.Convertible
import LetLang.Proofs.Number.DoubleTexts

/-!
# Displayed values read back

The text of a value is read back as the value when it stands on its own, and its kind is kept. As a
source text it is the literal of the value only if it needs neither a sign, nor an exponent, nor a
word for a number.
-/

namespace LetLang

open Grammar

/-! ## Literals of values -/

namespace Value

/-- The literal of a value on a line; a value from outside the language has none. -/
def literal (line : Option Int) : Value → Tree
  | .integer n => .int n line
  | .double x => .double x line
  | .boolean b => .bool b line
  | .foreign _ => .hole

/-- The value is a truth value, an integer without a sign, or a double whose text is digits, a point
and digits. -/
def HasSourceForm : Value → Prop
  | .integer n => 0 ≤ n
  | .double x => TokenKind.double.Spells x.textChars
  | .boolean _ => True
  | .foreign _ => False

variable {v : Value}

theorem isLiteral_literal (h : v.IsNative) (line : Option Int) :
    (v.literal line).IsLiteral v := by
  cases v with
  | integer n => exact .int n line
  | double x => exact .double x line
  | boolean b => exact .bool b line
  | foreign f => exact h.elim

theorem line_literal (h : v.IsNative) (line : Option Int) : (v.literal line).line = line := by
  cases v with
  | integer _ | double _ | boolean _ => rfl
  | foreign f => exact h.elim

end Value

/-- A literal tree is determined by its value and its line. -/
theorem Tree.IsLiteral.eq_literal {t : Tree} {v : Value} (h : t.IsLiteral v) :
    t = v.literal t.line := by
  cases h with
  | int _ _ | double _ _ | bool _ _ => rfl

/-! ## Characters of texts -/

/-- The text of a value of the language has neither layout nor parentheses. -/
theorem Value.shown_chars {v : Value} (h : v.IsNative) :
    ∀ c ∈ v.shown.toList, isBlank c = false ∧ c ≠ '#' ∧ c ≠ '(' := by
  have htext {c : Char} (hc : Binary64.IsTextChar c) :
      isBlank c = false ∧ c ≠ '#' ∧ c ≠ '(' := by
    refine ⟨hc.isBlank_eq_false, ?_, ?_⟩
    · rintro rfl
      exact absurd hc (by decide)
    · rintro rfl
      exact absurd hc (by decide)
  cases v with
  | integer n =>
    intro c hc
    exact htext (Binary64.isTextChar_numeralChars n c (by simpa [shown] using hc))
  | double x =>
    intro c hc
    exact htext (x.isTextChar_textChars c (by simpa [shown, Binary64.text] using hc))
  | boolean b =>
    have hword : (boolean b).shown.toList.all (fun c => !isBlank c && (c != '#' && c != '(')) =
        true := by
      cases b <;> decide
    simpa using hword
  | foreign f => exact h.elim

/-! ## Texts on their own -/

namespace Literal

/-- A text of digits and what stands beside them is no truth value, and it has no blanks. -/
theorem read?_of_isTextChar {cs : List Char} (hne : cs ≠ [])
    (h : ∀ c ∈ cs, Binary64.IsTextChar c) :
    read? (String.ofList cs) = match integerOf? cs with
      | some n => some (.integer n)
      | none => (doubleOf? cs).map .double := by
  have htrim : trim cs = cs := by
    have htrim := trim_eq_of_blanks (List.forall_mem_nil _) (List.forall_mem_nil _) hne
      fun c hc => (h c hc).isBlank_eq_false
    rwa [List.nil_append, List.append_nil] at htrim
  -- Either word has a letter that stands in no number.
  have hword {word : List Char} {c : Char} (hc : c ∈ word) (htext : ¬ Binary64.IsTextChar c) :
      cs ≠ word := by
    rintro rfl
    exact htext (h c hc)
  have htrue : cs ≠ ['t', 'r', 'u', 'e'] := hword (c := 't') (by decide) (by decide)
  have hfalse : cs ≠ ['f', 'a', 'l', 's', 'e'] := hword (c := 'l') (by decide) (by decide)
  rw [read?, String.toList_ofList, htrim, if_neg htrue]
  exact if_neg hfalse

/-- The text of an integer within the limit is read as the integer. -/
theorem integerOf?_numeralChars {n : Int} (h : IsConvertible n) :
    integerOf? (numeralChars n) = some n := by
  have hdigits := isDigits_toDigits n.natAbs
  simp only [integerOf?, sign_numeralChars, digitRun_of_isDigits hdigits, digitsValue_toDigits,
    signed_natAbs]
  simp [hdigits.1, isConvertible_iff.1 h]

/-- What is neither digit nor underscore is left behind a run of digits. -/
theorem mem_moreDigits {cs : List Char} {c : Char} (h : c ∈ cs) :
    isDigit c = true ∨ c = '_' ∨ c ∈ (moreDigits cs).2 := by
  -- The run goes on with an underscore in front of a digit or with a digit, or else it ends here.
  fun_induction moreDigits cs with
  | case1 => cases h
  | case2 d cs hd tail ih =>
    simp only [List.mem_cons] at h
    rcases h with rfl | rfl | h
    · exact .inr (.inl rfl)
    · exact .inl hd
    · exact ih h
  | case3 d cs hd => exact .inr (.inr h)
  | case4 d cs _ hd tail ih =>
    rcases List.mem_cons.1 h with rfl | h
    · exact .inl hd
    · exact ih h
  | case5 d cs _ hd => exact .inr (.inr h)

/-- Reading a run of digits loses digits and underscores only. -/
theorem mem_digitRun {cs : List Char} {c : Char} (h : c ∈ cs) :
    isDigit c = true ∨ c = '_' ∨ c ∈ (digitRun cs).2 := by
  unfold digitRun
  split
  · cases h
  · split
    · next hd =>
      rcases List.mem_cons.1 h with rfl | h
      · exact .inl hd
      · exact mem_moreDigits h
    · exact .inr (.inr h)

/-- Reading a sign loses the sign only. -/
theorem mem_sign {cs : List Char} {c : Char} (h : c ∈ cs) :
    c = '-' ∨ c = '+' ∨ c ∈ (sign cs).2 := by
  unfold sign
  split
  · exact (List.mem_cons.1 h).imp_right .inr
  · exact .inr (List.mem_cons.1 h)
  · exact .inr (.inr h)

/-- Nothing stands in the text of an integer beside digits, underscores and a sign. -/
theorem mem_of_integerOf? {cs : List Char} {n : Int} (h : integerOf? cs = some n) :
    ∀ c ∈ cs, isDigit c = true ∨ c ∈ ['_', '-', '+'] := by
  have htail : (digitRun (sign cs).2).2 = [] := by
    simp only [integerOf?] at h
    split at h
    · cases h
    · next hwhole =>
      simp only [Bool.or_eq_true, not_or, Bool.not_eq_true', Bool.not_eq_false,
        List.isEmpty_iff] at hwhole
      exact hwhole.1.2
  intro c hc
  rcases mem_sign hc with rfl | rfl | hc
  · exact .inr (by decide)
  · exact .inr (by decide)
  · rcases mem_digitRun hc with hdigit | rfl | hc
    · exact .inl hdigit
    · exact .inr (by decide)
    · rw [htail] at hc
      cases hc

end Literal

/-! ## Texts of doubles -/

/-- What is spelled like a double in a source text has digits and a point only. -/
theorem TokenKind.isDigit_or_point_of_double {text : List Char}
    (h : TokenKind.double.Spells text) : ∀ c ∈ text, isDigit c = true ∨ c = '.' := by
  obtain ⟨whole, fraction, rfl, hwhole, hfraction⟩ := h
  intro c hc
  rcases List.mem_append.1 hc with hc | hc
  · exact .inl (hwhole.2 c hc)
  · rcases List.mem_cons.1 hc with rfl | hc
    · exact .inr rfl
    · exact .inl (hfraction.2 c hc)

/-- In scientific notation a letter stands between the digits. -/
theorem Decimal.exponent_mem_scientific (style : DecimalStyle) (digits : List Char)
    (leading : Int) : 'e' ∈ scientific style digits leading :=
  List.mem_append_right _ List.mem_cons_self

namespace Binary64

/-- A magnitude that is written without an exponent is digits around a point. -/
theorem spells_written {magnitude : Magnitude} (h : 'e' ∉ magnitude.written) :
    TokenKind.double.Spells magnitude.written := by
  unfold Magnitude.written at h ⊢
  split at h
  next hzero =>
    rw [if_pos hzero]
    exact ⟨['0'], ['0'], rfl, isDigits_toDigits 0, isDigits_toDigits 0⟩
  next hpos =>
    -- Either layout has digits on its left; only the scientific one ends in an exponent.
    rw [if_neg hpos]
    unfold Decimal.written at h ⊢
    split at h
    next hpositional =>
      rw [if_pos hpositional]
      have hdigits :=
        Decimal.isDigits_significantDigits _ (Magnitude.digits_shortest_ne_zero hpos)
      obtain ⟨whole, fraction, htext, hwhole, hfraction, -⟩ :=
        Decimal.exists_positional hdigits magnitude.shortest.leadingExponent
      exact ⟨whole, fraction, htext, hwhole, hfraction⟩
    next => exact absurd (Decimal.exponent_mem_scientific _ _ _) h

/-- The doubles that are written with a point and nothing else are finite, and their texts have
neither a sign nor an exponent. -/
theorem spells_textChars_iff {x : Binary64} :
    TokenKind.double.Spells x.textChars ↔
      (∃ magnitude, x = .finite false magnitude) ∧ 'e' ∉ x.textChars := by
  constructor
  · intro h
    -- A sign, an exponent or a word would bring in another character.
    have hnone {c : Char} (hc : ¬ (isDigit c = true ∨ c = '.')) : c ∉ x.textChars :=
      fun hmem => hc (TokenKind.isDigit_or_point_of_double h c hmem)
    refine ⟨?_, hnone (by decide)⟩
    cases x with
    | nan => exact absurd List.mem_cons_self (hnone (c := 'n') (by decide))
    | infinite negative =>
      have hmem : 'n' ∈ (infinite negative).textChars := by cases negative <;> decide
      exact absurd hmem (hnone (by decide))
    | finite negative magnitude =>
      cases negative with
      | false => exact ⟨magnitude, rfl⟩
      | true => exact absurd List.mem_cons_self (hnone (c := '-') (by decide))
  · rintro ⟨⟨magnitude, rfl⟩, h⟩
    exact spells_written h

/-- Every double has something in its text that no integer has. -/
theorem exists_mark (x : Binary64) : ∃ c ∈ x.textChars, c ∈ ['.', 'e', 'n'] := by
  cases x with
  | nan => exact ⟨'n', by decide, by decide⟩
  | infinite negative => exact ⟨'n', by cases negative <;> decide, by decide⟩
  | finite negative magnitude =>
    -- Where there is no exponent, there is a point.
    by_cases h : 'e' ∈ magnitude.written
    · exact ⟨'e', List.mem_append_right _ h, by decide⟩
    · obtain ⟨whole, fraction, htext, -, -⟩ := spells_written h
      have hpoint : '.' ∈ magnitude.written :=
        htext ▸ List.mem_append_right _ List.mem_cons_self
      exact ⟨'.', List.mem_append_right _ hpoint, by decide⟩

end Binary64

namespace Literal

/-- The text of a double is no integer. -/
theorem integerOf?_textChars (x : Binary64) : integerOf? x.textChars = none := by
  obtain ⟨c, hc, hmark⟩ := x.exists_mark
  cases h : integerOf? x.textChars with
  | none => rfl
  | some n =>
    have hchar := mem_of_integerOf? h c hc
    simp only [List.mem_cons, List.not_mem_nil, or_false] at hmark
    rcases hmark with rfl | rfl | rfl <;> exact absurd hchar (by decide)

/-- The text of a value is read as the value. -/
theorem read?_shown {v : Value} (h : v.IsPlain) : read? v.shown = some v := by
  cases v with
  | integer n =>
    have hread := integerOf?_numeralChars h.2
    have hne : numeralChars n ≠ [] := fun hnil => by
      rw [hnil] at hread
      cases hread
    rw [Value.shown, numeral, read?_of_isTextChar hne (Binary64.isTextChar_numeralChars n), hread]
  | double x =>
    obtain ⟨c, hc, -⟩ := x.exists_mark
    rw [Value.shown, Binary64.text,
      read?_of_isTextChar (List.ne_nil_of_mem hc) x.isTextChar_textChars, integerOf?_textChars,
      doubleOf?_textChars]
    rfl
  | boolean b => cases b <;> decide
  | foreign f => exact h.1.elim

end Literal

/-! ## Texts as source texts -/

theorem Grammar.Leaf.line_eq {lexeme : Lexeme} {tree : Tree} (h : Leaf lexeme tree) :
    tree.line = some lexeme.line := by
  cases h with
  | int _ | double _ | true _ | false _ | ident _ => rfl

namespace Source

variable {text : String} {v : Value}

/-- The text of a literal is read as the literal, on the first line. -/
theorem read_of_spelled (h : Literal.Spelled text.toList v) :
    Source.read text = .ok (v.literal (some 1)) := by
  obtain ⟨kind, htakes, hlength, hleaf⟩ := h.exists_takes
  obtain ⟨tree, htree, hliteral⟩ := hleaf (Position.start.after [])
  have hread := read_of_leaf (List.forall_mem_nil _) htakes htree hlength
  rw [List.nil_append, String.ofList_toList] at hread
  rw [hread, hliteral.eq_literal, htree.line_eq]
  rfl

/-- A text without layout and parentheses is read as a literal only if it is spelled like one. -/
theorem spelled_of_read (h : ∀ c ∈ text.toList, isBlank c = false ∧ c ≠ '#' ∧ c ≠ '(')
    {tree : Tree} (hread : Source.read text = .ok tree) (hliteral : tree.IsLiteral v) :
    Literal.Spelled text.toList v := by
  have hcomment : '#' ∉ text.toList := fun hmem => (h _ hmem).2.1 rfl
  have hparenthesis : '(' ∉ text.toList := fun hmem => (h _ hmem).2.2 rfl
  obtain ⟨before, core, after, htext, hbefore, hafter, hcore⟩ :=
    exists_spelled hread hliteral hcomment hparenthesis
  -- Spacing is blank, so none of it stands in the text.
  have hnil {gap : List Char} (hgap : ∀ c ∈ gap, isSpacing c = true)
      (hsubset : gap ⊆ text.toList) : gap = [] := by
    refine List.eq_nil_iff_forall_not_mem.2 fun c hc => ?_
    have hblank := isBlank_of_isSpacing (hgap c hc)
    rw [(h c (hsubset hc)).1] at hblank
    cases hblank
  have hfront : before = [] := hnil hbefore (by simp [htext])
  have hback : after = [] := hnil hafter (by simp [htext])
  rw [htext, hfront, hback, List.nil_append, List.append_nil]
  exact hcore

/-- A text without layout and parentheses is read as the literal of a value exactly if it spells the
value. -/
theorem read_eq_literal_iff (hv : v.IsNative)
    (h : ∀ c ∈ text.toList, isBlank c = false ∧ c ≠ '#' ∧ c ≠ '(') (line : Option Int) :
    Source.read text = .ok (v.literal line) ↔
      line = some 1 ∧ Literal.Spelled text.toList v := by
  constructor
  · intro hread
    have hspelled := spelled_of_read h hread (Value.isLiteral_literal hv line)
    refine ⟨?_, hspelled⟩
    -- The text has one reading, and that is on the first line.
    rw [read_of_spelled hspelled] at hread
    have hlines := congrArg Tree.line (Except.ok.inj hread)
    rw [Value.line_literal hv, Value.line_literal hv] at hlines
    exact hlines.symm
  · rintro ⟨rfl, hspelled⟩
    exact read_of_spelled hspelled

/-- No source text starts with a minus sign. -/
theorem read_minus (cs : List Char) :
    Source.read (String.ofList ('-' :: cs)) =
      .error (.rejected (.unexpected ⟨.sub, ['-'], ⟨1, 1⟩⟩)) := by
  -- The sign is a lexeme, but none that an expression may start with.
  have hstream : Stream.ofSource (String.ofList ('-' :: cs)) =
      ⟨[], .unexpected ⟨.sub, ['-'], ⟨1, 1⟩⟩⟩ := by
    rw [Stream.ofSource, String.toList_ofList, Stream.ofChars_eq_ofFront]
    rfl
  rw [Source.read, parse, hstream]
  rfl

end Source

/-! ## Values with a source form -/

namespace Literal.Spelled

variable {text : List Char}

/-- Integers in a source text have no sign. -/
theorem nonneg_of_integer {n : Int} (h : Spelled text (.integer n)) : 0 ≤ n := by
  cases h with
  | integer _ _ => exact Int.natCast_nonneg _

/-- Doubles in a source text have digits on both sides of a point. -/
theorem spells_of_double {x : Binary64} (h : Spelled text (.double x)) :
    TokenKind.double.Spells text := by
  cases h with
  | double h => exact h

end Literal.Spelled

/-- The numeral of a natural number within the limit spells it. -/
theorem Literal.spelled_numeralChars {n : Int} (h : IsConvertible n) (hn : 0 ≤ n) :
    Spelled (numeralChars n) (.integer n) := by
  have hspelled := Spelled.integer (isDigits_numeralChars hn)
    (length_numeralChars_le hn (by decide) h)
  rwa [digitsValue_numeralChars hn] at hspelled

/-- The text of a double spells it, provided that it has the form of a literal. -/
theorem Literal.spelled_textChars {x : Binary64} (h : TokenKind.double.Spells x.textChars) :
    Spelled x.textChars (.double x) := by
  have hspelled := Spelled.double h
  obtain ⟨whole, fraction, htext, hwhole, hfraction⟩ := h
  -- Both readers make the same double of the text.
  have hread := doubleOf?_textChars x
  rw [htext, doubleOf?_of_point hwhole hfraction, ← htext] at hread
  rwa [Option.some.inj hread] at hspelled

/-- The displayed values that are spelled like literals of source texts. -/
theorem Value.spelled_shown_iff {v : Value} (h : v.IsPlain) :
    Literal.Spelled v.shown.toList v ↔ v.HasSourceForm := by
  cases v with
  | integer n =>
    rw [shown, toList_numeral]
    exact ⟨fun hspelled => hspelled.nonneg_of_integer, Literal.spelled_numeralChars h.2⟩
  | double x =>
    rw [shown, Binary64.text, String.toList_ofList]
    exact ⟨fun hspelled => hspelled.spells_of_double, Literal.spelled_textChars⟩
  | boolean b =>
    refine ⟨fun _ => trivial, fun _ => ?_⟩
    cases b with
    | true => exact .trueWord rfl
    | false => exact .falseWord rfl
  | foreign f => exact h.1.elim

/-! ## Displayed values -/

/-- Displayed values read back. On its own the text of a value within the limits is the value. As a
source text it is the literal of the value on the first line exactly if the value has a source form,
and a negative integer is rejected at its sign. A double has a source form exactly if it is finite
and its text has neither a sign nor an exponent. -/
theorem displayed_values_read_back {v : Value} (h : v.IsPlain) :
    Literal.read? v.shown = some v ∧
      (∀ line, Source.read v.shown = .ok (v.literal line) ↔ line = some 1 ∧ v.HasSourceForm) ∧
      (∀ n, v = .integer n → n < 0 →
        Source.read v.shown = .error (.rejected (.unexpected ⟨.sub, ['-'], ⟨1, 1⟩⟩))) ∧
      ∀ x, v = .double x →
        (v.HasSourceForm ↔ (∃ magnitude, x = .finite false magnitude) ∧ 'e' ∉ v.shown.toList) := by
  refine ⟨Literal.read?_shown h, fun line => ?_, ?_, ?_⟩
  · rw [Source.read_eq_literal_iff h.1 (Value.shown_chars h.1), Value.spelled_shown_iff h]
  · rintro n rfl hn
    rw [Value.shown, numeral, numeralChars, if_pos hn]
    exact Source.read_minus _
  · rintro x rfl
    rw [Value.shown, Binary64.text, String.toList_ofList]
    exact Binary64.spells_textChars_iff

/-- The greatest integer within the limit, the least one, whose sign does not count as a digit, and
a whole double whose text has no point. -/
theorem displayed_values_read_back_limits :
    Source.read (numeral (tenPow 4300 - 1)) = .ok (.int (tenPow 4300 - 1) (some 1)) ∧
      (Literal.read? (numeral (1 - tenPow 4300)) = some (.integer (1 - tenPow 4300)) ∧
        Source.read (numeral (1 - tenPow 4300)) =
          .error (.rejected (.unexpected ⟨.sub, ['-'], ⟨1, 1⟩⟩))) ∧
      Literal.read? "1e+16" = some (.double (Decimal.toBinary64 false ⟨1, 16⟩)) ∧
        ∀ line, Source.read "1e+16" ≠ .ok (.double (Decimal.toBinary64 false ⟨1, 16⟩) line) := by
  have hten : 10 ≤ tenPow 4300 := tenPow_le_tenPow (show 1 ≤ 4300 by decide)
  have hlimit {n : Int} (hn : n.natAbs < tenPow 4300) : (Value.integer n).IsPlain := ⟨trivial, hn⟩
  refine ⟨?_, ?_, ?_⟩
  · have hgreatest : 0 ≤ (tenPow 4300 - 1 : Int) := by omega
    obtain ⟨-, hsource, -, -⟩ :=
      displayed_values_read_back (v := .integer (tenPow 4300 - 1)) (hlimit (by omega))
    exact (hsource (some 1)).2 ⟨rfl, hgreatest⟩
  · have hleast : (1 - tenPow 4300 : Int) < 0 := by omega
    obtain ⟨hread, -, hsource, -⟩ :=
      displayed_values_read_back (v := .integer (1 - tenPow 4300)) (hlimit (by omega))
    exact ⟨hread, hsource _ rfl hleast⟩
  · have htext : (Decimal.toBinary64 false ⟨1, 16⟩).text = "1e+16" := by decide +kernel
    obtain ⟨hread, hsource, -, hform⟩ :=
      displayed_values_read_back (v := .double (Decimal.toBinary64 false ⟨1, 16⟩))
        ⟨trivial, trivial⟩
    rw [Value.shown, htext] at hread hsource hform
    refine ⟨hread, fun line hline => ?_⟩
    have hplain := ((hform _ rfl).1 ((hsource line).1 hline).2).2
    exact hplain (by decide)

end LetLang
