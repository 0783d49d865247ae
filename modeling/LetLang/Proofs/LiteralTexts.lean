import LetLang.Literal
import LetLang.Proofs.DefinitionAsLet
import LetLang.Proofs.Source.Spelling
import LetLang.Proofs.Substitution

/-!
# Literals read in two ways

A literal can be read as a source text, or on its own by `Literal.read?`. The two readers agree on
every text without comment and parenthesis that a source text may be: both find the text of a
literal (`Literal.Spelled`) between layout.
-/

namespace LetLang

open Grammar

inductive Literal.Spelled : List Char → Value → Prop where
  | integer {text : List Char} (h : TokenKind.int.Spells text)
      (hlength : text.length ≤ Source.maxIntegerDigits) :
      Spelled text (.integer (digitsValue text))
  | double {text : List Char} (h : TokenKind.double.Spells text) :
      Spelled text (.double (doubleOfDigits text))
  | trueWord {text : List Char} (h : TokenKind.trueWord.Spells text) :
      Spelled text (.boolean true)
  | falseWord {text : List Char} (h : TokenKind.falseWord.Spells text) :
      Spelled text (.boolean false)

/-! ## From source texts -/

/-- A derivation of a literal has one lexeme, unless there are parentheses. -/
theorem Grammar.Derivation.exists_leaf {n : Nonterminal} (d : Derivation n) {v : Value}
    (hliteral : d.tree.IsLiteral v) (hparenthesis : ∀ lexeme ∈ d.yield, lexeme.kind ≠ .lpar) :
    ∃ lexeme, d.yield = [lexeme] ∧ Leaf lexeme d.tree := by
  induction d with
  | letIn _ _ _ _ _ _ _ _ | operation _ _ _ _ _ _ => cases hliteral
  | operations inner ih | operand level inner ih => exact ih hliteral hparenthesis
  | leaf lexeme tree isLeaf => exact ⟨lexeme, rfl, isLeaf⟩
  | parenthesis lpar inner rpar _ =>
    exact absurd (List.mem_singleton.1 lpar.kind_mem) (hparenthesis _ List.mem_cons_self)

/-- Layout without comments is spacing. -/
theorem Gap.isSpacing_of_mem {gap rest : List Char} (h : Gap gap rest) (hcomment : '#' ∉ gap) :
    ∀ c ∈ gap, isSpacing c = true := by
  induction h with
  | nil _ _ => simp
  | spacing hc _ ih =>
    exact List.forall_mem_cons.2 ⟨hc, ih fun hmem => hcomment (List.mem_cons_of_mem _ hmem)⟩
  | comment _ _ _ _ => exact absurd List.mem_cons_self hcomment

/-- A leaf with a value is spelled as a literal of it. -/
theorem Grammar.Leaf.spelled {lexeme : Lexeme} {tree : Tree} {v : Value} (h : Leaf lexeme tree)
    (hliteral : tree.IsLiteral v) (hspells : lexeme.kind.Spells lexeme.text)
    (hlength : lexeme.kind = .int → lexeme.text.length ≤ Source.maxIntegerDigits) :
    Literal.Spelled lexeme.text v := by
  cases h with
  | int hkind =>
    cases hliteral
    rw [hkind] at hspells
    exact .integer hspells (hlength hkind)
  | double hkind =>
    cases hliteral
    rw [hkind] at hspells
    exact .double hspells
  | true hkind =>
    cases hliteral
    rw [hkind] at hspells
    exact .trueWord hspells
  | false hkind =>
    cases hliteral
    rw [hkind] at hspells
    exact .falseWord hspells
  | ident _ => cases hliteral

/-- A source text that is a literal spells it between layout. -/
theorem Source.exists_spelled {text : String} {tree : Tree} {v : Value}
    (hread : Source.read text = .ok tree) (hliteral : tree.IsLiteral v)
    (hcomment : '#' ∉ text.toList) (hparenthesis : '(' ∉ text.toList) :
    ∃ before core after, text.toList = before ++ (core ++ after) ∧
      (∀ c ∈ before, isSpacing c = true) ∧ (∀ c ∈ after, isSpacing c = true) ∧
      Literal.Spelled core v := by
  obtain ⟨d, htokens, rfl, hshort⟩ := Source.read_eq_ok_iff.1 hread
  have hspells := Tokenizes.spells_of_mem htokens
  -- A parenthesis among the lexemes would stand in the text.
  have hplain : ∀ lexeme ∈ d.yield, lexeme.kind ≠ .lpar := by
    intro lexeme hlexeme hkind
    obtain ⟨hspelling, hsubset⟩ := hspells lexeme hlexeme
    rw [hkind] at hspelling
    have htext : lexeme.text = ['('] := (Option.some.inj hspelling).symm
    exact hparenthesis (hsubset (htext ▸ List.mem_singleton.2 rfl))
  obtain ⟨lexeme, hyield, hleaf⟩ := d.exists_leaf hliteral hplain
  have hlength := Source.oversized?_eq_none_iff.1 hshort
  rw [hyield] at htokens hspells hlength
  have hcore := hleaf.spelled hliteral (hspells lexeme List.mem_cons_self).1
    (hlength lexeme List.mem_cons_self)
  -- The one lexeme stands between two gaps, and a gap without comment is spacing.
  unfold Source.Tokenized at htokens
  generalize text.toList = cs at htokens hcomment
  cases htokens with
  | @lexeme _ _ gap core rest _ _ hgap _ hrest =>
    cases hrest with
    | done hend =>
      refine ⟨gap, core, rest, rfl, ?_, ?_, hcore⟩
      · exact hgap.isSpacing_of_mem fun hmem => hcomment (List.mem_append_left _ hmem)
      · exact hend.isSpacing_of_mem fun hmem =>
          hcomment (List.mem_append_right _ (List.mem_append_right _ hmem))

/-! ## To source texts -/

theorem Gap.of_isSpacing {gap rest : List Char} (h : ∀ c ∈ gap, isSpacing c = true)
    (hrest : Gap [] rest) : Gap gap rest := by
  induction gap with
  | nil => exact hrest
  | cons c gap ih =>
    obtain ⟨hc, hgap⟩ := List.forall_mem_cons.1 h
    exact .spacing hc (ih hgap)

/-- A leaf is read with spacing in front of it. -/
theorem Source.read_of_leaf {kind : TokenKind} {before text : List Char} {tree : Tree}
    (hbefore : ∀ c ∈ before, isSpacing c = true) (htakes : Context.Takes .expression ⟨kind, text⟩)
    (hleaf : Leaf ⟨kind, text, Position.start.after before⟩ tree)
    (hlength : kind = .int → text.length ≤ Source.maxIntegerDigits) :
    Source.read (String.ofList (before ++ text)) = .ok tree := by
  have hreads : Context.Reads .expression kind text [] := htakes [] (by simp [EndsWord])
  have hend : Gap [] [] := .nil (by simp [StopsAt]) (by simp)
  have htokens : Tokenizes .expression .start (before ++ (text ++ []))
      [⟨kind, text, Position.start.after before⟩] :=
    .lexeme (Gap.of_isSpacing hbefore hreads.gap_nil) hreads (.done hend)
  have hderives : Derives .expression [⟨kind, text, Position.start.after before⟩] tree :=
    (Derives.leaf (leaf?_eq_some_iff.2 hleaf)).weaken (Nat.zero_le _)
  obtain ⟨d, hyield, htree⟩ := hderives
  refine Source.read_eq_ok_iff.2 ⟨d, ?_, htree, ?_⟩
  · rw [hyield, Source.Tokenized, String.toList_ofList]
    rwa [List.append_nil] at htokens
  · rw [hyield]
    exact Source.oversized?_eq_none_iff.2 (List.forall_mem_singleton.2 hlength)

namespace Literal

variable {before core after : List Char} {v : Value}

/-- The text of a literal is one word where an expression may stand. -/
theorem Spelled.exists_takes (h : Spelled core v) :
    ∃ kind, Context.Takes .expression ⟨kind, core⟩ ∧
      (kind = .int → core.length ≤ Source.maxIntegerDigits) ∧
      ∀ position, ∃ tree, Leaf ⟨kind, core, position⟩ tree ∧ tree.IsLiteral v := by
  cases h with
  | integer h hlength =>
    refine ⟨.int, Context.takes (by decide) h nofun, fun _ => hlength, ?_⟩
    exact fun position => ⟨_, .int rfl, .int _ _⟩
  | double h =>
    refine ⟨.double, Context.takes (by decide) h nofun, nofun, ?_⟩
    exact fun position => ⟨_, .double rfl, .double _ _⟩
  | trueWord h =>
    refine ⟨.trueWord, Context.takes (by decide) h nofun, nofun, ?_⟩
    exact fun position => ⟨_, .true rfl, .bool _ _⟩
  | falseWord h =>
    refine ⟨.falseWord, Context.takes (by decide) h nofun, nofun, ?_⟩
    exact fun position => ⟨_, .false rfl, .bool _ _⟩

/-- The converse: layout in front of a spelled literal is read as its tree. -/
theorem Spelled.exists_read (h : Spelled core v) (hbefore : ∀ c ∈ before, isSpacing c = true) :
    ∃ tree, Source.read (String.ofList (before ++ core)) = .ok tree ∧ tree.IsLiteral v := by
  obtain ⟨kind, htakes, hlength, hleaf⟩ := h.exists_takes
  obtain ⟨tree, htree, hliteral⟩ := hleaf (Position.start.after before)
  exact ⟨tree, Source.read_of_leaf hbefore htakes htree hlength, hliteral⟩

/-- The text of a literal is not empty and has no blanks. -/
theorem Spelled.isBlank_eq_false (h : Spelled core v) :
    core ≠ [] ∧ ∀ c ∈ core, isBlank c = false := by
  obtain ⟨kind, htakes, -, -⟩ := h.exists_takes
  have hreads : Context.Reads .expression kind core [] := htakes [] (by simp [EndsWord])
  exact ⟨hreads.text_ne_nil, hreads.isBlank_eq_false⟩

/-! ## To literals on their own -/

/-- Blanks on both sides are dropped, and nothing else. -/
theorem trim_eq_of_blanks (hbefore : ∀ c ∈ before, isBlank c = true)
    (hafter : ∀ c ∈ after, isBlank c = true) (hne : core ≠ [])
    (hcore : ∀ c ∈ core, isBlank c = false) : trim (before ++ (core ++ after)) = core := by
  have hstops {text : List Char} (htext : ∀ c ∈ text, isBlank c = false) (hne : text ≠ [])
      (rest : List Char) : StopsAt isBlank (text ++ rest) := by
    cases text with
    | nil => exact absurd rfl hne
    | cons c text =>
      intro d hd
      cases hd
      exact htext c List.mem_cons_self
  have hreverse : (core ++ after).reverse.dropWhile isBlank = core.reverse := by
    have hstop := hstops (fun c hc => hcore c (List.mem_reverse.1 hc))
      (List.reverse_ne_nil_iff.2 hne) []
    rw [List.append_nil] at hstop
    rw [List.reverse_append]
    exact dropWhile_append_of_stopsAt (fun c hc => hafter c (List.mem_reverse.1 hc)) hstop
  rw [trim, dropWhile_append_of_stopsAt hbefore (hstops hcore hne after), hreverse,
    List.reverse_reverse]

/-- A run of digits ends where something else than a digit or an underscore stands. -/
theorem moreDigits_append {digits rest : List Char} (h : ∀ c ∈ digits, isDigit c = true)
    (hrest : StopsAt isDigit rest) (hunderscore : rest.head? ≠ some '_') :
    moreDigits (digits ++ rest) = (digits, rest) := by
  induction digits with
  | nil =>
    rw [List.nil_append]
    unfold moreDigits
    split
    · rfl
    · exact absurd rfl hunderscore
    · next c cs _ => rw [hrest c rfl, if_neg (by decide)]
  | cons c digits ih =>
    obtain ⟨hc, hdigits⟩ := List.forall_mem_cons.1 h
    rw [List.cons_append]
    unfold moreDigits
    split
    · next heq => cases heq
    · next heq =>
      obtain ⟨rfl, -⟩ := List.cons.inj heq
      exact absurd hc (by decide)
    · next heq =>
      obtain ⟨rfl, rfl⟩ := List.cons.inj heq
      rw [if_pos hc, ih hdigits]

/-- A run of digits is taken whole. -/
theorem digitRun_append {digits rest : List Char} (h : IsDigits digits)
    (hrest : StopsAt isDigit rest) (hunderscore : rest.head? ≠ some '_') :
    digitRun (digits ++ rest) = (digits, rest) := by
  cases digits with
  | nil => exact absurd rfl h.1
  | cons c digits =>
    obtain ⟨hc, hdigits⟩ := List.forall_mem_cons.1 h.2
    rw [List.cons_append, digitRun, if_pos hc, moreDigits_append hdigits hrest hunderscore]

theorem digitRun_of_isDigits {digits : List Char} (h : IsDigits digits) :
    digitRun digits = (digits, []) := by
  have hrun : digitRun (digits ++ []) = (digits, []) :=
    digitRun_append h (by simp [StopsAt]) (by simp)
  rwa [List.append_nil] at hrun

/-- Digits have no sign in front of them. -/
theorem sign_append {digits : List Char} (h : IsDigits digits) (rest : List Char) :
    sign (digits ++ rest) = (false, digits ++ rest) := by
  cases digits with
  | nil => exact absurd rfl h.1
  | cons c digits =>
    have hc := h.2 c List.mem_cons_self
    unfold sign
    split
    · next heq =>
      cases heq
      exact absurd hc (by decide)
    · next heq =>
      cases heq
      exact absurd hc (by decide)
    · rfl

/-- A text that starts with digits is no truth value. -/
theorem read?_of_digits {text : String} {digits rest : List Char} (h : IsDigits digits)
    (htrim : trim text.toList = digits ++ rest) :
    read? text = match integerOf? (digits ++ rest) with
      | some n => some (.integer n)
      | none => (doubleOf? (digits ++ rest)).map .double := by
  have hword (c : Char) (cs : List Char) (hc : isDigit c = false) : digits ++ rest ≠ c :: cs := by
    cases digits with
    | nil => exact absurd rfl h.1
    | cons d digits =>
      rintro heq
      cases heq
      rw [h.2 c List.mem_cons_self] at hc
      cases hc
  rw [read?, htrim, if_neg (hword _ _ (by decide))]
  exact if_neg (hword _ _ (by decide))

/-- A run of digits is the integer that the digits stand for. -/
theorem integerOf?_of_isDigits {digits : List Char} (h : IsDigits digits)
    (hlength : digits.length ≤ Source.maxIntegerDigits) :
    integerOf? digits = some (digitsValue digits : Int) := by
  have hsign : sign digits = (false, digits) := by
    have hsign := sign_append h []
    rwa [List.append_nil] at hsign
  simp only [integerOf?, hsign, digitRun_of_isDigits h]
  simp [h.1, hlength, signed]

section Double

variable {whole fraction : List Char} (hwhole : IsDigits whole)

include hwhole

/-- The digits in front of the point are taken, and the point is left. -/
theorem digitRun_of_point (fraction : List Char) :
    digitRun (whole ++ '.' :: fraction) = (whole, '.' :: fraction) := by
  have hpoint : StopsAt isDigit ('.' :: fraction) := by
    intro c hc
    cases hc
    decide
  exact digitRun_append hwhole hpoint (by simp)

/-- A number with a point is no integer. -/
theorem integerOf?_of_point (fraction : List Char) :
    integerOf? (whole ++ '.' :: fraction) = none := by
  simp [integerOf?, sign_append hwhole, digitRun_of_point hwhole]

/-- Both readers take digits around a point for the same double. -/
theorem doubleOf?_of_point (hfraction : IsDigits fraction) :
    doubleOf? (whole ++ '.' :: fraction) = some (doubleOfDigits (whole ++ '.' :: fraction)) := by
  have hpoint : StopsAt isDigit ('.' :: fraction) := by
    intro c hc
    cases hc
    decide
  have hdecimal : decimal? (whole ++ '.' :: fraction) =
      some ⟨digitsValue (whole ++ fraction), -(fraction.length : Int)⟩ := by
    simp [decimal?, digitRun_of_point hwhole, digitRun_of_isDigits hfraction, hwhole.1, exponent?]
  simp only [doubleOf?, sign_append hwhole, hdecimal, doubleOfDigits,
    takeWhile_append_of_stopsAt hwhole.2 hpoint, dropWhile_append_of_stopsAt hwhole.2 hpoint,
    List.drop_one, List.tail_cons]

end Double

/-- On its own the literal has the same value, with blanks around it. -/
theorem Spelled.read?_eq (h : Spelled core v) {text : String}
    (htext : text.toList = before ++ (core ++ after)) (hbefore : ∀ c ∈ before, isBlank c = true)
    (hafter : ∀ c ∈ after, isBlank c = true) : read? text = some v := by
  obtain ⟨hne, hcore⟩ := h.isBlank_eq_false
  have htrim : trim text.toList = core := by
    rw [htext]
    exact trim_eq_of_blanks hbefore hafter hne hcore
  -- A literal with a point is no integer, so it is read as a double.
  cases h with
  | integer h hlength =>
    have hsplit : trim text.toList = core ++ [] := by rw [htrim, List.append_nil]
    rw [read?_of_digits h hsplit, List.append_nil, integerOf?_of_isDigits h hlength]
  | double h =>
    obtain ⟨whole, fraction, rfl, hwhole, hfraction⟩ := h
    rw [read?_of_digits hwhole htrim, integerOf?_of_point hwhole,
      doubleOf?_of_point hwhole hfraction]
    rfl
  | trueWord h | falseWord h =>
    cases h
    rw [read?, htrim]
    rfl

/-- What a source text reads as a literal is the same literal on its own. -/
theorem read?_eq_of_read {text : String} {tree : Tree} (hread : Source.read text = .ok tree)
    (hliteral : tree.IsLiteral v) (hcomment : '#' ∉ text.toList)
    (hparenthesis : '(' ∉ text.toList) : read? text = some v := by
  obtain ⟨before, core, after, htext, hbefore, hafter, hcore⟩ :=
    Source.exists_spelled hread hliteral hcomment hparenthesis
  exact hcore.read?_eq htext (fun c hc => isBlank_of_isSpacing (hbefore c hc))
    fun c hc => isBlank_of_isSpacing (hafter c hc)

/-- The two readers agree. What a source text without comment and parenthesis evaluates to, if it is
nothing but a literal, is what the text stands for on its own. -/
theorem readers_agree {text : String} {tree : Tree} (hread : Source.read text = .ok tree)
    (hliteral : tree.IsLiteral v) (hcomment : '#' ∉ text.toList)
    (hparenthesis : '(' ∉ text.toList) :
    (∀ scope log, tree.eval scope log = (.ok v, log)) ∧ read? text = some v := by
  constructor
  · intro scope log
    exact hliteral.eval_eq scope log
  · exact read?_eq_of_read hread hliteral hcomment hparenthesis

/-- Digits of three scripts, leading zeros and a form feed; and a point between wide digits. -/
theorem readers_agree_scripts :
    read? "\t ٠०7\x0c" = some (.integer 7) ∧
      read? "\r２.５\n" = some (.double (doubleOfDigits ['2', '.', '5'])) := by
  have hinteger : Source.read "\t ٠०7\x0c" = .ok (.int 7 (some 1)) := by decide +kernel
  have hdouble : Source.read "\r２.５\n" =
      .ok (.double (doubleOfDigits ['2', '.', '5']) (some 1)) := by
    decide +kernel
  exact ⟨(readers_agree hinteger (.int 7 _) (by decide) (by decide)).2,
    (readers_agree hdouble (.double _ _) (by decide) (by decide)).2⟩

end Literal

/-! ## Definitions of literals -/

/-- A name and the text of a literal, which has neither comment nor parenthesis. -/
structure LiteralDefinition where
  name : String
  text : String
  value : Value
  isName : TokenKind.ident.Spells name.toList
  isLiteral : ∃ tree, Source.read text = .ok tree ∧ tree.IsLiteral value
  noComment : '#' ∉ text.toList
  noParenthesis : '(' ∉ text.toList

namespace LiteralDefinition

variable (definition : LiteralDefinition)

def binding : String × Value := (definition.name, definition.value)

theorem exists_spelled :
    ∃ before core after, definition.text.toList = before ++ (core ++ after) ∧
      (∀ c ∈ before, isSpacing c = true) ∧ (∀ c ∈ after, isSpacing c = true) ∧
      Literal.Spelled core definition.value := by
  obtain ⟨tree, hread, hliteral⟩ := definition.isLiteral
  exact Source.exists_spelled hread hliteral definition.noComment definition.noParenthesis

/-- On its own the literal has the value that it has as a source text. -/
theorem read?_eq : Literal.read? definition.text = some definition.value := by
  obtain ⟨tree, hread, hliteral⟩ := definition.isLiteral
  exact Literal.read?_eq_of_read hread hliteral definition.noComment definition.noParenthesis

end LiteralDefinition

end LetLang
