import LetLang.Source.Stream

/-!
# Terminals

The terminals of the language are described by the texts that they stand for, and the lexeme at the
front of a text by the terminals that its context accepts. Doubles are tried before integers; a
word is as long as possible, and it is a keyword only where that keyword is acceptable; where no
name is acceptable a keyword is read whatever follows it.
-/

namespace LetLang

/-! ## Texts of terminals -/

def IsDigits (text : List Char) : Prop := text ≠ [] ∧ ∀ c ∈ text, isDigit c = true

namespace TokenKind

/-- The text of a terminal that has only one. -/
def spelling? : TokenKind → Option (List Char)
  | .letWord => some ['l', 'e', 't']
  | .inWord => some ['i', 'n']
  | .trueWord => some ['t', 'r', 'u', 'e']
  | .falseWord => some ['f', 'a', 'l', 's', 'e']
  | .and => some ['a', 'n', 'd']
  | .or => some ['o', 'r']
  | .add => some ['+']
  | .sub => some ['-']
  | .mult => some ['*']
  | .div => some ['/']
  | .mod => some ['%']
  | .assign => some ['=']
  | .lpar => some ['(']
  | .rpar => some [')']
  | _ => none

def keywords : List TokenKind := [.letWord, .inWord, .trueWord, .falseWord, .and, .or]

/-- The terminal stands for the text. -/
def Spells : TokenKind → List Char → Prop
  | .int, text => IsDigits text
  | .double, text =>
      ∃ whole fraction, text = whole ++ '.' :: fraction ∧ IsDigits whole ∧ IsDigits fraction
  | .ident, text =>
      ∃ c cs, text = c :: cs ∧ isWordStart c = true ∧ ∀ d ∈ cs, isWordPart d = true
  | kind, text => kind.spelling? = some text

/-- The terminal stands for the text, and for no longer one in front of the rest. -/
def SpellsLongest (kind : TokenKind) (text rest : List Char) : Prop :=
  kind.Spells text ∧ ∀ more rest', rest = more ++ rest' → kind.Spells (text ++ more) → more = []

end TokenKind

namespace Context

/-- The terminals that are acceptable in a context. -/
def accepts : Context → List TokenKind
  | .expression => [.double, .int, .ident, .trueWord, .falseWord, .letWord, .lpar]
  | .operand => [.double, .int, .ident, .trueWord, .falseWord, .lpar]
  | .binder => [.ident]
  | .equals => [.assign]
  | .continuation => [.and, .or, .inWord, .add, .sub, .mult, .div, .mod, .rpar]

/-- The lexeme that is read at the front of `text ++ rest`: its kind, its text, and what follows. -/
inductive Reads (context : Context) : TokenKind → List Char → List Char → Prop where
  | double {text rest : List Char} (haccepts : .double ∈ context.accepts)
      (htext : TokenKind.double.SpellsLongest text rest) :
      Reads context .double text rest
  | int {text rest : List Char} (haccepts : .int ∈ context.accepts)
      (hdouble : ∀ text' rest', text ++ rest = text' ++ rest' → ¬ TokenKind.double.Spells text')
      (htext : TokenKind.int.SpellsLongest text rest) :
      Reads context .int text rest
  | name {text rest : List Char} (haccepts : .ident ∈ context.accepts)
      (htext : TokenKind.ident.SpellsLongest text rest)
      (hplain : ∀ kind ∈ TokenKind.keywords, kind ∈ context.accepts → ¬ kind.Spells text) :
      Reads context .ident text rest
  | keyword {kind : TokenKind} {text rest : List Char} (haccepts : .ident ∈ context.accepts)
      (htext : TokenKind.ident.SpellsLongest text rest) (hkeyword : kind ∈ TokenKind.keywords)
      (hkind : kind ∈ context.accepts) (hspells : kind.Spells text) :
      Reads context kind text rest
  | fixed {kind : TokenKind} {text rest : List Char} (hkind : kind ∈ context.accepts)
      (hspelling : kind.spelling? = some text)
      (hword : kind ∈ TokenKind.keywords → .ident ∉ context.accepts) :
      Reads context kind text rest

end Context

/-! ## Runs of characters of a class -/

def StopsAt (p : Char → Bool) (cs : List Char) : Prop := ∀ c ∈ cs.head?, p c = false

theorem stopsAt_dropWhile (p : Char → Bool) (cs : List Char) : StopsAt p (cs.dropWhile p) := by
  intro c hc
  have hstop := List.head?_dropWhile_not p cs
  rw [Option.mem_def.1 hc] at hstop
  simpa using hstop

theorem StopsAt.takeWhile_eq_nil {p : Char → Bool} {cs : List Char} (h : StopsAt p cs) :
    cs.takeWhile p = [] := by
  cases cs with
  | nil => rfl
  | cons c cs => simp [h c rfl]

theorem takeWhile_append_of_stopsAt {p : Char → Bool} {run rest : List Char}
    (hrun : ∀ c ∈ run, p c = true) (hrest : StopsAt p rest) :
    (run ++ rest).takeWhile p = run := by
  rw [List.takeWhile_append_of_pos hrun, hrest.takeWhile_eq_nil, List.append_nil]

theorem dropWhile_append_of_stopsAt {p : Char → Bool} {run rest : List Char}
    (hrun : ∀ c ∈ run, p c = true) (hrest : StopsAt p rest) :
    (run ++ rest).dropWhile p = rest := by
  have hkept : rest.dropWhile p = rest := by
    cases rest with
    | nil => rfl
    | cons c cs => simp [hrest c rfl]
  rw [List.dropWhile_append_of_pos hrun, hkept]

theorem mem_takeWhile_imp {p : Char → Bool} {cs : List Char} {c : Char}
    (h : c ∈ cs.takeWhile p) : p c = true := by
  have hall := List.all_takeWhile (p := p) (l := cs)
  exact List.all_eq_true.1 hall c h

/-- A run that cannot be extended: an extension would start with a character of the class. -/
theorem StopsAt.eq_nil_of_extends {p : Char → Bool} {rest more rest' : List Char}
    (hstop : StopsAt p rest) (hrest : rest = more ++ rest') (hmore : ∀ c ∈ more, p c = true) :
    more = [] := by
  cases more with
  | nil => rfl
  | cons c cs =>
    have hc : p c = false := hstop c (by simp [hrest])
    rw [hmore c (by simp)] at hc
    exact nomatch hc

/-- What cannot be extended by a character of the class stops. -/
theorem stopsAt_of_no_extension {p : Char → Bool} {rest : List Char}
    (h : ∀ more rest', rest = more ++ rest' → (∀ c ∈ more, p c = true) → more = []) :
    StopsAt p rest := by
  intro c hc
  rcases List.head?_eq_some_iff.1 hc with ⟨cs, rfl⟩
  cases hp : p c with
  | false => rfl
  | true => exact nomatch h [c] cs rfl (by simpa using hp)

/-! ## Numbers -/

theorem IsDigits.append {text more : List Char} (h : IsDigits text)
    (hmore : ∀ c ∈ more, isDigit c = true) : IsDigits (text ++ more) := by
  refine ⟨by simp [h.1], ?_⟩
  intro c hc
  rcases List.mem_append.1 hc with hc | hc
  · exact h.2 c hc
  · exact hmore c hc

theorem IsDigits.not_stopsAt {text rest : List Char} (h : IsDigits text) :
    ¬ StopsAt isDigit (text ++ rest) := by
  intro hstop
  have hempty := hstop.eq_nil_of_extends rfl h.2
  exact h.1 hempty

theorem stopsAt_point (cs : List Char) : StopsAt isDigit ('.' :: cs) := by
  intro c hc
  cases hc
  decide

/-- The point of a double divides it in one way only. -/
theorem append_point_inj {whole whole' after after' : List Char}
    (hwhole : ∀ c ∈ whole, isDigit c = true) (hwhole' : ∀ c ∈ whole', isDigit c = true)
    (h : whole ++ '.' :: after = whole' ++ '.' :: after') : whole = whole' ∧ after = after' := by
  have htake : whole = whole' := by
    have hsame := congrArg (List.takeWhile isDigit) h
    rwa [takeWhile_append_of_stopsAt hwhole (stopsAt_point _),
      takeWhile_append_of_stopsAt hwhole' (stopsAt_point _)] at hsame
  subst htake
  exact ⟨rfl, by simpa using h⟩

/-- An integer goes as far as there are digits. -/
theorem int_spellsLongest_iff {text rest : List Char} :
    TokenKind.int.SpellsLongest text rest ↔ IsDigits text ∧ StopsAt isDigit rest := by
  constructor
  · rintro ⟨htext, hlongest⟩
    refine ⟨htext, stopsAt_of_no_extension ?_⟩
    intro more rest' hrest hmore
    exact hlongest more rest' hrest (IsDigits.append htext hmore)
  · rintro ⟨htext, hstop⟩
    refine ⟨htext, ?_⟩
    intro more rest' hrest hspells
    exact hstop.eq_nil_of_extends hrest fun c hc => hspells.2 c (by simp [hc])

/-- The fraction of a double goes as far as there are digits. -/
theorem double_spellsLongest_iff {text rest : List Char} :
    TokenKind.double.SpellsLongest text rest ↔
      ∃ whole fraction, text = whole ++ '.' :: fraction ∧ IsDigits whole ∧ IsDigits fraction ∧
        StopsAt isDigit rest := by
  constructor
  · rintro ⟨⟨whole, fraction, rfl, hwhole, hfraction⟩, hlongest⟩
    refine ⟨whole, fraction, rfl, hwhole, hfraction, stopsAt_of_no_extension ?_⟩
    intro more rest' hrest hmore
    exact hlongest more rest' hrest
      ⟨whole, fraction ++ more, by simp, hwhole, hfraction.append hmore⟩
  · rintro ⟨whole, fraction, rfl, hwhole, hfraction, hstop⟩
    refine ⟨⟨whole, fraction, rfl, hwhole, hfraction⟩, ?_⟩
    rintro more rest' hrest ⟨whole', fraction', heq, hwhole', hfraction'⟩
    -- A longer double has its point in the same place, so only its fraction is longer.
    have hsplit : whole ++ '.' :: (fraction ++ more) = whole' ++ '.' :: fraction' := by
      simpa using heq
    have hsame := (append_point_inj hwhole.2 hwhole'.2 hsplit).2
    exact hstop.eq_nil_of_extends hrest fun c hc => hfraction'.2 c (by simp [← hsame, hc])

/-- Two runs of digits around a point are a double. -/
theorem number?_double {whole fraction rest : List Char} (hwhole : IsDigits whole)
    (hfraction : IsDigits fraction) (hstop : StopsAt isDigit rest) :
    number? (whole ++ '.' :: fraction ++ rest) =
      some ⟨.double, whole ++ '.' :: fraction, rest⟩ := by
  have htake := takeWhile_append_of_stopsAt hwhole.2 (stopsAt_point (fraction ++ rest))
  have hdrop := dropWhile_append_of_stopsAt hwhole.2 (stopsAt_point (fraction ++ rest))
  have hfractionTake := takeWhile_append_of_stopsAt hfraction.2 hstop
  have hfractionDrop := dropWhile_append_of_stopsAt hfraction.2 hstop
  simp [number?, htake, hdrop, hfractionTake, hfractionDrop, hwhole.1, hfraction.1]

/-- A run of digits is an integer, if no point with digits follows. -/
theorem number?_int {text rest : List Char} (htext : IsDigits text) (hstop : StopsAt isDigit rest)
    (hpoint : ∀ more, rest = '.' :: more → StopsAt isDigit more) :
    number? (text ++ rest) = some ⟨.int, text, rest⟩ := by
  have htake := takeWhile_append_of_stopsAt htext.2 hstop
  have hdrop := dropWhile_append_of_stopsAt htext.2 hstop
  simp only [number?, htake, hdrop]
  rw [if_neg (by simpa using htext.1)]
  split
  next more =>
    have hempty : more.takeWhile isDigit = [] := (hpoint more rfl).takeWhile_eq_nil
    simp [hempty]
  · rfl

theorem number?_eq_none {cs : List Char} (h : StopsAt isDigit cs) : number? cs = none := by
  simp [number?, h.takeWhile_eq_nil]

/-- The run of digits at the front of a text. -/
theorem isDigits_takeWhile {cs : List Char} (h : ¬ StopsAt isDigit cs) :
    IsDigits (cs.takeWhile isDigit) := by
  refine ⟨?_, fun c hc => mem_takeWhile_imp hc⟩
  intro hempty
  apply h
  have hdrop := stopsAt_dropWhile isDigit cs
  have hsplit : cs.takeWhile isDigit ++ cs.dropWhile isDigit = cs := List.takeWhile_append_dropWhile
  rw [hempty, List.nil_append] at hsplit
  rwa [hsplit] at hdrop

/-- No double starts with these digits exactly if no point and digit follow them. -/
theorem no_double_iff {text rest : List Char} (htext : IsDigits text) (hstop : StopsAt isDigit rest) :
    (∀ text' rest', text ++ rest = text' ++ rest' → ¬ TokenKind.double.Spells text') ↔
      ∀ more, rest = '.' :: more → StopsAt isDigit more := by
  constructor
  · rintro h more rfl
    by_cases hmore : StopsAt isDigit more
    · exact hmore
    · have hsplit : text ++ '.' :: more =
          text ++ '.' :: more.takeWhile isDigit ++ more.dropWhile isDigit := by
        simp [List.takeWhile_append_dropWhile]
      exact absurd ⟨text, _, rfl, htext, isDigits_takeWhile hmore⟩ (h _ _ hsplit)
  · rintro hpoint text' rest' heq ⟨whole, fraction, rfl, hwhole, hfraction⟩
    have hsplit : text ++ rest = whole ++ '.' :: (fraction ++ rest') := by simpa using heq
    have hdrop := congrArg (List.dropWhile isDigit) hsplit
    rw [dropWhile_append_of_stopsAt htext.2 hstop,
      dropWhile_append_of_stopsAt hwhole.2 (stopsAt_point _)] at hdrop
    exact hfraction.not_stopsAt (hpoint _ hdrop)

/-- A number is a double if one starts the text, and otherwise an integer. -/
theorem reads_of_number? {context : Context} {cs : List Char} {m : Match}
    (hdouble : .double ∈ context.accepts) (hint : .int ∈ context.accepts)
    (h : number? cs = some m) : context.Reads m.kind m.text m.rest := by
  by_cases hdigit : StopsAt isDigit cs
  · rw [number?_eq_none hdigit] at h
    exact nomatch h
  · have hwhole := isDigits_takeWhile hdigit
    have hstop := stopsAt_dropWhile isDigit cs
    have hsplit : cs.takeWhile isDigit ++ cs.dropWhile isDigit = cs :=
      List.takeWhile_append_dropWhile
    -- Digits are an integer unless a point and more digits follow them.
    by_cases hpoint : ∀ more, cs.dropWhile isDigit = '.' :: more → StopsAt isDigit more
    · have hnumber := number?_int hwhole hstop hpoint
      rw [hsplit, h] at hnumber
      cases hnumber
      exact .int hint ((no_double_iff hwhole hstop).2 hpoint)
        (int_spellsLongest_iff.2 ⟨hwhole, hstop⟩)
    · simp only [Classical.not_forall] at hpoint
      rcases hpoint with ⟨more, hrest, hmore⟩
      have hfraction := isDigits_takeWhile hmore
      have hend := stopsAt_dropWhile isDigit more
      have hnumber := number?_double hwhole hfraction hend
      rw [List.append_assoc, List.cons_append, List.takeWhile_append_dropWhile, ← hrest, hsplit,
        h] at hnumber
      cases hnumber
      exact .double hdouble (double_spellsLongest_iff.2 ⟨_, _, rfl, hwhole, hfraction, hend⟩)

/-! ## Words -/

/-- A name goes as far as there are characters of a word. -/
theorem ident_spellsLongest_iff {text rest : List Char} :
    TokenKind.ident.SpellsLongest text rest ↔
      ∃ c cs, text = c :: cs ∧ isWordStart c = true ∧ (∀ d ∈ cs, isWordPart d = true) ∧
        StopsAt isWordPart rest := by
  constructor
  · rintro ⟨⟨c, cs, rfl, hc, hcs⟩, hlongest⟩
    refine ⟨c, cs, rfl, hc, hcs, stopsAt_of_no_extension ?_⟩
    intro more rest' hrest hmore
    refine hlongest more rest' hrest ⟨c, cs ++ more, rfl, hc, ?_⟩
    intro d hd
    rcases List.mem_append.1 hd with hd | hd
    · exact hcs d hd
    · exact hmore d hd
  · rintro ⟨c, cs, rfl, hc, hcs, hstop⟩
    refine ⟨⟨c, cs, rfl, hc, hcs⟩, ?_⟩
    rintro more rest' hrest ⟨c', cs', heq, -, hcs'⟩
    have hsame : cs ++ more = cs' := (List.cons.inj heq).2
    exact hstop.eq_nil_of_extends hrest fun d hd => hcs' d (by simp [← hsame, hd])

theorem isWordStart_bounds {c : Char} (h : isWordStart c = true) :
    65 ≤ c.toNat ∧ c.toNat ≤ 122 := by
  delta isWordStart Char.isAlpha Char.isUpper Char.isLower at h
  simp only [Bool.or_eq_true, Bool.and_eq_true, decide_eq_true_eq, UInt32.le_iff_toNat_le,
    ge_iff_le] at h
  rcases h with (h | h) | rfl
  · change 65 ≤ c.toNat ∧ c.toNat ≤ 90 at h
    omega
  · change 97 ≤ c.toNat ∧ c.toNat ≤ 122 at h
    omega
  · decide

theorem isDigit_eq_false_of_isWordStart {c : Char} (h : isWordStart c = true) :
    isDigit c = false := by
  have hbounds := isWordStart_bounds h
  -- No block of ten digits meets the range of the letters.
  have hzeros : ∀ first ∈ digitZeros, first + 10 ≤ 65 ∨ 122 < first := by decide
  have hnone : digitZeros.find? (fun first => first ≤ c.toNat && c.toNat < first + 10) = none := by
    rw [List.find?_eq_none]
    intro first hfirst hrange
    have hzero := hzeros first hfirst
    simp only [Bool.and_eq_true, decide_eq_true_eq] at hrange
    omega
  simp [isDigit, digitValue?, hnone]

theorem word?_append {keywords : Keywords} {c : Char} {cs rest : List Char}
    (hc : isWordStart c = true) (hcs : ∀ d ∈ cs, isWordPart d = true)
    (hstop : StopsAt isWordPart rest) :
    word? keywords (c :: cs ++ rest) = some ⟨keywords.kindOf (c :: cs), c :: cs, rest⟩ := by
  simp [word?, hc, takeWhile_append_of_stopsAt hcs hstop, dropWhile_append_of_stopsAt hcs hstop]

namespace Context

def words : Context → Keywords
  | .expression => expressionKeywords
  | .operand => operandKeywords
  | _ => []

theorem words_spec (context : Context) : ∀ word ∈ context.words,
    word.2 ∈ TokenKind.keywords ∧ word.2 ∈ context.accepts ∧ word.2.Spells word.1 := by
  cases context <;> simp [words, expressionKeywords, operandKeywords, accepts, TokenKind.keywords,
    TokenKind.Spells, TokenKind.spelling?]

theorem mem_words {context : Context} (haccepts : .ident ∈ context.accepts) {kind : TokenKind}
    {text : List Char} (hkeyword : kind ∈ TokenKind.keywords) (hkind : kind ∈ context.accepts)
    (hspells : kind.Spells text) : (text, kind) ∈ context.words := by
  cases context <;> cases kind <;>
    simp_all [words, expressionKeywords, operandKeywords, accepts, TokenKind.keywords,
      TokenKind.Spells, TokenKind.spelling?]

/-- The longest word is read, as a keyword if it is one that is acceptable. -/
theorem reads_of_word? {context : Context} {cs : List Char} {m : Match}
    (haccepts : .ident ∈ context.accepts) (h : word? context.words cs = some m) :
    context.Reads m.kind m.text m.rest := by
  cases cs with
  | nil => cases h
  | cons c cs =>
    simp only [word?] at h
    split at h
    next hc =>
      cases h
      have htext : TokenKind.ident.SpellsLongest (c :: cs.takeWhile isWordPart)
          (cs.dropWhile isWordPart) :=
        ident_spellsLongest_iff.2 ⟨c, _, rfl, hc, fun d hd => mem_takeWhile_imp hd,
          stopsAt_dropWhile isWordPart cs⟩
      -- The word is longest in any case; whether it is a keyword is looked up afterwards.
      unfold Keywords.kindOf
      cases hfind : context.words.find? (·.1 == c :: cs.takeWhile isWordPart) with
      | some word =>
        have hspec := context.words_spec word (List.mem_of_find?_eq_some hfind)
        have hword : word.1 = c :: cs.takeWhile isWordPart := by
          simpa using List.find?_some hfind
        rw [hword] at hspec
        exact .keyword haccepts htext hspec.1 hspec.2.1 hspec.2.2
      | none =>
        refine .name haccepts htext ?_
        intro kind hkeyword hkind hspells
        have hmem := mem_words haccepts hkeyword hkind hspells
        have hmiss := List.find?_eq_none.1 hfind _ hmem
        simp at hmiss
    · cases h

/-- A word that is no acceptable keyword is a name. -/
theorem kindOf_words_of_plain {context : Context} {text : List Char}
    (hplain : ∀ kind ∈ TokenKind.keywords, kind ∈ context.accepts → ¬ kind.Spells text) :
    context.words.kindOf text = .ident := by
  have hnone : context.words.find? (·.1 == text) = none := by
    rw [List.find?_eq_none]
    intro word hword heq
    have hspec := context.words_spec word hword
    have htext : word.1 = text := by simpa using heq
    rw [htext] at hspec
    exact hplain word.2 hspec.1 hspec.2.1 hspec.2.2
  simp [Keywords.kindOf, hnone]

/-- An acceptable keyword is no name. -/
theorem kindOf_words_of_keyword {context : Context} {kind : TokenKind} {text : List Char}
    (haccepts : .ident ∈ context.accepts) (hkeyword : kind ∈ TokenKind.keywords)
    (hkind : kind ∈ context.accepts) (hspells : kind.Spells text) :
    context.words.kindOf text = kind := by
  have hmem := mem_words haccepts hkeyword hkind hspells
  cases context with
  | expression =>
    simp only [words, expressionKeywords, List.mem_cons, Prod.mk.injEq, List.not_mem_nil,
      or_false] at hmem
    rcases hmem with ⟨rfl, rfl⟩ | ⟨rfl, rfl⟩ | ⟨rfl, rfl⟩ <;> decide
  | operand =>
    simp only [words, operandKeywords, List.mem_cons, Prod.mk.injEq, List.not_mem_nil,
      or_false] at hmem
    rcases hmem with ⟨rfl, rfl⟩ | ⟨rfl, rfl⟩ <;> decide
  | binder | equals | continuation => exact nomatch hmem

/-! ## Symbols and keywords without a border -/

theorem spelling?_of_symbolKind? {c : Char} {kind : TokenKind} (h : symbolKind? c = some kind) :
    kind.spelling? = some [c] := by
  unfold symbolKind? at h
  split at h <;> cases h <;> rfl

theorem symbol?_cases {kinds : List TokenKind} {cs : List Char} {m : Match}
    (h : symbol? kinds cs = some m) : m.kind ∈ kinds ∧ m.kind.spelling? = some m.text := by
  cases cs with
  | nil => cases h
  | cons c cs =>
    simp only [symbol?] at h
    split at h
    next kind hkind =>
      split at h
      next hmem =>
        cases h
        exact ⟨by simpa using hmem, spelling?_of_symbolKind? hkind⟩
      · cases h
    · cases h

theorem wordAtFront?_cases {cs : List Char} {m : Match}
    (h : wordAtFront? continuationKeywords cs = some m) :
    m.kind ∈ accepts .continuation ∧ m.kind.spelling? = some m.text := by
  simp only [wordAtFront?, Option.map_eq_some_iff] at h
  rcases h with ⟨keyword, hfind, rfl⟩
  have htable : ∀ keyword ∈ continuationKeywords,
      keyword.2 ∈ accepts .continuation ∧ keyword.2.spelling? = some keyword.1 := by
    decide
  exact htable keyword (List.mem_of_find?_eq_some hfind)

/-! ## The lexeme at the front -/

/-- What is matched is what the rules say. -/
theorem reads_of_match? {context : Context} {cs : List Char} {m : Match}
    (h : context.match? cs = some m) : context.Reads m.kind m.text m.rest := by
  have hsymbol {kinds : List TokenKind} (hkinds : ∀ kind ∈ kinds, kind ∈ context.accepts)
      (hplain : ∀ kind ∈ kinds, kind ∉ TokenKind.keywords) (h : symbol? kinds cs = some m) :
      context.Reads m.kind m.text m.rest := by
    have hcases := symbol?_cases h
    exact .fixed (hkinds _ hcases.1) hcases.2 fun hkeyword => absurd hkeyword (hplain _ hcases.1)
  cases context with
  | expression =>
    simp only [match?, Option.or_eq_some_iff] at h
    rcases h with (h | ⟨-, h⟩) | ⟨-, h⟩
    · exact reads_of_number? (by decide) (by decide) h
    · exact reads_of_word? (by decide) h
    · exact hsymbol (by decide) (by decide) h
  | operand =>
    simp only [match?, Option.or_eq_some_iff] at h
    rcases h with (h | ⟨-, h⟩) | ⟨-, h⟩
    · exact reads_of_number? (by decide) (by decide) h
    · exact reads_of_word? (by decide) h
    · exact hsymbol (by decide) (by decide) h
  | binder => exact reads_of_word? (by decide) (show word? (words .binder) cs = some m from h)
  | equals => exact hsymbol (by decide) (by decide) h
  | continuation =>
    simp only [match?, Option.or_eq_some_iff] at h
    rcases h with h | ⟨-, h⟩
    · have hcases := wordAtFront?_cases h
      exact .fixed hcases.1 hcases.2 fun _ => by decide
    · exact hsymbol (by decide) (by decide) h

/-- Where numbers are acceptable they are matched first. -/
theorem match?_of_number? {context : Context} {cs : List Char} {m : Match}
    (haccepts : .double ∈ context.accepts ∨ .int ∈ context.accepts) (h : number? cs = some m) :
    context.match? cs = some m := by
  cases context with
  | expression | operand => simp [match?, h]
  | binder | equals | continuation => exact absurd haccepts (by decide)

/-- Where names are acceptable words are matched unless a number is. -/
theorem match?_of_word? {context : Context} {cs : List Char} {m : Match}
    (haccepts : .ident ∈ context.accepts) (hnumber : number? cs = none)
    (h : word? context.words cs = some m) : context.match? cs = some m := by
  cases context with
  | expression | operand =>
    simp only [words] at h
    simp [match?, hnumber, h]
  | binder => exact h
  | equals | continuation => exact absurd haccepts (by decide)

theorem match?_of_spellsLongest {context : Context} {text rest : List Char}
    (haccepts : .ident ∈ context.accepts) (h : TokenKind.ident.SpellsLongest text rest) :
    context.match? (text ++ rest) = some ⟨context.words.kindOf text, text, rest⟩ := by
  rcases ident_spellsLongest_iff.1 h with ⟨c, cs, rfl, hc, hcs, hstop⟩
  have hnumber : number? (c :: cs ++ rest) = none := by
    apply number?_eq_none
    intro d hd
    cases hd
    exact isDigit_eq_false_of_isWordStart hc
  exact match?_of_word? haccepts hnumber (word?_append hc hcs hstop)

/-- Where names are acceptable the only fixed lexeme is an opening parenthesis. -/
theorem eq_lpar_of_fixed {context : Context} {kind : TokenKind} {text : List Char}
    (haccepts : .ident ∈ context.accepts) (hkind : kind ∈ context.accepts)
    (hspelling : kind.spelling? = some text) (hplain : kind ∉ TokenKind.keywords) :
    kind = .lpar ∧ (context = .expression ∨ context = .operand) := by
  cases context <;> cases kind <;>
    simp_all [accepts, TokenKind.spelling?, TokenKind.keywords]

theorem match?_of_fixed {context : Context} {kind : TokenKind} {text : List Char}
    (hkind : kind ∈ context.accepts) (hspelling : kind.spelling? = some text)
    (hword : kind ∈ TokenKind.keywords → .ident ∉ context.accepts) (rest : List Char) :
    context.match? (text ++ rest) = some ⟨kind, text, rest⟩ := by
  -- Where a name is acceptable no keyword is fixed, and otherwise each context lists its own.
  by_cases haccepts : .ident ∈ context.accepts
  · have hplain : kind ∉ TokenKind.keywords := fun h => hword h haccepts
    rcases eq_lpar_of_fixed haccepts hkind hspelling hplain with ⟨rfl, rfl | rfl⟩
    · cases hspelling
      rfl
    · cases hspelling
      rfl
  · cases context with
    | expression | operand | binder => exact absurd (by decide) haccepts
    | equals =>
      cases kind with
      | assign =>
        cases hspelling
        rfl
      | _ => exact absurd hkind (by decide)
    | continuation =>
      cases kind with
      | and | or | inWord | add | sub | mult | div | mod | rpar =>
        cases hspelling
        rfl
      | _ => exact absurd hkind (by decide)

/-- What the rules say is matched. -/
theorem Reads.match?_eq {context : Context} {kind : TokenKind} {text rest : List Char}
    (h : context.Reads kind text rest) : context.match? (text ++ rest) = some ⟨kind, text, rest⟩ := by
  cases h with
  | double haccepts htext =>
    rcases double_spellsLongest_iff.1 htext with ⟨whole, fraction, rfl, hwhole, hfraction, hstop⟩
    exact match?_of_number? (.inl haccepts) (number?_double hwhole hfraction hstop)
  | int haccepts hdouble htext =>
    rcases int_spellsLongest_iff.1 htext with ⟨hdigits, hstop⟩
    exact match?_of_number? (.inr haccepts)
      (number?_int hdigits hstop ((no_double_iff hdigits hstop).1 hdouble))
  | name haccepts htext hplain =>
    rw [match?_of_spellsLongest haccepts htext, kindOf_words_of_plain hplain]
  | keyword haccepts htext hkeyword hkind hspells =>
    rw [match?_of_spellsLongest haccepts htext,
      kindOf_words_of_keyword haccepts hkeyword hkind hspells]
  | fixed hkind hspelling hword => exact match?_of_fixed hkind hspelling hword rest

/-- The lexeme at the front of a text is the one that its context reads there. -/
theorem match?_eq_some_iff {context : Context} {cs : List Char} {m : Match} :
    context.match? cs = some m ↔ m.text ++ m.rest = cs ∧ context.Reads m.kind m.text m.rest := by
  constructor
  · intro h
    exact ⟨(match?_splits h).1, reads_of_match? h⟩
  · rintro ⟨rfl, h⟩
    exact h.match?_eq

end Context

end LetLang
