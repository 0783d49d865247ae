import LetLang.Proofs.Occurrence
import LetLang.Proofs.Source.Reading
import LetLang.Proofs.Source.Words

/-!
# Printing

A tree is printed with one space between its words and with parentheses only where the grammar
needs them, and reading the text gives the tree back: `Source.read_print`. A double may be written
in several ways, so its text is given for each place of the tree where one stands.
-/

namespace LetLang

open Grammar

/-! ## The words of a tree -/

def Word.enclosedIf (needed : Prop) [Decidable needed] (words : List Word) : List Word :=
  if needed then fixed .lpar :: (words ++ [fixed .rpar]) else words

def Token.bare (token : Token) : Token := { token with line := 0, column := 0 }

/-- The token is a name that can be written. -/
def Token.IsWord (token : Token) : Prop :=
  token.kind = .ident ∧ ∃ name, token.payload = .text name ∧ TokenKind.ident.Spells name.toList

theorem Token.IsWord.spells {token : Token} (h : token.IsWord) :
    TokenKind.ident.Spells token.name.toList := by
  rcases h with ⟨-, name, hpayload, hspells⟩
  rwa [Token.name, hpayload]

namespace Tree

/-- The tree without lines and columns. -/
def bare : Tree → Tree
  | .int n _ => .int n none
  | .double x _ => .double x none
  | .bool b _ => .bool b none
  | .ident token _ => .ident token.bare none
  | .binop left operator right _ => .binop left.bare operator right.bare none
  | .letIn token value body _ => .letIn token.bare value.bare body.bare none
  | .hole => .hole

/-- How strongly the outermost form of a tree binds: a `let` weaker than every operation, a leaf
stronger. -/
def strength : Tree → Nat
  | .binop _ operator _ _ => (operator.kind?.bind precedence).getD 0
  | .letIn .. => 0
  | _ => Nonterminal.strength .atom

/-- The words of a tree, where each double has the text of its place. A left operand that binds
weaker than the operator stands in parentheses, and so does a right operand that does not bind
stronger; a `let` binds weaker than all operators. -/
def words (texts : Path → List Char) : Tree → List Word
  | .int n _ => [⟨.int, numeralChars n⟩]
  | .double _ _ => [⟨.double, texts []⟩]
  | .bool b _ => [.fixed (if b then .trueWord else .falseWord)]
  | .ident token _ => [⟨.ident, token.name.toList⟩]
  | .binop left (.known kind) right _ =>
      let own := (precedence kind).getD 0
      Word.enclosedIf (left.strength < own) (left.words fun path => texts (.left :: path)) ++
        .fixed kind ::
          Word.enclosedIf (right.strength ≤ own) (right.words fun path => texts (.right :: path))
  | .letIn token value body _ =>
      .fixed .letWord :: ⟨.ident, token.name.toList⟩ :: .fixed .assign ::
        (value.words (fun path => texts (.value :: path)) ++
          .fixed .inWord :: body.words fun path => texts (.body :: path))
  | _ => []

def print (texts : Path → List Char) (t : Tree) : String :=
  String.ofList (Word.joined (t.words texts))

/-- A source text can stand for the tree, and the texts for its doubles. -/
def Printable (texts : Path → List Char) : Tree → Prop
  | .int n _ => 0 ≤ n ∧ n.natAbs < tenPow Source.maxIntegerDigits
  | .double x _ => TokenKind.double.Spells (texts []) ∧ doubleOfDigits (texts []) = x
  | .bool _ _ => True
  | .ident token _ => token.IsWord ∧ token.name ∉ ["let", "true", "false"]
  | .binop left operator right _ =>
      operator.IsSupported ∧ left.Printable (fun path => texts (.left :: path)) ∧
        right.Printable fun path => texts (.right :: path)
  | .letIn token value body _ =>
      token.IsWord ∧ value.Printable (fun path => texts (.value :: path)) ∧
        body.Printable fun path => texts (.body :: path)
  | .hole => False

end Tree

/-! ## Numerals -/

/-- A natural number is written with digits only. -/
theorem isDigits_numeralChars {n : Int} (h : 0 ≤ n) : IsDigits (numeralChars n) := by
  rw [numeralChars, if_neg (by omega)]
  refine ⟨Nat.toDigits_ne_nil, ?_⟩
  intro c hc
  exact isDigit_of_isDigit (Nat.isDigit_of_mem_toDigits (by decide) (by decide) hc)

theorem digitsValue_eq_ofDigitChars {cs : List Char} (h : ∀ c ∈ cs, c.isDigit = true) :
    digitsValue cs = Nat.ofDigitChars 10 cs 0 := by
  have hfold (start : Nat) : cs.foldl (fun n c => 10 * n + (digitValue? c).getD 0) start =
      Nat.ofDigitChars 10 cs start := by
    induction cs generalizing start with
    | nil => rfl
    | cons c cs ih =>
      have hc := digitValue?_of_isDigit (h c (by simp))
      have hrest := ih fun d hd => h d (by simp [hd])
      rw [List.foldl_cons, hrest, Nat.ofDigitChars_cons, hc, Option.getD_some]
  exact hfold 0

/-- A numeral stands for its number. -/
theorem digitsValue_numeralChars {n : Int} (h : 0 ≤ n) :
    (digitsValue (numeralChars n) : Int) = n := by
  have hdigits : ∀ c ∈ Nat.toDigits 10 n.natAbs, c.isDigit = true :=
    fun c hc => Nat.isDigit_of_mem_toDigits (by decide) (by decide) hc
  rw [numeralChars, if_neg (by omega), digitsValue_eq_ofDigitChars hdigits,
    Nat.ofDigitChars_ten_toDigits]
  omega

/-- A number below a power of ten has as few digits. -/
theorem length_numeralChars_le {n : Int} {digits : Nat} (h : 0 ≤ n) (hpos : 0 < digits)
    (hn : n.natAbs < tenPow digits) : (numeralChars n).length ≤ digits := by
  rw [numeralChars, if_neg (by omega)]
  exact (Nat.length_toDigits_le_iff (by decide) hpos).2 hn

/-! ## Legibility -/

/-- Words can be read with and without parentheses around them. -/
theorem Word.legible_enclosedIf {needed : Prop} [Decidable needed] {words rest : List Word}
    {context : Context} (hcontext : context.IsOperand)
    (hinner : ∀ {context : Context} {rest : List Word}, context.IsOperand →
      (context = .operand → ¬ needed) → Legible .continuation rest →
        Legible context (words ++ rest))
    (hrest : Legible .continuation rest) : Legible context (enclosedIf needed words ++ rest) := by
  unfold enclosedIf
  split
  next _ =>
    have hclose : Legible .continuation (fixed .rpar :: rest) :=
      ⟨Context.takes_fixed (by decide) rfl, hrest⟩
    have hopen : context.Takes (fixed .lpar) :=
      Context.takes_fixed (hcontext.accepts (by decide)) rfl
    simpa using ⟨hopen, hinner (.inl rfl) nofun hclose⟩
  next hneeded => exact hinner hcontext (fun _ => hneeded) hrest

/-- The supported operators are the operators of the grammar. -/
theorem Grammar.Level.exists_of_supported {kind : TokenKind}
    (h : kind ∈ TokenKind.arithmetic ++ TokenKind.boolean) :
    ∃ level : Level, precedence kind = some level.strength := by
  cases kind with
  | or => exact ⟨.disjunction, rfl⟩
  | and => exact ⟨.conjunction, rfl⟩
  | add | sub => exact ⟨.sum, rfl⟩
  | mult | div | mod => exact ⟨.product, rfl⟩
  | _ => exact absurd h (by decide)

namespace Tree

section

variable {kind : TokenKind} {level : Level} (hlevel : precedence kind = some level.strength)
  (texts : Path → List Char) (left right : Tree) (line : Option Int)

include hlevel

/-- The words of an operation, by its level. -/
theorem words_binop : (binop left (.known kind) right line).words texts =
    Word.enclosedIf (left.strength < level.strength)
      (left.words fun path => texts (.left :: path)) ++
    .fixed kind :: Word.enclosedIf (right.strength ≤ level.strength)
      (right.words fun path => texts (.right :: path)) := by
  simp only [words, hlevel, Option.getD_some]

theorem strength_binop : (binop left (.known kind) right line).strength = level.strength := by
  simp [strength, Operator.kind?, hlevel]

end

/-- The words of a tree are legible where an expression starts, and behind an operator if the tree is
no `let`. -/
theorem legible_words {t : Tree} {texts : Path → List Char} (h : t.Printable texts)
    {context : Context} (hcontext : context.IsOperand) (hlet : context = .operand → 0 < t.strength)
    {rest : List Word} (hrest : Word.Legible .continuation rest) :
    Word.Legible context (t.words texts ++ rest) := by
  -- Context and rest vary: an operand is read behind its operator and in front of its parent's rest.
  induction t generalizing texts context rest with
  | int n line =>
    have htext : TokenKind.int.Spells (numeralChars n) := isDigits_numeralChars h.1
    exact ⟨Context.takes (hcontext.accepts (by decide)) htext nofun, hrest⟩
  | double x line => exact ⟨Context.takes (hcontext.accepts (by decide)) h.1 nofun, hrest⟩
  | bool b line =>
    cases b with
    | true | false => exact ⟨Context.takes_fixed (hcontext.accepts (by decide)) rfl, hrest⟩
  | ident token line =>
    have hnext : context.next .ident = .continuation := by
      rcases hcontext with rfl | rfl <;> rfl
    exact ⟨Context.takes (hcontext.accepts (by decide)) h.1.spells fun _ _ => hcontext.plain h.2,
      hnext ▸ hrest⟩
  | binop left operator right line ihleft ihright =>
    rcases h with ⟨⟨kind, hkind, rfl⟩, hleft, hright⟩
    rcases Level.exists_of_supported hkind with ⟨level, hlevel⟩
    have hpos := level.strength_pos
    rw [words_binop hlevel, List.append_assoc, List.cons_append]
    -- An operand without parentheses binds at least as strongly as the operator, so it is no `let`.
    have hbehind : Word.Legible .operand (Word.enclosedIf (right.strength ≤ level.strength)
        (right.words fun path => texts (.right :: path)) ++ rest) := by
      refine Word.legible_enclosedIf (.inr rfl) ?_ hrest
      intro inner more hinner hneeded hmore
      exact ihright hright hinner (fun hoperand => by have := hneeded hoperand; omega) hmore
    refine Word.legible_enclosedIf hcontext ?_ (Word.legible_operator hkind hbehind)
    intro inner more hinner hneeded hmore
    exact ihleft hleft hinner (fun hoperand => by have := hneeded hoperand; omega) hmore
  | letIn token value body line ihvalue ihbody =>
    rcases h with ⟨htoken, hvalue, hbody⟩
    have hstart : context = .expression := by
      rcases hcontext with hstart | hoperand
      · exact hstart
      · exact absurd (hlet hoperand) (Nat.lt_irrefl 0)
    subst hstart
    have hbehind : Word.Legible .continuation (.fixed .inWord ::
        (body.words (fun path => texts (.body :: path)) ++ rest)) :=
      ⟨Context.takes_fixed (by decide) rfl, ihbody hbody (.inl rfl) nofun hrest⟩
    have hbound := Word.legible_binding htoken.spells (ihvalue hvalue (.inl rfl) nofun hbehind)
    simpa [words] using hbound
  | hole => exact nomatch h

end Tree

/-! ## Derivation -/

/-- A lexeme with the text of a name has the token of the name, apart from its position. -/
theorem Token.IsWord.bare_eq {token : Token} (h : token.IsWord) {lexeme : Lexeme}
    (htext : lexeme.text = token.name.toList) : lexeme.nameToken.bare = token.bare := by
  rcases h with ⟨hkind, name, hpayload, -⟩
  cases token
  simp_all [Token.bare, Lexeme.nameToken, Token.name, Payload.name]

namespace Grammar

/-- The lexemes have a derivation that stands for the tree, apart from lines and columns. -/
def DerivesBare (n : Nonterminal) (lexemes : List Lexeme) (t : Tree) : Prop :=
  ∃ tree, Derives n lexemes tree ∧ tree.bare = t.bare

namespace DerivesBare

variable {m n : Nonterminal} {level : Level} {lexemes before behind : List Lexeme}
  {t left right value body : Tree} {line : Option Int}

/-- A derivation of a stronger nonterminal is one of a weaker one. -/
theorem weaken (h : DerivesBare n lexemes t) (hle : m.strength ≤ n.strength) :
    DerivesBare m lexemes t := by
  rcases h with ⟨tree, hderives, htree⟩
  exact ⟨tree, hderives.weaken hle, htree⟩

theorem leaf {word : Word} (hwords : lexemes.map Lexeme.word = [word])
    (hleaf : ∀ position, ∃ tree, Lexeme.leaf? ⟨word.kind, word.text, position⟩ = some tree ∧
      tree.bare = t.bare) : DerivesBare n lexemes t := by
  rcases List.map_eq_singleton_iff.1 hwords with ⟨lexeme, rfl, rfl⟩
  rcases hleaf lexeme.position with ⟨tree, htree, hbare⟩
  have hatom : DerivesBare .atom [lexeme] t := ⟨tree, .leaf htree, hbare⟩
  exact hatom.weaken n.strength_le_five

/-- The step for operations. -/
theorem operation {lexeme : Lexeme} (hl : DerivesBare (.level level) before left)
    (hlexeme : precedence lexeme.kind = some level.strength)
    (hr : DerivesBare level.operand behind right) :
    DerivesBare (.level level) (before ++ lexeme :: behind)
      (.binop left (.known lexeme.kind) right line) := by
  rcases hl with ⟨l, hl, hlbare⟩
  rcases hr with ⟨r, hr, hrbare⟩
  refine ⟨_, hl.operation hlexeme hr, ?_⟩
  simp [Tree.bare, hlbare, hrbare]

/-- The step for lets. -/
theorem letIn {letWord name equals inWord : Lexeme} {token : Token} (htoken : token.IsWord)
    (hlet : letWord.word = .fixed .letWord) (hname : name.word = ⟨.ident, token.name.toList⟩)
    (hequals : equals.word = .fixed .assign) (hin : inWord.word = .fixed .inWord)
    (hv : DerivesBare .expression before value) (hb : DerivesBare .expression behind body) :
    DerivesBare .expression (letWord :: name :: equals :: (before ++ inWord :: behind))
      (.letIn token value body line) := by
  rcases hv with ⟨v, hv, hvbare⟩
  rcases hb with ⟨b, hb, hbbare⟩
  have htext : name.text = token.name.toList := congrArg Word.text hname
  refine ⟨_, .letIn (congrArg Word.kind hlet) (congrArg Word.kind hname)
    (congrArg Word.kind hequals) (congrArg Word.kind hin) hv hb, ?_⟩
  simp [Tree.bare, hvbare, hbbare, htoken.bare_eq htext]

/-- An operand in parentheses is derived from every nonterminal, and one without as it is. -/
theorem enclosedIf {needed : Prop} [Decidable needed] {words : List Word}
    (hwords : lexemes.map Lexeme.word = Word.enclosedIf needed words)
    (hinner : ∀ inner m, inner.map Lexeme.word = words → (needed → m = .expression) →
      (¬ needed → m = n) → DerivesBare m inner t) : DerivesBare n lexemes t := by
  unfold Word.enclosedIf at hwords
  split at hwords
  next hneeded =>
    rcases List.map_eq_cons_iff.1 hwords with ⟨lpar, more, rfl, hlpar, hmore⟩
    rcases List.map_eq_append_iff.1 hmore with ⟨inner, last, rfl, hwords', hlast⟩
    rcases List.map_eq_singleton_iff.1 hlast with ⟨rpar, rfl, hrpar⟩
    rcases hinner inner .expression hwords' (fun _ => rfl) (fun h => absurd hneeded h) with
      ⟨tree, hderives, htree⟩
    have hatom : DerivesBare .atom (lpar :: (inner ++ [rpar])) t :=
      ⟨tree, hderives.parenthesis (congrArg Word.kind hlpar) (congrArg Word.kind hrpar), htree⟩
    exact hatom.weaken n.strength_le_five
  next hneeded => exact hinner lexemes n hwords (fun h => absurd h hneeded) (fun _ => rfl)

end DerivesBare

end Grammar

namespace Tree

/-- The words of a tree have a derivation from every nonterminal that binds at most as strongly as
the tree does. -/
theorem derives_words {t : Tree} {texts : Path → List Char} (h : t.Printable texts)
    {lexemes : List Lexeme} (hwords : lexemes.map Lexeme.word = t.words texts) {n : Nonterminal}
    (hn : n.strength ≤ t.strength) : DerivesBare n lexemes t := by
  -- The nonterminal varies: an operand has its own level, or is a whole expression in parentheses.
  induction t generalizing texts lexemes n with
  | int m line =>
    refine .leaf hwords fun position => ⟨_, rfl, ?_⟩
    simp [bare, digitsValue_numeralChars h.1]
  | double x line =>
    refine .leaf hwords fun position => ⟨_, rfl, ?_⟩
    simp [bare, h.2]
  | bool b line =>
    cases b with
    | true | false => exact .leaf hwords fun position => ⟨_, rfl, rfl⟩
  | ident token line =>
    refine .leaf hwords fun position => ⟨_, rfl, ?_⟩
    rw [bare, bare, h.1.bare_eq rfl]
  | binop left operator right line ihleft ihright =>
    rcases h with ⟨⟨kind, hkind, rfl⟩, hleft, hright⟩
    rcases Level.exists_of_supported hkind with ⟨level, hlevel⟩
    rw [words_binop hlevel] at hwords
    rw [strength_binop hlevel] at hn
    rcases List.map_eq_append_iff.1 hwords with ⟨before, more, rfl, hbefore, hmore⟩
    rcases List.map_eq_cons_iff.1 hmore with ⟨lexeme, behind, rfl, hword, hbehind⟩
    have hoperator : lexeme.kind = kind := congrArg Word.kind hword
    have hnext := level.strength_operand
    -- Without parentheses an operand binds strongly enough for its side of the operator.
    have hl : DerivesBare (.level level) before left := by
      refine .enclosedIf hbefore fun inner m hinner hin hout => ihleft hleft hinner ?_
      by_cases hneeded : left.strength < level.strength
      · simp [hin hneeded]
      · simpa [hout hneeded] using hneeded
    have hr : DerivesBare level.operand behind right := by
      refine .enclosedIf hbehind fun inner m hinner hin hout => ihright hright hinner ?_
      by_cases hneeded : right.strength ≤ level.strength
      · simp [hin hneeded]
      · rw [hout hneeded]
        omega
    subst hoperator
    exact (hl.operation hlevel hr).weaken hn
  | letIn token value body line ihvalue ihbody =>
    have hexpression : n = .expression := Nonterminal.eq_of_strength_eq (Nat.le_zero.1 hn)
    subst hexpression
    rcases h with ⟨htoken, hvalue, hbody⟩
    rcases List.map_eq_cons_iff.1 hwords with ⟨letWord, more, rfl, hlet, hmore⟩
    rcases List.map_eq_cons_iff.1 hmore with ⟨name, more, rfl, hname, hmore⟩
    rcases List.map_eq_cons_iff.1 hmore with ⟨equals, more, rfl, hequals, hmore⟩
    rcases List.map_eq_append_iff.1 hmore with ⟨before, more, rfl, hbefore, hmore⟩
    rcases List.map_eq_cons_iff.1 hmore with ⟨inWord, behind, rfl, hin, hbehind⟩
    have hv : DerivesBare .expression before value := ihvalue hvalue hbefore (Nat.zero_le _)
    have hb : DerivesBare .expression behind body := ihbody hbody hbehind (Nat.zero_le _)
    exact .letIn htoken hlet hname hequals hin hv hb
  | hole => exact nomatch h

theorem mem_of_mem_enclosedIf {needed : Prop} [Decidable needed] {words : List Word}
    {word : Word} (h : word ∈ Word.enclosedIf needed words) (hkind : word.kind = .int) :
    word ∈ words := by
  unfold Word.enclosedIf at h
  split at h
  · rcases List.mem_cons.1 h with rfl | h
    · exact nomatch hkind
    · rcases List.mem_append.1 h with h | h
      · exact h
      · cases List.mem_singleton.1 h
        exact nomatch hkind
  · exact h

/-- No integer literal of the words is too long. -/
theorem length_le_of_mem_words {t : Tree} {texts : Path → List Char} (h : t.Printable texts)
    {word : Word} (hword : word ∈ t.words texts) (hkind : word.kind = .int) :
    word.text.length ≤ Source.maxIntegerDigits := by
  -- Only numerals are integers; parentheses, operators and keywords are not.
  induction t generalizing texts with
  | int n line =>
    cases List.mem_singleton.1 hword
    exact length_numeralChars_le h.1 (by decide) h.2
  | double x line | ident token line =>
    cases List.mem_singleton.1 hword
    exact nomatch hkind
  | bool b line =>
    cases List.mem_singleton.1 hword
    cases b <;> exact nomatch hkind
  | binop left operator right line ihleft ihright =>
    rcases h with ⟨⟨kind, hsupported, rfl⟩, hleft, hright⟩
    rcases List.mem_append.1 hword with hword | hword
    · exact ihleft hleft (mem_of_mem_enclosedIf hword hkind)
    · rcases List.mem_cons.1 hword with rfl | hword
      · rw [show kind = .int from hkind] at hsupported
        exact absurd hsupported (by decide)
      · exact ihright hright (mem_of_mem_enclosedIf hword hkind)
  | letIn token value body line ihvalue ihbody =>
    rcases h with ⟨-, hvalue, hbody⟩
    simp only [words, List.mem_cons, List.mem_append] at hword
    rcases hword with rfl | rfl | rfl | hword | rfl | hword
    · exact nomatch hkind
    · exact nomatch hkind
    · exact nomatch hkind
    · exact ihvalue hvalue hword
    · exact nomatch hkind
    · exact ihbody hbody hword
  | hole => exact nomatch h

end Tree

namespace Source

/-- Reading what is printed gives the tree, apart from lines and columns. -/
theorem read_print (texts : Path → List Char) (t : Tree) (h : t.Printable texts) :
    ∃ tree, read (t.print texts) = .ok tree ∧ tree.bare = t.bare := by
  have hend : Word.Legible .continuation [] := trivial
  have hlegible : Word.Legible .expression (t.words texts ++ []) :=
    t.legible_words h (.inl rfl) nofun hend
  rw [List.append_nil] at hlegible
  -- The text has the words of the tree as its lexemes, and these have a derivation of the tree.
  rcases Word.tokenizes_joined hlegible (.inl rfl) .start with ⟨lexemes, htokens, hwords⟩
  have hderives : DerivesBare .expression lexemes t := t.derives_words h hwords (Nat.zero_le _)
  rcases hderives with ⟨tree, ⟨d, rfl, rfl⟩, hbare⟩
  have htokenized : Tokenized (t.print texts) d.yield := by
    simpa [Tokenized, Tree.print] using htokens
  have hshort : oversized? d.yield = none := by
    rw [← Option.not_isSome_iff_eq_none, oversized?_isSome_iff]
    rintro ⟨lexeme, hlexeme, hkind, hlong⟩
    have hmem : lexeme.word ∈ t.words texts := hwords ▸ List.mem_map_of_mem hlexeme
    have hle := t.length_le_of_mem_words h hmem hkind
    exact absurd hlong (Nat.not_lt.2 hle)
  refine ⟨d.tree, ?_, hbare⟩
  rw [read_of_tokenized htokenized, hshort]
  rfl

/-- A name spelled like a keyword, a double with a zero that adds nothing, and operands that need
their parentheses. -/
theorem read_print_operands :
    ∃ (texts : Path → List Char) (t : Tree), t.Printable texts ∧
      t.print texts = "let in = 1.50 in ( in + and ) * ( let x = 0 in x )" ∧
      ∃ tree, read (t.print texts) = .ok tree ∧ tree.bare = t.bare := by
  have hin : Token.IsWord ⟨.ident, .text "in", 0, 0⟩ :=
    ⟨rfl, "in", rfl, 'i', ['n'], rfl, by decide, List.all_eq_true.1 (by decide)⟩
  have hand : Token.IsWord ⟨.ident, .text "and", 0, 0⟩ :=
    ⟨rfl, "and", rfl, 'a', ['n', 'd'], rfl, by decide, List.all_eq_true.1 (by decide)⟩
  have hx : Token.IsWord ⟨.ident, .text "x", 0, 0⟩ :=
    ⟨rfl, "x", rfl, 'x', [], rfl, by decide, nofun⟩
  have hdouble : TokenKind.double.Spells ['1', '.', '5', '0'] :=
    ⟨['1'], ['5', '0'], rfl, ⟨by decide, List.all_eq_true.1 (by decide)⟩, by decide,
      List.all_eq_true.1 (by decide)⟩
  have hsum : (Operator.known .add).IsSupported := ⟨.add, by decide, rfl⟩
  have hproduct : (Operator.known .mult).IsSupported := ⟨.mult, by decide, rfl⟩
  have hprintable : Tree.Printable (fun _ => ['1', '.', '5', '0'])
      (.letIn ⟨.ident, .text "in", 0, 0⟩ (.double (doubleOfDigits ['1', '.', '5', '0']) none)
        (.binop
          (.binop (.ident ⟨.ident, .text "in", 0, 0⟩ none) (.known .add)
            (.ident ⟨.ident, .text "and", 0, 0⟩ none) none)
          (.known .mult)
          (.letIn ⟨.ident, .text "x", 0, 0⟩ (.int 0 none) (.ident ⟨.ident, .text "x", 0, 0⟩ none)
            none) none) none) :=
    ⟨hin, ⟨hdouble, rfl⟩, hproduct, ⟨hsum, ⟨hin, by decide⟩, hand, by decide⟩, hx,
      ⟨by decide, tenPow_pos _⟩, hx, by decide⟩
  exact ⟨_, _, hprintable, by decide +kernel, read_print _ _ hprintable⟩

end Source

end LetLang
