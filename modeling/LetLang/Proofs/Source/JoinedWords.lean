import Mathlib.Data.List.Basic
import LetLang.Proofs.Source.InvisibleCharacters

/-!
# Words that are joined

Where only hidden spaces stand between two words, dropping them makes one longer word. The text is
then read as another tree, if it is read at all: a tree tells the texts of its leaves and binders.
-/

namespace LetLang

open Grammar Piece

/-! ## Rows of words -/

def leafKinds : List TokenKind := [.ident, .trueWord, .falseWord]

namespace Word

def isLeaf (word : Word) : Bool := decide (word.kind ∈ leafKinds)

def leafTexts (words : List Word) : List (List Char) := (words.filter isLeaf).map Word.text

theorem leafTexts_append (words more : List Word) :
    leafTexts (words ++ more) = leafTexts words ++ leafTexts more := by
  simp [leafTexts]

theorem leafTexts_cons {word : Word} (h : word.isLeaf = true) (words : List Word) :
    leafTexts (word :: words) = word.text :: leafTexts words := by
  simp [leafTexts, h]

theorem leafTexts_cons_of_not {word : Word} (h : word.isLeaf = false) (words : List Word) :
    leafTexts (word :: words) = leafTexts words := by
  simp [leafTexts, h]

/-- The words have different texts from some place on: the next leaf of one is longer than that of
the other. -/
def Diverge (words words' : List Word) : Prop :=
  ∃ common rest longer rest', words = common ++ rest ∧ words' = common ++ longer :: rest' ∧
    longer.isLeaf = true ∧
    ∃ text texts, leafTexts rest = text :: texts ∧ text.length < longer.text.length

/-- Common words in front make no difference. -/
theorem Diverge.append {words words' : List Word} (h : Diverge words words') (common : List Word) :
    Diverge (common ++ words) (common ++ words') := by
  obtain ⟨front, rest, longer, rest', rfl, rfl, hlonger⟩ := h
  exact ⟨common ++ front, rest, longer, rest', by simp, by simp, hlonger⟩

/-- Words that diverge have different texts. -/
theorem Diverge.leafTexts_ne {words words' : List Word} (h : Diverge words words') :
    leafTexts words ≠ leafTexts words' := by
  obtain ⟨common, rest, longer, rest', rfl, rfl, hleaf, text, texts, htexts, hlength⟩ := h
  intro hsame
  rw [leafTexts_append, leafTexts_append, htexts] at hsame
  have hrest := List.append_cancel_left hsame
  rw [leafTexts_cons hleaf] at hrest
  have htext := (List.cons.inj hrest).1
  rw [htext] at hlength
  exact absurd hlength (Nat.lt_irrefl _)

end Word

/-- A word that is as long as possible is read where a name is acceptable. -/
theorem Context.Reads.spellsLongest_of_word {context : Context} {kind : TokenKind}
    {text rest : List Char} (h : context.Reads kind text rest) (hkind : kind ∈ wordKinds) :
    .ident ∈ context.accepts ∧ TokenKind.ident.SpellsLongest text rest := by
  cases h with
  | double _ _ | int _ _ _ => exact absurd hkind (by decide)
  | name haccepts htext _ => exact ⟨haccepts, htext⟩
  | keyword haccepts htext _ _ _ => exact ⟨haccepts, htext⟩
  | fixed hmem hspelling hword =>
    have hnone : ∀ context : Context, ∀ kind ∈ wordKinds, kind ∈ context.accepts →
        .ident ∈ context.accepts ∧ (kind.spelling?.isSome = true → kind ∈ TokenKind.keywords) := by
      intro context
      cases context <;> decide
    obtain ⟨haccepts, hkeyword⟩ := hnone context kind hkind hmem
    exact absurd haccepts (hword (hkeyword (by rw [hspelling]; rfl)))

namespace Piece

/-- Where a name is bound, a word that follows hidden spaces is the name. -/
theorem AreRead.exists_name {pieces : List Piece} {cs : List Char} (h : AreRead .binder pieces)
    (hcs : cs.map unhidden = textOf pieces) (hword : ¬ StopsAt isWordPart (stripped cs)) :
    ∃ name rest behind, wordsOf pieces = ⟨.ident, name⟩ :: rest ∧ stripped cs = name ++ behind ∧
      ∀ c ∈ name, isWordPart c = true := by
  obtain ⟨pieces', cs', hpieces', hcs', hwords, hstripped, hfront⟩ := h.exists_front hcs
  have hstart : ∃ c ∈ (textOf pieces').head?, isWordPart c = true := by
    simpa [StopsAt, hfront] using hword
  obtain ⟨c, hc, hpart⟩ := hstart
  have hblank := isBlank_of_isWordPart hpart
  cases hpieces' with
  | nil => cases hc
  | spacing hspacing _ =>
    cases hc
    rw [isBlank_of_isSpacing hspacing] at hblank
    cases hblank
  | comment _ _ _ =>
    cases hc
    exact absurd hpart (by decide)
  | @lexeme _ kind name pieces' hreads _ =>
    cases hreads with
    | double haccepts _ | int haccepts _ _ => exact absurd haccepts (by decide)
    | keyword _ _ hkeyword hkind _ =>
      rw [List.mem_singleton.1 hkind] at hkeyword
      exact absurd hkeyword (by decide)
    | fixed hkind hspelling _ =>
      rw [List.mem_singleton.1 hkind] at hspelling
      cases hspelling
    | name _ htext _ =>
      obtain ⟨first, more, rfl, hfirst, hmore⟩ := htext.1
      have hname : ∀ c ∈ first :: more, isWordPart c = true :=
        List.forall_mem_cons.2 ⟨isWordPart_of_isWordStart hfirst, hmore⟩
      obtain ⟨front, behind, rfl, hfront, -⟩ := List.map_eq_append_iff.1 hcs'
      have hspace : ' ' ∉ first :: more := fun hmem => absurd (hname _ hmem) (by decide)
      refine ⟨first :: more, wordsOf pieces', stripped behind, hwords.symm, ?_, hname⟩
      rw [← hstripped, stripped_append, (eq_of_map_unhidden hfront hspace).2]
      rfl

end Piece

/-- The keywords that are told from names, and where one of them is `let`. -/
theorem Context.kindOf_words_cases (context : Context) (text : List Char) :
    context.words.kindOf text ∈ leafKinds ∨ context = .expression ∧ text = ['l', 'e', 't'] := by
  have htable : ∀ word ∈ context.words,
      word.2 ∈ leafKinds ∨ context = .expression ∧ word.1 = ['l', 'e', 't'] := by
    cases context <;> decide
  unfold Keywords.kindOf
  cases hfind : context.words.find? (·.1 == text) with
  | none => exact .inl (by decide)
  | some word =>
    have hword : word.1 = text := by simpa using List.find?_some hfind
    rw [← hword]
    exact htable word (List.mem_of_find?_eq_some hfind)

theorem mem_leafKinds_or_eq {kind : TokenKind} (h : kind ∈ wordKinds) :
    kind ∈ leafKinds ∨ kind = .letWord := by
  revert kind
  decide

namespace Piece

section Joined

variable {context : Context} {kind : TokenKind} {text : List Char} {pieces : List Piece}
  {cs : List Char} (hreads : context.Reads kind text (textOf pieces))
  (h : AreRead (context.next kind) pieces) (hcs : cs.map unhidden = textOf pieces)
  (hkind : kind ∈ wordKinds) {c : Char} {more behind : List Char}
  (hjoined : stripped cs = c :: more ++ behind)

include hreads h hcs hkind hjoined

/-- The longer word is never `let`: the letters that start a word behind an operand do not occur in
it. -/
theorem longer_ne_let (hcontext : context = .expression) : text ++ c :: more ≠ ['l', 'e', 't'] := by
  intro hlet
  rcases mem_leafKinds_or_eq hkind with hleaf | rfl
  · have hnext : ∀ kind ∈ leafKinds, Context.next .expression kind = .continuation := by decide
    rw [hcontext, hnext kind hleaf] at h
    have hfront := h.front_stripped hcs c (by rw [hjoined]; rfl)
    obtain ⟨first, others, rfl⟩ := List.exists_cons_of_ne_nil hreads.text_ne_nil
    have hletter : c ∈ ['e', 't'] := by
      rw [← (List.cons.inj hlet).2]
      exact List.mem_append_right _ List.mem_cons_self
    have hnone : ∀ c ∈ ['e', 't'], c ∉ continuationFronts := by simp [continuationFronts]
    exact hnone c hletter hfront
  · have htext : text = ['l', 'e', 't'] := (Option.some.inj hreads.spells).symm
    rw [htext] at hlet
    cases hlet

/-- A word that is joined to what follows is read as a longer one. -/
theorem AreRead.diverge_here (hmore : ∀ d ∈ c :: more, isWordPart d = true)
    (hstop : StopsAt isWordPart behind) {pieces' : List Piece} (h' : AreRead context pieces')
    (htext : textOf pieces' = text ++ stripped cs) :
    Word.Diverge (wordsOf (.lexeme kind text :: pieces)) (wordsOf pieces') := by
  obtain ⟨haccepts, hlongest⟩ := hreads.spellsLongest_of_word hkind
  -- The longer word goes on with all characters of words that follow.
  have hlonger : TokenKind.ident.SpellsLongest (text ++ c :: more) behind := by
    obtain ⟨first, others, rfl, hstart, hothers, -⟩ := ident_spellsLongest_iff.1 hlongest
    refine ident_spellsLongest_iff.2 ⟨first, others ++ c :: more, rfl, hstart, ?_, hstop⟩
    intro d hd
    rcases List.mem_append.1 hd with hd | hd
    · exact hothers d hd
    · exact hmore d hd
  have hfirst := first?_lexeme (Context.reads_of_match?
    (Context.match?_of_spellsLongest haccepts hlonger))
  rw [List.append_assoc, ← hjoined, ← htext] at hfirst
  obtain ⟨rest, rfl⟩ := h'.exists_cons hfirst
  -- It makes a leaf, because it is not `let`.
  have hleaf : context.words.kindOf (text ++ c :: more) ∈ leafKinds := by
    rcases context.kindOf_words_cases (text ++ c :: more) with hleaf | ⟨hcontext, hlet⟩
    · exact hleaf
    · exact absurd hlet (longer_ne_let hreads h hcs hkind hjoined hcontext)
  refine ⟨[], wordsOf (.lexeme kind text :: pieces), _, wordsOf rest, rfl, rfl,
    decide_eq_true hleaf, ?_⟩
  rw [wordsOf_cons, words, List.singleton_append]
  rcases mem_leafKinds_or_eq hkind with hkind | rfl
  · refine ⟨text, _, Word.leafTexts_cons (decide_eq_true hkind) _, ?_⟩
    simp
  · -- The name that `let` binds is part of the longer word.
    have hjoins : ¬ StopsAt isWordPart (stripped cs) := by
      simp [StopsAt, hjoined, hmore c List.mem_cons_self]
    obtain ⟨name, others, after, hwords, hname, hparts⟩ := AreRead.exists_name h hcs hjoins
    refine ⟨name, Word.leafTexts others, ?_, ?_⟩
    · have hident : Word.isLeaf ⟨.ident, name⟩ = true := rfl
      rw [hwords]
      exact Word.leafTexts_cons hident others
    · have htake := congrArg (List.takeWhile isWordPart) (hname.symm.trans hjoined)
      rw [List.takeWhile_append_of_pos hparts, takeWhile_append_of_stopsAt hmore hstop] at htake
      have hlength := congrArg List.length htake
      have hpos : 0 < text.length := List.length_pos_iff.2 hreads.text_ne_nil
      rw [List.length_append] at hlength
      rw [List.length_append, ← hlength]
      omega

end Joined

/-- The characters of a word that a text starts with. -/
theorem exists_more {cs : List Char} (h : ¬ StopsAt isWordPart cs) :
    ∃ c more behind, cs = c :: more ++ behind ∧ (∀ d ∈ c :: more, isWordPart d = true) ∧
      StopsAt isWordPart behind := by
  obtain ⟨c, hc, hpart⟩ : ∃ c ∈ cs.head?, isWordPart c = true := by simpa [StopsAt] using h
  obtain ⟨rest, rfl⟩ := List.head?_eq_some_iff.1 hc
  refine ⟨c, rest.takeWhile isWordPart, rest.dropWhile isWordPart, ?_, ?_, stopsAt_dropWhile _ _⟩
  · rw [List.cons_append, List.takeWhile_append_dropWhile]
  · exact List.forall_mem_cons.2 ⟨hpart, fun d hd => mem_takeWhile_imp hd⟩

/-- Where words are joined, the row without hidden spaces has other words. -/
theorem AreRead.diverge {context : Context} {pieces pieces' : List Piece} {cs : List Char}
    (h : AreRead context pieces) (hcs : cs.map unhidden = textOf pieces)
    (h' : AreRead context pieces') (hcs' : textOf pieces' = stripped cs)
    (hjoins : Joins pieces cs) : Word.Diverge (wordsOf pieces) (wordsOf pieces') := by
  -- Up to the first word that is joined both rows have the same words.
  induction pieces generalizing context cs pieces' with
  | nil => exact hjoins.elim
  | cons piece pieces ih =>
    obtain ⟨front, behind, rfl, hlength, hbehind, hcase⟩ := h.exists_thinned hcs
    obtain ⟨hpiece, hpieces⟩ := areRead_cons_iff.1 h
    rw [joins_cons_iff hlength] at hjoins
    rw [stripped_append] at hcs'
    rcases hcase with ⟨rfl, hdropped⟩ | ⟨piece', hthinned, hfront, hstands⟩
    · rw [hdropped] at hcs'
      exact ih hpieces hbehind h' hcs' (hjoins.resolve_left fun hword => hword.1)
    · rw [← hfront] at hcs'
      by_cases hapart : piece.IsWord → StopsAt isWordPart (stripped behind)
      · have hfirst := (hstands hapart).first?_eq
        rw [← hcs'] at hfirst
        obtain ⟨rest, rfl⟩ := h'.exists_cons hfirst
        have hrest := (areRead_cons_iff.1 h').2
        rw [hthinned.next_eq] at hrest
        have hdiverge := ih hpieces hbehind hrest (List.append_cancel_left hcs')
          (hjoins.resolve_left fun hword => hword.2 (hapart hword.1))
        rw [wordsOf_cons, wordsOf_cons, hthinned.words_eq]
        exact hdiverge.append piece.words
      · obtain ⟨hword, hjoined⟩ := Classical.not_imp.1 hapart
        obtain ⟨c, more, after, hjoined, hmore, hstop⟩ := exists_more hjoined
        cases hthinned with
        | spacing _ | comment _ _ => exact hword.elim
        | lexeme kind text =>
          exact AreRead.diverge_here hpiece hpieces hbehind hword hjoined hmore hstop h' hcs'

end Piece

/-! ## The words of trees -/

/-- The words of the leaves and binders of a tree, from left to right. -/
def Tree.leafTexts : Tree → List (List Char)
  | .bool b _ => [(boolWord b).toList]
  | .ident token _ => [token.name.toList]
  | .binop left _ right _ => left.leafTexts ++ right.leafTexts
  | .letIn token value body _ => token.name.toList :: (value.leafTexts ++ body.leafTexts)
  | _ => []

theorem Tree.leafTexts_withoutColumns (t : Tree) : t.withoutColumns.leafTexts = t.leafTexts := by
  induction t with
  | binop left operator right line ihleft ihright =>
    simp only [withoutColumns, leafTexts, ihleft, ihright]
  | letIn token value body line ihvalue ihbody =>
    simp only [withoutColumns, leafTexts, ihvalue, ihbody]
    rfl
  | int _ _ | double _ _ | bool _ _ | ident _ _ | hole => rfl

theorem Lexeme.leafTexts_word (lexeme : Lexeme) :
    Word.leafTexts [lexeme.word] = if lexeme.kind ∈ leafKinds then [lexeme.text] else [] := by
  by_cases h : lexeme.kind ∈ leafKinds
  · rw [if_pos h, Word.leafTexts_cons (decide_eq_true h)]
    rfl
  · rw [if_neg h, Word.leafTexts_cons_of_not (decide_eq_false h)]
    rfl

@[simp] theorem Lexeme.name_nameToken (lexeme : Lexeme) :
    lexeme.nameToken.name.toList = lexeme.text := String.toList_ofList

namespace Grammar

/-- The text of a leaf is that of its word. -/
theorem Leaf.leafTexts_eq {lexeme : Lexeme} {tree : Tree} (h : Leaf lexeme tree)
    (hspells : lexeme.kind.Spells lexeme.text) :
    tree.leafTexts = Word.leafTexts [lexeme.word] := by
  rw [lexeme.leafTexts_word]
  cases h with
  | int hkind | double hkind =>
    rw [hkind]
    rfl
  | true hkind | false hkind =>
    rw [hkind] at hspells ⊢
    rw [← Option.some.inj hspells]
    rfl
  | ident hkind =>
    rw [hkind, Tree.leafTexts, lexeme.name_nameToken]
    rfl

/-- The leaves and binders of a tree tell the words that they are made of. -/
theorem Derivation.leafTexts_eq {n : Nonterminal} (d : Derivation n)
    (h : ∀ lexeme ∈ d.yield, lexeme.kind.Spells lexeme.text) :
    d.tree.leafTexts = Word.leafTexts (d.yield.map Lexeme.word) := by
  have hskip {kinds : List TokenKind} (hkinds : ∀ kind ∈ kinds, kind ∉ leafKinds)
      (terminal : Terminal kinds) (words : List Word) :
      Word.leafTexts (terminal.lexeme.word :: words) = Word.leafTexts words :=
    Word.leafTexts_cons_of_not (decide_eq_false (hkinds _ terminal.kind_mem)) words
  induction d with
  | letIn letWord name equals value inWord body ihvalue ihbody =>
    have hname : name.lexeme.kind ∈ leafKinds := by
      rw [name.kind_eq]
      exact List.mem_cons_self
    have hvalue := ihvalue fun l hl => h l (by simp [yield, hl])
    have hbody := ihbody fun l hl => h l (by simp [yield, hl])
    simp only [yield, List.map_cons, List.map_append]
    rw [hskip (by decide), Word.leafTexts_cons (decide_eq_true hname), hskip (by decide),
      Word.leafTexts_append, hskip (by decide), ← hvalue, ← hbody, tree, Tree.leafTexts,
      name.lexeme.name_nameToken]
    rfl
  | operations inner ih | operand level inner ih => exact ih h
  | operation level left operator right ihleft ihright =>
    have hoperators : ∀ kind ∈ level.operators, kind ∉ leafKinds := by cases level <;> decide
    have hleft := ihleft fun l hl => h l (by simp [yield, hl])
    have hright := ihright fun l hl => h l (by simp [yield, hl])
    simp only [yield, List.map_cons, List.map_append]
    rw [Word.leafTexts_append, hskip hoperators, ← hleft, ← hright]
    rfl
  | leaf lexeme tree isLeaf => exact isLeaf.leafTexts_eq (h lexeme (by simp [yield]))
  | parenthesis lpar inner rpar ih =>
    have hinner := ih fun l hl => h l (by simp [yield, hl])
    simp only [yield, List.map_cons, List.map_append, List.map_nil]
    rw [hskip (by decide), Word.leafTexts_append, hskip (by decide), ← hinner]
    exact (List.append_nil _).symm

end Grammar

/-! ## Texts without invisible characters -/

namespace Source

variable {text source : String} {tree : Tree}

/-- The leaves of a tree that was read are the words of its pieces. -/
theorem exists_row_of_read (h : read source = .ok tree) :
    ∃ pieces, IsRow source pieces ∧ Tokenized source (placed .start pieces) ∧
      tree.leafTexts = Word.leafTexts (wordsOf pieces) := by
  obtain ⟨d, htokens, rfl, -⟩ := read_eq_ok_iff.1 h
  obtain ⟨pieces, hpieces, htext, hplaced⟩ := Tokenizes.exists_pieces htokens
  refine ⟨pieces, ⟨hpieces, htext⟩, hplaced ▸ htokens, ?_⟩
  rw [wordsOf_eq .start, hplaced]
  exact d.leafTexts_eq fun lexeme hlexeme => (Tokenizes.spells_of_mem htokens lexeme hlexeme).1

/-- Without invisible characters, a name, `true`, `false` or `let` of the text with spaces goes on
with a character of a word. -/
def IsJoined (text : String) : Prop :=
  ∃ pieces, IsRow (spaced text) pieces ∧ Joins pieces (wideChars text)

/-- Dropping the invisible characters keeps the tree of a text, up to columns, unless it joins
words. -/
theorem stripping_keeps_tree_iff (hread : read (spaced text) = .ok tree) :
    (∃ tree', read (withoutInvisible text) = .ok tree' ∧
        tree'.withoutColumns = tree.withoutColumns) ↔ ¬ IsJoined text := by
  obtain ⟨pieces, hrow, htokens, htexts⟩ := exists_row_of_read hread
  have hcs : (wideChars text).map unhidden = textOf pieces := by
    rw [hrow.2, spaced, String.toList_ofList]
  constructor
  · rintro ⟨tree', hread', hsame⟩ ⟨row, hjoined, hjoins⟩
    obtain ⟨pieces', hrow', -, htexts'⟩ := exists_row_of_read hread'
    rw [hjoined.1.unique hrow.1 (hjoined.2.trans hrow.2.symm)] at hjoins
    have hcs' : textOf pieces' = stripped (wideChars text) := by
      rw [hrow'.2, toList_withoutInvisible]
    refine (hrow.1.diverge hcs hrow'.1 hcs' hjoins).leafTexts_ne ?_
    rw [← htexts, ← htexts', ← tree.leafTexts_withoutColumns, ← hsame,
      tree'.leafTexts_withoutColumns]
  · intro hapart
    obtain ⟨pieces', hpieces', htext, hlines⟩ :=
      hrow.1.exists_stripped hcs fun hjoins => hapart ⟨pieces, hrow, hjoins⟩
    have htokens' : Tokenized (withoutInvisible text) (placed .start pieces') := by
      rw [Tokenized, toList_withoutInvisible, ← htext]
      exact hpieces'.tokenizes .start
    exact exists_read_of_lines hread htokens htokens' (hlines _ _ rfl)

/-- Behind a number `or` may follow at once, and so may a name behind `or`; behind a name `or` must
not. -/
theorem stripping_keeps_tree_iff_or :
    ¬ IsJoined "1\u00a0or\r\u200bx" ∧ IsJoined "x\u00a0or 1" := by
  have hread : read (spaced "1\u00a0or\r\u200bx") =
      .ok (.binop (.int 1 (some 1)) (.known .or) (.ident ⟨.ident, .text "x", 1, 6⟩ (some 1))
        (some 1)) := by decide +kernel
  have hread' : read (withoutInvisible "1\u00a0or\r\u200bx") =
      .ok (.binop (.int 1 (some 1)) (.known .or) (.ident ⟨.ident, .text "x", 1, 4⟩ (some 1))
        (some 1)) := by decide +kernel
  have hjoined : read (spaced "x\u00a0or 1") =
      .ok (.binop (.ident ⟨.ident, .text "x", 1, 1⟩ (some 1)) (.known .or) (.int 1 (some 1))
        (some 1)) := by decide +kernel
  have hjoined' : read (withoutInvisible "x\u00a0or 1") =
      .error (.rejected (.unexpected ⟨.int, ['1'], ⟨1, 5⟩⟩)) := by decide +kernel
  refine ⟨(stripping_keeps_tree_iff hread).1 ⟨_, hread', by decide⟩, Classical.not_not.1 ?_⟩
  intro hapart
  obtain ⟨tree, hread, -⟩ := (stripping_keeps_tree_iff hjoined).2 hapart
  rw [hjoined'] at hread
  cases hread

/-- Dropping the invisible characters can make a text unreadable. -/
theorem stripping_joins_words :
    ¬ ∀ (text : String) (tree : Tree), read (spaced text) = .ok tree →
      ∃ tree', read (withoutInvisible text) = .ok tree' ∧
        tree'.withoutColumns = tree.withoutColumns := by
  intro h
  have hread : read (spaced "x\u00a0or y") =
      .ok (.binop (.ident ⟨.ident, .text "x", 1, 1⟩ (some 1)) (.known .or)
        (.ident ⟨.ident, .text "y", 1, 6⟩ (some 1)) (some 1)) := by decide +kernel
  have hjoined : read (withoutInvisible "x\u00a0or y") =
      .error (.rejected (.unexpected ⟨.ident, ['y'], ⟨1, 5⟩⟩)) := by decide +kernel
  obtain ⟨tree', hread', -⟩ := h _ _ hread
  rw [hjoined] at hread'
  cases hread'

end Source

end LetLang
