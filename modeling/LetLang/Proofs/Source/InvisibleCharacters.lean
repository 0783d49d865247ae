import LetLang.Session.PromptLoop
import LetLang.Proofs.Source.Columns
import LetLang.Proofs.Source.Pieces
import LetLang.Proofs.Source.Spelling

/-!
# Invisible characters

A prompt drops the invisible characters of its line. Two of them look like a space: a text in which
they are spaces is read as the same pieces without them, as long as no two words become one. A
number needs no separator, because nothing that may follow it starts with a digit or a point.
-/

namespace LetLang

open Grammar Piece

/-! ## Invisible characters -/

def isZeroWidth (c : Char) : Bool :=
  c = '\u200b' || c = '\u200c' || c = '\u200d' || c = '\ufeff'

def isHiddenSpace (c : Char) : Bool := c = '\u00a0' || c = '\r'

/-- The character, or the space that it looks like. -/
def unhidden (c : Char) : Char := if isHiddenSpace c then ' ' else c

def wideChars (text : String) : List Char := text.toList.filter (!isZeroWidth ·)

/-- The text with a space for every hidden one, and without the characters of no width. -/
def spaced (text : String) : String := String.ofList ((wideChars text).map unhidden)

/-- The characters without hidden spaces. -/
def stripped (cs : List Char) : List Char := cs.filter (!isHiddenSpace ·)

/-- Characters of no width are dropped first, and hidden spaces then. -/
theorem toList_withoutInvisible (text : String) :
    (withoutInvisible text).toList = stripped (wideChars text) := by
  rw [withoutInvisible, String.toList_ofList, stripped, wideChars, List.filter_filter]
  congr 1
  funext c
  simp only [isInvisible, isHiddenSpace, isZeroWidth, Bool.not_or, Bool.and_assoc]
  ac_rfl

@[simp] theorem stripped_nil : stripped [] = [] := rfl

@[simp] theorem stripped_append (cs more : List Char) :
    stripped (cs ++ more) = stripped cs ++ stripped more := List.filter_append ..

theorem stripped_cons_of_hidden {c : Char} (h : isHiddenSpace c = true) (cs : List Char) :
    stripped (c :: cs) = stripped cs := by
  simp [stripped, h]

theorem stripped_cons {c : Char} (h : isHiddenSpace c = false) (cs : List Char) :
    stripped (c :: cs) = c :: stripped cs := by
  simp [stripped, h]

theorem unhidden_of_hidden {c : Char} (h : isHiddenSpace c = true) : unhidden c = ' ' := by
  rw [unhidden, if_pos h]

theorem unhidden_of_not {c : Char} (h : isHiddenSpace c = false) : unhidden c = c := by
  rw [unhidden, if_neg (by rw [h]; decide)]

/-- What is no space stands for itself. -/
theorem of_unhidden_ne {c : Char} (h : unhidden c ≠ ' ') : isHiddenSpace c = false := by
  cases hc : isHiddenSpace c with
  | false => rfl
  | true => exact absurd (unhidden_of_hidden hc) h

/-- A text without spaces stands for itself. -/
theorem eq_of_map_unhidden {cs text : List Char} (h : cs.map unhidden = text) (hspace : ' ' ∉ text) :
    cs = text ∧ stripped cs = text := by
  have hkept : ∀ c ∈ cs, isHiddenSpace c = false := by
    intro c hc
    refine of_unhidden_ne fun heq => hspace ?_
    rw [← h, ← heq]
    exact List.mem_map_of_mem hc
  have hcs : cs = text := by
    rw [← h]
    exact (List.map_id cs).symm.trans
      (List.map_congr_left fun c hc => (unhidden_of_not (hkept c hc)).symm)
  refine ⟨hcs, ?_⟩
  rw [← hcs, stripped, List.filter_eq_self]
  intro c hc
  simp [hkept c hc]

/-! ## Words that are joined -/

/-- The words that are as long as possible: a name, and what is read as one first. -/
def wordKinds : List TokenKind := [.ident, .trueWord, .falseWord, .letWord]

namespace Piece

def IsWord : Piece → Prop
  | .lexeme kind _ => kind ∈ wordKinds
  | _ => False

/-- Behind one of the words the characters go on with a character of a word, when hidden spaces are
dropped. The characters are those that the pieces are read from. -/
def Joins : List Piece → List Char → Prop
  | [], _ => False
  | piece :: pieces, cs =>
      (piece.IsWord ∧ ¬ StopsAt isWordPart (stripped (cs.drop piece.text.length))) ∨
        Joins pieces (cs.drop piece.text.length)

/-- Words are joined at the first piece, or behind it. -/
theorem joins_cons_iff {piece : Piece} {pieces : List Piece} {front cs : List Char}
    (hfront : front.length = piece.text.length) :
    Joins (piece :: pieces) (front ++ cs) ↔
      (piece.IsWord ∧ ¬ StopsAt isWordPart (stripped cs)) ∨ Joins pieces cs := by
  rw [Joins, List.drop_left' hfront]

end Piece

/-! ## Lexemes in front of another rest -/

/-- Where names are acceptable, the keywords are words that are read as names first. -/
theorem Context.mem_wordKinds {context : Context} (haccepts : .ident ∈ context.accepts)
    {kind : TokenKind} (hkeyword : kind ∈ TokenKind.keywords) (hkind : kind ∈ context.accepts) :
    kind ∈ wordKinds := by
  cases context <;> revert kind <;> revert haccepts <;> decide

/-- A lexeme is read in front of another rest, if this goes on with neither the word nor the
number. -/
theorem Context.Reads.of_stops {context : Context} {kind : TokenKind} {text rest rest' : List Char}
    (h : context.Reads kind text rest) (hword : kind ∈ wordKinds → StopsAt isWordPart rest')
    (hnumber : kind ∈ [.int, .double] → StopsAt isDigit rest' ∧ '.' ∉ rest'.head?) :
    context.Reads kind text rest' := by
  have hname (htext : TokenKind.ident.SpellsLongest text rest) (hkind : kind ∈ wordKinds) :
      TokenKind.ident.SpellsLongest text rest' := by
    obtain ⟨c, cs, htext, hc, hcs, -⟩ := ident_spellsLongest_iff.1 htext
    exact ident_spellsLongest_iff.2 ⟨c, cs, htext, hc, hcs, hword hkind⟩
  cases h with
  | double haccepts htext =>
    obtain ⟨whole, fraction, htext, hwhole, hfraction, -⟩ := double_spellsLongest_iff.1 htext
    exact .double haccepts (double_spellsLongest_iff.2
      ⟨whole, fraction, htext, hwhole, hfraction, (hnumber (by decide)).1⟩)
  | int haccepts _ htext =>
    obtain ⟨hdigits, -⟩ := int_spellsLongest_iff.1 htext
    obtain ⟨hstop, hpoint⟩ := hnumber (by decide)
    refine .int haccepts ((no_double_iff hdigits hstop).2 ?_)
      (int_spellsLongest_iff.2 ⟨hdigits, hstop⟩)
    rintro more rfl
    exact absurd rfl hpoint
  | name haccepts htext hplain => exact .name haccepts (hname htext (by decide)) hplain
  | keyword haccepts htext hkeyword hkind hspells =>
    have hmem := Context.mem_wordKinds haccepts hkeyword hkind
    exact .keyword haccepts (hname htext hmem) hkeyword hkind hspells
  | fixed hkind hspelling hword => exact .fixed hkind hspelling hword

/-! ## Pieces without hidden spaces -/

namespace Piece

def words : Piece → List Word
  | .lexeme kind text => [⟨kind, text⟩]
  | _ => []

def wordsOf (pieces : List Piece) : List Word := pieces.flatMap words

@[simp] theorem wordsOf_cons (piece : Piece) (pieces : List Piece) :
    wordsOf (piece :: pieces) = piece.words ++ wordsOf pieces := rfl

theorem wordsOf_eq (position : Position) (pieces : List Piece) :
    wordsOf pieces = (placed position pieces).map Lexeme.word := by
  induction pieces generalizing position with
  | nil => rfl
  | cons piece pieces ih =>
    cases piece with
    | spacing c | comment body => exact ih _
    | lexeme kind text => exact congrArg (⟨kind, text⟩ :: ·) (ih _)

/-- What a piece behind an operand starts with: layout, an operator, `in` or a parenthesis. -/
def continuationFronts : List Char :=
  [' ', '\t', '\x0c', '\r', '\n', '#', 'a', 'o', 'i', '+', '-', '*', '/', '%', ')']

def OnSameLines (pieces pieces' : List Piece) : Prop :=
  ∀ position position' : Position, position'.line = position.line →
    (placed position' pieces').map Lexeme.withoutColumn =
      (placed position pieces).map Lexeme.withoutColumn

end Piece

namespace Piece.AreRead

variable {context : Context} {pieces : List Piece} {cs : List Char}

/-- Hidden spaces in front of pieces are pieces of their own. Without them the pieces start with
what is left when all hidden spaces are dropped. -/
theorem exists_front (h : AreRead context pieces) (hcs : cs.map unhidden = textOf pieces) :
    ∃ pieces' cs', AreRead context pieces' ∧ cs'.map unhidden = textOf pieces' ∧
      wordsOf pieces' = wordsOf pieces ∧ stripped cs' = stripped cs ∧
      (stripped cs).head? = (textOf pieces').head? := by
  induction cs generalizing pieces with
  | nil => exact ⟨pieces, [], h, hcs, rfl, rfl, by rw [← hcs]; rfl⟩
  | cons c cs ih =>
    cases hc : isHiddenSpace c with
    | false =>
      refine ⟨pieces, c :: cs, h, hcs, rfl, rfl, ?_⟩
      rw [← hcs, stripped_cons hc, List.map_cons, unhidden_of_not hc, List.head?_cons,
        List.head?_cons]
    | true =>
      rw [List.map_cons, unhidden_of_hidden hc] at hcs
      have hfirst : first? context (textOf pieces) = some (.spacing ' ') := by
        rw [← hcs]
        exact first?_spacing (by decide) _ _
      obtain ⟨rest, rfl⟩ := h.exists_cons hfirst
      cases h with
      | spacing _ hrest =>
        obtain ⟨pieces', cs', hpieces', hcs', hwords, hstripped, hfront⟩ :=
          ih hrest (List.cons.inj hcs).2
        rw [stripped_cons_of_hidden hc]
        exact ⟨pieces', cs', hpieces', hcs', hwords, hstripped, hfront⟩

/-- Behind an operand every piece starts with one of these characters. -/
theorem front_continuation (h : AreRead .continuation pieces) :
    ∀ c ∈ (textOf pieces).head?, c ∈ continuationFronts := by
  cases h with
  | nil => simp
  | @spacing _ c _ hc _ =>
    intro d hd
    cases hd
    simp only [isSpacing, Bool.or_eq_true, decide_eq_true_eq] at hc
    rcases hc with (((rfl | rfl) | rfl) | rfl) | rfl <;> decide
  | comment _ _ _ =>
    intro d hd
    cases hd
    decide
  | @lexeme _ kind text _ hreads _ =>
    cases hreads with
    | double haccepts _ | int haccepts _ _ | name haccepts _ _ | keyword haccepts _ _ _ _ =>
      exact absurd haccepts (by decide)
    | fixed hkind hspelling _ =>
      have htable : ∀ kind ∈ Context.accepts .continuation, ∀ text, kind.spelling? = some text →
          ∀ rest : List Char, ∀ c ∈ (text ++ rest).head?, c ∈ continuationFronts := by
        simp [Context.accepts, TokenKind.spelling?, continuationFronts]
      exact htable kind hkind text hspelling _

/-- The same without hidden spaces. -/
theorem front_stripped (h : AreRead .continuation pieces) (hcs : cs.map unhidden = textOf pieces) :
    ∀ c ∈ (stripped cs).head?, c ∈ continuationFronts := by
  obtain ⟨pieces', -, hpieces', -, -, -, hfront⟩ := h.exists_front hcs
  rw [hfront]
  exact hpieces'.front_continuation

/-- A line feed that ends a comment is kept. -/
theorem newline_stripped (hcs : cs.map unhidden = textOf pieces)
    (hend : ∀ c ∈ (textOf pieces).head?, c = '\n') : ∀ c ∈ (stripped cs).head?, c = '\n' := by
  cases cs with
  | nil => simp
  | cons c cs =>
    rw [← hcs, List.map_cons] at hend
    have hline : unhidden c = '\n' := hend _ rfl
    have hc : isHiddenSpace c = false := of_unhidden_ne (by rw [hline]; decide)
    intro d hd
    rw [stripped_cons hc] at hd
    cases hd
    rwa [unhidden_of_not hc] at hline

/-- A lexeme is read when hidden spaces behind it are dropped, unless this joins it to a word. -/
theorem reads_stripped {kind : TokenKind} {text : List Char}
    (hreads : context.Reads kind text (textOf pieces)) (h : AreRead (context.next kind) pieces)
    (hcs : cs.map unhidden = textOf pieces)
    (hapart : kind ∈ wordKinds → StopsAt isWordPart (stripped cs)) :
    context.Reads kind text (stripped cs) := by
  refine hreads.of_stops hapart fun hkind => ?_
  -- A number is an operand, and what may follow an operand extends no number.
  have hnext : context.next kind = .continuation := by
    rcases List.mem_cons.1 hkind with rfl | hkind
    · rfl
    · rw [List.mem_singleton.1 hkind]
      rfl
  rw [hnext] at h
  have hfront := h.front_stripped hcs
  refine ⟨fun c hc => ?_, fun hpoint => absurd (hfront '.' hpoint) (by decide)⟩
  have hplain : continuationFronts.all (isDigit · == false) = true := by decide
  exact beq_iff_eq.1 (List.all_eq_true.1 hplain c (hfront c hc))

end Piece.AreRead

/-! ## One piece without hidden spaces -/

namespace Piece

/-- The piece is read as what it is in front of a rest. -/
def StandsIn (context : Context) (rest : List Char) : Piece → Prop
  | .spacing c => isSpacing c = true
  | .comment body => '\n' ∉ body ∧ ∀ c ∈ rest.head?, c = '\n'
  | .lexeme kind text => context.Reads kind text rest

def next (context : Context) : Piece → Context
  | .lexeme kind _ => context.next kind
  | _ => context

/-- One piece at a time. -/
theorem areRead_cons_iff {context : Context} {piece : Piece} {pieces : List Piece} :
    AreRead context (piece :: pieces) ↔
      piece.StandsIn context (textOf pieces) ∧ AreRead (piece.next context) pieces := by
  constructor
  · intro h
    cases h with
    | spacing hc hpieces => exact ⟨hc, hpieces⟩
    | comment hbody hend hpieces => exact ⟨⟨hbody, hend⟩, hpieces⟩
    | lexeme hreads hpieces => exact ⟨hreads, hpieces⟩
  · rintro ⟨hpiece, hpieces⟩
    cases piece with
    | spacing c => exact .spacing hpiece hpieces
    | comment body => exact .comment hpiece.1 hpiece.2 hpieces
    | lexeme kind text => exact .lexeme hpiece hpieces

/-- A piece that stands in front of a rest is the first one to be read. -/
theorem StandsIn.first?_eq {context : Context} {piece : Piece} {rest : List Char}
    (h : piece.StandsIn context rest) : first? context (piece.text ++ rest) = some piece := by
  cases piece with
  | spacing c => exact first?_spacing h context rest
  | comment body => exact first?_comment h.1 h.2 context
  | lexeme kind text => exact first?_lexeme h

/-- What is left of a piece: the body of a comment may have lost characters. -/
inductive Thinned : Piece → Piece → Prop where
  | spacing (c : Char) : Thinned (.spacing c) (.spacing c)
  | comment {body body' : List Char} (hbody : '\n' ∉ body) (hbody' : '\n' ∉ body') :
      Thinned (.comment body) (.comment body')
  | lexeme (kind : TokenKind) (text : List Char) : Thinned (.lexeme kind text) (.lexeme kind text)

namespace Thinned

variable {piece piece' : Piece} (h : Thinned piece piece')

include h

theorem next_eq (context : Context) : piece'.next context = piece.next context := by
  cases h with
  | spacing _ | comment _ _ | lexeme _ _ => rfl

/-- Thinning keeps the words. -/
theorem words_eq : piece'.words = piece.words := by
  cases h with
  | spacing _ | comment _ _ | lexeme _ _ => rfl

theorem onSameLines {pieces pieces' : List Piece} (hlines : OnSameLines pieces pieces') :
    OnSameLines (piece :: pieces) (piece' :: pieces') := by
  intro position position' hline
  have hafter (text : List Char) : (position'.after text).line = (position.after text).line := by
    rw [Position.line_after, Position.line_after, hline]
  cases h with
  | spacing c => exact hlines _ _ (hafter [c])
  | @comment body body' hbody hbody' =>
    refine hlines _ _ ?_
    have hnone {body : List Char} (hbody : '\n' ∉ body) : ('#' :: body).count '\n' = 0 :=
      List.count_eq_zero.2 (by simpa using hbody)
    rw [Position.line_after, Position.line_after, hnone hbody, hnone hbody', hline]
  | lexeme kind text =>
    rw [placed, placed, List.map_cons, List.map_cons, hlines _ _ (hafter text)]
    simp [Lexeme.withoutColumn, hline]

end Thinned

/-- The first piece of a row is dropped with its hidden space, or it is thinned and stays what it
is, unless a word is joined to what follows. -/
theorem AreRead.exists_thinned {context : Context} {piece : Piece} {pieces : List Piece}
    {cs : List Char} (h : AreRead context (piece :: pieces))
    (hcs : cs.map unhidden = textOf (piece :: pieces)) :
    ∃ front behind, cs = front ++ behind ∧ front.length = piece.text.length ∧
      behind.map unhidden = textOf pieces ∧
      ((piece = .spacing ' ' ∧ stripped front = []) ∨
        ∃ piece', Thinned piece piece' ∧ piece'.text = stripped front ∧
          ((piece.IsWord → StopsAt isWordPart (stripped behind)) →
            piece'.StandsIn context (stripped behind))) := by
  obtain ⟨front, behind, rfl, hfront, hbehind⟩ := List.map_eq_append_iff.1 hcs
  have hlength : front.length = piece.text.length := by rw [← hfront, List.length_map]
  refine ⟨front, behind, rfl, hlength, hbehind, ?_⟩
  cases h with
  | @spacing _ c _ hc _ =>
    obtain ⟨d, rfl⟩ := List.length_eq_one_iff.1 hlength
    have hd : unhidden d = c := (List.cons.inj hfront).1
    cases hhidden : isHiddenSpace d with
    | true =>
      rw [unhidden_of_hidden hhidden] at hd
      exact .inl ⟨by rw [hd], stripped_cons_of_hidden hhidden []⟩
    | false =>
      rw [unhidden_of_not hhidden] at hd
      subst hd
      exact .inr ⟨.spacing d, .spacing d, (stripped_cons hhidden []).symm, fun _ => hc⟩
  | @comment _ body _ hbody hend _ =>
    obtain ⟨d, body', rfl, hd, hbody'⟩ := List.map_eq_cons_iff.1 hfront
    have hhidden : isHiddenSpace d = false := of_unhidden_ne (by rw [hd]; decide)
    rw [unhidden_of_not hhidden] at hd
    subst hd
    have hline : '\n' ∉ stripped body' := by
      intro hmem
      refine hbody ?_
      rw [← hbody']
      exact List.mem_map.2 ⟨'\n', (List.mem_filter.1 hmem).1, rfl⟩
    refine .inr ⟨.comment (stripped body'), .comment hbody hline, ?_, fun _ => ⟨hline, ?_⟩⟩
    · exact (stripped_cons hhidden body').symm
    · exact AreRead.newline_stripped hbehind hend
  | @lexeme _ kind text _ hreads hpieces =>
    have hspace : ' ' ∉ text := fun hmem => absurd (hreads.isBlank_eq_false _ hmem) (by decide)
    obtain ⟨-, hstripped⟩ := eq_of_map_unhidden hfront hspace
    refine .inr ⟨.lexeme kind text, .lexeme kind text, hstripped.symm, fun hapart => ?_⟩
    exact AreRead.reads_stripped hreads hpieces hbehind hapart

/-! ## All pieces without hidden spaces -/

/-- Where no words are joined, the row without hidden spaces is read as such. -/
theorem AreRead.exists_stripped {context : Context} {pieces : List Piece} {cs : List Char}
    (h : AreRead context pieces) (hcs : cs.map unhidden = textOf pieces)
    (hapart : ¬ Joins pieces cs) :
    ∃ pieces', AreRead context pieces' ∧ textOf pieces' = stripped cs ∧
      OnSameLines pieces pieces' := by
  induction pieces generalizing context cs with
  | nil =>
    rw [textOf_nil, List.map_eq_nil_iff] at hcs
    subst hcs
    exact ⟨[], .nil, rfl, fun _ _ _ => rfl⟩
  | cons piece pieces ih =>
    obtain ⟨front, behind, rfl, hlength, hbehind, hcase⟩ := h.exists_thinned hcs
    have hpieces := (areRead_cons_iff.1 h).2
    rw [joins_cons_iff hlength, not_or] at hapart
    obtain ⟨hword, hrest⟩ := hapart
    obtain ⟨pieces', hpieces', htext, hlines⟩ := ih hpieces hbehind hrest
    rcases hcase with ⟨rfl, hdropped⟩ | ⟨piece', hthinned, hfront, hstands⟩
    · refine ⟨pieces', hpieces', ?_, fun position position' hline => hlines _ _ hline⟩
      rw [stripped_append, hdropped, htext, List.nil_append]
    · have hapart : piece.IsWord → StopsAt isWordPart (stripped behind) := by
        intro hkind
        exact Classical.not_not.1 fun hjoins => hword ⟨hkind, hjoins⟩
      refine ⟨piece' :: pieces', areRead_cons_iff.2 ⟨?_, ?_⟩, ?_, hthinned.onSameLines hlines⟩
      · rw [htext]
        exact hstands hapart
      · rw [hthinned.next_eq]
        exact hpieces'
      · rw [textOf_cons, hfront, htext, stripped_append]

end Piece

end LetLang
