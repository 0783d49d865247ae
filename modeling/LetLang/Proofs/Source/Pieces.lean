import LetLang.Proofs.Source.Placement

/-!
# The pieces of a text

A text that is read to its end is a row of pieces: characters of spacing, comments and lexemes. The
row is unique, and the lexemes of the text are those among its pieces.
-/

namespace LetLang

inductive Piece where
  /-- One character of spacing. -/
  | spacing (c : Char)
  /-- A comment, by what stands behind its mark. -/
  | comment (body : List Char)
  | lexeme (kind : TokenKind) (text : List Char)
  deriving DecidableEq, Repr

namespace Piece

def text : Piece → List Char
  | .spacing c => [c]
  | .comment body => '#' :: body
  | .lexeme _ text => text

def textOf (pieces : List Piece) : List Char := pieces.flatMap text

@[simp] theorem textOf_nil : textOf [] = [] := rfl

@[simp] theorem textOf_cons (piece : Piece) (pieces : List Piece) :
    textOf (piece :: pieces) = piece.text ++ textOf pieces := rfl

@[simp] theorem textOf_append (before after : List Piece) :
    textOf (before ++ after) = textOf before ++ textOf after := List.flatMap_append

/-- The pieces are what their text is read as in the context. A comment extends to the end of its
line. -/
inductive AreRead : Context → List Piece → Prop where
  | nil {context : Context} : AreRead context []
  | spacing {context : Context} {c : Char} {pieces : List Piece} (hc : isSpacing c = true)
      (hpieces : AreRead context pieces) : AreRead context (.spacing c :: pieces)
  | comment {context : Context} {body : List Char} {pieces : List Piece} (hbody : '\n' ∉ body)
      (hend : ∀ c ∈ (textOf pieces).head?, c = '\n') (hpieces : AreRead context pieces) :
      AreRead context (.comment body :: pieces)
  | lexeme {context : Context} {kind : TokenKind} {text : List Char} {pieces : List Piece}
      (hreads : context.Reads kind text (textOf pieces))
      (hpieces : AreRead (context.next kind) pieces) :
      AreRead context (.lexeme kind text :: pieces)

def placed : Position → List Piece → List Lexeme
  | _, [] => []
  | position, .spacing c :: pieces => placed (position.next c) pieces
  | position, .comment body :: pieces => placed (position.after ('#' :: body)) pieces
  | position, .lexeme kind text :: pieces =>
      ⟨kind, text, position⟩ :: placed (position.after text) pieces

/-- The lexemes of two rows of pieces, the second behind the first. -/
theorem placed_append (position : Position) (before after : List Piece) :
    placed position (before ++ after) =
      placed position before ++ placed (position.after (textOf before)) after := by
  induction before generalizing position with
  | nil => rfl
  | cons piece before ih =>
    rw [List.cons_append, textOf_cons, Position.after_append]
    cases piece with
    | spacing c | comment body => exact ih _
    | lexeme kind text =>
      rw [placed, placed, ih]
      rfl

end Piece

open Piece

/-! ## Pieces of tokenizations -/

/-- Layout in front of pieces is made of pieces. -/
theorem Gap.exists_pieces {gap rest : List Char} (h : Gap gap rest) {context : Context}
    {pieces : List Piece} (hpieces : AreRead context pieces) (hrest : textOf pieces = rest) :
    ∃ all, AreRead context all ∧ textOf all = gap ++ rest ∧
      ∀ position, placed position all = placed (position.after gap) pieces := by
  induction h with
  | nil _ _ => exact ⟨pieces, hpieces, hrest, fun _ => rfl⟩
  | @spacing c gap rest hc _ ih =>
    obtain ⟨all, hall, htext, hplaced⟩ := ih hrest
    exact ⟨.spacing c :: all, .spacing hc hall, congrArg (c :: ·) htext, fun _ => hplaced _⟩
  | @comment body gap rest hbody hend _ ih =>
    obtain ⟨all, hall, htext, hplaced⟩ := ih hrest
    refine ⟨.comment body :: all, .comment hbody (htext ▸ hend) hall, ?_, fun position => ?_⟩
    · simp [htext, text]
    · rw [placed, hplaced, Position.after_append]

namespace Tokenizes

variable {context : Context} {position : Position} {cs : List Char} {lexemes : List Lexeme}

/-- A text that is tokenized falls apart into pieces. -/
theorem exists_pieces (h : Tokenizes context position cs lexemes) :
    ∃ pieces, AreRead context pieces ∧ textOf pieces = cs ∧ placed position pieces = lexemes := by
  induction h with
  | @done context position gap hgap =>
    have hnil : AreRead context [] := .nil
    obtain ⟨all, hall, htext, hplaced⟩ := hgap.exists_pieces hnil rfl
    exact ⟨all, hall, by rw [htext, List.append_nil], hplaced position⟩
  | @lexeme context position gap text rest kind lexemes hgap hreads _ ih =>
    obtain ⟨pieces, hpieces, rfl, rfl⟩ := ih
    obtain ⟨all, hall, htext, hplaced⟩ := hgap.exists_pieces (.lexeme hreads hpieces) rfl
    exact ⟨all, hall, htext, hplaced position⟩

/-- A comment in front of a text moves it. -/
theorem comment {body : List Char} (hbody : '\n' ∉ body) (hend : ∀ c ∈ cs.head?, c = '\n')
    (h : Tokenizes context (position.after ('#' :: body)) cs lexemes) :
    Tokenizes context position ('#' :: body ++ cs) lexemes := by
  cases h with
  | done hgap => exact .done (.comment hbody (by simpa using hend) hgap)
  | lexeme hgap hreads hrest =>
    have hposition := Position.after_append position ('#' :: body)
    rw [← hposition] at hrest ⊢
    rw [← List.append_assoc]
    exact .lexeme (.comment hbody hend hgap) hreads hrest

end Tokenizes

namespace Piece.AreRead

variable {context : Context} {pieces : List Piece}

/-- The converse: pieces are tokenized into the lexemes among them. -/
theorem tokenizes (h : AreRead context pieces) (position : Position) :
    Tokenizes context position (textOf pieces) (placed position pieces) := by
  induction h generalizing position with
  | nil => exact .done (.nil (by simp [StopsAt]) (by simp))
  | spacing hc _ ih => exact (ih _).spacing hc
  | comment hbody hend _ ih => exact (ih _).comment hbody hend
  | lexeme hreads _ ih => exact .lexeme hreads.gap_nil hreads (ih _)

/-- A piece has a text. -/
theorem text_ne_nil (h : AreRead context pieces) : ∀ piece ∈ pieces, piece.text ≠ [] := by
  induction h with
  | nil => simp
  | spacing _ _ ih | comment _ _ _ ih => simpa [text] using ih
  | lexeme hreads _ ih => simpa [text, hreads.text_ne_nil] using ih

end Piece.AreRead

/-! ## There is only one row of pieces -/

def Piece.first? (context : Context) : List Char → Option Piece
  | [] => none
  | c :: cs =>
      if isSpacing c then some (.spacing c)
      else if c = '#' then some (.comment (cs.takeWhile (· != '\n')))
      else (context.match? (c :: cs)).map fun m => .lexeme m.kind m.text

namespace Piece

theorem first?_spacing {c : Char} (hc : isSpacing c = true) (context : Context) (cs : List Char) :
    first? context (c :: cs) = some (.spacing c) := by
  simp [first?, hc]

theorem first?_comment {body cs : List Char} (hbody : '\n' ∉ body)
    (hend : ∀ c ∈ cs.head?, c = '\n') (context : Context) :
    first? context ('#' :: (body ++ cs)) = some (.comment body) := by
  have hspacing : isSpacing '#' = false := by decide
  have hbody' : ∀ c ∈ body, (c != '\n') = true := by
    intro c hc
    rw [bne_iff_ne]
    rintro rfl
    exact hbody hc
  have hstop : StopsAt (· != '\n') cs := by
    intro c hc
    simpa using hend c hc
  simp [first?, hspacing, takeWhile_append_of_stopsAt hbody' hstop]

theorem first?_lexeme {context : Context} {kind : TokenKind} {text rest : List Char}
    (h : context.Reads kind text rest) :
    first? context (text ++ rest) = some (.lexeme kind text) := by
  obtain ⟨c, cs, rfl⟩ := List.exists_cons_of_ne_nil h.text_ne_nil
  have hmatch := h.match?_eq
  cases h.gap_nil with
  | nil hspacing hcomment =>
    have hc : isSpacing c = false := hspacing c rfl
    have hne : c ≠ '#' := by simpa using hcomment
    rw [List.cons_append] at hmatch
    simp [first?, hc, hne, hmatch]

end Piece

namespace Piece.AreRead

variable {context : Context} {pieces pieces' : List Piece}

/-- A row of pieces starts with the first piece of its text. -/
theorem head?_eq (h : AreRead context pieces) :
    pieces.head? = first? context (textOf pieces) := by
  cases h with
  | nil => rfl
  | spacing hc _ => exact (first?_spacing hc _ _).symm
  | comment hbody hend _ => exact (first?_comment hbody hend _).symm
  | lexeme hreads _ => exact (first?_lexeme hreads).symm

/-- Pieces start with the first piece of their text. -/
theorem exists_cons (h : AreRead context pieces) {piece : Piece}
    (hfirst : first? context (textOf pieces) = some piece) : ∃ rest, pieces = piece :: rest := by
  rw [← h.head?_eq] at hfirst
  exact List.head?_eq_some_iff.1 hfirst

/-- A text has only one row of pieces. -/
theorem unique (h : AreRead context pieces) (h' : AreRead context pieces')
    (htext : textOf pieces = textOf pieces') : pieces = pieces' := by
  induction pieces generalizing context pieces' with
  | nil =>
    have hhead := h'.head?_eq
    rw [← htext, ← h.head?_eq] at hhead
    exact (List.head?_eq_none_iff.1 hhead).symm
  | cons piece pieces ih =>
    have hhead : pieces'.head? = some piece := by
      rw [h'.head?_eq, ← htext, ← h.head?_eq, List.head?_cons]
    obtain ⟨rest, rfl⟩ := List.head?_eq_some_iff.1 hhead
    have hrest : textOf pieces = textOf rest := List.append_cancel_left htext
    -- The first pieces are the same, so that both rows go on in the same context.
    cases h with
    | spacing _ hpieces =>
      cases h' with
      | spacing _ hpieces' => rw [ih hpieces hpieces' hrest]
    | comment _ _ hpieces =>
      cases h' with
      | comment _ _ hpieces' => rw [ih hpieces hpieces' hrest]
    | lexeme _ hpieces =>
      cases h' with
      | lexeme _ hpieces' => rw [ih hpieces hpieces' hrest]

end Piece.AreRead

/-! ## Places between pieces -/

/-- A place that is inside none of the pieces stands between two of them, or at an end. -/
theorem Piece.exists_split {pieces : List Piece} {offset : Nat}
    (hoffset : offset ≤ (textOf pieces).length)
    (h : ∀ before piece after, pieces = before ++ piece :: after →
      (textOf before).length < offset → (textOf before).length + piece.text.length ≤ offset) :
    ∃ before after, pieces = before ++ after ∧ (textOf before).length = offset := by
  induction pieces generalizing offset with
  | nil => exact ⟨[], [], rfl, (Nat.le_zero.1 hoffset).symm⟩
  | cons piece pieces ih =>
    -- The place is in front of the first piece, or the rest of the pieces is split.
    rcases Nat.eq_zero_or_pos offset with rfl | hpos
    · exact ⟨[], piece :: pieces, rfl, rfl⟩
    · have hpiece : piece.text.length ≤ offset := by simpa using h [] piece pieces rfl hpos
      have hrest : offset - piece.text.length ≤ (textOf pieces).length := by
        rw [textOf_cons, List.length_append] at hoffset
        omega
      have hinner (before : List Piece) (next : Piece) (after : List Piece)
          (hsplit : pieces = before ++ next :: after)
          (hbefore : (textOf before).length < offset - piece.text.length) :
          (textOf before).length + next.text.length ≤ offset - piece.text.length := by
        have hnext := h (piece :: before) next after (by rw [hsplit, List.cons_append])
        rw [textOf_cons, List.length_append] at hnext
        omega
      obtain ⟨before, after, rfl, hlength⟩ := ih hrest hinner
      refine ⟨piece :: before, after, rfl, ?_⟩
      rw [textOf_cons, List.length_append, hlength]
      omega

namespace Source

def IsRow (source : String) (pieces : List Piece) : Prop :=
  AreRead .expression pieces ∧ textOf pieces = source.toList

/-- The offset is that of a place inside a lexeme or a comment, with characters of it on both
sides. -/
def IsInside (source : String) (offset : Nat) : Prop :=
  ∃ before piece after, IsRow source (before ++ piece :: after) ∧
    (textOf before).length < offset ∧ offset < (textOf before).length + piece.text.length

variable {source : String}

/-- At every offset that is not inside a piece the row falls apart. -/
theorem IsRow.exists_split {pieces : List Piece} (h : IsRow source pieces) {offset : Nat}
    (hoffset : offset ≤ source.toList.length) (hinside : ¬ IsInside source offset) :
    ∃ before after, pieces = before ++ after ∧ (textOf before).length = offset := by
  refine Piece.exists_split (h.2 ▸ hoffset) ?_
  rintro before piece after rfl hbefore
  exact Nat.le_of_not_lt fun hpiece => hinside ⟨before, piece, after, h, hbefore, hpiece⟩

/-- Places between pieces are not inside of any. -/
theorem IsRow.not_isInside {front back : List Piece} (h : IsRow source (front ++ back)) :
    ¬ IsInside source (textOf front).length := by
  rintro ⟨before, piece, after, hrow, hbefore, hpiece⟩
  have hsame := h.1.unique hrow.1 (h.2.trans hrow.2.symm)
  -- The piece stands behind the place or in front of it.
  rcases List.append_eq_append_iff.1 hsame with ⟨more, rfl, -⟩ | ⟨more, rfl, hmore⟩
  · rw [textOf_append, List.length_append] at hbefore
    omega
  · cases more with
    | nil =>
      rw [List.append_nil] at hbefore
      omega
    | cons first more =>
      cases (List.cons.inj hmore).1
      rw [textOf_append, textOf_cons, List.length_append, List.length_append] at hpiece
      omega

end Source

end LetLang
