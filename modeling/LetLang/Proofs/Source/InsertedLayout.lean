import LetLang.Proofs.Source.Offsets
import LetLang.Proofs.Source.Pieces

/-!
# Inserted layout

Layout may be put into a text between its pieces. The text is read as the same tree, and everything
behind the place moves. The layout may become part of a comment in front of it.
-/

namespace LetLang

open Grammar

/-! ## Positions that move -/

namespace Position

theorem after_of_notMem {text : List Char} (h : '\n' ∉ text) (p : Position) :
    p.after text = ⟨p.line, p.column + text.length⟩ := by
  induction text generalizing p with
  | nil => rfl
  | cons c text ih =>
    simp only [List.mem_cons, not_or] at h
    rw [after_cons, ih h.2]
    simp [next, Ne.symm h.1, Nat.add_assoc, Nat.add_comm 1]

/-- Behind a line feed columns do not depend on what is in front of it. -/
theorem column_after_of_mem {text : List Char} (h : '\n' ∈ text) (p q : Position) :
    (p.after text).column = (q.after text).column := by
  have hcolumn (cs : List Char) (p q : Position) (hpq : p.column = q.column) :
      (p.after cs).column = (q.after cs).column := by
    induction cs generalizing p q with
    | nil => exact hpq
    | cons c cs ih =>
      refine ih _ _ ?_
      by_cases hc : c = '\n'
      · simp [next, hc]
      · simp [next, hc, hpq]
  obtain ⟨before, after, rfl⟩ := List.append_of_mem h
  rw [after_append, after_append]
  exact hcolumn after _ _ rfl

def IsBefore (p q : Position) : Prop := p.line < q.line ∨ p.line = q.line ∧ p.column < q.column

instance (p q : Position) : Decidable (p.IsBefore q) := inferInstanceAs (Decidable (_ ∨ _))

theorem isBefore_after {text : List Char} (h : text ≠ []) (p : Position) :
    p.IsBefore (p.after text) := by
  by_cases hline : '\n' ∈ text
  · have hpos : 0 < text.count '\n' := List.count_pos_iff.2 hline
    left
    rw [line_after]
    omega
  · have hpos : 0 < text.length := List.length_pos_iff.2 h
    right
    rw [after_of_notMem hline]
    exact ⟨rfl, Nat.lt_add_of_pos_right hpos⟩

theorem not_isBefore_after (p : Position) (text : List Char) : ¬ (p.after text).IsBefore p := by
  rintro (hlt | ⟨heq, hlt⟩)
  · rw [line_after] at hlt
    omega
  · rw [line_after] at heq
    have hline : '\n' ∉ text := List.count_eq_zero.1 (by omega)
    rw [after_of_notMem hline] at hlt
    simp only at hlt
    omega

/-- Where a position that is not before `here` gets to when a text is put in at `here`. Its line
feeds come on top, and on the line of `here` columns go on behind the text. -/
def behind (here : Position) (gap : List Char) (p : Position) : Position where
  line := p.line + gap.count '\n'
  column :=
    if p.line = here.line then (here.after gap).column + (p.column - here.column) else p.column

/-- A text behind the place moves with the text that is put in. -/
theorem behind_after (here : Position) (gap text : List Char) :
    here.behind gap (here.after text) = (here.after gap).after text := by
  have hline : (here.after text).line + gap.count '\n' = ((here.after gap).after text).line := by
    simp only [line_after]
    omega
  rw [behind, hline]
  -- A line feed in the text makes the column its own; without one the column counts on.
  by_cases hnew : '\n' ∈ text
  · have hne : (here.after text).line ≠ here.line := by
      have hpos : 0 < text.count '\n' := List.count_pos_iff.2 hnew
      rw [line_after]
      omega
    rw [if_neg hne, column_after_of_mem hnew here (here.after gap)]
  · simp [after_of_notMem hnew]

def moved (here : Position) (gap : List Char) (p : Position) : Position :=
  if p.IsBefore here then p else here.behind gap p

/-- Every position behind the place moves with the text that is put in. -/
theorem moved_after (here : Position) (gap text : List Char) :
    here.moved gap (here.after text) = (here.after gap).after text := by
  rw [moved, if_neg (not_isBefore_after here text), behind_after]

/-- Positions and offsets are in the same order. -/
theorem isBefore_ofOffset_iff {cs : List Char} {start offset : Nat} (h : offset ≤ cs.length) :
    (ofOffset cs start).IsBefore (ofOffset cs offset) ↔ start < offset := by
  have hsplit {m n : Nat} (hle : m ≤ n) :
      ofOffset cs n = (ofOffset cs m).after ((cs.take n).drop m) := by
    have htake := List.take_append_drop m (cs.take n)
    rw [List.take_take, Nat.min_eq_left hle] at htake
    rw [← start_after_take, ← htake, after_append, htake, start_after_take]
  constructor
  · intro hbefore
    refine Nat.lt_of_not_le fun hle => ?_
    rw [hsplit hle] at hbefore
    exact not_isBefore_after _ _ hbefore
  · intro hlt
    rw [hsplit (Nat.le_of_lt hlt)]
    refine isBefore_after ?_ _
    rw [← List.length_pos_iff, List.length_drop, List.length_take]
    omega

/-- Where an offset gets to when a text is put in at another one. -/
theorem moved_ofOffset {cs : List Char} {offset : Nat} (h : offset ≤ cs.length) (gap : List Char)
    (start : Nat) :
    (ofOffset cs offset).moved gap (ofOffset cs start) =
      if start < offset then ofOffset cs start
      else (ofOffset cs offset).behind gap (ofOffset cs start) := by
  simp only [moved, isBefore_ofOffset_iff h]

end Position

def Lexeme.moved (here : Position) (gap : List Char) (lexeme : Lexeme) : Lexeme :=
  { lexeme with position := here.moved gap lexeme.position }

@[simp] theorem Lexeme.word_moved (here : Position) (gap : List Char) (lexeme : Lexeme) :
    (lexeme.moved here gap).word = lexeme.word := rfl

namespace Piece

variable {pieces : List Piece}

/-- Lexemes in front of a place have positions before it. -/
theorem isBefore_of_placed (h : ∀ piece ∈ pieces, piece.text ≠ []) (position : Position) :
    ∀ lexeme ∈ placed position pieces,
      lexeme.position.IsBefore (position.after (textOf pieces)) := by
  induction pieces generalizing position with
  | nil => exact fun lexeme hlexeme => absurd hlexeme List.not_mem_nil
  | cons piece pieces ih =>
    have hrest := ih (fun piece hpiece => h piece (List.mem_cons_of_mem _ hpiece))
      (position.after piece.text)
    rw [← Position.after_append, ← textOf_cons] at hrest
    cases piece with
    | spacing c | comment body => exact hrest
    | lexeme kind text =>
      have hne : textOf (.lexeme kind text :: pieces) ≠ [] :=
        List.append_ne_nil_of_left_ne_nil (h _ List.mem_cons_self) _
      exact List.forall_mem_cons.2 ⟨Position.isBefore_after hne position, hrest⟩

/-- The lexemes in front of a place stay where they are. -/
theorem placed_front (h : ∀ piece ∈ pieces, piece.text ≠ []) (position : Position)
    (gap : List Char) :
    (placed position pieces).map (Lexeme.moved (position.after (textOf pieces)) gap) =
      placed position pieces := by
  refine (List.map_congr_left fun lexeme hlexeme => ?_).trans (List.map_id _)
  rw [Lexeme.moved, Position.moved, if_pos (isBefore_of_placed h position lexeme hlexeme)]
  rfl

/-- The lexemes behind a place are moved. -/
theorem placed_behind (here : Position) (gap text : List Char) (pieces : List Piece) :
    (placed (here.after text) pieces).map (Lexeme.moved here gap) =
      placed ((here.after gap).after text) pieces := by
  induction pieces generalizing text with
  | nil => rfl
  | cons piece pieces ih =>
    have hrest := ih (text ++ piece.text)
    rw [Position.after_append, Position.after_append] at hrest
    cases piece with
    | spacing c | comment body => exact hrest
    | lexeme kind word =>
      rw [placed, placed, List.map_cons, Lexeme.moved, Position.moved_after]
      exact congrArg _ hrest

end Piece

/-! ## Layout that is put in -/

/-- Layout in which every comment is ended by a line feed. -/
inductive ClosedLayout : List Char → Prop where
  | nil : ClosedLayout []
  | spacing {c : Char} {cs : List Char} (hc : isSpacing c = true) (hcs : ClosedLayout cs) :
      ClosedLayout (c :: cs)
  | comment {body cs : List Char} (hbody : '\n' ∉ body) (hcs : ClosedLayout cs) :
      ClosedLayout ('#' :: body ++ '\n' :: cs)

namespace ClosedLayout

variable {gap : List Char} (h : ClosedLayout gap)

include h

/-- Layout starts with a character of layout. -/
theorem front : ∀ c ∈ gap.head?, isSpacing c = true ∨ c = '#' := by
  cases h with
  | nil => simp
  | spacing hc _ => simp [hc]
  | comment _ _ => simp

/-- Behind its first line the layout is closed as well, even if the line belongs to a comment. -/
theorem exists_line :
    ∃ line rest, gap = line ++ rest ∧ '\n' ∉ line ∧ ClosedLayout rest ∧
      (rest = [] ∨ rest.head? = some '\n') := by
  induction h with
  | nil => exact ⟨[], [], rfl, List.not_mem_nil, .nil, .inl rfl⟩
  | @spacing c cs hc hcs ih =>
    by_cases hline : c = '\n'
    · exact ⟨[], c :: cs, rfl, List.not_mem_nil, .spacing hc hcs, .inr (congrArg some hline)⟩
    · obtain ⟨line, rest, rfl, hnone, hrest⟩ := ih
      exact ⟨c :: line, rest, rfl, by simp [Ne.symm hline, hnone], hrest⟩
  | @comment body cs hbody hcs _ =>
    exact ⟨'#' :: body, '\n' :: cs, rfl, by simp [hbody], .spacing (by decide) hcs, .inr rfl⟩

/-- Layout in front of a text moves it. -/
theorem tokenizes {context : Context} {position : Position} {cs : List Char}
    {lexemes : List Lexeme} (hcs : Tokenizes context (position.after gap) cs lexemes) :
    Tokenizes context position (gap ++ cs) lexemes := by
  induction h generalizing position with
  | nil => exact hcs
  | spacing hc _ ih => exact (ih hcs).spacing hc
  | @comment body gap hbody _ ih =>
    rw [Position.after_append, Position.after_cons] at hcs
    have hrest := (ih hcs).spacing (by decide)
    rw [List.append_assoc]
    exact hrest.comment hbody (by simp)

/-- A comment in front of layout takes in its first line. -/
theorem tokenizes_comment {context : Context} {position : Position} {body cs : List Char}
    {lexemes : List Lexeme} (hbody : '\n' ∉ body) (hend : ∀ c ∈ cs.head?, c = '\n')
    (hcs : Tokenizes context (position.after ('#' :: body ++ gap)) cs lexemes) :
    Tokenizes context position ('#' :: body ++ (gap ++ cs)) lexemes := by
  obtain ⟨line, rest, rfl, hline, hrest, hfirst⟩ := h.exists_line
  have hbody' : '\n' ∉ body ++ line := by simp [hbody, hline]
  have hend' : ∀ c ∈ (rest ++ cs).head?, c = '\n' := by
    rcases hfirst with rfl | hfirst
    · exact hend
    · simp [hfirst, List.head?_append]
  rw [← List.append_assoc, Position.after_append] at hcs
  have hcomment := (hrest.tokenizes hcs).comment hbody' hend'
  simpa using hcomment

end ClosedLayout

/-! ## Pieces with layout between them -/

/-- A lexeme is read in front of another rest, if this starts with the same character or with
layout, and with no point. -/
theorem Context.Reads.of_front {context : Context} {kind : TokenKind} {text rest rest' : List Char}
    (h : context.Reads kind text rest)
    (hfront : ∀ c ∈ rest'.head?, c ∈ rest.head? ∨ isSpacing c = true ∨ c = '#')
    (hpoint : '.' ∉ rest'.head?) : context.Reads kind text rest' := by
  -- Digits and words end in front of layout.
  have hstop {p : Char → Bool} (hlayout : [' ', '\t', '\x0c', '\r', '\n', '#'].any p = false)
      (hrest : StopsAt p rest) : StopsAt p rest' := by
    intro c hc
    rcases hfront c hc with hsame | hc
    · exact hrest c hsame
    · have hmem : c ∈ [' ', '\t', '\x0c', '\r', '\n', '#'] := by
        simpa [isSpacing, or_assoc] using hc
      simpa using List.any_eq_false.1 hlayout c hmem
  have hname (htext : TokenKind.ident.SpellsLongest text rest) :
      TokenKind.ident.SpellsLongest text rest' := by
    obtain ⟨c, cs, htext, hc, hcs, hrest⟩ := ident_spellsLongest_iff.1 htext
    exact ident_spellsLongest_iff.2 ⟨c, cs, htext, hc, hcs, hstop (by decide) hrest⟩
  cases h with
  | double haccepts htext =>
    obtain ⟨whole, fraction, htext, hwhole, hfraction, hrest⟩ := double_spellsLongest_iff.1 htext
    exact .double haccepts (double_spellsLongest_iff.2
      ⟨whole, fraction, htext, hwhole, hfraction, hstop (by decide) hrest⟩)
  | int haccepts _ htext =>
    obtain ⟨hdigits, hrest⟩ := int_spellsLongest_iff.1 htext
    have hrest' := hstop (by decide) hrest
    refine .int haccepts ((no_double_iff hdigits hrest').2 ?_)
      (int_spellsLongest_iff.2 ⟨hdigits, hrest'⟩)
    rintro more rfl
    exact absurd rfl hpoint
  | name haccepts htext hplain => exact .name haccepts (hname htext) hplain
  | keyword haccepts htext hkeyword hkind hspells =>
    exact .keyword haccepts (hname htext) hkeyword hkind hspells
  | fixed hkind hspelling hword => exact .fixed hkind hspelling hword

/-- Nothing starts with a point. -/
theorem Context.match?_point (context : Context) (cs : List Char) :
    context.match? ('.' :: cs) = none := by
  cases context <;> rfl

namespace Piece.AreRead

variable {context : Context} {pieces before after : List Piece}

/-- No piece starts with a point. -/
theorem point_notMem_head? (h : AreRead context pieces) : '.' ∉ (textOf pieces).head? := by
  intro hpoint
  obtain ⟨cs, hcs⟩ := List.head?_eq_some_iff.1 hpoint
  have hnone : first? context ('.' :: cs) = none := by
    simp [first?, isSpacing, Context.match?_point]
  have hhead := h.head?_eq
  rw [hcs, hnone, List.head?_eq_none_iff] at hhead
  rw [hhead] at hcs
  cases hcs

/-- In front of layout the text starts as before. -/
theorem head?_inserted (h : AreRead context (before ++ after)) (hbefore : before ≠ [])
    (gap : List Char) :
    (textOf before ++ (gap ++ textOf after)).head? = (textOf (before ++ after)).head? := by
  obtain ⟨piece, before, rfl⟩ := List.exists_cons_of_ne_nil hbefore
  have hne := h.text_ne_nil piece List.mem_cons_self
  obtain ⟨c, cs, hpiece⟩ := List.exists_cons_of_ne_nil hne
  simp [hpiece]

/-- With layout put in, the text starts as before or with layout. -/
theorem front_inserted (h : AreRead context (before ++ after)) {gap : List Char}
    (hgap : ClosedLayout gap) :
    ∀ c ∈ (textOf before ++ (gap ++ textOf after)).head?,
      c ∈ (textOf (before ++ after)).head? ∨ isSpacing c = true ∨ c = '#' := by
  intro c hc
  by_cases hbefore : before = []
  · subst hbefore
    cases gap with
    | nil => exact .inl hc
    | cons first gap => exact .inr (hgap.front c hc)
  · rw [h.head?_inserted hbefore] at hc
    exact .inl hc

/-- Layout between pieces changes no lexeme and moves those behind it. -/
theorem inserted (h : AreRead context (before ++ after)) {gap : List Char}
    (hgap : ClosedLayout gap) (position : Position) :
    Tokenizes context position (textOf before ++ (gap ++ textOf after))
      (placed position before ++ placed (position.after (textOf before ++ gap)) after) := by
  -- Only the piece right in front of the layout has something else behind it than before.
  induction before generalizing context position with
  | nil => exact hgap.tokenizes (h.tokenizes _)
  | cons piece before ih =>
    cases h with
    | spacing hc hpieces => exact (ih hpieces _).spacing hc
    | @comment _ body _ hbody hend hpieces =>
      cases before with
      | nil =>
        have htext : textOf [Piece.comment body] = '#' :: body := List.append_nil _
        rw [htext]
        exact hgap.tokenizes_comment hbody hend (hpieces.tokenizes _)
      | cons next before =>
        have hend' : ∀ c ∈ (textOf (next :: before) ++ (gap ++ textOf after)).head?, c = '\n' := by
          rw [hpieces.head?_inserted (List.cons_ne_nil _ _)]
          exact hend
        have htokens := (ih hpieces (position.after ('#' :: body))).comment hbody hend'
        rw [textOf_cons, List.append_assoc, List.append_assoc, Position.after_append]
        exact htokens
    | @lexeme _ kind text _ hreads hpieces =>
      have hreads' : context.Reads kind text (textOf before ++ (gap ++ textOf after)) := by
        have hfront := hpieces.front_inserted hgap
        refine hreads.of_front hfront fun hpoint => ?_
        rcases hfront '.' hpoint with hsame | hlayout
        · exact hpieces.point_notMem_head? hsame
        · exact absurd hlayout (by decide)
      have hlexeme := Tokenizes.lexeme hreads'.gap_nil hreads' (ih hpieces (position.after text))
      simpa [Piece.text, placed, Position.after_append] using hlexeme

end Piece.AreRead

/-! ## Texts and trees -/

theorem forall₂_comp {α β γ : Type} {r : α → β → Prop} {s : β → γ → Prop} {xs : List α}
    {ys : List β} {zs : List γ} (hxs : List.Forall₂ r xs ys) (hys : List.Forall₂ s ys zs) :
    List.Forall₂ (fun x z => ∃ y, r x y ∧ s y z) xs zs := by
  induction hxs generalizing zs with
  | nil =>
    cases hys
    exact .nil
  | cons hx _ ih =>
    cases hys with
    | cons hy hys => exact .cons ⟨_, hx, hy⟩ (ih hys)

/-- The node records the position: its line, and where it has a token the column as well. -/
structure Tree.StandsAt (node : Tree) (p : Position) : Prop where
  line_eq : node.line = some (p.line : Int)
  token_eq : ∀ token ∈ node.token?, token.line = p.line ∧ token.column = p.column

theorem Tree.MadeOf.standsAt {node : Tree} {lexeme : Lexeme} (h : node.MadeOf lexeme) :
    node.StandsAt lexeme.position := ⟨h.line_eq, h.token_eq⟩

namespace Source

variable {source : String} {offset : Nat} {gap : List Char}

def insert (source : String) (offset : Nat) (gap : List Char) : String :=
  String.ofList (source.toList.take offset ++ (gap ++ source.toList.drop offset))

/-- The lexemes of a text with layout put in are those of the text, moved. -/
theorem Tokenized.inserted {lexemes : List Lexeme} (h : Tokenized source lexemes)
    (hoffset : offset ≤ source.toList.length) (hinside : ¬ IsInside source offset)
    (hgap : ClosedLayout gap) :
    Tokenized (insert source offset gap)
      (lexemes.map (Lexeme.moved (.ofOffset source.toList offset) gap)) := by
  obtain ⟨pieces, hpieces, htext, rfl⟩ := Tokenizes.exists_pieces h
  have hrow : IsRow source pieces := ⟨hpieces, htext⟩
  obtain ⟨before, after, rfl, rfl⟩ := hrow.exists_split hoffset hinside
  rw [Piece.textOf_append] at htext
  have htake : source.toList.take (Piece.textOf before).length = Piece.textOf before := by
    rw [← htext, List.take_left]
  have hdrop : source.toList.drop (Piece.textOf before).length = Piece.textOf after := by
    rw [← htext, List.drop_left]
  have hfront : ∀ piece ∈ before, piece.text ≠ [] :=
    fun piece hpiece => hpieces.text_ne_nil piece (List.mem_append_left _ hpiece)
  have hbehind := Piece.placed_behind (Position.start.after (Piece.textOf before)) gap [] after
  have htokens := hpieces.inserted hgap .start
  rw [Position.after_append] at htokens
  rw [Tokenized, insert, String.toList_ofList, ← Position.start_after_take, htake, hdrop,
    Piece.placed_append, List.map_append, Piece.placed_front hfront]
  exact hbehind ▸ htokens

/-- Some of the lexemes of a text stand at offsets that increase. -/
theorem Tokenized.exists_starts {lexemes : List Lexeme} (h : Tokenized source lexemes)
    (p : Lexeme → Bool) :
    ∃ starts : List Nat, starts.Pairwise (· < ·) ∧
      List.Forall₂ (Tokenizes.Holds .expression .start source.toList) (lexemes.filter p)
        starts := by
  obtain ⟨offsets, hincreasing, hholds⟩ := Tokenizes.exists_offsets h
  have hsame : List.Forall₂ (· = ·) (lexemes.filter p) (lexemes.filter p) := List.forall₂_refl _
  obtain ⟨starts, hstarts, hkept⟩ := forall₂_of_sublist hsame List.filter_sublist hholds
  refine ⟨starts, hincreasing.sublist hstarts, hkept.imp ?_⟩
  rintro lexeme start ⟨_, rfl, hheld⟩
  exact hheld

/-- The trees of a source text, without and with another text put in, are the same apart from
positions: nodes that are made of lexemes in front of the offset stay where they are, and the others
get to where the text puts them. -/
structure IsMoved (source : String) (offset : Nat) (gap : List Char) (tree tree' : Tree) :
    Prop where
  bare_eq : tree'.bare = tree.bare
  positions : ∃ starts : List Nat, starts.Pairwise (· < ·) ∧
    List.Forall₂ (Marks source) tree.nodes starts ∧
    List.Forall₂ Tree.StandsAt tree'.nodes (starts.map fun start =>
      if start < offset then .ofOffset source.toList start
      else (Position.ofOffset source.toList offset).behind gap (.ofOffset source.toList start))

/-- Layout changes no meaning. Put in at a place that is not inside a lexeme or a comment, it leaves
the tree as it is and moves what stands behind the place. -/
theorem layout_keeps_meaning {tree : Tree} (hread : read source = .ok tree)
    (hoffset : offset ≤ source.toList.length) (hinside : ¬ IsInside source offset)
    (hgap : ClosedLayout gap) :
    ∃ tree', read (insert source offset gap) = .ok tree' ∧
      IsMoved source offset gap tree tree' := by
  obtain ⟨d, htokens, rfl, hshort⟩ := read_eq_ok_iff.1 hread
  have htokens' := htokens.inserted hoffset hinside hgap
  have hwords : (d.yield.map (Lexeme.moved (.ofOffset source.toList offset) gap)).map Lexeme.word =
      d.yield.map Lexeme.word := by
    simp
  have hshort' := oversized?_of_words hwords hshort
  obtain ⟨tree', ⟨d', hyield, rfl⟩, hbare⟩ := d.derivesBare_of_words hwords
  rw [← hyield] at htokens' hshort'
  obtain ⟨starts, hincreasing, hholds⟩ := htokens.exists_starts makesNode
  have hread' := read_eq_ok_iff.2 ⟨d', htokens', rfl, hshort'⟩
  refine ⟨d'.tree, hread', hbare, starts, hincreasing, ?_, ?_⟩
  · refine (forall₂_comp d.nodes_madeOf hholds).imp ?_
    rintro node start ⟨lexeme, hmade, hheld⟩
    exact marks_of_holds hmade hheld
  · -- Nodes are made of lexemes of the same kinds, so these are the same lexemes as before, moved.
    have hnodes := d'.nodes_madeOf
    rw [hyield, List.filter_map, List.forall₂_map_right_iff] at hnodes
    rw [List.forall₂_map_right_iff]
    refine (forall₂_comp hnodes hholds).imp ?_
    rintro node start ⟨lexeme, hmade, hheld⟩
    have hposition : lexeme.position = .ofOffset source.toList start := by
      rw [hheld.position_eq, Position.start_after_take]
    rw [← Position.moved_ofOffset hoffset, ← hposition]
    exact hmade.standsAt

/-- Layout is put in between lexemes that touch, and at the end of a comment, which goes on to the
end of the first line of the layout. -/
theorem layout_keeps_meaning_touching :
    ∃ tree tree' tree'', read "1orx#c\n+y" = .ok tree ∧
      read "1or#d\n\tx#c\n+y" = .ok tree' ∧
      IsMoved "1orx#c\n+y" 3 ['#', 'd', '\n', '\t'] tree tree' ∧
      read "1orx#c\t#d\n \n+y" = .ok tree'' ∧
      IsMoved "1orx#c\n+y" 6 ['\t', '#', 'd', '\n', ' '] tree tree'' := by
  have hreads {context : Context} {kind : TokenKind} {text rest : List Char}
      (h : context.match? (text ++ rest) = some ⟨kind, text, rest⟩) :
      context.Reads kind text rest := Context.reads_of_match? h
  have hrow : IsRow "1orx#c\n+y" [.lexeme .int ['1'], .lexeme .or ['o', 'r'],
      .lexeme .ident ['x'], .comment ['c'], .spacing '\n', .lexeme .add ['+'],
      .lexeme .ident ['y']] :=
    ⟨.lexeme (hreads rfl) (.lexeme (hreads rfl) (.lexeme (hreads rfl) (.comment (by decide)
      (fun _ hc => (Option.some.inj hc).symm) (.spacing rfl (.lexeme (hreads rfl)
        (.lexeme (hreads rfl) .nil)))))), rfl⟩
  have hplace : ¬ IsInside "1orx#c\n+y" 3 :=
    @IsRow.not_isInside _ [.lexeme .int ['1'], .lexeme .or ['o', 'r']] _ hrow
  have hplace' : ¬ IsInside "1orx#c\n+y" 6 :=
    @IsRow.not_isInside _ [.lexeme .int ['1'], .lexeme .or ['o', 'r'], .lexeme .ident ['x'],
      .comment ['c']] _ hrow
  have hcomment {cs : List Char} (hcs : ClosedLayout cs) :
      ClosedLayout ('#' :: 'd' :: '\n' :: cs) := @ClosedLayout.comment ['d'] cs (by decide) hcs
  have hgap : ClosedLayout ['#', 'd', '\n', '\t'] := hcomment (.spacing rfl .nil)
  have hgap' : ClosedLayout ['\t', '#', 'd', '\n', ' '] :=
    .spacing rfl (hcomment (.spacing rfl .nil))
  let tree : Tree := .binop (.int 1 (some 1)) (.known .or)
    (.binop (.ident ⟨.ident, .text "x", 1, 4⟩ (some 1)) (.known .add)
      (.ident ⟨.ident, .text "y", 2, 2⟩ (some 2)) (some 2)) (some 1)
  have hread : read "1orx#c\n+y" = .ok tree := by decide +kernel
  have hinsert : insert "1orx#c\n+y" 3 ['#', 'd', '\n', '\t'] = "1or#d\n\tx#c\n+y" := by
    decide +kernel
  have hinsert' : insert "1orx#c\n+y" 6 ['\t', '#', 'd', '\n', ' '] = "1orx#c\t#d\n \n+y" := by
    decide +kernel
  obtain ⟨tree', hread', hmoved'⟩ := layout_keeps_meaning hread (by decide) hplace hgap
  obtain ⟨tree'', hread'', hmoved''⟩ := layout_keeps_meaning hread (by decide) hplace' hgap'
  rw [hinsert] at hread'
  rw [hinsert'] at hread''
  exact ⟨tree, tree', tree'', hread, hread', hmoved', hread'', hmoved''⟩

end Source

end LetLang
