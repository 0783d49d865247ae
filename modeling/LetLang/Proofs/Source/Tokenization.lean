import LetLang.Proofs.Source.Terminals

/-!
# Tokenization

The tokenization of a text is described from the left: layout is passed over, the context says
which lexeme is read, and the lexeme leads to the next context. The stream of a text is complete
exactly if the text has a tokenization.
-/

namespace LetLang

/-! ## Layout -/

/-- Layout in front of what is left. A comment extends to the end of its line. -/
inductive Gap : List Char → List Char → Prop where
  | nil {rest : List Char} (hspacing : StopsAt isSpacing rest) (hcomment : rest.head? ≠ some '#') :
      Gap [] rest
  | spacing {c : Char} {gap rest : List Char} (hc : isSpacing c = true) (hgap : Gap gap rest) :
      Gap (c :: gap) rest
  | comment {body gap rest : List Char} (hbody : '\n' ∉ body)
      (hend : ∀ c ∈ (gap ++ rest).head?, c = '\n') (hgap : Gap gap rest) :
      Gap ('#' :: body ++ gap) rest

private theorem gap_splitLayout (cs : List Char) :
    Gap (splitLayout false cs).1 (splitLayout false cs).2 ∧
      ∃ body gap, (splitLayout true cs).1 = body ++ gap ∧ '\n' ∉ body ∧
        (∀ c ∈ (gap ++ (splitLayout true cs).2).head?, c = '\n') ∧
        Gap gap (splitLayout true cs).2 := by
  -- Outside and inside a comment go together: each character may lead from one to the other.
  induction cs with
  | nil =>
    have hnil : Gap [] [] := .nil (by simp [StopsAt]) (by simp)
    exact ⟨hnil, [], [], rfl, by simp, by simp [splitLayout], hnil⟩
  | cons c cs ih =>
    rcases ih with ⟨houtside, body, gap, hsplit, hbody, hend, hinside⟩
    constructor
    · unfold splitLayout
      by_cases hcomment : c = '#'
      · subst hcomment
        have hgap := Gap.comment hbody hend hinside
        simpa [hsplit] using hgap
      · by_cases hspacing : isSpacing c = true
        · simpa [hspacing, hcomment] using Gap.spacing hspacing houtside
        · have hgap : Gap [] (c :: cs) := by
            refine .nil ?_ (by simpa using hcomment)
            intro d hd
            cases hd
            simpa using hspacing
          simpa [hspacing, hcomment] using hgap
    · by_cases hnewline : c = '\n'
      · subst hnewline
        refine ⟨[], '\n' :: (splitLayout false cs).1, ?_, by simp, ?_, ?_⟩
        · simp [splitLayout]
        · simp
        · simpa [splitLayout] using Gap.spacing (by decide) houtside
      · have hflag : (c != '\n') = true := by simpa using hnewline
        refine ⟨c :: body, gap, ?_, ?_, ?_, ?_⟩
        · simp [splitLayout, hflag, hsplit]
        · simpa [hbody] using fun h => hnewline h.symm
        · simpa [splitLayout, hflag] using hend
        · simpa [splitLayout, hflag] using hinside

/-- The layout that is split off is layout by the rules. -/
theorem gap_layout (cs : List Char) : Gap (layout cs) (afterLayout cs) := (gap_splitLayout cs).1

private theorem splitLayout_comment {body gap rest : List Char} (hbody : '\n' ∉ body)
    (hend : ∀ c ∈ (gap ++ rest).head?, c = '\n')
    (h : splitLayout false (gap ++ rest) = (gap, rest)) :
    splitLayout true (body ++ (gap ++ rest)) = (body ++ gap, rest) := by
  induction body with
  | nil =>
    generalize gap ++ rest = cs at h hend
    cases cs with
    | nil => simpa [splitLayout] using h
    | cons c cs =>
      have hc : c = '\n' := hend c rfl
      subst hc
      simpa [splitLayout, isSpacing] using h
  | cons c body ih =>
    have hc : c ≠ '\n' := by
      intro hc
      simp [hc] at hbody
    have hflag : (c != '\n') = true := by simpa using hc
    have hrest := ih (by simpa using fun h => hbody (by simp [h]))
    simp [splitLayout, hflag, hrest]

/-- Layout by the rules is split off. -/
theorem Gap.splitLayout_eq {gap rest : List Char} (h : Gap gap rest) :
    splitLayout false (gap ++ rest) = (gap, rest) := by
  induction h with
  | @nil rest hspacing hcomment =>
    cases rest with
    | nil => rfl
    | cons c cs =>
      have hc : isSpacing c = false := hspacing c rfl
      have hne : c ≠ '#' := by simpa using hcomment
      simp [splitLayout, hc, hne]
  | @spacing c gap rest hc hgap ih =>
    have hne : c ≠ '#' := by
      intro h
      simp [h, isSpacing] at hc
    simp [splitLayout, hc, hne, ih]
  | comment hbody hend hgap ih =>
    have hcomment := splitLayout_comment hbody hend ih
    simp [splitLayout, hcomment]

theorem Gap.layout_eq {gap rest : List Char} (h : Gap gap rest) : layout (gap ++ rest) = gap := by
  rw [layout, h.splitLayout_eq]

theorem Gap.afterLayout_eq {gap rest : List Char} (h : Gap gap rest) :
    afterLayout (gap ++ rest) = rest := by
  rw [afterLayout, h.splitLayout_eq]

/-! ## Lexemes from the left -/

/-- The lexemes of a text that stands at a position and in a context, and is read to its end. -/
inductive Tokenizes : Context → Position → List Char → List Lexeme → Prop where
  | done {context : Context} {position : Position} {gap : List Char} (hgap : Gap gap []) :
      Tokenizes context position gap []
  | lexeme {context : Context} {position : Position} {gap text rest : List Char} {kind : TokenKind}
      {lexemes : List Lexeme} (hgap : Gap gap (text ++ rest)) (hreads : context.Reads kind text rest)
      (hrest : Tokenizes (context.next kind) ((position.after gap).after text) rest lexemes) :
      Tokenizes context position (gap ++ (text ++ rest))
        (⟨kind, text, position.after gap⟩ :: lexemes)

def Source.Tokenized (source : String) (lexemes : List Lexeme) : Prop :=
  Tokenizes .expression .start source.toList lexemes

namespace Stream

variable {context : Context} {position : Position} {cs : List Char}

theorem ofChars_of_nil (h : afterLayout cs = []) :
    ofChars context position cs = ⟨[], .complete⟩ := by
  rw [ofChars]
  split
  · rfl
  next hcons =>
    rw [h] at hcons
    cases hcons

theorem ofChars_of_match {m : Match} (h : context.match? (afterLayout cs) = some m) :
    ofChars context position cs =
      let tail := ofChars (context.next m.kind) ((position.after (layout cs)).after m.text) m.rest
      ⟨⟨m.kind, m.text, position.after (layout cs)⟩ :: tail.lexemes, tail.ending⟩ := by
  rw [ofChars]
  split
  next hnil =>
    have hsplits := Context.match?_splits h
    rw [hnil] at hsplits
    exact absurd (List.append_eq_nil_iff.1 hsplits.1).1 hsplits.2
  next hcons =>
    rw [hcons] at h
    split
    next m' hm' =>
      rw [h] at hm'
      cases hm'
      rfl
    next hnone =>
      rw [h] at hnone
      cases hnone

end Stream

/-! ## The stream is the tokenization -/

/-- A tokenization is the stream of its text. -/
theorem Tokenizes.ofChars_eq {context : Context} {position : Position} {cs : List Char}
    {lexemes : List Lexeme} (h : Tokenizes context position cs lexemes) :
    Stream.ofChars context position cs = ⟨lexemes, .complete⟩ := by
  induction h with
  | done hgap =>
    have hafter := hgap.afterLayout_eq
    rw [List.append_nil] at hafter
    exact Stream.ofChars_of_nil hafter
  | lexeme hgap hreads _ ih =>
    have hmatch := hreads.match?_eq
    rw [← hgap.afterLayout_eq] at hmatch
    rw [Stream.ofChars_of_match hmatch, hgap.layout_eq, ih]

/-- A stream that is complete is a tokenization. -/
theorem tokenizes_of_complete (context : Context) (position : Position) (cs : List Char)
    (h : (Stream.ofChars context position cs).ending = .complete) :
    Tokenizes context position cs (Stream.ofChars context position cs).lexemes := by
  fun_induction Stream.ofChars context position cs with
  | case1 context position cs hnil =>
    have hgap := gap_layout cs
    have hsplit := layout_append_afterLayout cs
    rw [hnil] at hgap hsplit
    rw [← hsplit, List.append_nil]
    exact .done hgap
  | case2 context position cs here c rest hcons m hmatch hlt tail ih =>
    rcases Context.match?_eq_some_iff.1 hmatch with ⟨htext, hreads⟩
    have hgap := gap_layout cs
    have hsplit := layout_append_afterLayout cs
    rw [hcons, ← htext] at hgap hsplit
    have hlexeme : Tokenizes context position (layout cs ++ (m.text ++ m.rest))
        (⟨m.kind, m.text, here⟩ :: tail.lexemes) := .lexeme hgap hreads (ih h)
    rwa [hsplit] at hlexeme
  | case3 | case4 => exact nomatch h

/-- A text has a tokenization exactly if its stream is complete, and then the two agree. -/
theorem Stream.tokenizes_iff {context : Context} {position : Position} {cs : List Char}
    {lexemes : List Lexeme} :
    Stream.ofChars context position cs = ⟨lexemes, .complete⟩ ↔
      Tokenizes context position cs lexemes := by
  constructor
  · intro h
    have hcomplete := tokenizes_of_complete context position cs (by rw [h])
    rwa [h] at hcomplete
  · intro h
    exact h.ofChars_eq

end LetLang
