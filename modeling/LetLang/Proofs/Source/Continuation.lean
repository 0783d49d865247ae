import LetLang.Proofs.Source.Tokenization

/-!
# Texts that go on in the next line

No lexeme and no comment reaches over the end of a line. So a text that goes on behind a line feed
is read up to there as if it ended there. What ends the first text ends it for good; otherwise the
rest is read in the context and at the position that the first text leaves.
-/

namespace LetLang

/-! ## Runs of characters -/

section

variable {p : Char → Bool} (hp : p '\n' = false) (cs more : List Char)

include hp

theorem takeWhile_newline : (cs ++ '\n' :: more).takeWhile p = cs.takeWhile p := by
  induction cs with
  | nil => simp [hp]
  | cons c cs ih => by_cases hc : p c = true <;> simp [hc, ih]

theorem dropWhile_newline :
    (cs ++ '\n' :: more).dropWhile p = cs.dropWhile p ++ '\n' :: more := by
  induction cs with
  | nil => simp [hp]
  | cons c cs ih => by_cases hc : p c = true <;> simp [hc, ih]

end

theorem isPrefixOf_newline {word : List Char} (h : '\n' ∉ word) (cs more : List Char) :
    word.isPrefixOf (cs ++ '\n' :: more) = word.isPrefixOf cs := by
  induction word generalizing cs with
  | nil => simp
  | cons c word ih =>
    have hc : c ≠ '\n' := fun hc => h (by simp [hc])
    have hword : '\n' ∉ word := fun hmem => h (by simp [hmem])
    cases cs with
    | nil => simp [List.isPrefixOf, hc]
    | cons d cs => simp [List.isPrefixOf, ih hword]

/-! ## Matches -/

/-- The match in a text that goes on behind a line feed. -/
def Match.onward (m : Match) (more : List Char) : Match := { m with rest := m.rest ++ '\n' :: more }

section

variable (cs more : List Char)

/-- A line feed ends every number. -/
theorem number?_newline :
    number? (cs ++ '\n' :: more) = (number? cs).map (·.onward more) := by
  have hdigit : isDigit '\n' = false := by decide
  simp only [number?, takeWhile_newline hdigit, dropWhile_newline hdigit]
  by_cases hwhole : (cs.takeWhile isDigit).isEmpty = true
  · simp [hwhole]
  · simp only [hwhole]
    -- Only a point and digits on the same line make a double.
    cases hrest : cs.dropWhile isDigit with
    | nil => simp [Match.onward]
    | cons c rest =>
      by_cases hpoint : c = '.'
      · subst hpoint
        simp only [List.cons_append, takeWhile_newline hdigit, dropWhile_newline hdigit]
        by_cases hfraction : (rest.takeWhile isDigit).isEmpty = true <;>
          simp [hfraction, Match.onward]
      · simp [hpoint, Match.onward]

/-- A line feed ends every word. -/
theorem word?_newline (keywords : Keywords) :
    word? keywords (cs ++ '\n' :: more) = (word? keywords cs).map (·.onward more) := by
  have hstart : isWordStart '\n' = false := by decide
  have hpart : isWordPart '\n' = false := by decide
  cases cs with
  | nil => simp [word?, hstart]
  | cons c cs =>
    by_cases hc : isWordStart c = true
    · simp [word?, hc, takeWhile_newline hpart, dropWhile_newline hpart, Match.onward]
    · simp [word?, hc]

theorem wordAtFront?_newline {keywords : Keywords} (h : ∀ keyword ∈ keywords, '\n' ∉ keyword.1) :
    wordAtFront? keywords (cs ++ '\n' :: more) =
      (wordAtFront? keywords cs).map (·.onward more) := by
  have hfind : keywords.find? (·.1.isPrefixOf (cs ++ '\n' :: more)) =
      keywords.find? (·.1.isPrefixOf cs) := by
    induction keywords with
    | nil => rfl
    | cons keyword keywords ih =>
      have hrest := ih fun other hother => h other (by simp [hother])
      simp only [List.find?_cons, isPrefixOf_newline (h keyword (by simp)), hrest]
  rw [wordAtFront?, wordAtFront?, hfind]
  cases hword : keywords.find? (·.1.isPrefixOf cs) with
  | none => rfl
  | some keyword =>
    -- The word lies in front of the line feed, so behind it the same is left and more.
    have hprefix : keyword.1 <+: cs := by simpa using List.find?_some hword
    simp [Match.onward, List.drop_append_of_le_length hprefix.length_le]

theorem symbol?_newline (kinds : List TokenKind) :
    symbol? kinds (cs ++ '\n' :: more) = (symbol? kinds cs).map (·.onward more) := by
  cases cs with
  | nil => rfl
  | cons c cs =>
    simp only [List.cons_append, symbol?]
    cases symbolKind? c with
    | none => rfl
    | some kind =>
      simp only
      split <;> rfl

/-- No lexeme goes on behind a line feed. -/
theorem anyLexeme?_newline :
    anyLexeme? (cs ++ '\n' :: more) = (anyLexeme? cs).map (·.onward more) := by
  simp only [anyLexeme?, number?_newline, word?_newline, symbol?_newline, Option.map_or]

/-- What is matched in front of a line feed does not depend on what comes behind it. -/
theorem Context.match?_newline (context : Context) :
    context.match? (cs ++ '\n' :: more) = (context.match? cs).map (·.onward more) := by
  cases context with
  | expression | operand =>
    simp only [match?, number?_newline, word?_newline, symbol?_newline, Option.map_or]
  | binder => exact word?_newline cs more []
  | equals => exact symbol?_newline cs more [.assign]
  | continuation =>
    have hkeywords : ∀ keyword ∈ continuationKeywords, '\n' ∉ keyword.1 := by decide
    simp only [match?, wordAtFront?_newline cs more hkeywords, symbol?_newline, Option.map_or]

end

/-! ## Layout -/

namespace Gap

variable {gap gap' rest : List Char}

/-- Layout ends in front of a character whatever comes behind that. -/
theorem of_head {c : Char} (h : Gap gap (c :: rest)) (rest' : List Char) :
    Gap gap (c :: rest') := by
  generalize hcs : c :: rest = cs at h
  induction h with
  | nil hspacing hcomment =>
    subst hcs
    exact .nil hspacing hcomment
  | spacing hc _ ih => exact .spacing hc (ih hcs)
  | @comment body gap cs hbody hend _ ih =>
    subst hcs
    refine .comment hbody ?_ (ih rfl)
    cases gap <;> simpa using hend

/-- Layout up to the end of a text goes on in the next line, be it a comment or not. -/
theorem newline (h : Gap gap []) (hnext : Gap gap' rest) : Gap (gap ++ '\n' :: gap') rest := by
  generalize hcs : ([] : List Char) = cs at h
  induction h with
  | nil _ _ => exact .spacing (by decide) hnext
  | spacing hc _ ih => exact .spacing hc (ih hcs)
  | @comment body gap cs hbody hend _ ih =>
    subst hcs
    rw [List.append_assoc]
    refine .comment hbody ?_ (ih rfl)
    cases gap with
    | nil => simp
    | cons c gap => simpa using hend

end Gap

/-! ## Streams -/

def Context.after (context : Context) (lexemes : List Lexeme) : Context :=
  lexemes.foldl (fun context lexeme => context.next lexeme.kind) context

namespace Stream

/-- The stream of a text without layout in front of it. -/
def ofFront (context : Context) (here : Position) (front : List Char) : Stream :=
  match front with
  | [] => ⟨[], .complete⟩
  | c :: _ =>
      match context.match? front with
      | some m =>
          let tail := ofChars (context.next m.kind) (here.after m.text) m.rest
          ⟨⟨m.kind, m.text, here⟩ :: tail.lexemes, tail.ending⟩
      | none =>
          match anyLexeme? front with
          | some m => ⟨[], .unexpected ⟨m.kind, m.text, here⟩⟩
          | none => ⟨[], .stray c here⟩

theorem ofChars_eq_ofFront (context : Context) (position : Position) (cs : List Char) :
    ofChars context position cs =
      ofFront context (position.after (layout cs)) (afterLayout cs) := by
  rw [ofChars]
  split
  next hnil => rw [hnil, ofFront]
  next c rest hcons =>
    have hfront : ofFront context (position.after (layout cs)) (afterLayout cs) =
        ofFront context (position.after (layout cs)) (c :: rest) := by rw [hcons]
    rw [hfront, ofFront]
    split
    next m hmatch => simp only [hmatch]
    next hnone =>
      cases anyLexeme? (c :: rest) with
      | some m => simp only [hnone]
      | none => simp only [hnone]

/-- One step of reading behind layout. -/
theorem ofFront_of_match {context : Context} {front : List Char} {m : Match}
    (h : context.match? front = some m) (here : Position) :
    ofFront context here front =
      let tail := ofChars (context.next m.kind) (here.after m.text) m.rest
      ⟨⟨m.kind, m.text, here⟩ :: tail.lexemes, tail.ending⟩ := by
  unfold ofFront
  split
  · have hsplits := Context.match?_splits h
    exact absurd (List.append_eq_nil_iff.1 hsplits.1).1 hsplits.2
  · simp only [h]

/-- Where a lexeme stands in front of the line feed, it is read where it was. -/
theorem ofChars_newline_of_cons {cs rest : List Char} {c : Char} (h : afterLayout cs = c :: rest)
    (context : Context) (position : Position) (more : List Char) :
    ofChars context position (cs ++ '\n' :: more) =
      ofFront context (position.after (layout cs)) (c :: rest ++ '\n' :: more) := by
  have hgap := gap_layout cs
  have hcs := layout_append_afterLayout cs
  rw [h] at hgap hcs
  have hlonger := hgap.of_head (rest ++ '\n' :: more)
  have hsplit : cs ++ '\n' :: more = layout cs ++ c :: (rest ++ '\n' :: more) := by
    rw [← List.cons_append, ← List.append_assoc, hcs]
  rw [ofChars_eq_ofFront, hsplit, hlonger.layout_eq, hlonger.afterLayout_eq, List.cons_append]

/-- A stream, and behind it the stream of what follows if nothing has ended the first one. -/
def onward (first second : Stream) : Stream :=
  match first.ending with
  | .complete => ⟨first.lexemes ++ second.lexemes, second.ending⟩
  | _ => first

def cons (lexeme : Lexeme) (stream : Stream) : Stream := ⟨lexeme :: stream.lexemes, stream.ending⟩

theorem onward_cons (lexeme : Lexeme) (first second : Stream) :
    (cons lexeme first).onward second = cons lexeme (first.onward second) := by
  rcases first with ⟨lexemes, ending⟩
  cases ending <;> rfl

/-- A text that goes on in the next line is read up to there as if it ended there, and then in the
context and at the position that this leaves. -/
theorem ofChars_newline (context : Context) (position : Position) (cs more : List Char) :
    ofChars context position (cs ++ '\n' :: more) =
      (ofChars context position cs).onward
        (ofChars (context.after (ofChars context position cs).lexemes)
          (position.after (cs ++ ['\n'])) more) := by
  fun_induction ofChars context position cs with
  | case1 context position cs hnil =>
    have hgap := gap_layout cs
    have hcs := layout_append_afterLayout cs
    rw [hnil] at hgap hcs
    rw [List.append_nil] at hcs
    rw [hcs] at hgap
    -- Nothing but layout stands in front of the line feed, so it joins the layout behind.
    have hnewline := hgap.newline (gap_layout more)
    have hsplit : cs ++ '\n' :: more = cs ++ '\n' :: layout more ++ afterLayout more := by
      simp [layout_append_afterLayout]
    rw [ofChars_eq_ofFront, hsplit, hnewline.layout_eq, hnewline.afterLayout_eq, onward,
      Context.after]
    simp [ofChars_eq_ofFront, Position.after_append]
  | case2 context position cs here c rest hcons m hmatch hlt tail ih =>
    have hlonger := context.match?_newline (c :: rest) more
    rw [hmatch, Option.map_some] at hlonger
    have hcs := layout_append_afterLayout cs
    rw [hcons, ← (Context.match?_splits hmatch).1] at hcs
    -- Layout, lexeme and rest make up the text, so both ways lead to the same position.
    have hposition : (here.after m.text).after (m.rest ++ ['\n']) =
        position.after (cs ++ ['\n']) :=
      calc (here.after m.text).after (m.rest ++ ['\n'])
          = position.after (layout cs ++ (m.text ++ m.rest) ++ ['\n']) := by
            simp [here, Position.after_append]
        _ = position.after (cs ++ ['\n']) := by rw [hcs]
    rw [hposition] at ih
    rw [ofChars_newline_of_cons hcons, ofFront_of_match hlonger]
    change _ = (cons ⟨m.kind, m.text, here⟩ tail).onward _
    rw [onward_cons]
    exact congrArg (cons ⟨m.kind, m.text, here⟩) ih
  | case3 context position cs here c rest hcons hmatch m hany =>
    -- What the context refuses is refused in the longer text, as the same lexeme.
    have hlonger := context.match?_newline (c :: rest) more
    have hanyLonger := anyLexeme?_newline (c :: rest) more
    rw [hmatch] at hlonger
    rw [hany] at hanyLonger
    rw [ofChars_newline_of_cons hcons]
    simp only [List.cons_append] at hlonger hanyLonger ⊢
    simp [ofFront, hlonger, hanyLonger, onward, Match.onward, here]
  | case4 context position cs here c rest hcons hmatch hany =>
    have hlonger := context.match?_newline (c :: rest) more
    have hanyLonger := anyLexeme?_newline (c :: rest) more
    rw [hmatch] at hlonger
    rw [hany] at hanyLonger
    rw [ofChars_newline_of_cons hcons]
    simp only [List.cons_append] at hlonger hanyLonger ⊢
    simp [ofFront, hlonger, hanyLonger, onward, here]

end Stream

/-- Texts with a line feed between them are read one after the other. -/
theorem Tokenizes.newline {context : Context} {position : Position} {cs more : List Char}
    {lexemes lexemes' : List Lexeme} (h : Tokenizes context position cs lexemes)
    (hmore : Tokenizes (context.after lexemes) (position.after (cs ++ ['\n'])) more lexemes') :
    Tokenizes context position (cs ++ '\n' :: more) (lexemes ++ lexemes') := by
  rw [← Stream.tokenizes_iff, Stream.ofChars_newline, h.ofChars_eq, hmore.ofChars_eq]
  rfl

end LetLang
