import LetLang.Proofs.Source.Continuation
import LetLang.Proofs.Source.Reading
import LetLang.Proofs.Source.Words

/-!
# Incomplete and wrong texts

A text that is not accepted is incomplete if further lines can make it acceptable, and wrong if
nothing can. The parser tells the two apart: what it waits for can always be completed, by an
operand where one is missing and then by a closing parenthesis or an `in` with a body for each open
frame.
-/

namespace LetLang

open Grammar

/-! ## What the parser waits for -/

def Focus.context : Focus → Context
  | .expression => .expression
  | .operand => .operand
  | .binder => .binder
  | .equals _ => .equals
  | .complete _ => .continuation

namespace Progress

variable {progress next : Progress} {frames : List Frame} {lexemes : List Lexeme} {lexeme : Lexeme}

/-- Parser and tokenization agree on what may follow an operand lexeme. -/
theorem stepOperand_context {context : Context} (hcontext : context ≠ .binder)
    (h : stepOperand frames lexeme = some next) :
    next.focus.context = context.next lexeme.kind := by
  unfold stepOperand at h
  split at h
  next hlpar =>
    cases h
    rw [hlpar]
    rfl
  next =>
    rcases Option.map_eq_some_iff.1 h with ⟨tree, hleaf, rfl⟩
    cases leaf?_eq_some_iff.1 hleaf with
    | int hkind | double hkind | true hkind | false hkind | ident hkind =>
      simp [hkind, Context.next, Focus.context, hcontext]

/-- Parser and tokenization agree on what may follow behind a complete tree. -/
theorem stepComplete_context {tree : Tree} (h : stepComplete frames tree lexeme = some next) :
    next.focus.context = Context.next .continuation lexeme.kind := by
  unfold stepComplete at h
  split at h
  next hrpar =>
    split at h
    · cases h
      rw [hrpar]
      rfl
    · cases h
  next hin =>
    split at h
    · cases h
      rw [hin]
      rfl
    · cases h
  next =>
    split at h
    next strength hoperator =>
      cases h
      -- Of all kinds only operators have a strength.
      generalize lexeme.kind = kind at hoperator ⊢
      cases kind with
      | or | and | add | sub | mult | div | mod => rfl
      | _ => cases hoperator
    · cases h

/-- A lexeme leads from the context of one focus to the context of the next. -/
theorem step_context (h : progress.step lexeme = some next) :
    next.focus.context = progress.focus.context.next lexeme.kind := by
  rcases progress with ⟨frames, focus⟩
  cases focus with
  | expression =>
    simp only [step] at h
    split at h
    next hlet =>
      cases h
      rw [hlet]
      rfl
    next => exact stepOperand_context (by simp [Focus.context]) h
  | operand => exact stepOperand_context (by simp [Focus.context]) h
  | binder =>
    simp only [step] at h
    split at h
    next hname =>
      cases h
      rw [hname]
      rfl
    next => cases h
  | equals name =>
    simp only [step] at h
    split at h
    next hequals =>
      cases h
      rw [hequals]
      rfl
    next => cases h
  | complete tree => exact stepComplete_context h

/-- By induction on the lexemes: they agree all the way. -/
theorem run_context (h : progress.run lexemes = .ok next) :
    next.focus.context = progress.focus.context.after lexemes := by
  induction lexemes generalizing progress with
  | nil =>
    cases h
    rfl
  | cons lexeme lexemes ih =>
    simp only [run] at h
    split at h
    next reached hstep =>
      rw [ih h, step_context hstep]
      rfl
    next => cases h

/-- A lexeme that is refused is refused whatever comes behind it. -/
theorem run_append_of_error (h : progress.run lexemes = .error lexeme) (more : List Lexeme) :
    progress.run (lexemes ++ more) = .error lexeme := by
  induction lexemes generalizing progress with
  | nil => cases h
  | cons first lexemes ih =>
    simp only [run] at h
    split at h
    next reached hstep => simpa [run, hstep] using ih h
    next hstep =>
      cases h
      simp [run, hstep]

end Progress

/-! ## Completion -/

def Word.zero : Word := ⟨.int, ['0']⟩

/-- What closes a frame; an operation and the body of a `let` end with what they stand in. -/
def Frame.closing : Frame → List Word
  | .operation .. => []
  | .parenthesis => [.fixed .rpar]
  | .letValue _ => [.fixed .inWord, .zero]
  | .letBody .. => []

def Focus.completing : Focus → List Word
  | .expression => [.zero]
  | .operand => [.zero]
  | .binder => [⟨.ident, ['x']⟩, .fixed .assign, .zero, .fixed .inWord, .zero]
  | .equals _ => [.fixed .assign, .zero, .fixed .inWord, .zero]
  | .complete _ => []

/-- Words that complete what has been read. -/
def Progress.completion (progress : Progress) : List Word :=
  progress.focus.completing ++ progress.frames.flatMap Frame.closing

theorem Context.takes_zero {context : Context} (h : context.IsOperand) : context.Takes .zero := by
  have hspells : TokenKind.int.Spells ['0'] := ⟨by decide, List.all_eq_true.1 (by decide)⟩
  exact Context.takes (h.accepts (by decide)) hspells nofun

/-- The words that close the frames can be read behind an operand. -/
theorem Word.legible_closing (frames : List Frame) :
    Legible .continuation (frames.flatMap Frame.closing) := by
  induction frames with
  | nil => trivial
  | cons frame frames ih =>
    cases frame with
    | operation _ _ _ _ | letBody _ _ => exact ih
    | parenthesis => exact ⟨Context.takes_fixed (by decide) rfl, ih⟩
    | letValue name =>
      exact ⟨Context.takes_fixed (by decide) rfl, Context.takes_zero (.inl rfl), ih⟩

/-- The words that complete what has been read can be read in its context. -/
theorem Progress.legible_completion (progress : Progress) :
    Word.Legible progress.focus.context progress.completion := by
  rcases progress with ⟨frames, focus⟩
  have hclosing := Word.legible_closing frames
  -- The equals sign of a `let`, a value and a body.
  have hequals : Word.Legible .equals ([.fixed .assign, .zero, .fixed .inWord, .zero] ++
      frames.flatMap Frame.closing) :=
    ⟨Context.takes_fixed (by decide) rfl, Context.takes_zero (.inl rfl),
      Context.takes_fixed (by decide) rfl, Context.takes_zero (.inl rfl), hclosing⟩
  cases focus with
  | expression => exact ⟨Context.takes_zero (.inl rfl), hclosing⟩
  | operand => exact ⟨Context.takes_zero (.inr rfl), hclosing⟩
  | binder =>
    have hname : Context.Takes .binder ⟨.ident, ['x']⟩ := by
      refine Context.takes (by decide) ⟨'x', [], rfl, by decide, nofun⟩ ?_
      intro _ keyword hkeyword haccepts
      exact absurd haccepts (by revert keyword; decide)
    exact ⟨hname, hequals⟩
  | equals name => exact hequals
  | complete tree => exact hclosing

namespace Progress

variable {progress : Progress} {frames outer : List Frame} {tree whole : Tree}
  {lexemes : List Lexeme}

/-- Reading the lexemes leaves nothing open. -/
def Finishes (progress : Progress) (lexemes : List Lexeme) : Prop :=
  ∃ final whole, progress.run lexemes = .ok final ∧ final.tree? = some whole

theorem Finishes.cons {next : Progress} {lexeme : Lexeme} (hstep : progress.step lexeme = some next)
    (h : next.Finishes lexemes) : progress.Finishes (lexeme :: lexemes) := by
  rcases h with ⟨final, whole, hrun, hwhole⟩
  exact ⟨final, whole, (run_cons hstep lexemes).trans hrun, hwhole⟩

theorem step_zero (frames : List Frame) {focus : Focus}
    (hfocus : focus = .expression ∨ focus = .operand) {lexeme : Lexeme}
    (hlexeme : lexeme.word = .zero) :
    ∃ zero, step ⟨frames, focus⟩ lexeme = some ⟨frames, .complete zero⟩ := by
  have hkind : lexeme.kind = .int := congrArg Word.kind hlexeme
  rw [step_operand frames hfocus (by simp [hkind])]
  simp [stepOperand, Lexeme.leaf?, hkind]

/-- A parenthesis closes what is open inside it. -/
theorem step_rpar {lexeme : Lexeme} (hlexeme : lexeme.word = .fixed .rpar)
    (hclosed : closeBodies tree frames = (whole, .parenthesis :: outer)) :
    step ⟨frames, .complete tree⟩ lexeme = some ⟨outer, .complete whole⟩ := by
  have hkind : lexeme.kind = .rpar := congrArg Word.kind hlexeme
  simp [step, stepComplete, hkind, hclosed]

/-- The word `in` ends the value of a `let`. -/
theorem step_in {name : Token} {lexeme : Lexeme} (hlexeme : lexeme.word = .fixed .inWord)
    (hclosed : closeBodies tree frames = (whole, .letValue name :: outer)) :
    step ⟨frames, .complete tree⟩ lexeme = some ⟨.letBody name whole :: outer, .expression⟩ := by
  have hkind : lexeme.kind = .inWord := congrArg Word.kind hlexeme
  simp [step, stepComplete, hkind, hclosed]

/-- The closing words finish every complete operand that closes to the same as one on their
frames. -/
theorem finishes_closing {tree' : Tree} {frames' : List Frame}
    (hsettled : closeBodies tree' frames' = closeBodies tree frames)
    (hwords : lexemes.map Lexeme.word = frames.flatMap Frame.closing) :
    Finishes ⟨frames', .complete tree'⟩ lexemes := by
  -- The operand and its frames vary apart from the frames that are closed: closing a frame may
  -- leave operations and bodies on top that nothing closes until the next frame is closed.
  induction frames generalizing tree tree' frames' lexemes with
  | nil =>
    cases List.map_eq_nil_iff.1 hwords
    exact ⟨_, tree, rfl, by simp [tree?, hsettled, closeBodies]⟩
  | cons frame frames ih =>
    cases frame with
    | operation left operator strength line => exact ih hsettled hwords
    | letBody name value => exact ih hsettled hwords
    | parenthesis =>
      rcases List.map_eq_cons_iff.1 hwords with ⟨rpar, more, rfl, hrpar, hmore⟩
      exact .cons (step_rpar hrpar hsettled) (ih rfl hmore)
    | letValue name =>
      rcases List.map_eq_cons_iff.1 hwords with ⟨inWord, more, rfl, hin, hmore⟩
      rcases List.map_eq_cons_iff.1 hmore with ⟨lexeme, more, rfl, hzero, hmore⟩
      rcases step_zero (.letBody name tree :: frames) (.inl rfl) hzero with ⟨zero, hstep⟩
      exact .cons (step_in hin hsettled) (.cons hstep (ih rfl hmore))

/-- An operand and the closing words finish what waits for an operand. -/
theorem finishes_zero_closing {focus : Focus} (hfocus : focus = .expression ∨ focus = .operand)
    (hwords : lexemes.map Lexeme.word = .zero :: frames.flatMap Frame.closing) :
    Finishes ⟨frames, focus⟩ lexemes := by
  rcases List.map_eq_cons_iff.1 hwords with ⟨lexeme, more, rfl, hzero, hmore⟩
  rcases step_zero frames hfocus hzero with ⟨zero, hstep⟩
  exact .cons hstep (finishes_closing rfl hmore)

/-- The words that complete what has been read leave nothing open. -/
theorem finishes_completion (progress : Progress)
    (hwords : lexemes.map Lexeme.word = progress.completion) : progress.Finishes lexemes := by
  rcases progress with ⟨frames, focus⟩
  -- Behind the equals sign a `let` is one more frame that its value stands on.
  have hequals (name : Token) (lexemes : List Lexeme)
      (hwords : lexemes.map Lexeme.word = completion ⟨frames, .equals name⟩) :
      Finishes ⟨frames, .equals name⟩ lexemes := by
    rcases List.map_eq_cons_iff.1 hwords with ⟨equals, more, rfl, hassign, hmore⟩
    have hkind : equals.kind = .assign := congrArg Word.kind hassign
    have hstep : step ⟨frames, .equals name⟩ equals =
        some ⟨.letValue name :: frames, .expression⟩ := by simp [step, hkind]
    exact .cons hstep (finishes_zero_closing (.inl rfl) hmore)
  cases focus with
  | expression => exact finishes_zero_closing (.inl rfl) hwords
  | operand => exact finishes_zero_closing (.inr rfl) hwords
  | binder =>
    rcases List.map_eq_cons_iff.1 hwords with ⟨name, more, rfl, hname, hmore⟩
    have hkind : name.kind = .ident := congrArg Word.kind hname
    have hstep : step ⟨frames, .binder⟩ name = some ⟨frames, .equals name.nameToken⟩ := by
      simp [step, hkind]
    exact .cons hstep (hequals name.nameToken more hmore)
  | equals name => exact hequals name lexemes hwords
  | complete tree => exact finishes_closing rfl hwords

end Progress

/-! ## Messages -/

namespace Rejection

/-- The message is the one about the end of the text. -/
def SaysEnd (rejection : Rejection) : Prop :=
  "Unexpected token Token('$END', '') at line ".toList <+: rejection.message.toList

theorem message_incomplete (position : Position) : (incomplete position).message =
    "Unexpected token Token('" ++ "$END" ++ "', " ++ quoted "" ++ ") at line " ++
      numeral position.line ++ ", column " ++ numeral position.column ++ "." := rfl

theorem message_unexpected (lexeme : Lexeme) : (unexpected lexeme).message =
    "Unexpected token Token('" ++ lexeme.kind.terminal ++ "', " ++
      quoted (String.ofList lexeme.text) ++ ") at line " ++ numeral lexeme.position.line ++
      ", column " ++ numeral lexeme.position.column ++ "." := rfl

/-- A text that ends too early is reported as such. -/
theorem saysEnd_incomplete (position : Position) : (incomplete position).SaysEnd := by
  have hfront : "Unexpected token Token('" ++ "$END" ++ "', " ++ quoted "" ++ ") at line " =
      "Unexpected token Token('$END', '') at line " := by decide +kernel
  simp only [SaysEnd, message_incomplete, hfront, String.toList_append, List.append_assoc]
  exact List.prefix_append _ _

/-- No lexeme is reported as the end: its name in the message is another one. -/
theorem not_saysEnd_unexpected (lexeme : Lexeme) : ¬ (unexpected lexeme).SaysEnd := by
  -- The messages part at the name of the terminal.
  have hterminal : ∀ kind : TokenKind, ∃ c cs, kind.terminal.toList = c :: cs ∧ c ≠ '$' := by
    intro kind
    cases kind <;> exact ⟨_, _, rfl, by decide⟩
  have hsplit : "Unexpected token Token('$END', '') at line ".toList =
      "Unexpected token Token('".toList ++ "$END', '') at line ".toList := by decide +kernel
  rcases hterminal lexeme.kind with ⟨c, cs, hname, hc⟩
  simp only [SaysEnd, message_unexpected, hsplit, String.toList_append, List.append_assoc,
    List.prefix_append_right_inj, hname]
  intro h
  exact hc (List.cons_prefix_cons.1 h).1.symm

theorem not_saysEnd_stray (c : Char) (position : Position) : ¬ (stray c position).SaysEnd := by
  simp only [SaysEnd, message]
  intro h
  split at h
  · exact absurd h (by decide)
  · simp only [String.toList_append, List.append_assoc] at h
    cases (List.cons_prefix_cons.1 h).1

/-- No other message starts like the one about the end of the text. -/
theorem saysEnd_iff {rejection : Rejection} :
    rejection.SaysEnd ↔ ∃ position, rejection = .incomplete position := by
  constructor
  · intro h
    cases rejection with
    | incomplete position => exact ⟨position, rfl⟩
    | unexpected lexeme => exact absurd h (not_saysEnd_unexpected lexeme)
    | stray c position => exact absurd h (not_saysEnd_stray c position)
  · rintro ⟨position, rfl⟩
    exact saysEnd_incomplete position

end Rejection

/-! ## Texts that go on -/

namespace Source

variable {source : String} {rejection : Rejection}

theorem read_eq_rejected_iff :
    read source = .error (.rejected rejection) ↔ parse source = .error rejection := by
  unfold read
  cases parse source with
  | error other => simp
  | ok tree => cases oversized? (Stream.ofSource source).lexemes <;> simp

theorem ofSource_newline (source more : String) :
    Stream.ofSource (source ++ "\n" ++ more) =
      Stream.ofChars .expression .start (source.toList ++ '\n' :: more.toList) := by
  simp [Stream.ofSource]

/-- What is wrong with a stream does not depend on what comes behind it. -/
theorem parseStream_onward_of_wrong {first : Stream} (h : parseStream first = .error rejection)
    (hwrong : ∀ position, rejection ≠ .incomplete position) (second : Stream) :
    parseStream (first.onward second) = .error rejection := by
  rcases first with ⟨lexemes, ending⟩
  cases ending with
  | unexpected lexeme | stray c position => exact h
  | complete =>
    -- The text is read to its end, so a lexeme has been refused before.
    simp only [parseStream] at h
    split at h
    next lexeme hrun =>
      simp only [Stream.onward, parseStream, Progress.run_append_of_error hrun]
      exact h
    next progress hrun =>
      split at h
      · cases h
      · cases h
        exact absurd rfl (hwrong _)

/-- What is wrong for another reason is wrong in the same way, however the text goes on. -/
theorem parse_newline_of_wrong (h : parse source = .error rejection)
    (hwrong : ∀ position, rejection ≠ .incomplete position) (more : String) :
    parse (source ++ "\n" ++ more) = .error rejection := by
  rw [parse, ofSource_newline, Stream.ofChars_newline]
  exact parseStream_onward_of_wrong h hwrong _

/-- A text that ends too early is read to its end, and something is open there. -/
theorem parts_of_incomplete {position : Position}
    (h : parse source = .error (.incomplete position)) :
    ∃ lexemes progress, Tokenized source lexemes ∧ Progress.start.run lexemes = .ok progress := by
  rw [parse, parseStream] at h
  split at h
  next => cases h
  next progress hrun =>
    split at h
    · cases h
    · cases h
    next hcomplete => exact ⟨_, progress, tokenizes_of_complete _ _ _ hcomplete, hrun⟩

/-- A text that ends too early can be completed in the next line. -/
theorem exists_accepts_newline {position : Position}
    (h : parse source = .error (.incomplete position)) :
    ∃ more, Accepts (source ++ "\n" ++ more) := by
  rcases parts_of_incomplete h with ⟨lexemes, progress, htokens, hrun⟩
  have hlegible := progress.legible_completion
  rw [Progress.run_context hrun] at hlegible
  -- The completing words are read as such behind the line feed, and leave nothing open.
  rcases Word.tokenizes_joined hlegible (.inl rfl) (Position.start.after (source.toList ++ ['\n']))
    with ⟨more, hmore, hwords⟩
  rcases progress.finishes_completion hwords with ⟨final, whole, hfinal, hwhole⟩
  refine ⟨String.ofList (Word.joined progress.completion), accepts_iff.2 ⟨whole, ?_⟩⟩
  have hstream := (Tokenizes.newline htokens hmore).ofChars_eq
  rw [parse, ofSource_newline, String.toList_ofList]
  rw [List.nil_append] at hstream
  rw [hstream, parseStream_eq_ok_iff]
  exact ⟨rfl, final, (Progress.run_append hrun more).trans hfinal, hwhole⟩

/-- Rejections tell incomplete texts from wrong ones. The message about the end of the text comes
exactly with a text that is not accepted and is accepted when some further line is added; every
other rejection stays the same, message and position, whatever is added. -/
theorem rejection_tells_incomplete (source : String) :
    ((∃ rejection, read source = .error (.rejected rejection) ∧ rejection.SaysEnd) ↔
      ¬ Accepts source ∧ ∃ more, Accepts (source ++ "\n" ++ more)) ∧
    ∀ rejection, read source = .error (.rejected rejection) → ¬ rejection.SaysEnd →
      ∀ more, read (source ++ "\n" ++ more) = .error (.rejected rejection) := by
  have hstays (rejection : Rejection) (hread : read source = .error (.rejected rejection))
      (hend : ¬ rejection.SaysEnd) (more : String) :
      read (source ++ "\n" ++ more) = .error (.rejected rejection) := by
    rw [read_eq_rejected_iff] at hread ⊢
    refine parse_newline_of_wrong hread ?_ more
    intro position hposition
    exact hend (Rejection.saysEnd_iff.2 ⟨position, hposition⟩)
  refine ⟨⟨?_, ?_⟩, hstays⟩
  · rintro ⟨rejection, hread, hend⟩
    rcases Rejection.saysEnd_iff.1 hend with ⟨position, rfl⟩
    have hparse := read_eq_rejected_iff.1 hread
    refine ⟨?_, exists_accepts_newline hparse⟩
    rw [accepts_iff]
    rintro ⟨tree, htree⟩
    rw [hparse] at htree
    cases htree
  · rintro ⟨hnot, more, hmore⟩
    rcases read_of_not_accepts hnot with ⟨rejection, hread⟩
    refine ⟨rejection, hread, Classical.byContradiction fun hend => ?_⟩
    -- A rejection for anything else would stay, but the longer text is accepted.
    have hlonger := read_eq_rejected_iff.1 (hstays rejection hread hend more)
    rcases accepts_iff.1 hmore with ⟨tree, htree⟩
    rw [hlonger] at htree
    cases htree

end Source

end LetLang
