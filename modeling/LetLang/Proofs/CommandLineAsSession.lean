import LetLang.CommandLine
import LetLang.Proofs.Arguments

/-!
# The command line as a session

What the command line makes of definitions and a source text is what a session answers to the text
behind the same definitions. The two agree because they find the same values, although the session
binds a name anew where the command line replaces its value.
-/

namespace LetLang

/-! ## Sessions that define literals -/

theorem isInvisible_of_isDigit {c : Char} (h : isDigit c = true) : isInvisible c = false := by
  simp only [isInvisible, Bool.or_eq_false_iff, decide_eq_false_iff_not]
  refine ⟨⟨⟨⟨⟨?_, ?_⟩, ?_⟩, ?_⟩, ?_⟩, ?_⟩ <;> rintro rfl <;> exact absurd h (by decide +kernel)

/-- No literal holds a character that a session would drop. -/
theorem Literal.Spelled.isInvisible_eq_false {core : List Char} {v : Value}
    (h : Literal.Spelled core v) : ∀ c ∈ core, isInvisible c = false := by
  cases h with
  | integer h _ => exact fun c hc => isInvisible_of_isDigit (h.2 c hc)
  | double h =>
    obtain ⟨whole, fraction, rfl, hwhole, hfraction⟩ := h
    intro c hc
    rcases List.mem_append.1 hc with hc | hc
    · exact isInvisible_of_isDigit (hwhole.2 c hc)
    · rcases List.mem_cons.1 hc with rfl | hc
      · decide
      · exact isInvisible_of_isDigit (hfraction.2 c hc)
  | trueWord h | falseWord h =>
    have hnone : core.any isInvisible = false := by
      cases h
      decide
    simpa using hnone

theorem withoutInvisible_append (text text' : String) :
    withoutInvisible (text ++ text') = withoutInvisible text ++ withoutInvisible text' := by
  simp [withoutInvisible, String.ofList_append]

/-- Only the text of the value can lose characters. -/
theorem Session.withoutInvisible_definitionLine {name : String}
    (hname : TokenKind.ident.Spells name.toList) (value : String) :
    withoutInvisible (Session.definitionLine name value) =
      Session.definitionLine name (withoutInvisible value) := by
  have hvisible : IsVisible ("/def " ++ name ++ " = ") := by
    have hslash : IsVisible "/def " := by decide
    have hequals : IsVisible " = " := by decide
    exact (hslash.append (isVisible_of_spells hname)).append hequals
  rw [Session.definitionLine, withoutInvisible_append, hvisible.withoutInvisible_eq]
  rfl

/-- The line is taken for a definition. -/
theorem Entry.command?_definitionLine {name value : String}
    (hname : TokenKind.ident.Spells name.toList)
    (hvalue : (withoutInvisible value).toList.rdropWhile isBlank ≠ []) :
    Entry.command? (.line (Session.definitionLine name value)) =
      some (.define (name.toList ++
        ([' ', '=', ' '] ++ (withoutInvisible value).toList.rdropWhile isBlank))) := by
  rw [Entry.command?, Session.withoutInvisible_definitionLine hname,
    Command.ofLine?_definitionLine hname hvalue]

theorem Tree.IsLiteral.evaluates {t : Tree} {v : Value} (h : t.IsLiteral v) (scope : Scope) :
    t.Evaluates scope v := by
  cases h with
  | int n line => exact .int n line scope
  | double x line => exact .double x line scope
  | bool b line => exact .bool b line scope

theorem rdropWhile_append_of_all {p : Char → Bool} {cs after : List Char}
    (h : ∀ c ∈ after, p c = true) : (cs ++ after).rdropWhile p = cs.rdropWhile p := by
  have hreverse : ∀ c ∈ after.reverse, p c = true := fun c hc => h c (List.mem_reverse.1 hc)
  rw [List.rdropWhile, List.reverse_append, List.dropWhile_append_of_pos hreverse, List.rdropWhile]

theorem rdropWhile_ne_nil_of_read {text : String} {tree : Tree}
    (h : Source.read text = .ok tree) : text.toList.rdropWhile isBlank ≠ [] := by
  intro hempty
  obtain ⟨c, rest, hfront, -⟩ := (Source.readsAs_of_read h).rdropWhile.front
  rw [hempty] at hfront
  cases hfront

namespace LiteralDefinition

variable (definition : LiteralDefinition)

def entry : Entry := .line (Session.definitionLine definition.name definition.text)

/-- What is left of the text in a session is a visible text of the same literal, with blanks behind
it. -/
theorem exists_visible :
    ∃ value tree, IsVisible value ∧ Source.read value = .ok tree ∧
      tree.IsLiteral definition.value ∧
      (withoutInvisible definition.text).toList.rdropWhile isBlank =
        value.toList.rdropWhile isBlank := by
  obtain ⟨before, core, after, htext, hbefore, hafter, hcore⟩ := definition.exists_spelled
  have hkept : core.filter (!isInvisible ·) = core := by
    refine List.filter_eq_self.2 fun c hc => ?_
    rw [hcore.isInvisible_eq_false c hc]
    rfl
  have hfront : ∀ c ∈ before.filter (!isInvisible ·), isSpacing c = true :=
    fun c hc => hbefore c (List.mem_of_mem_filter hc)
  have hback : ∀ c ∈ after.filter (!isInvisible ·), isBlank c = true :=
    fun c hc => isBlank_of_isSpacing (hafter c (List.mem_of_mem_filter hc))
  obtain ⟨tree, hread, hliteral⟩ := hcore.exists_read hfront
  refine ⟨_, tree, ?_, hread, hliteral, ?_⟩
  · intro c hc
    rw [String.toList_ofList] at hc
    rcases List.mem_append.1 hc with hc | hc
    · simpa using (List.mem_filter.1 hc).2
    · exact hcore.isInvisible_eq_false c hc
  · rw [withoutInvisible, String.toList_ofList, String.toList_ofList, htext, List.filter_append,
      List.filter_append, hkept, ← List.append_assoc]
    exact rdropWhile_append_of_all hback

/-- The entry binds the name and writes one line. -/
theorem enter_entry (session : Session) :
    PromptLoop.enter session definition.entry =
      ⟨{ session with scope := session.scope.bind definition.name definition.value },
        ⟨[Session.bindingLine definition.name definition.value], []⟩, none⟩ := by
  obtain ⟨value, tree, hvisible, hread, hliteral, hdropped⟩ := definition.exists_visible
  have hne : value.toList.rdropWhile isBlank ≠ [] := rdropWhile_ne_nil_of_read hread
  have hrun : (run value session.scope [] .empty).1 = .ok definition.value :=
    (run_eq_ok_iff hread).2 (hliteral.evaluates session.scope)
  -- Both lines are the same command, because blanks at the end of a line are dropped.
  have hentry := Entry.command?_definitionLine definition.isName (hdropped.trans_ne hne)
  have hvalue := Entry.command?_definitionLine definition.isName
    (hvisible.withoutInvisible_eq.symm ▸ hne)
  rw [hdropped] at hentry
  rw [hvisible.withoutInvisible_eq] at hvalue
  rw [entry, PromptLoop.enter_of_command session hentry,
    ← PromptLoop.enter_of_command session hvalue]
  exact PromptLoop.enter_definitionLine session definition.isName hread hvisible hrun

end LiteralDefinition

namespace PromptLoop

/-- Definitions of literals bind their values one after the other. -/
theorem loop_entries (session : Session) (written : Transcript)
    (definitions : List LiteralDefinition) :
    (loop session written (definitions.map (·.entry))).uncaught = none ∧
      (loop session written (definitions.map (·.entry))).session =
        { session with scope := session.scope.bindAll (definitions.map (·.binding)) } := by
  induction definitions generalizing session written with
  | nil => exact ⟨rfl, rfl⟩
  | cons definition definitions ih =>
    have hentered := definition.enter_entry session
    have hcaught : (enter session definition.entry).uncaught = none := by rw [hentered]
    rw [List.map_cons, loop_cons_of_caught hcaught, hentered]
    exact ih _ _

theorem length_replies_loop {session : Session} {written : Transcript} {entries : List Entry}
    (h : (loop session written entries).uncaught = none) :
    (loop session written entries).replies.length = entries.length := by
  induction entries generalizing session written with
  | nil => rfl
  | cons entry entries ih =>
    cases hentry : (enter session entry).uncaught with
    | none =>
      rw [loop_cons_of_caught hentry] at h
      rw [replies_loop_of_caught hentry, List.length_cons, ih h, List.length_cons]
    | some error =>
      rw [loop_cons_of_uncaught hentry] at h
      cases h

theorem replies_loop_singleton (session : Session) (written : Transcript) (entry : Entry) :
    (loop session written [entry]).replies = [(enter session entry).transcript] := by
  cases h : (enter session entry).uncaught with
  | none =>
    rw [replies_loop_of_caught h]
    rfl
  | some error =>
    rw [loop_cons_of_uncaught h]
    rfl

theorem uncaught_loop_singleton (session : Session) (written : Transcript) (entry : Entry) :
    (loop session written [entry]).uncaught = (enter session entry).uncaught := by
  cases h : (enter session entry).uncaught with
  | none =>
    rw [loop_cons_of_caught h]
    rfl
  | some error => rw [loop_cons_of_uncaught h]

/-- One more entry adds its answer, and the error that ends the program if there is one. -/
theorem run_append_singleton {traces : Bool} {before : List Entry}
    (h : (run traces before).uncaught = none) (entry : Entry) :
    (run traces (before ++ [entry])).replies =
        (run traces before).replies ++ [(enter (run traces before).session entry).transcript] ∧
      (run traces (before ++ [entry])).uncaught =
        (enter (run traces before).session entry).uncaught := by
  unfold run at h ⊢
  -- What stands before the first prompt is no answer, so there is always something to drop.
  obtain ⟨first, rest, hprompts⟩ :
      ∃ first rest, (loop { traces } ⟨[banner], []⟩ before).beforePrompts = first :: rest := by
    rw [loop_written _ _ .empty before]
    exact ⟨_, _, rfl⟩
  have hreplies := replies_loop_singleton (loop { traces } ⟨[banner], []⟩ before).session .empty
    entry
  have huncaught := uncaught_loop_singleton (loop { traces } ⟨[banner], []⟩ before).session .empty
    entry
  rw [loop_append h]
  refine ⟨?_, huncaught⟩
  simp only [Run.replies] at hreplies
  simp [Run.replies, Run.followedBy, hprompts, h, ← hreplies]

end PromptLoop

/-! ## Answers to source texts -/

/-- Scopes that find the same values execute a text alike. -/
theorem execute_congr {scope scope' : Scope} (h : ∀ name, scope.find? name = scope'.find? name)
    (source : String) (showTree : Bool) :
    execute source scope showTree = execute source scope' showTree := by
  unfold execute
  cases Source.read source with
  | error error => rfl
  | ok tree =>
    have htree : runTree tree scope [] .empty = runTree tree scope' [] .empty := by
      have heval : tree.eval scope .empty = tree.eval scope' .empty :=
        Tree.eval_eq_of_agree (fun name _ => h name) .empty
      simp only [runTree, Tree.evalTop, Scope.bindAll, List.foldl_nil, heval]
    simp only [htree]

/-- The ways in which the command line and a session answer a source text: with a value, with an
error that is shown, or with a literal that ends both. -/
inductive Answer (session : Session) : Report → Entered → Prop where
  | value (shown : List String) (value : Value) :
      Answer session ⟨.code 0, ⟨shown ++ [value.text], []⟩⟩
        ⟨session, ⟨shown ++ [value.text], []⟩, none⟩
  | error (shown : List String) (text : String) :
      Answer session ⟨.code 1, ⟨shown, ["Error: " ++ text]⟩⟩
        ⟨session, ⟨shown, ["Error: " ++ text]⟩, none⟩
  | oversized (digits : Nat) :
      Answer session ⟨.uncaught (.source (.oversized digits)), .empty⟩
        ⟨session, .empty, some (.source (.oversized digits))⟩

/-- Where they find the same values, the command line and the session answer in the same way. -/
theorem CommandLine.runSource_answer {options : Options} {session : Session}
    (hverbose : options.verbose = false) (htraces : session.traces = false)
    (htree : options.showTree = session.showTree)
    (hscope : ∀ name, (Scope.ofBindings options.defines).find? name = session.scope.find? name)
    (text : String) : Answer session (runSource {} options text) (session.evaluate text) := by
  have hlevel : ¬ Settings.level {} Settings.warningLevel ≤ Settings.debugLevel := by decide
  have hsettings : Settings.traces {} = false := by decide
  simp only [runSource, hverbose, Bool.false_eq_true, if_false, hlevel, hsettings, htree,
    execute_congr hscope, List.nil_append, Session.evaluate]
  -- The text is rejected, or it has an oversized literal, or there is a tree to evaluate.
  rcases Source.read_cases text with
    ⟨-, rejection, hread⟩ | ⟨-, digits, hread⟩ | ⟨-, -, tree, hread, -⟩
  · simp only [execute, hread, Session.fail, RunError.shown?, Session.errorLines, htraces]
    exact .error [] _
  · simp only [execute, hread, Session.fail, RunError.shown?]
    exact .oversized digits
  · rcases tree.evaluates_or_refusedAt (Source.isWhole_of_read hread) session.scope with
      ⟨value, h⟩ | ⟨node, error, h⟩
    · simp only [execute, hread, runTree_of_evaluates h]
      exact .value _ value
    · simp only [execute, hread, runTree_of_refusedAt h, Session.fail, RunError.shown?,
        Session.errorLines, htraces]
      exact .error _ _

/-! ## Whole runs -/

namespace PromptLoop

/-- The entries that turn the display of trees on, if the flag says so, and define literals. -/
def preparation (showTree : Bool) (definitions : List LiteralDefinition) : List Entry :=
  (if showTree then [.line "/tree"] else []) ++ definitions.map (·.entry)

/-- The entries leave the session that the command line starts from. -/
theorem run_preparation (showTree : Bool) (definitions : List LiteralDefinition) :
    (run false (preparation showTree definitions)).uncaught = none ∧
      (run false (preparation showTree definitions)).session =
        ⟨.ofBindings (definitions.map (·.binding)), showTree, false⟩ := by
  cases showTree with
  | false => exact loop_entries _ _ definitions
  | true =>
    have hcommand : Entry.command? (.line "/tree") = some .toggleTree := by decide
    have hentered := enter_of_command { traces := false } hcommand
    have hcaught : (enter { traces := false } (.line "/tree")).uncaught = none := by
      rw [hentered]
      rfl
    rw [run, preparation, if_pos rfl, List.singleton_append, loop_cons_of_caught hcaught, hentered]
    exact loop_entries _ _ definitions

end PromptLoop

/-- A text that both the command line and a session take for a source text. -/
structure Surroundings.TakesAsSource (surroundings : Surroundings) (text : String) : Prop where
  visible : IsVisible text
  notBlank : trim text.toList ≠ []
  notCommand : (trim text.toList).head? ≠ some '/'
  notInput : text ≠ "-"
  notFlag : ¬ Options.IsFlag text
  notFile : surroundings.file? text = none

namespace Surroundings.TakesAsSource

variable {surroundings : Surroundings} {text : String} (h : surroundings.TakesAsSource text)

include h

theorem expression?_eq : Entry.expression? (.line text) = some text := by
  have hcommand : Command.ofLine? text = none := by
    unfold Command.ofLine?
    split
    · next heq => exact absurd (congrArg List.head? heq) h.notCommand
    · rfl
  simp [Entry.expression?, h.visible.withoutInvisible_eq, h.notBlank, hcommand]

theorem source_eq : CommandLine.source surroundings text = .ok text := by
  rw [CommandLine.source, if_neg h.notInput, h.notFile]

theorem ne_empty : text ≠ "" := by
  rintro rfl
  exact h.notBlank rfl

end Surroundings.TakesAsSource

/-- The report is what a session without traces answers to a source text behind other entries, and
how the program ends is what the answer says. -/
structure Report.IsReply (report : Report) (before : List Entry) (source : String) : Prop where
  replies : ∃ earlier, earlier.length = before.length ∧
    (PromptLoop.run false (before ++ [.line source])).replies = earlier ++ [report.transcript]
  error_iff : report.exit = .code 1 ↔ ∃ text, "Error: " ++ text ∈ report.transcript.err
  value_iff : report.exit = .code 0 ↔
    report.transcript.err = [] ∧
      ∃ (shown : List String) (value : Value), report.transcript.out = shown ++ [value.text]
  uncaught_iff : ∀ error, report.exit = .uncaught error ↔
    (PromptLoop.run false (before ++ [.line source])).uncaught = some error
  oversized_iff : (∃ digits, report.exit = .uncaught (.source (.oversized digits))) ↔
    Source.IsOversized source
  exit_cases : report.exit = .code 0 ∨ report.exit = .code 1 ∨
    ∃ digits, report.exit = .uncaught (.source (.oversized digits))

/-- An answer of the session is the reply of a run that got there. -/
theorem Answer.isReply {session : Session} {report : Report} {before : List Entry}
    {source : String} (h : Answer session report (session.evaluate source))
    (hcaught : (PromptLoop.run false before).uncaught = none)
    (hsession : (PromptLoop.run false before).session = session)
    (hsource : Entry.expression? (.line source) = some source) :
    report.IsReply before source := by
  obtain ⟨hreplies, huncaught⟩ := PromptLoop.run_append_singleton hcaught (.line source)
  rw [hsession, PromptLoop.enter_of_expression session hsource] at hreplies huncaught
  have hoversized := session.uncaught_evaluate_eq_none_iff source
  have hlength : (PromptLoop.run false before).replies.length = before.length :=
    PromptLoop.length_replies_loop hcaught
  -- Each way of answering settles how the report ends and what it holds.
  generalize session.evaluate source = entered at *
  cases h with
  | value shown value =>
    exact {
      replies := ⟨_, hlength, hreplies⟩
      error_iff := by simp
      value_iff := by simp
      uncaught_iff := by simp [huncaught]
      oversized_iff := by simpa using hoversized
      exit_cases := .inl rfl }
  | error shown text =>
    exact {
      replies := ⟨_, hlength, hreplies⟩
      error_iff := by simp
      value_iff := by simp
      uncaught_iff := by simp [huncaught]
      oversized_iff := by simpa using hoversized
      exit_cases := .inr (.inl rfl) }
  | oversized digits =>
    exact {
      replies := ⟨_, hlength, hreplies⟩
      error_iff := by simp [Transcript.empty]
      value_iff := by simp [Transcript.empty]
      uncaught_iff := by simp [huncaught]
      oversized_iff := by simpa using hoversized
      exit_cases := .inr (.inr ⟨digits, rfl⟩) }

/-- The command line agrees with sessions. From definitions of literals and a source text it makes
what a session answers to the text behind the same definitions, and the display of trees is asked
for by a flag, wherever it stands, as by a command in front of the definitions. -/
theorem CommandLine.agrees_with_session (surroundings : Surroundings)
    (hsettings : surroundings.settings = {}) (definitions : List LiteralDefinition)
    (source : String) (hsource : surroundings.TakesAsSource source)
    (arguments : List Options.Argument)
    (harguments : arguments.filter (· ≠ .tree) =
      (definitions.map fun definition => .define definition.spec) ++ [.source source]) :
    (run surroundings (arguments.flatMap Options.Argument.written)).IsReply
      (PromptLoop.preparation (decide (.tree ∈ arguments)) definitions) source := by
  obtain ⟨hcaught, hsession⟩ :=
    PromptLoop.run_preparation (decide (.tree ∈ arguments)) definitions
  have hreport : run surroundings (arguments.flatMap Options.Argument.written) =
      runSource {} ⟨decide (.tree ∈ arguments), false, .ofList (definitions.map (·.binding)),
        some source⟩ source := by
    simp only [run, Options.ofArguments_written hsource.notFlag harguments, Options.sourceName,
      if_neg hsource.ne_empty, hsource.source_eq, hsettings]
  rw [hreport]
  -- A name that is defined again keeps its place on the command line and grows the chain of the
  -- session; both find its last value.
  refine (runSource_answer rfl rfl rfl ?_ source).isReply hcaught hsession hsource.expression?_eq
  exact Scope.find?_ofBindings_ofList (definitions.map (·.binding))

/-- A name may be defined again, spacing may stand around the literals, the flag among them, and the
source text may fail. -/
theorem CommandLine.agrees_with_session_zero_divisor :
    ∃ definitions : List LiteralDefinition,
      (definitions.map fun definition => (definition.name, definition.text)) =
          [("x", "1"), ("y", " 0\r\n"), ("x", "\t7 ")] ∧
        Surroundings.TakesAsSource {} "x / y" ∧
        (run {} ["--define", "x=1", "--tree", "--define", "y= 0\r\n", "--define", "x=\t7 ",
          "x / y"]).IsReply (PromptLoop.preparation true definitions) "x / y" ∧
        (run {} ["--define", "x=1", "--tree", "--define", "y= 0\r\n", "--define", "x=\t7 ",
          "x / y"]).exit = .code 1 := by
  have hx : TokenKind.ident.Spells "x".toList :=
    ⟨'x', [], rfl, by decide, fun _ h => absurd h List.not_mem_nil⟩
  have hy : TokenKind.ident.Spells "y".toList :=
    ⟨'y', [], rfl, by decide, fun _ h => absurd h List.not_mem_nil⟩
  have hsource : Surroundings.TakesAsSource {} "x / y" :=
    ⟨by decide, by decide, by decide, by decide, by decide, rfl⟩
  let definitions : List LiteralDefinition :=
    [⟨"x", "1", .integer 1, hx, ⟨.int 1 (some 1), by decide +kernel, .int _ _⟩, by decide,
        by decide⟩,
      ⟨"y", " 0\r\n", .integer 0, hy, ⟨.int 0 (some 1), by decide +kernel, .int _ _⟩, by decide,
        by decide⟩,
      ⟨"x", "\t7 ", .integer 7, hx, ⟨.int 7 (some 1), by decide +kernel, .int _ _⟩, by decide,
        by decide⟩]
  refine ⟨definitions, rfl, hsource, ?_, by decide +kernel⟩
  exact agrees_with_session {} rfl definitions "x / y" hsource
    [.define "x=1", .tree, .define "y= 0\r\n", .define "x=\t7 ", .source "x / y"] rfl

end LetLang
