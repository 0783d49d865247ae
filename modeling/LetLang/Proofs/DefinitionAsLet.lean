import LetLang.Proofs.Definitions
import LetLang.Proofs.Lines

/-!
# A definition means the same as a `let`

To define a name in a session and then enter a body ends like entering the `let` of both:
`definition_means_let`. The texts are put together by `Source.letText`, the trees by `Tree.ofLet`,
and `Session.definitionLine` is the line that defines the name.
-/

namespace LetLang

/-! ## The text of a `let` -/

/-- The text of a `let` made of the texts of its value and its body. -/
def Source.letText (name value body : String) : String :=
  "let " ++ name ++ " = " ++ value ++ "\n" ++ "in " ++ body

def Tree.ofLet (name : String) (value body : Tree) : Tree :=
  .letIn ⟨.ident, .text name, 0, 0⟩ value body none

theorem Tree.evaluates_ofLet_iff {name : String} {value body : Tree} {scope : Scope}
    {result : Value} :
    (ofLet name value body).Evaluates scope result ↔
      ∃ v, value.Evaluates scope v ∧ body.Evaluates (scope.bind name v) result := by
  constructor
  · intro h
    cases h with
    | letIn hvalue _ hbody => exact ⟨_, hvalue, hbody⟩
  · rintro ⟨v, hvalue, hbody⟩
    exact .letIn hvalue rfl hbody

section

variable {name value body : String} {v b : Tree}

/-- The text of a `let` is read as the `let` of the trees. -/
theorem Source.readsAs_letText (hname : TokenKind.ident.Spells name.toList)
    (hvalue : Source.read value = .ok v) (hbody : Source.read body = .ok b) :
    Source.ReadsAs (Source.letText name value body).toList (.ofLet name v b) := by
  have hlet := (Source.readsAs_of_read hvalue).letIn hname (Source.readsAs_of_read hbody)
  simpa [Source.letText, Tree.ofLet] using hlet

variable (hname : TokenKind.ident.Spells name.toList) (hvalue : Source.read value = .ok v)
  (hbody : Source.read body = .ok b) {scope : Scope} {log : Log}

include hname hvalue hbody

/-- The text is read as a tree that has the value of the `let`, or is refused for the same cause. -/
theorem Source.exists_read_letText :
    ∃ tree, Source.read (Source.letText name value body) = .ok tree ∧
      (∀ result, tree.Evaluates scope result ↔ (Tree.ofLet name v b).Evaluates scope result) ∧
      ∀ node cause line, (Tree.ofLet name v b).RefusedAt scope node ⟨cause, line⟩ →
        ∃ node' line', tree.RefusedAt scope node' ⟨cause, line'⟩ := by
  rcases (Source.readsAs_letText hname hvalue hbody).exists_read with ⟨tree, hread, hbare⟩
  have hwhole := Source.isWhole_of_read hread
  have hparts : (Tree.ofLet name v b).isWhole = true := by
    simp [Tree.ofLet, Tree.isWhole, Source.isWhole_of_read hvalue, Source.isWhole_of_read hbody]
  refine ⟨tree, hread, fun result => ⟨?_, ?_⟩, ?_⟩
  · intro h
    exact h.of_bare_eq hparts hbare
  · intro h
    exact h.of_bare_eq hwhole hbare.symm
  · intro node cause line h
    exact h.of_bare_eq hwhole hbare.symm

/-- The `let` has a value exactly if its value has one under which its body has that value. -/
theorem run_letText_eq_ok_iff {result : Value} :
    (run (Source.letText name value body) scope [] log).1 = .ok result ↔
      ∃ u, (run value scope [] log).1 = .ok u ∧
        (run body (scope.bind name u) [] log).1 = .ok result := by
  rcases Source.exists_read_letText hname hvalue hbody with ⟨tree, hread, hvalues, -⟩
  rw [run_eq_ok_iff hread, hvalues, Tree.evaluates_ofLet_iff]
  simp only [run_eq_ok_iff hvalue, run_eq_ok_iff hbody]

theorem run_letText_of_refusedAt {node : Tree} {cause : Cause} {number : Int}
    (h : (Tree.ofLet name v b).RefusedAt scope node ⟨cause, some number⟩) :
    ∃ error, (run (Source.letText name value body) scope [] log).1 = .error error ∧
      SameUpToLine (.evaluation (.runtime ⟨cause, some number⟩)) error := by
  rcases Source.exists_read_letText hname hvalue hbody with ⟨tree, hread, -, hrefusals⟩
  rcases hrefusals _ _ _ h with ⟨node', line', hrefused⟩
  rcases run_of_refusedAt hread hrefused with ⟨number', -, hrun⟩
  exact ⟨_, hrun, .runtime cause number number'⟩

/-- An error in the value is an error of the `let`. -/
theorem run_letText_of_value_error {error : RunError}
    (h : (run value scope [] log).1 = .error error) :
    ∃ error', (run (Source.letText name value body) scope [] log).1 = .error error' ∧
      SameUpToLine error error' := by
  rcases refusedAt_of_run hvalue h with ⟨node, cause, number, hrefused, rfl⟩
  exact run_letText_of_refusedAt hname hvalue hbody (.letValue hrefused)

/-- An error in the body, under the value, is an error of the `let`. -/
theorem run_letText_of_body_error {u : Value} {error : RunError}
    (hu : (run value scope [] log).1 = .ok u)
    (h : (run body (scope.bind name u) [] log).1 = .error error) :
    ∃ error', (run (Source.letText name value body) scope [] log).1 = .error error' ∧
      SameUpToLine error error' := by
  rcases refusedAt_of_run hbody h with ⟨node, cause, number, hrefused, rfl⟩
  have hevaluates : v.Evaluates scope u := (run_eq_ok_iff hvalue).1 hu
  exact run_letText_of_refusedAt hname hvalue hbody (.letBody hevaluates rfl hrefused)

end

/-! ## Blanks at the end of a line -/

theorem rdropWhile_append_of_ne_nil {p : Char → Bool} {cs : List Char} (h : cs.rdropWhile p ≠ [])
    (before : List Char) : (before ++ cs).rdropWhile p = before ++ cs.rdropWhile p := by
  have hempty : (cs.reverse.dropWhile p).isEmpty = false := by
    simpa [List.rdropWhile] using h
  simp [List.rdropWhile, List.dropWhile_append, hempty]

theorem rdropWhile_cons_of_not {p : Char → Bool} {c : Char} (hc : p c = false) (cs : List Char) :
    (c :: cs).rdropWhile p = c :: cs.rdropWhile p := by
  by_cases h : cs.rdropWhile p = []
  · have hblank := List.rdropWhile_eq_nil_iff.1 h
    have hempty : (cs.reverse.dropWhile p).isEmpty = true := by simpa using hblank
    simpa [List.rdropWhile, List.dropWhile_append, hempty, hc] using hblank
  · exact rdropWhile_append_of_ne_nil h [c]

theorem trim_eq_rdropWhile (cs : List Char) :
    trim cs = (cs.dropWhile isBlank).rdropWhile isBlank := rfl

/-- A text is trimmed behind its first character that is not blank. -/
theorem trim_append {c : Char} (hc : isBlank c = false) (before : List Char) {cs : List Char}
    (h : cs.rdropWhile isBlank ≠ []) :
    trim (c :: (before ++ cs)) = c :: (before ++ cs.rdropWhile isBlank) := by
  rw [trim_eq_rdropWhile, List.dropWhile_cons_of_neg (by simp [hc]), rdropWhile_cons_of_not hc,
    rdropWhile_append_of_ne_nil h]

namespace Source.ReadsAs

variable {cs : List Char} {t : Tree}

/-- A text that is read is not blank, and no command. -/
theorem trim_eq (h : ReadsAs cs t) : ∃ c rest, trim cs = c :: rest ∧ c ≠ '/' := by
  rcases h.front with ⟨c, rest, hfront, hc⟩
  have hblank : isBlank c = false := by
    have hstop := stopsAt_dropWhile isBlank cs
    rw [hfront] at hstop
    exact hstop c rfl
  refine ⟨c, rest.rdropWhile isBlank, ?_, hc⟩
  rw [trim_eq_rdropWhile, hfront, rdropWhile_cons_of_not hblank]

/-- Blanks at the end are layout. -/
theorem rdropWhile (h : ReadsAs cs t) : ReadsAs (cs.rdropWhile isBlank) t := by
  have hsplit : cs.rdropWhile isBlank ++ cs.rtakeWhile isBlank = cs :=
    List.rdropWhile_append_rtakeWhile
  rw [← hsplit] at h
  exact h.withoutBlanks fun c hc => List.mem_rtakeWhile_imp hc

end Source.ReadsAs

/-! ## Lines of a session -/

/-- The text has none of the characters that are dropped from a line. -/
def IsVisible (text : String) : Prop := ∀ c ∈ text.toList, isInvisible c = false

instance (text : String) : Decidable (IsVisible text) :=
  decidable_of_iff (text.toList.any isInvisible = false) (by simp [IsVisible])

theorem IsVisible.withoutInvisible_eq {text : String} (h : IsVisible text) :
    withoutInvisible text = text := by
  have hkept : text.toList.filter (!isInvisible ·) = text.toList := by
    rw [List.filter_eq_self]
    intro c hc
    simp [h c hc]
  rw [withoutInvisible, hkept, String.ofList_toList]

theorem IsVisible.append {text text' : String} (h : IsVisible text) (h' : IsVisible text') :
    IsVisible (text ++ text') := by
  intro c hc
  rw [String.toList_append] at hc
  rcases List.mem_append.1 hc with hc | hc
  · exact h c hc
  · exact h' c hc

theorem isVisible_of_spells {name : String} (h : TokenKind.ident.Spells name.toList) :
    IsVisible name := by
  have hpart {c : Char} (hc : isWordPart c = true) : isInvisible c = false := by
    have hbounds := isWordPart_bounds hc
    simp only [isInvisible, Bool.or_eq_false_iff, decide_eq_false_iff_not]
    refine ⟨⟨⟨⟨⟨?_, ?_⟩, ?_⟩, ?_⟩, ?_⟩, ?_⟩ <;> rintro rfl <;> exact absurd hbounds (by decide)
  rcases h with ⟨c, cs, htext, hc, hcs⟩
  intro d hd
  rw [htext] at hd
  rcases List.mem_cons.1 hd with rfl | hd
  · exact hpart (isWordPart_of_isWordStart hc)
  · exact hpart (hcs d hd)

def Session.definitionLine (name value : String) : String := "/def " ++ name ++ " = " ++ value

/-- A text that is read as a tree is no command. -/
theorem Entry.expression?_of_readsAs {text : String} {t : Tree} (hvisible : IsVisible text)
    (h : Source.ReadsAs text.toList t) : Entry.expression? (.line text) = some text := by
  rcases h.trim_eq with ⟨c, rest, htrim, hc⟩
  have hcommand : Command.ofLine? text = none := by
    simp only [Command.ofLine?, htrim]
    split
    next heq => exact absurd (List.cons.inj heq).1 hc
    next => rfl
  simp [Entry.expression?, hvisible.withoutInvisible_eq, htrim, hcommand]

/-- Where a name follows, no blank does. -/
theorem TokenKind.stopsAt_of_ident {name : List Char} (h : TokenKind.ident.Spells name)
    (rest : List Char) : StopsAt isBlank (name ++ rest) := by
  have hblank := TokenKind.isBlank_of_ident h
  rcases h with ⟨c, cs, rfl, -⟩
  intro d hd
  cases hd
  exact hblank c List.mem_cons_self

theorem firstWord_definitionLine {name : List Char} (hname : TokenKind.ident.Spells name)
    (rest : List Char) :
    firstWord ('/' :: (['d', 'e', 'f', ' '] ++ (name ++ rest))) =
      (['/', 'd', 'e', 'f'], name ++ rest) := by
  -- The command ends at the space, and its argument starts with the name.
  have hword : ∀ c ∈ ['/', 'd', 'e', 'f'], (!isBlank c) = true :=
    List.all_eq_true.1 (by decide)
  have hstop : StopsAt (!isBlank ·) (' ' :: (name ++ rest)) := by
    intro c hc
    cases hc
    decide
  have hblank : ∀ c ∈ [' '], isBlank c = true := List.all_eq_true.1 (by decide)
  have htake := takeWhile_append_of_stopsAt hword hstop
  have hdrop := dropWhile_append_of_stopsAt hword hstop
  have hafter := dropWhile_append_of_stopsAt hblank (TokenKind.stopsAt_of_ident hname rest)
  simp only [List.cons_append, List.nil_append] at htake hdrop hafter ⊢
  rw [firstWord, htake, hdrop, hafter]

/-- The command of the line, blanks at its end dropped. -/
theorem Command.ofLine?_definitionLine {name value : String}
    (hname : TokenKind.ident.Spells name.toList) (hvalue : value.toList.rdropWhile isBlank ≠ []) :
    Command.ofLine? (Session.definitionLine name value) =
      some (.define (name.toList ++ ([' ', '=', ' '] ++ value.toList.rdropWhile isBlank))) := by
  have hslash : isBlank '/' = false := by decide
  have hline : (Session.definitionLine name value).toList =
      '/' :: ((['d', 'e', 'f', ' '] ++ (name.toList ++ [' ', '=', ' '])) ++ value.toList) := by
    simp [Session.definitionLine]
  have hword := firstWord_definitionLine hname
    ([' ', '=', ' '] ++ value.toList.rdropWhile isBlank)
  rw [Command.ofLine?, hline, trim_append hslash _ hvalue]
  simp only [List.append_assoc, hword]
  rfl

/-- The argument of the command falls apart into the name and the text of the value. -/
theorem Definition.ofChars?_definitionLine {name value : List Char}
    (hname : TokenKind.ident.Spells name) (hvalue : value.rdropWhile isBlank ≠ []) :
    Definition.ofChars? (trim (name ++ ([' ', '=', ' '] ++ value.rdropWhile isBlank))) =
      some ⟨name, ' ' :: value.rdropWhile isBlank⟩ := by
  have htrimmed : (value.rdropWhile isBlank).rdropWhile isBlank = value.rdropWhile isBlank :=
    List.rdropWhile_idempotent _ _
  have hblank := TokenKind.isBlank_of_ident hname
  rcases hname with ⟨c, cs, rfl, hc, hcs⟩
  -- The argument starts with the name, and the blanks at its end have gone with those of the line.
  have hargument : trim (c :: cs ++ ([' ', '=', ' '] ++ value.rdropWhile isBlank)) =
      c :: (cs ++ ([' ', '=', ' '] ++ value.rdropWhile isBlank)) := by
    have htrim := trim_append (hblank c List.mem_cons_self) (cs ++ [' ', '=', ' '])
      (htrimmed ▸ hvalue)
    rw [htrimmed] at htrim
    simpa using htrim
  have hstop : StopsAt isWordPart (' ' :: '=' :: ' ' :: value.rdropWhile isBlank) := by
    intro d hd
    cases hd
    decide
  have htake := takeWhile_append_of_stopsAt hcs hstop
  have hdrop := dropWhile_append_of_stopsAt hcs hstop
  have hspace : isBlank ' ' = true := by decide
  have hequals : isBlank '=' = false := by decide
  rw [hargument]
  simp only [List.cons_append, List.nil_append] at htake hdrop ⊢
  simp [Definition.ofChars?, hc, htake, hdrop, hspace, hequals]

/-! ## Entries that end alike -/

/-- Two lines end alike: what they write ends with the same value, or with errors that differ in
their lines only. Before that stand the trees, if they are displayed. -/
inductive EndsAlike (session : Session) : Entered → Entered → Prop where
  | value (text : String) {after after' : Session} {shown shown' : List String}
      (hshown : session.showTree = false → shown = [] ∧ shown' = []) :
      EndsAlike session ⟨after, ⟨shown ++ [text], []⟩, none⟩ ⟨after', ⟨shown' ++ [text], []⟩, none⟩
  | error (cause : Cause) (line line' : Int) {after after' : Session} {shown shown' : List String}
      (hshown : session.showTree = false → shown = [] ∧ shown' = []) :
      EndsAlike session
        ⟨after, ⟨shown, session.errorLines (RuntimeError.text ⟨cause, some line⟩)⟩, none⟩
        ⟨after', ⟨shown', session.errorLines (RuntimeError.text ⟨cause, some line'⟩)⟩, none⟩

theorem execute_result (line : String) (scope : Scope) (showTree : Bool) :
    (execute line scope showTree).result = (run line scope [] .empty).1 := by
  unfold execute run
  cases Source.read line with
  | error error => rfl
  | ok tree => rfl

theorem execute_treeLines (line : String) (scope : Scope) :
    (execute line scope false).treeLines = [] := by
  unfold execute
  cases Source.read line with
  | error error => rfl
  | ok tree => rfl

namespace Session

variable (session : Session) {line : String}

theorem evaluate_of_ok {value : Value} (h : (run line session.scope [] .empty).1 = .ok value) :
    session.evaluate line =
      ⟨session, ⟨(execute line session.scope session.showTree).treeLines ++ [value.text], []⟩,
        none⟩ := by
  simp [evaluate, execute_result, h]

theorem evaluate_of_error {error : RuntimeError}
    (h : (run line session.scope [] .empty).1 = .error (.evaluation (.runtime error))) :
    session.evaluate line =
      ⟨session, ⟨(execute line session.scope session.showTree).treeLines,
        session.errorLines error.text⟩, none⟩ := by
  simp [evaluate, execute_result, h, fail, RunError.shown?]

end Session

namespace PromptLoop

variable (session : Session) {name value body : String} {v b : Tree} {u : Value}

/-- A visible text that is read as a tree is evaluated as it stands. -/
theorem enter_of_readsAs {text : String} {t : Tree} (hvisible : IsVisible text)
    (h : Source.ReadsAs text.toList t) : enter session (.line text) = session.evaluate text :=
  enter_of_expression session (Entry.expression?_of_readsAs hvisible h)

/-- Entering a definition binds the name to the value of the text. -/
theorem enter_definitionLine (hname : TokenKind.ident.Spells name.toList)
    (hvalue : Source.read value = .ok v) (hvisible : IsVisible value)
    (hu : (LetLang.run value session.scope [] .empty).1 = .ok u) :
    enter session (.line (Session.definitionLine name value)) =
      ⟨{ session with scope := session.scope.bind name u },
        ⟨[Session.bindingLine name u], []⟩, none⟩ := by
  have hreads := (Source.readsAs_of_read hvalue).rdropWhile
  have hne : value.toList.rdropWhile isBlank ≠ [] := by
    intro hempty
    rcases hreads.front with ⟨c, rest, hfront, -⟩
    rw [hempty] at hfront
    cases hfront
  have hline : IsVisible (Session.definitionLine name value) := by
    have hslash : IsVisible "/def " := by decide
    have hequals : IsVisible " = " := by decide
    exact ((hslash.append (isVisible_of_spells hname)).append hequals).append hvisible
  have hcommand : Entry.command? (.line (Session.definitionLine name value)) =
      some (.define (name.toList ++ ([' ', '=', ' '] ++ value.toList.rdropWhile isBlank))) := by
    rw [Entry.command?, hline.withoutInvisible_eq, Command.ofLine?_definitionLine hname hne]
  -- What is evaluated is the text with a space in front of it and without the blanks at its end.
  have hsource : (LetLang.run (String.ofList (' ' :: value.toList.rdropWhile isBlank))
      session.scope [] .empty).1 = .ok u := by
    have hspaced : Source.ReadsAs
        (String.ofList (' ' :: value.toList.rdropWhile isBlank)).toList v := by
      simpa using hreads.spacing (by decide)
    rcases hspaced.exists_read with ⟨tree, hread, hbare⟩
    have hevaluates := (run_eq_ok_iff hvalue).1 hu
    exact (run_eq_ok_iff hread).2
      (hevaluates.of_bare_eq (Source.isWhole_of_read hread) hbare.symm)
  rw [enter_of_command session hcommand]
  simp only [Session.carryOut, Session.define, Definition.ofChars?_definitionLine hname hne,
    hsource, String.ofList_toList]

/-- Where the name is bound to the value, the body ends like the `let`. -/
theorem endsAlike_letText (hname : TokenKind.ident.Spells name.toList)
    (hvalue : Source.read value = .ok v) (hbody : Source.read body = .ok b)
    (hvisibleValue : IsVisible value) (hvisibleBody : IsVisible body)
    (hu : (LetLang.run value session.scope [] .empty).1 = .ok u) :
    EndsAlike session (enter { session with scope := session.scope.bind name u } (.line body))
      (enter session (.line (Source.letText name value body))) := by
  have hvisible : IsVisible (Source.letText name value body) := by
    have hlet : IsVisible "let " := by decide
    have hequals : IsVisible " = " := by decide
    have hnewline : IsVisible "\n" := by decide
    have hin : IsVisible "in " := by decide
    exact (((((hlet.append (isVisible_of_spells hname)).append hequals).append
      hvisibleValue).append hnewline).append hin).append hvisibleBody
  have hshown : session.showTree = false →
      (execute body (session.scope.bind name u) session.showTree).treeLines = [] ∧
        (execute (Source.letText name value body) session.scope session.showTree).treeLines =
          [] := by
    intro hoff
    rw [hoff]
    exact ⟨execute_treeLines _ _, execute_treeLines _ _⟩
  rw [enter_of_readsAs _ hvisibleBody (Source.readsAs_of_read hbody),
    enter_of_readsAs _ hvisible (Source.readsAs_letText hname hvalue hbody)]
  cases hresult : (LetLang.run body (session.scope.bind name u) [] .empty).1 with
  | ok result =>
    have hwhole := (run_letText_eq_ok_iff hname hvalue hbody).2 ⟨u, hu, hresult⟩
    rw [Session.evaluate_of_ok { session with scope := session.scope.bind name u } hresult,
      Session.evaluate_of_ok session hwhole]
    exact .value result.text hshown
  | error error =>
    -- Both texts are read, so the errors are runtime errors, which the session shows.
    rcases run_letText_of_body_error hname hvalue hbody hu hresult with ⟨error', hwhole, hsame⟩
    cases hsame with
    | runtime cause line line' =>
      rw [Session.evaluate_of_error { session with scope := session.scope.bind name u } hresult,
        Session.evaluate_of_error session hwhole]
      exact .error cause line line' hshown

end PromptLoop

/-- A definition means the same as a `let`. The `let` has a value exactly if its value has one and
its body has one where the name is bound; otherwise it fails like the first of the two that fails,
apart from the line. In a session the definition and then the body end like the `let`. -/
theorem definition_means_let (name value body : String)
    (hname : TokenKind.ident.Spells name.toList) (hvalue : ∃ v, Source.read value = .ok v)
    (hbody : ∃ b, Source.read body = .ok b) :
    (∀ scope log,
      (∀ result, (run (Source.letText name value body) scope [] log).1 = .ok result ↔
        ∃ u, (run value scope [] log).1 = .ok u ∧
          (run body (scope.bind name u) [] log).1 = .ok result) ∧
      (∀ error, (run value scope [] log).1 = .error error →
        ∃ error', (run (Source.letText name value body) scope [] log).1 = .error error' ∧
          SameUpToLine error error') ∧
      ∀ u error, (run value scope [] log).1 = .ok u →
        (run body (scope.bind name u) [] log).1 = .error error →
        ∃ error', (run (Source.letText name value body) scope [] log).1 = .error error' ∧
          SameUpToLine error error') ∧
    (IsVisible value → IsVisible body → ∀ (session : Session) u,
      (run value session.scope [] .empty).1 = .ok u →
        (PromptLoop.enter session (.line (Session.definitionLine name value))).uncaught = none ∧
        EndsAlike session
          (PromptLoop.enter
            (PromptLoop.enter session (.line (Session.definitionLine name value))).session
            (.line body))
          (PromptLoop.enter session (.line (Source.letText name value body)))) := by
  rcases hvalue with ⟨v, hvalue⟩
  rcases hbody with ⟨b, hbody⟩
  refine ⟨fun scope log => ⟨fun result => ?_, fun error h => ?_, fun u error hu h => ?_⟩, ?_⟩
  · exact run_letText_eq_ok_iff hname hvalue hbody
  · exact run_letText_of_value_error hname hvalue hbody h
  · exact run_letText_of_body_error hname hvalue hbody hu h
  · intro hvisibleValue hvisibleBody session u hu
    rw [PromptLoop.enter_definitionLine session hname hvalue hvisibleValue hu]
    have halike := PromptLoop.endsAlike_letText session hname hvalue hbody hvisibleValue
      hvisibleBody hu
    exact ⟨rfl, halike⟩

/-- The name may be spelled like a keyword, the value may be a `let` itself and end with a comment,
and the body may fail. -/
theorem definition_means_let_zero_divisor :
    TokenKind.ident.Spells "in".toList ∧
      (∃ v, Source.read "let x = 0 in x # none " = .ok v) ∧
      (∃ b, Source.read "6 / in" = .ok b) ∧
      (∃ error,
        (run (Source.letText "in" "let x = 0 in x # none " "6 / in") .empty [] .empty).1 =
          .error error ∧
        SameUpToLine (.evaluation (.runtime ⟨.divisionByZero, some 1⟩)) error) ∧
      EndsAlike {}
        (PromptLoop.enter
          (PromptLoop.enter {}
            (.line (Session.definitionLine "in" "let x = 0 in x # none "))).session
          (.line "6 / in"))
        (PromptLoop.enter {}
          (.line (Source.letText "in" "let x = 0 in x # none " "6 / in"))) := by
  have hname : TokenKind.ident.Spells "in".toList :=
    ⟨'i', ['n'], rfl, by decide, List.all_eq_true.1 (by decide)⟩
  have hvalue : Source.read "let x = 0 in x # none " =
      .ok (.letIn ⟨.ident, .text "x", 1, 5⟩ (.int 0 (some 1))
        (.ident ⟨.ident, .text "x", 1, 14⟩ (some 1)) (some 1)) := by decide +kernel
  have hbody : Source.read "6 / in" =
      .ok (.binop (.int 6 (some 1)) (.known .div) (.ident ⟨.ident, .text "in", 1, 5⟩ (some 1))
        (some 1)) := by decide +kernel
  have hzero : (run "let x = 0 in x # none " .empty [] .empty).1 = .ok (.integer 0) := by
    decide +kernel
  have hfails : (run "6 / in" (Scope.empty.bind "in" (.integer 0)) [] .empty).1 =
      .error (.evaluation (.runtime ⟨.divisionByZero, some 1⟩)) := by decide +kernel
  rcases definition_means_let "in" "let x = 0 in x # none " "6 / in" hname ⟨_, hvalue⟩
    ⟨_, hbody⟩ with ⟨hruns, hentries⟩
  exact ⟨hname, ⟨_, hvalue⟩, ⟨_, hbody⟩, (hruns .empty .empty).2.2 _ _ hzero hfails,
    (hentries (by decide) (by decide) {} _ hzero).2⟩

end LetLang
