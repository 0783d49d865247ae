import Mathlib.Data.List.DropRight
import Mathlib.Data.List.Induction
import LetLang.Proofs.Endings
import LetLang.Session.PromptLoop

/-!
# The definitions of a session

An entry is a command, a source text, or blank. It changes the scope only by a reset or by what it
defines, so the scope at any point follows from the definitions since the last reset, and
expressions can be left out of a session without a trace. Marks say which ones are left out.
-/

namespace LetLang

/-! ## Kinds of entries -/

namespace Entry

def command? : Entry → Option Command
  | .line text => Command.ofLine? (withoutInvisible text)
  | .interrupt => none

def isReset (entry : Entry) : Bool := entry.command? = some .reset

def togglesTree (entry : Entry) : Bool := entry.command? = some .toggleTree

/-- The name and the value that a definition binds if it succeeds in the scope. -/
def definition? (entry : Entry) (scope : Scope) : Option (String × Value) :=
  match entry.command? with
  | some (.define argument) =>
      match Definition.ofChars? (trim argument) with
      | some definition =>
          match (run (String.ofList definition.source) scope [] .empty).1 with
          | .ok value => some (String.ofList definition.name, value)
          | .error _ => none
      | none => none
  | _ => none

/-- The source text that a line is which is neither blank nor a command. -/
def expression? : Entry → Option String
  | .line text =>
      let line := withoutInvisible text
      if (trim line.toList).isEmpty || (Command.ofLine? line).isSome then none else some line
  | .interrupt => none

end Entry

/-! ## One entry -/

namespace Session

variable (session : Session)

@[simp] theorem session_fail (written : List String) (error : RunError) :
    (session.fail written error).session = session := by
  unfold fail
  split
  · rfl
  · rfl

/-- A failure ends the program unless its error is shown. -/
theorem uncaught_fail_eq_none_iff (written : List String) (error : RunError) :
    (session.fail written error).uncaught = none ↔ error.shown?.isSome := by
  unfold fail
  split
  · next h => simp [h]
  · next h => simp [h]

@[simp] theorem session_evaluate (line : String) : (session.evaluate line).session = session := by
  simp only [evaluate]
  split
  · rfl
  · exact session.session_fail _ _

/-- A run of a tree that was read has a value or a runtime error, which is shown. -/
theorem uncaught_evaluate_eq_none_iff (line : String) :
    (session.evaluate line).uncaught = none ↔ ¬ Source.IsOversized line := by
  -- The text is rejected, or it has an oversized literal, or there is a tree to evaluate.
  rcases Source.read_cases line with
    ⟨hrejected, rejection, hread⟩ | ⟨hlong, digits, hread⟩ | ⟨-, hshort, tree, hread, htree⟩
  · have hnot : ¬ Source.IsOversized line := fun h => hrejected (h.imp fun d h => h.1)
    simp [evaluate, execute, hread, uncaught_fail_eq_none_iff, RunError.shown?, hnot]
  · simp [evaluate, execute, hread, uncaught_fail_eq_none_iff, RunError.shown?, hlong]
  · have hsupported : tree.IsSupported := htree.imp fun node h => h.1
    rcases tree.evaluates_or_refusedAt hsupported.isWhole session.scope with
      ⟨value, h⟩ | ⟨node, error, h⟩
    · simp [evaluate, execute, hread, runTree_of_evaluates h, hshort]
    · simp [evaluate, execute, hread, runTree_of_refusedAt h, uncaught_fail_eq_none_iff,
        RunError.shown?, hshort]

@[simp] theorem session_listBindings : session.listBindings.session = session := by
  unfold listBindings
  split
  · rfl
  · rfl

end Session

namespace PromptLoop

variable (session : Session) {entry : Entry}

/-- A command is carried out. -/
theorem enter_of_command {command : Command} (h : entry.command? = some command) :
    enter session entry = session.carryOut command := by
  cases entry with
  | interrupt => cases h
  | line text =>
    -- A blank line has no slash, so it is no command.
    have hblank : (trim (withoutInvisible text).toList).isEmpty = false := by
      by_cases he : (trim (withoutInvisible text).toList).isEmpty
      · simp [Entry.command?, Command.ofLine?, List.isEmpty_iff.1 he] at h
      · simpa using he
    simp only [Entry.command?] at h
    simp [enter, hblank, Session.enter, h]

/-- A line that is neither blank nor a command is evaluated. -/
theorem enter_of_expression {text : String} (h : entry.expression? = some text) :
    enter session entry = session.evaluate text := by
  cases entry with
  | interrupt => cases h
  | line line =>
    simp only [Entry.expression?] at h
    split at h
    · cases h
    · next hplain =>
      cases h
      simp only [Bool.or_eq_true, not_or, Bool.not_eq_true, Option.isSome_eq_false_iff,
        Option.isNone_iff_eq_none] at hplain
      simp [enter, hplain.1, Session.enter, hplain.2]

/-- What is no command changes nothing. -/
theorem session_enter_of_no_command (h : entry.command? = none) :
    (enter session entry).session = session := by
  cases entry with
  | interrupt => rfl
  | line text =>
    simp only [Entry.command?] at h
    simp only [enter, Session.enter, h]
    split
    · rfl
    · exact session.session_evaluate _

/-- What an entry does to a session: a reset empties the scope, a definition that succeeds extends
it, and one command switches the display of trees. -/
theorem session_enter (entry : Entry) :
    ∃ traces, (enter session entry).session =
      ⟨if entry.isReset then .empty
        else session.scope.bindAll (entry.definition? session.scope).toList,
        session.showTree ^^ entry.togglesTree, traces⟩ := by
  cases hcommand : entry.command? with
  | none =>
    refine ⟨session.traces, ?_⟩
    rw [session_enter_of_no_command session hcommand]
    simp [Entry.isReset, Entry.togglesTree, Entry.definition?, hcommand, Scope.bindAll]
  | some command =>
    rw [enter_of_command session hcommand]
    simp only [Entry.isReset, Entry.togglesTree, Entry.definition?, hcommand]
    cases command with
    | clear | unknown name | reset | toggleTree | listBindings =>
      exact ⟨session.traces, by simp [Session.carryOut, Scope.bindAll]⟩
    | trace argument =>
      cases htraces : Session.traceAfter? session.traces argument with
      | none =>
        exact ⟨session.traces, by simp [Session.carryOut, Session.setTrace, htraces, Scope.bindAll]⟩
      | some traces =>
        exact ⟨traces, by simp [Session.carryOut, Session.setTrace, htraces, Scope.bindAll]⟩
    | define argument =>
      -- A usage error and a source that fails leave the scope; a value extends it.
      refine ⟨session.traces, ?_⟩
      cases hdefinition : Definition.ofChars? (trim argument) with
      | none => simp [Session.carryOut, Session.define, hdefinition, Scope.bindAll]
      | some definition =>
        cases hrun : (LetLang.run (String.ofList definition.source) session.scope [] .empty).1 with
        | ok value => simp [Session.carryOut, Session.define, hdefinition, hrun, Scope.bindAll]
        | error error =>
          simp [Session.carryOut, Session.define, hdefinition, hrun, Scope.bindAll]

theorem enter_scope (entry : Entry) :
    (enter session entry).session.scope =
      if entry.isReset then .empty
      else session.scope.bindAll (entry.definition? session.scope).toList := by
  rcases session_enter session entry with ⟨traces, hsession⟩
  rw [hsession]

theorem enter_showTree (entry : Entry) :
    (enter session entry).session.showTree = (session.showTree ^^ entry.togglesTree) := by
  rcases session_enter session entry with ⟨traces, hsession⟩
  rw [hsession]

/-! ## Sessions in parts -/

/-- What was written in answer to each entry, as far as the run came. -/
def Run.replies (run : Run) : List Transcript :=
  run.beforePrompts.drop 1 ++ if run.uncaught.isSome then [run.last] else []

/-- Two runs, the second of which goes on from the end of the first. -/
def Run.followedBy (run next : Run) : Run :=
  { next with beforePrompts := run.beforePrompts ++ next.beforePrompts.drop 1 }

section Loop

variable {session} {written : Transcript} {entries : List Entry}

/-- One step of the loop: the next prompt comes after what the entry wrote. -/
theorem loop_cons_of_caught (h : (enter session entry).uncaught = none) :
    loop session written (entry :: entries) =
      { loop (enter session entry).session (enter session entry).transcript entries with
        beforePrompts := written ::
          (loop (enter session entry).session (enter session entry).transcript
            entries).beforePrompts } := by
  simp only [loop, h]

/-- One step of the loop: an error that nothing catches ends it. -/
theorem loop_cons_of_uncaught {error : RunError}
    (h : (enter session entry).uncaught = some error) :
    loop session written (entry :: entries) =
      ⟨[written], (enter session entry).transcript, (enter session entry).session, some error⟩ := by
  simp only [loop, h]

/-- What was written before a session goes on stands before its first prompt, and matters for
nothing else. -/
theorem loop_written (session : Session) (written written' : Transcript) (entries : List Entry) :
    loop session written entries =
      { loop session written' entries with
        beforePrompts := written :: (loop session written' entries).beforePrompts.drop 1 } := by
  cases entries with
  | nil => rfl
  | cons entry entries =>
    cases h : (enter session entry).uncaught with
    | none => simp [loop_cons_of_caught h]
    | some error => simp [loop_cons_of_uncaught h]

/-- A run that was not ended goes on from its last session. -/
theorem loop_append {before : List Entry} (h : (loop session written before).uncaught = none)
    (after : List Entry) :
    loop session written (before ++ after) =
      (loop session written before).followedBy
        (loop (loop session written before).session .empty after) := by
  -- Each entry leaves another session, and its answer stands before the next prompt.
  induction before generalizing session written with
  | nil => exact loop_written session written .empty after
  | cons entry before ih =>
    cases hentry : (enter session entry).uncaught with
    | some error =>
      rw [loop_cons_of_uncaught hentry] at h
      cases h
    | none =>
      rw [loop_cons_of_caught hentry] at h ⊢
      rw [List.cons_append, loop_cons_of_caught hentry, ih h]
      rfl

theorem session_loop_singleton (session : Session) (written : Transcript) (entry : Entry) :
    (loop session written [entry]).session = (enter session entry).session := by
  cases h : (enter session entry).uncaught with
  | none =>
    rw [loop_cons_of_caught h]
    rfl
  | some error => rw [loop_cons_of_uncaught h]

/-- The answer to the first entry, and then those to the others. -/
theorem replies_loop_of_caught (h : (enter session entry).uncaught = none) :
    (loop session written (entry :: entries)).replies =
      (enter session entry).transcript ::
        (loop (enter session entry).session (enter session entry).transcript entries).replies := by
  rw [loop_cons_of_caught h,
    loop_written _ (enter session entry).transcript (enter session entry).transcript entries]
  rfl

end Loop

/-! ## The scope at any point -/

/-- The entries behind the last reset. -/
def sinceReset (entries : List Entry) : List Entry := entries.rtakeWhile (!·.isReset)

/-- What the entries define one after the other, each in the scope of the ones before it. -/
def definitions (entries : List Entry) : Bindings :=
  entries.foldl
    (fun bindings entry => bindings ++ (entry.definition? (.ofBindings bindings)).toList) []

/-- A reset forgets the entries before it; any other entry is added to them. -/
theorem sinceReset_append_singleton (entries : List Entry) (entry : Entry) :
    sinceReset (entries ++ [entry]) =
      if entry.isReset then [] else sinceReset entries ++ [entry] := by
  rw [sinceReset, List.rtakeWhile_concat]
  cases entry.isReset with
  | true => rfl
  | false => rfl

/-- One more entry defines in the scope of those before it. -/
theorem definitions_append_singleton (entries : List Entry) (entry : Entry) :
    definitions (entries ++ [entry]) =
      definitions entries ++ (entry.definition? (.ofBindings (definitions entries))).toList := by
  simp [definitions]

/-- A run that nothing ended was not ended on the way. -/
theorem uncaught_of_append {session : Session} {written : Transcript} {before after : List Entry}
    (h : (loop session written (before ++ after)).uncaught = none) :
    (loop session written before).uncaught = none := by
  induction before generalizing session written with
  | nil => rfl
  | cons entry before ih =>
    cases hentry : (enter session entry).uncaught with
    | none =>
      rw [List.cons_append, loop_cons_of_caught hentry] at h
      rw [loop_cons_of_caught hentry]
      exact ih h
    | some error =>
      rw [List.cons_append, loop_cons_of_uncaught hentry] at h
      cases h

/-- The session behind one more entry. -/
theorem session_run_append_singleton {traces : Bool} {entries : List Entry}
    (h : (run traces entries).uncaught = none) (entry : Entry) :
    (run traces (entries ++ [entry])).session =
      (enter (run traces entries).session entry).session := by
  rw [run, loop_append h [entry]]
  exact session_loop_singleton _ _ entry

/-- By induction on the entries: the scope is that of the definitions since the last reset. -/
theorem scope_run (traces : Bool) (entries : List Entry)
    (h : (run traces entries).uncaught = none) :
    (run traces entries).session.scope = .ofBindings (definitions (sinceReset entries)) := by
  -- From the back: the last entry is a reset, or it acts on what the ones before it have left.
  induction entries using List.reverseRec with
  | nil => rfl
  | append_singleton entries entry ih =>
    have hbefore : (run traces entries).uncaught = none := uncaught_of_append h
    rw [session_run_append_singleton hbefore, enter_scope, sinceReset_append_singleton]
    cases entry.isReset with
    | true => rfl
    | false =>
      -- The new definition succeeds in the scope that the earlier ones have made.
      simp only [Bool.false_eq_true, if_false]
      rw [ih hbefore, definitions_append_singleton]
      simp [Scope.ofBindings, Scope.bindAll]

/-- By induction on the entries: trees are displayed after an odd number of toggles. -/
theorem showTree_run (traces : Bool) (entries : List Entry)
    (h : (run traces entries).uncaught = none) :
    (run traces entries).session.showTree = decide (entries.countP Entry.togglesTree % 2 = 1) := by
  induction entries using List.reverseRec with
  | nil => rfl
  | append_singleton entries entry ih =>
    have hbefore : (run traces entries).uncaught = none := uncaught_of_append h
    rw [session_run_append_singleton hbefore, enter_showTree, ih hbefore, List.countP_append]
    -- Only a toggle changes the parity.
    rcases Nat.mod_two_eq_zero_or_one (entries.countP Entry.togglesTree) with heven | hodd
    · cases hentry : entry.togglesTree with
      | true => simp [hentry, Nat.add_mod, heven]
      | false => simp [hentry, heven]
    · cases hentry : entry.togglesTree with
      | true => simp [hentry, Nat.add_mod, hodd]
      | false => simp [hentry, hodd]

/-! ## Leaving out expressions -/

/-- An expression that has no literal which ends the program. -/
def IsIdle (entry : Entry) : Prop :=
  ∃ text, entry.expression? = some text ∧ ¬ Source.IsOversized text

/-- An idle entry leaves the session as it is, and does not end it. -/
theorem enter_of_isIdle (session : Session) (h : IsIdle entry) :
    (enter session entry).session = session ∧ (enter session entry).uncaught = none := by
  rcases h with ⟨text, hexpression, hshort⟩
  rw [enter_of_expression session hexpression]
  exact ⟨session.session_evaluate text, (session.uncaught_evaluate_eq_none_iff text).2 hshort⟩

def unmarked (marked : List (Entry × Bool)) : List Entry :=
  (marked.filter (!·.2)).map (·.1)

def unmarkedReplies (replies : List Transcript) (marked : List (Entry × Bool)) : List Transcript :=
  ((replies.zip marked).filter (!·.2.2)).map (·.1)

/-- Two runs agree apart from the answers to marked entries. -/
structure SameUnmarked (marked : List (Entry × Bool)) (kept whole : Run) : Prop where
  replies : kept.replies = unmarkedReplies whole.replies marked
  last : kept.last = whole.last
  session : kept.session = whole.session
  uncaught : kept.uncaught = whole.uncaught

/-- One step: a marked entry is left out. -/
theorem SameUnmarked.skip {session : Session} {entry : Entry} (h : IsIdle entry)
    {marked : List (Entry × Bool)} {kept : Run} {entries : List Entry}
    (hrest : SameUnmarked marked kept (loop session (enter session entry).transcript entries))
    (written : Transcript) :
    SameUnmarked ((entry, true) :: marked) kept (loop session written (entry :: entries)) := by
  rcases enter_of_isIdle session h with ⟨hsession, hcaught⟩
  have hreplies : (loop session written (entry :: entries)).replies =
      (enter session entry).transcript ::
        (loop session (enter session entry).transcript entries).replies := by
    rw [replies_loop_of_caught hcaught, hsession]
  rw [loop_cons_of_caught hcaught, hsession] at hreplies ⊢
  exact ⟨by rw [hreplies]; exact hrest.replies, hrest.last, hrest.session, hrest.uncaught⟩

/-- One step: an entry that is not marked is answered alike by both runs. -/
theorem SameUnmarked.keep {session : Session} {entry : Entry}
    {marked : List (Entry × Bool)} {entries kept : List Entry} (written written' : Transcript)
    (hrest : SameUnmarked marked
      (loop (enter session entry).session (enter session entry).transcript kept)
      (loop (enter session entry).session (enter session entry).transcript entries)) :
    SameUnmarked ((entry, false) :: marked) (loop session written (entry :: kept))
      (loop session written' (entry :: entries)) := by
  cases hentry : (enter session entry).uncaught with
  | none =>
    have hkept : (loop session written (entry :: kept)).replies = _ :=
      replies_loop_of_caught hentry
    have hwhole : (loop session written' (entry :: entries)).replies = _ :=
      replies_loop_of_caught hentry
    have hreplies : (loop session written (entry :: kept)).replies =
        unmarkedReplies (loop session written' (entry :: entries)).replies
          ((entry, false) :: marked) := by
      rw [hkept, hwhole, hrest.replies]
      rfl
    rw [loop_cons_of_caught hentry, loop_cons_of_caught hentry] at hreplies ⊢
    exact ⟨hreplies, hrest.last, hrest.session, hrest.uncaught⟩
  | some error =>
    rw [loop_cons_of_uncaught hentry, loop_cons_of_uncaught hentry]
    exact ⟨rfl, rfl, rfl, rfl⟩

/-- By induction on the entries, from any session. -/
theorem loop_unmarked (session : Session) (written written' : Transcript)
    (marked : List (Entry × Bool)) (h : ∀ entry, (entry, true) ∈ marked → IsIdle entry) :
    SameUnmarked marked (loop session written (unmarked marked))
      (loop session written' (marked.map (·.1))) := by
  -- What stands since the last prompt varies apart: the answer to a marked entry stands in one run
  -- only. It goes before the first prompt, so no later answer depends on it.
  induction marked generalizing session written written' with
  | nil => exact ⟨rfl, rfl, rfl, rfl⟩
  | cons pair marked ih =>
    have hmarked : ∀ entry, (entry, true) ∈ marked → IsIdle entry :=
      fun entry hentry => h entry (List.mem_cons_of_mem pair hentry)
    obtain ⟨entry, mark⟩ := pair
    cases mark with
    | true =>
      -- The session is the same behind the entry, so the rest of both runs is.
      have hidle := h entry List.mem_cons_self
      exact (ih session written (enter session entry).transcript hmarked).skip hidle written'
    | false =>
      exact .keep written written' (ih (enter session entry).session _ _ hmarked)

/-! ## Whole sessions -/

/-- At every point of a session its scope is what the definitions since the last reset have made,
and the display of trees is on after an odd number of toggles. Apart from resets and definitions
that succeed, no entry changes the scope. An expression changes nothing at all, so that the answers
to the other entries are the same without it. -/
theorem session_holds_definitions :
    (∀ traces entries, (run traces entries).uncaught = none →
      (run traces entries).session.scope = .ofBindings (definitions (sinceReset entries)) ∧
        (run traces entries).session.showTree =
          decide (entries.countP Entry.togglesTree % 2 = 1)) ∧
      (∀ traces before after, (run traces before).uncaught = none →
        run traces (before ++ after) =
          (run traces before).followedBy (loop (run traces before).session .empty after)) ∧
      (∀ session entry, entry.isReset = false → entry.definition? session.scope = none →
        (enter session entry).session.scope = session.scope) ∧
      (∀ session entry text, entry.expression? = some text →
        (enter session entry).session = session ∧
          ((enter session entry).uncaught = none ↔ ¬ Source.IsOversized text)) ∧
      ∀ traces marked, (∀ entry, (entry, true) ∈ marked → IsIdle entry) →
        SameUnmarked marked (run traces (unmarked marked)) (run traces (marked.map (·.1))) := by
  refine ⟨?_, ?_, ?_, ?_, ?_⟩
  · intro traces entries h
    exact ⟨scope_run traces entries h, showTree_run traces entries h⟩
  · intro traces before after h
    exact loop_append h after
  · intro session entry hreset hdefinition
    rw [enter_scope, hreset, hdefinition]
    rfl
  · intro session entry text h
    rw [enter_of_expression session h]
    exact ⟨session.session_evaluate text, session.uncaught_evaluate_eq_none_iff text⟩
  · intro traces marked h
    exact loop_unmarked _ _ _ marked h

-- A reset forgets what was defined before it, and a definition that fails defines nothing.
example :
    definitions (sinceReset [.line "/def a = 1", .line "/reset", .line "/def x = 2", .line "x * a",
      .line "/def y = a", .line "/def x = x + 1"]) =
      [("x", .integer 2), ("x", .integer 3)] := by
  decide +kernel

end PromptLoop

end LetLang
