import LetLang.Proofs.Source.Tokenization
import LetLang.Proofs.Source.Unambiguity
import LetLang.Source

/-!
# The parser accepts the grammar

The frames of a `Progress` are read in both directions:

* `Opened`, `Progress.Covers`: what the frames and the focus say about the lexemes read so far;
  every step keeps this, so an accepted text has a derivation (`Progress.Covers.derives`);
* `Settles`: a tree on frames closes to the same as another tree on other frames; reading the
  lexemes of a derivation leaves what settles to its tree (`Derivation.completes`).
-/

namespace LetLang

open Grammar

/-! ## Frames and strength -/

/-- How strongly the innermost operation binds; `0` if the innermost frame is no operation. -/
def topStrength : List Frame → Nat
  | .operation _ _ strength _ :: _ => strength
  | _ => 0

@[simp] theorem topStrength_operation (left : Tree) (kind : TokenKind) (strength : Nat) (line : Int)
    (frames : List Frame) :
    topStrength (.operation left kind strength line :: frames) = strength := rfl

/-- A derivation of the nonterminal can start on the frames: no operation, or a weaker one, waits
for it. -/
def Grammar.Nonterminal.Fits (n : Nonterminal) (frames : List Frame) : Prop :=
  topStrength frames = 0 ∨ topStrength frames < n.strength

/-- A stronger operator leaves the frames alone. -/
theorem closeOperations_of_lt {strength : Nat} {frames : List Frame}
    (h : topStrength frames < strength) (tree : Tree) :
    closeOperations strength tree frames = (tree, frames) := by
  unfold closeOperations
  split
  next left kind own line rest =>
    have hlt : own < strength := by simpa using h
    have hnot : ¬ strength ≤ own := Nat.not_le.2 hlt
    simp [hnot]
  · rfl

theorem Lexeme.nameToken_line (lexeme : Lexeme) : lexeme.nameToken.line = lexeme.line := rfl

/-! ## What the frames say about the lexemes read -/

inductive Opened : List Frame → List Lexeme → Prop where
  | nil : Opened [] []
  | operation {frames : List Frame} {lexemes left : List Lexeme} {tree : Tree} {level : Level}
      {operator : Lexeme} (hframes : Opened frames lexemes)
      (hweaker : topStrength frames < level.strength) (hleft : Derives (.level level) left tree)
      (hoperator : precedence operator.kind = some level.strength) :
      Opened (.operation tree operator.kind level.strength operator.line :: frames)
        (lexemes ++ (left ++ [operator]))
  | parenthesis {frames : List Frame} {lexemes : List Lexeme} {lpar : Lexeme}
      (hframes : Opened frames lexemes) (hlpar : lpar.kind = .lpar) :
      Opened (.parenthesis :: frames) (lexemes ++ [lpar])
  | letValue {frames : List Frame} {lexemes : List Lexeme} {letWord name equals : Lexeme}
      (hframes : Opened frames lexemes) (htop : topStrength frames = 0)
      (hlet : letWord.kind = .letWord) (hname : name.kind = .ident)
      (hequals : equals.kind = .assign) :
      Opened (.letValue name.nameToken :: frames) (lexemes ++ [letWord, name, equals])
  | letBody {frames : List Frame} {lexemes value : List Lexeme} {tree : Tree}
      {letWord name equals inWord : Lexeme} (hframes : Opened frames lexemes)
      (htop : topStrength frames = 0) (hlet : letWord.kind = .letWord)
      (hname : name.kind = .ident) (hequals : equals.kind = .assign)
      (hvalue : Derives .expression value tree) (hin : inWord.kind = .inWord) :
      Opened (.letBody name.nameToken tree :: frames)
        (lexemes ++ letWord :: name :: equals :: (value ++ [inWord]))

/-- The lexemes are those of the frames, and behind them those of a derivation that stands for the
tree. -/
def Amounts (n : Nonterminal) (lexemes : List Lexeme) (state : Tree × List Frame) : Prop :=
  ∃ before last, lexemes = before ++ last ∧ Opened state.2 before ∧ Derives n last state.1

namespace Opened

variable {frames : List Frame} {lexemes last : List Lexeme} {tree : Tree} {n : Nonterminal}

theorem amounts (h : Opened frames lexemes) (hlast : Derives n last tree) :
    Amounts n (lexemes ++ last) (tree, frames) :=
  ⟨lexemes, last, rfl, h, hlast⟩

theorem topStrength_lt_atom (h : Opened frames lexemes) :
    topStrength frames < Nonterminal.strength .atom := by
  cases h with
  | operation => exact Level.strength_lt_atom _
  | nil | parenthesis _ _ | letValue _ _ _ _ _ | letBody _ _ _ _ _ _ _ => exact Nat.zero_lt_succ 4

/-- Closing operations leaves a derivation of the level of the operator that closes them. -/
theorem amounts_closeOperations (h : Opened frames lexemes) (level : Level)
    (hlast : Derives n last tree) (hn : level.strength ≤ n.strength)
    (hfits : topStrength frames < n.strength) :
    Amounts (.level level) (lexemes ++ last) (closeOperations level.strength tree frames) ∧
      topStrength (closeOperations level.strength tree frames).2 < level.strength := by
  induction h generalizing n last tree with
  | @operation frames lexemes left ltree own operator hframes hweaker hleft hoperator ih =>
    -- The operation on top closes, or it stays because it binds weaker than the new operator.
    by_cases hle : level.strength ≤ own.strength
    · have hwhole := hleft.operation_of_lt hoperator hlast hfits
      have hclosed := ih hwhole hle hweaker
      simpa [closeOperations, hle] using hclosed
    · have hopened := Opened.operation hframes hweaker hleft hoperator
      have hlt : own.strength < level.strength := Nat.not_le.1 hle
      rw [closeOperations_of_lt hlt]
      exact ⟨hopened.amounts (hlast.weaken hn), hlt⟩
  | nil => exact ⟨nil.amounts (hlast.weaken hn), level.strength_pos⟩
  | parenthesis hframes hlpar =>
    have hopened := Opened.parenthesis hframes hlpar
    exact ⟨hopened.amounts (hlast.weaken hn), level.strength_pos⟩
  | letValue hframes htop hlet hname hequals =>
    have hopened := Opened.letValue hframes htop hlet hname hequals
    exact ⟨hopened.amounts (hlast.weaken hn), level.strength_pos⟩
  | letBody hframes htop hlet hname hequals hvalue hin =>
    have hopened := Opened.letBody hframes htop hlet hname hequals hvalue hin
    exact ⟨hopened.amounts (hlast.weaken hn), level.strength_pos⟩

/-- Closing operations and bodies leaves an expression. -/
theorem amounts_closeBodies (h : Opened frames lexemes) (hlast : Derives n last tree)
    (hfits : n.Fits frames) :
    Amounts .expression (lexemes ++ last) (closeBodies tree frames) := by
  have hexpression : Nonterminal.strength .expression ≤ n.strength := Nat.zero_le _
  induction h generalizing n last tree with
  | @operation frames lexemes left ltree own operator hframes hweaker hleft hoperator ih =>
    have hown : own.strength < n.strength := by
      rcases hfits with hzero | hlt
      · exact absurd hzero (Nat.pos_iff_ne_zero.1 own.strength_pos)
      · exact hlt
    have hwhole := hleft.operation_of_lt hoperator hlast hown
    have hclosed := ih hwhole (.inr hweaker) (Nat.zero_le _)
    simpa [closeBodies] using hclosed
  | @letBody frames lexemes value vtree letWord name equals inWord hframes htop hlet hname hequals
      hvalue hin ih =>
    -- A closed body makes a whole `let`, which fits below because no operation lies there.
    have hwhole := Derives.letIn hlet hname hequals hin hvalue (hlast.weaken hexpression)
    have hclosed := ih hwhole (.inl htop) (Nat.zero_le _)
    simpa [closeBodies, name.nameToken_line] using hclosed
  | nil => exact nil.amounts (hlast.weaken hexpression)
  | parenthesis hframes hlpar =>
    exact (Opened.parenthesis hframes hlpar).amounts (hlast.weaken hexpression)
  | letValue hframes htop hlet hname hequals =>
    exact (Opened.letValue hframes htop hlet hname hequals).amounts (hlast.weaken hexpression)

end Opened

namespace Progress

inductive Covers : Progress → List Lexeme → Prop where
  | expression {frames : List Frame} {lexemes : List Lexeme} (hframes : Opened frames lexemes)
      (htop : topStrength frames = 0) : Covers ⟨frames, .expression⟩ lexemes
  | operand {frames : List Frame} {lexemes : List Lexeme} (hframes : Opened frames lexemes) :
      Covers ⟨frames, .operand⟩ lexemes
  | binder {frames : List Frame} {lexemes : List Lexeme} {letWord : Lexeme}
      (hframes : Opened frames lexemes) (htop : topStrength frames = 0)
      (hlet : letWord.kind = .letWord) : Covers ⟨frames, .binder⟩ (lexemes ++ [letWord])
  | equals {frames : List Frame} {lexemes : List Lexeme} {letWord name : Lexeme}
      (hframes : Opened frames lexemes) (htop : topStrength frames = 0)
      (hlet : letWord.kind = .letWord) (hname : name.kind = .ident) :
      Covers ⟨frames, .equals name.nameToken⟩ (lexemes ++ [letWord, name])
  | complete {frames : List Frame} {lexemes last : List Lexeme} {tree : Tree}
      (hframes : Opened frames lexemes) (hlast : Derives .atom last tree) :
      Covers ⟨frames, .complete tree⟩ (lexemes ++ last)

variable {progress next : Progress} {frames : List Frame} {lexemes last more : List Lexeme}
  {lexeme : Lexeme} {tree : Tree}

theorem covers_start : Covers start [] := .expression .nil rfl

/-- One step in the place of an operand keeps the invariant. -/
theorem covers_stepOperand (hframes : Opened frames lexemes)
    (h : stepOperand frames lexeme = some next) : Covers next (lexemes ++ [lexeme]) := by
  unfold stepOperand at h
  split at h
  next hlpar =>
    cases h
    exact .expression (.parenthesis hframes hlpar) rfl
  next =>
    rcases Option.map_eq_some_iff.1 h with ⟨leaf, hleaf, rfl⟩
    exact .complete hframes (.leaf hleaf)

/-- One step behind a complete tree keeps the invariant. -/
theorem covers_stepComplete (hframes : Opened frames lexemes) (hlast : Derives .atom last tree)
    (h : stepComplete frames tree lexeme = some next) :
    Covers next (lexemes ++ last ++ [lexeme]) := by
  have hstrong := hframes.topStrength_lt_atom
  have hbodies := hframes.amounts_closeBodies hlast (.inr hstrong)
  unfold stepComplete at h
  split at h
  next hrpar =>
    split at h
    next inner outer hclosed =>
      rw [hclosed] at hbodies
      cases h
      rcases hbodies with ⟨before, body, hsplit, hopened, hbody⟩
      -- The frame that is left on top says which lexeme the parenthesis was opened by.
      cases hopened with
      | @parenthesis _ below lpar houter hlpar =>
        have hatom := Derives.parenthesis hlpar hrpar hbody
        have hcovers := Covers.complete houter hatom
        simpa [hsplit] using hcovers
    · exact nomatch h
  next hin =>
    split at h
    next value name outer hclosed =>
      rw [hclosed] at hbodies
      cases h
      rcases hbodies with ⟨before, value, hsplit, hopened, hvalue⟩
      cases hopened with
      | letValue houter houtertop hlet hname hequals =>
        have hopened := Opened.letBody houter houtertop hlet hname hequals hvalue hin
        have hcovers := Covers.expression hopened rfl
        simpa [hsplit] using hcovers
    · exact nomatch h
  next =>
    split at h
    next strength hoperator =>
      cases h
      rcases Level.exists_of_precedence hoperator with ⟨level, rfl⟩
      have hclosed := hframes.amounts_closeOperations level hlast
        (Nat.le_of_lt level.strength_lt_atom) hstrong
      rcases hclosed with ⟨⟨before, left, hsplit, hopened, hleft⟩, hweaker⟩
      have hcovers := Covers.operand (.operation hopened hweaker hleft hoperator)
      simpa [hsplit] using hcovers
    · exact nomatch h

/-- One lemma for every focus: a step keeps the invariant. -/
theorem Covers.step (h : progress.Covers lexemes) (hstep : progress.step lexeme = some next) :
    next.Covers (lexemes ++ [lexeme]) := by
  cases h with
  | expression hframes htop =>
    simp only [Progress.step] at hstep
    split at hstep
    next hlet =>
      cases hstep
      exact .binder hframes htop hlet
    next => exact covers_stepOperand hframes hstep
  | operand hframes => exact covers_stepOperand hframes hstep
  | binder hframes htop hlet =>
    simp only [Progress.step] at hstep
    split at hstep
    next hname =>
      cases hstep
      have hcovers := Covers.equals hframes htop hlet hname
      simpa using hcovers
    next => exact nomatch hstep
  | equals hframes htop hlet hname =>
    simp only [Progress.step] at hstep
    split at hstep
    next hequals =>
      cases hstep
      have hopened := Opened.letValue hframes htop hlet hname hequals
      simpa using Covers.expression hopened rfl
    next => exact nomatch hstep
  | complete hframes hlast => exact covers_stepComplete hframes hlast hstep

/-- By induction on the lexemes: a run keeps the invariant. -/
theorem Covers.run (h : progress.Covers lexemes) (hrun : progress.run more = .ok next) :
    next.Covers (lexemes ++ more) := by
  induction more generalizing progress lexemes with
  | nil =>
    cases hrun
    simpa using h
  | cons lexeme more ih =>
    simp only [Progress.run] at hrun
    split at hrun
    next reached hstep =>
      have hcovers := ih (h.step hstep) hrun
      simpa using hcovers
    next => exact nomatch hrun

/-- Where the tree is complete, the lexemes read have a derivation that stands for it. -/
theorem Covers.derives (h : progress.Covers lexemes) (htree : progress.tree? = some tree) :
    Derives .expression lexemes tree := by
  cases h with
  | complete hframes hlast =>
    have hbodies := hframes.amounts_closeBodies hlast (.inr hframes.topStrength_lt_atom)
    simp only [tree?] at htree
    split at htree
    next whole hclosed =>
      rw [hclosed] at hbodies
      cases htree
      rcases hbodies with ⟨before, all, hsplit, hopened, hwhole⟩
      cases hopened
      simpa [hsplit] using hwhole
    next => exact nomatch htree
  | expression _ _ | operand _ | binder _ _ _ | equals _ _ _ _ => exact nomatch htree

end Progress

/-! ## Reading the lexemes of a derivation -/

namespace Progress

/-- A run goes on where it has got to. -/
theorem run_append {progress next : Progress} {lexemes : List Lexeme}
    (h : progress.run lexemes = .ok next) (more : List Lexeme) :
    progress.run (lexemes ++ more) = next.run more := by
  induction lexemes generalizing progress with
  | nil =>
    cases h
    rfl
  | cons lexeme lexemes ih =>
    simp only [run] at h
    split at h
    next reached hstep =>
      have hrest := ih h
      simpa [run, hstep] using hrest
    next => exact nomatch h

theorem run_cons {progress next : Progress} {lexeme : Lexeme}
    (h : progress.step lexeme = some next) (more : List Lexeme) :
    progress.run (lexeme :: more) = next.run more := by
  simp [run, h]

theorem step_operand (frames : List Frame) {focus : Focus} {lexeme : Lexeme}
    (hfocus : focus = .expression ∨ focus = .operand) (hlexeme : lexeme.kind ≠ .letWord) :
    step ⟨frames, focus⟩ lexeme = stepOperand frames lexeme := by
  rcases hfocus with rfl | rfl
  · simp [step, hlexeme]
  · rfl

/-- An operator closes what binds at least as strongly, and opens an operation. -/
theorem step_operator {frames frames' : List Frame} {tree tree' : Tree} {lexeme : Lexeme}
    {strength : Nat} (hlexeme : precedence lexeme.kind = some strength)
    (hclosed : closeOperations strength tree frames = (tree', frames')) :
    step ⟨frames, .complete tree⟩ lexeme =
      some ⟨.operation tree' lexeme.kind strength lexeme.line :: frames', .operand⟩ := by
  simp only [step, stepComplete]
  split
  next hrpar =>
    rw [hrpar] at hlexeme
    exact nomatch hlexeme
  next hin =>
    rw [hin] at hlexeme
    exact nomatch hlexeme
  next => simp [hlexeme, hclosed]

end Progress

/-- What is left on top of the frames closes to the tree: all at once, or in front of an operator
that binds at most as strongly as the nonterminal. -/
structure Settles (n : Nonterminal) (tree : Tree) (frames : List Frame) (tree' : Tree)
    (frames' : List Frame) : Prop where
  bodies : closeBodies tree' frames' = closeBodies tree frames
  operations : ∀ strength, 0 < strength → strength ≤ n.strength →
    closeOperations strength tree' frames' = closeOperations strength tree frames

theorem Settles.refl (n : Nonterminal) (tree : Tree) (frames : List Frame) :
    Settles n tree frames tree frames :=
  ⟨rfl, fun _ _ _ => rfl⟩

namespace Grammar.Derivation

def Completes {n : Nonterminal} (d : Derivation n) : Prop :=
  ∀ (frames : List Frame) (focus : Focus), n.Fits frames →
    (focus = .expression ∨ n ≠ .expression ∧ focus = .operand) →
      ∃ tree' frames', Progress.run ⟨frames, focus⟩ d.yield = .ok ⟨frames', .complete tree'⟩ ∧
        Settles n d.tree frames tree' frames'

theorem completes_leaf {lexeme : Lexeme} {tree : Tree} (isLeaf : Leaf lexeme tree) :
    (leaf lexeme tree isLeaf).Completes := by
  intro frames focus _ hfocus
  have hstep := Progress.step_operand frames (hfocus.imp_right And.right)
    (isLeaf.kind_ne (by decide))
  have hnext : Progress.stepOperand frames lexeme = some ⟨frames, .complete tree⟩ := by
    have hlpar : lexeme.kind ≠ .lpar := isLeaf.kind_ne (by decide)
    simp [Progress.stepOperand, leaf?_eq_some_iff.2 isLeaf]
  refine ⟨tree, frames, ?_, .refl _ tree frames⟩
  rw [yield, Progress.run_cons (hstep.trans hnext)]
  rfl

theorem completes_parenthesis {lpar : Terminal [.lpar]} {inner : Derivation .expression}
    {rpar : Terminal [.rpar]} (hinner : inner.Completes) :
    (parenthesis lpar inner rpar).Completes := by
  intro frames focus _ hfocus
  have hopen : Progress.step ⟨frames, focus⟩ lpar.lexeme =
      some ⟨.parenthesis :: frames, .expression⟩ := by
    rw [Progress.step_operand frames (hfocus.imp_right And.right) (by simp [lpar.kind_eq])]
    simp [Progress.stepOperand, lpar.kind_eq]
  rcases hinner (.parenthesis :: frames) .expression (.inl rfl) (.inl rfl) with
    ⟨tree', frames', hrun, hsettles⟩
  have hclosed : closeBodies tree' frames' = (inner.tree, .parenthesis :: frames) :=
    hsettles.bodies
  have hclose : Progress.step ⟨frames', .complete tree'⟩ rpar.lexeme =
      some ⟨frames, .complete inner.tree⟩ := by
    simp [Progress.step, Progress.stepComplete, rpar.kind_eq, hclosed]
  refine ⟨inner.tree, frames, ?_, .refl _ inner.tree frames⟩
  rw [yield, Progress.run_cons hopen, Progress.run_append hrun, Progress.run_cons hclose]
  rfl

theorem completes_operand {level : Level} {inner : Derivation level.operand}
    (hinner : inner.Completes) : (operand level inner).Completes := by
  intro frames focus hfits hfocus
  have hnext := level.strength_operand
  have hfits' : level.operand.Fits frames := by
    rcases hfits with hzero | hlt
    · exact .inl hzero
    · exact .inr (by simp only [Nonterminal.strength_level] at hlt; omega)
  have hfocus' := hfocus.imp_right fun h => And.intro level.operand_ne_expression h.2
  rcases hinner frames focus hfits' hfocus' with ⟨tree', frames', hrun, hsettles⟩
  refine ⟨tree', frames', hrun, hsettles.bodies, ?_⟩
  intro strength hpos hle
  have hle' : strength ≤ level.operand.strength := by
    simp only [Nonterminal.strength_level] at hle
    omega
  exact hsettles.operations strength hpos hle'

/-- The frames are weaker than the level, so the operation waits for its right operand. -/
theorem completes_operation {level : Level} {left : Derivation (.level level)}
    {operator : Terminal level.operators} {right : Derivation level.operand}
    (hleft : left.Completes) (hright : right.Completes) :
    (operation level left operator right).Completes := by
  intro frames focus hfits hfocus
  have hpos := level.strength_pos
  have hweaker : topStrength frames < level.strength := by
    rcases hfits with hzero | hlt
    · rwa [hzero]
    · exact hlt
  rcases hleft frames focus hfits hfocus with ⟨ltree, lframes, hrunleft, hsettled⟩
  -- The operator closes what the left operand left open, and nothing below it.
  have hclosed : closeOperations level.strength ltree lframes = (left.tree, frames) := by
    rw [hsettled.operations level.strength hpos (Nat.le_refl _), closeOperations_of_lt hweaker]
  have hoperator := Level.mem_operators_iff.1 operator.kind_mem
  have hstep := Progress.step_operator hoperator hclosed
  have hnext := level.strength_operand
  -- The right operand starts on the frame of its own operator.
  have hfits' : level.operand.Fits
      (.operation left.tree operator.lexeme.kind level.strength operator.lexeme.line :: frames) :=
    .inr (by simp only [topStrength_operation]; omega)
  rcases hright _ .operand hfits' (.inr ⟨level.operand_ne_expression, rfl⟩) with
    ⟨tree', frames', hrunright, hsettles⟩
  refine ⟨tree', frames', ?_, hsettles.bodies, ?_⟩
  · rw [yield, Progress.run_append hrunleft, Progress.run_cons hstep, hrunright]
  · intro strength hpos' hle
    have hle' : strength ≤ level.strength := hle
    rw [hsettles.operations strength hpos' (by omega)]
    simp [closeOperations, hle', tree]

theorem completes_operations {inner : Derivation (.level .disjunction)}
    (hinner : inner.Completes) : (operations inner).Completes := by
  intro frames focus hfits hfocus
  have hzero : topStrength frames = 0 := by
    rcases hfits with hzero | hlt
    · exact hzero
    · exact absurd hlt (Nat.not_lt_zero _)
  have hfocus' : focus = .expression := by
    rcases hfocus with h | h
    · exact h
    · exact absurd rfl h.1
  rcases hinner frames focus (.inl hzero) (.inl hfocus') with ⟨tree', frames', hrun, hsettles⟩
  refine ⟨tree', frames', hrun, hsettles.bodies, ?_⟩
  intro strength hpos hle
  exact absurd hpos (Nat.not_lt.2 hle)

theorem completes_letIn {letWord : Terminal [.letWord]} {name : Terminal [.ident]}
    {equals : Terminal [.assign]} {value : Derivation .expression} {inWord : Terminal [.inWord]}
    {body : Derivation .expression} (hvalue : value.Completes) (hbody : body.Completes) :
    (letIn letWord name equals value inWord body).Completes := by
  intro frames focus _ hfocus
  have hlet : Progress.step ⟨frames, focus⟩ letWord.lexeme = some ⟨frames, .binder⟩ := by
    rcases hfocus with rfl | h
    · simp [Progress.step, letWord.kind_eq]
    · exact absurd rfl h.1
  have hname : Progress.step ⟨frames, .binder⟩ name.lexeme =
      some ⟨frames, .equals name.lexeme.nameToken⟩ := by
    simp [Progress.step, name.kind_eq]
  have hequals : Progress.step ⟨frames, .equals name.lexeme.nameToken⟩ equals.lexeme =
      some ⟨.letValue name.lexeme.nameToken :: frames, .expression⟩ := by
    simp [Progress.step, equals.kind_eq]
  rcases hvalue (.letValue name.lexeme.nameToken :: frames) .expression (.inl rfl) (.inl rfl) with
    ⟨vtree, vframes, hrunvalue, hsettled⟩
  have hclosed : closeBodies vtree vframes =
      (value.tree, .letValue name.lexeme.nameToken :: frames) := hsettled.bodies
  have hin : Progress.step ⟨vframes, .complete vtree⟩ inWord.lexeme =
      some ⟨.letBody name.lexeme.nameToken value.tree :: frames, .expression⟩ := by
    simp [Progress.step, Progress.stepComplete, inWord.kind_eq, hclosed]
  -- Nothing closes the body here: its frame stays until the whole `let` is closed.
  rcases hbody (.letBody name.lexeme.nameToken value.tree :: frames) .expression (.inl rfl)
    (.inl rfl) with ⟨tree', frames', hrunbody, hsettles⟩
  refine ⟨tree', frames', ?_, hsettles.bodies, ?_⟩
  · rw [yield, Progress.run_cons hlet, Progress.run_cons hname, Progress.run_cons hequals,
      Progress.run_append hrunvalue, Progress.run_cons hin, hrunbody]
  · intro strength hpos hle
    exact absurd hpos (Nat.not_lt.2 hle)

/-- By induction on the derivation, one lemma for each rule. -/
theorem completes {n : Nonterminal} (d : Derivation n) : d.Completes := by
  induction d with
  | letIn letWord name equals value inWord body ihvalue ihbody =>
    exact completes_letIn ihvalue ihbody
  | operations inner ih => exact completes_operations ih
  | operand level inner ih => exact completes_operand ih
  | operation level left operator right ihleft ihright =>
    exact completes_operation ihleft ihright
  | leaf lexeme tree isLeaf => exact completes_leaf isLeaf
  | parenthesis lpar inner rpar ih => exact completes_parenthesis ih

end Grammar.Derivation

/-! ## Acceptance -/

/-- The parser accepts lexemes with a tree exactly if some derivation has them. -/
theorem Progress.accepts_iff {lexemes : List Lexeme} {tree : Tree} :
    (∃ progress, start.run lexemes = .ok progress ∧ progress.tree? = some tree) ↔
      Derives .expression lexemes tree := by
  constructor
  · rintro ⟨progress, hrun, htree⟩
    have hcovers : progress.Covers ([] ++ lexemes) := covers_start.run hrun
    exact hcovers.derives htree
  · rintro ⟨d, rfl, rfl⟩
    rcases d.completes [] .expression (.inl rfl) (.inl rfl) with ⟨tree', frames', hrun, hsettles⟩
    have hclosed : closeBodies tree' frames' = (d.tree, []) := hsettles.bodies
    exact ⟨_, hrun, by simp [tree?, hclosed]⟩

namespace Source

/-- A stream has a tree exactly if it is complete and the parser accepts its lexemes. -/
theorem parseStream_eq_ok_iff {stream : Stream} {tree : Tree} :
    parseStream stream = .ok tree ↔
      stream.ending = .complete ∧
        ∃ progress, Progress.start.run stream.lexemes = .ok progress ∧
          progress.tree? = some tree := by
  unfold parseStream
  cases Progress.start.run stream.lexemes with
  | error lexeme => simp
  | ok progress =>
    cases stream.ending with
    | unexpected lexeme | stray c position => simp
    | complete => cases htree : progress.tree? <;> simp [htree]

/-- A source text has a tree exactly if its tokenization has a derivation that stands for it. -/
theorem parse_eq_ok_iff {source : String} {tree : Tree} :
    parse source = .ok tree ↔
      ∃ d : Derivation .expression, Tokenized source d.yield ∧ d.tree = tree := by
  rw [parse, parseStream_eq_ok_iff, Progress.accepts_iff]
  constructor
  · rintro ⟨hending, d, hyield, htree⟩
    have htokens := tokenizes_of_complete _ _ _ hending
    refine ⟨d, ?_, htree⟩
    rw [hyield]
    exact htokens
  · rintro ⟨d, htokens, htree⟩
    have hstream : Stream.ofSource source = ⟨d.yield, .complete⟩ := htokens.ofChars_eq
    exact ⟨by rw [hstream], d, by rw [hstream], htree⟩

/-- A text is tokenized in one way. -/
theorem Tokenized.unique {source : String} {lexemes lexemes' : List Lexeme}
    (h : Tokenized source lexemes) (h' : Tokenized source lexemes') : lexemes = lexemes' := by
  have hstream := h.ofChars_eq
  rw [h'.ofChars_eq] at hstream
  exact (congrArg Stream.lexemes hstream).symm

/-- The parser accepts exactly the grammar. A text has a tree exactly if its tokenization has a
derivation that stands for it; tokenization and derivation are unique. An operator right before a
part of a derivation binds weaker than the part, and one right behind it at most as strongly, so
stronger operators group first and equal ones to the left. Around a whole expression, such as a
`let`, no operator stands at all. -/
theorem parse_exactly_grammar (source : String) :
    (∀ tree, parse source = .ok tree ↔
        ∃ d : Derivation .expression, Tokenized source d.yield ∧ d.tree = tree) ∧
      (∀ lexemes lexemes', Tokenized source lexemes → Tokenized source lexemes' →
        lexemes = lexemes') ∧
      (∀ d d' : Derivation .expression, d.yield = d'.yield → d = d') ∧
      (∀ (d : Derivation .expression) (n : Nonterminal) (part : Derivation n)
        (before after : List Lexeme), part.Occurs d before after →
          d.yield = before ++ (part.yield ++ after) ∧
            (∀ lexeme ∈ before.getLast?, Derivation.Opens lexeme n) ∧
            ∀ lexeme ∈ after.head?, Derivation.Closes lexeme n) ∧
      ∀ (d part : Derivation .expression) (before after : List Lexeme),
        part.Occurs d before after →
          (∀ lexeme ∈ before.getLast?, lexeme.kind ∈ [.lpar, .assign, .inWord]) ∧
            ∀ lexeme ∈ after.head?, lexeme.kind ∈ [.rpar, .inWord] := by
  refine ⟨fun tree => parse_eq_ok_iff, fun _ _ h h' => h.unique h', fun d d' h => ?_, ?_, ?_⟩
  · exact Derivation.yield_injective h
  · intro d n part before after hoccurs
    exact ⟨hoccurs.yield_eq, hoccurs.before_opens.1, hoccurs.after_closes.1⟩
  · intro d part before after hoccurs
    constructor
    · intro lexeme hlexeme
      exact (hoccurs.before_opens.1 lexeme hlexeme).of_expression
    · intro lexeme hlexeme
      exact (hoccurs.after_closes.1 lexeme hlexeme).of_expression

-- Where an operator is due, `or` is taken for one even in front of a letter.
example : (parse "1orx").isOk = true := by decide +kernel

end Source

end LetLang
