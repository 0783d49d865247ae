import LetLang.Proofs.Source.Grammar

/-!
# The grammar is unambiguous

Two derivations of one nonterminal that derive the same lexemes are the same. The statement that
goes through by induction lets each of them be followed by more lexemes, as long as these cannot
extend it (`Nonterminal.StoppedBy`). A level is unrolled into its first operand and the operators
and operands behind it (`Derivation.chain`), because the rules recurse to the left while lexemes
are compared from the left.

The same notions say how operators group: `Occurs.before_opens`, `Occurs.after_closes`.
-/

namespace LetLang

namespace Grammar

/-- What follows cannot extend a derivation of the nonterminal: it starts with no operator, or with
one that binds weaker. -/
def Nonterminal.StoppedBy (n : Nonterminal) (rest : List Lexeme) : Prop :=
  ∀ lexeme ∈ rest.head?, ∀ strength, precedence lexeme.kind = some strength → strength < n.strength

namespace Nonterminal

/-- What stops a weaker nonterminal stops a stronger one. -/
theorem StoppedBy.mono {m n : Nonterminal} {rest : List Lexeme} (h : m.StoppedBy rest)
    (hle : m.strength ≤ n.strength) : n.StoppedBy rest := by
  intro lexeme hlexeme strength hstrength
  exact Nat.lt_of_lt_of_le (h lexeme hlexeme strength hstrength) hle

theorem stoppedBy_nil (n : Nonterminal) : n.StoppedBy [] := by
  intro lexeme hlexeme
  exact nomatch hlexeme

/-- The operator behind an operand cannot extend it. -/
theorem stoppedBy_operator {level : Level} (operator : Terminal level.operators)
    (rest : List Lexeme) : level.operand.StoppedBy (operator.lexeme :: rest) := by
  intro first hfirst strength hstrength
  cases hfirst
  have hown := Level.mem_operators_iff.1 operator.kind_mem
  rw [hown] at hstrength
  cases hstrength
  have hnext := level.strength_operand
  omega

end Nonterminal

theorem Terminal.kind_eq {kind : TokenKind} (terminal : Terminal [kind]) :
    terminal.lexeme.kind = kind := by
  simpa using terminal.kind_mem

/-- What is no operator stops every derivation. -/
theorem Terminal.stops {kind : TokenKind} (terminal : Terminal [kind])
    (hkind : precedence kind = none) (n : Nonterminal) (rest : List Lexeme) :
    n.StoppedBy (terminal.lexeme :: rest) := by
  intro first hfirst strength hstrength
  cases hfirst
  rw [terminal.kind_eq, hkind] at hstrength
  exact nomatch hstrength

namespace Leaf

variable {lexeme : Lexeme} {tree tree' : Tree}

theorem unique (h : Leaf lexeme tree) (h' : Leaf lexeme tree') : tree = tree' := by
  have hsome := leaf?_eq_some_iff.2 h
  rw [leaf?_eq_some_iff.2 h'] at hsome
  exact (Option.some.inj hsome).symm

theorem kind_ne (h : Leaf lexeme tree) {kind : TokenKind}
    (hkind : kind ∉ [.int, .double, .trueWord, .falseWord, .ident]) : lexeme.kind ≠ kind := by
  rintro rfl
  cases h with
  | int h | double h | true h | false h | ident h => simp [h] at hkind

end Leaf

namespace Derivation

/-! ## Chains -/

abbrev Link (level : Level) := Terminal level.operators × Derivation level.operand

def extend {level : Level} (d : Derivation (.level level)) (links : List (Link level)) :
    Derivation (.level level) :=
  links.foldl (fun left link => .operation level left link.1 link.2) d

/-- A first operand, and the operators and operands behind it. -/
def chain {level : Level} (first : Derivation level.operand) (links : List (Link level)) :
    Derivation (.level level) :=
  (operand level first).extend links

def linksYield {level : Level} (links : List (Link level)) : List Lexeme :=
  links.flatMap fun link => link.1.lexeme :: link.2.yield

theorem yield_extend {level : Level} (d : Derivation (.level level)) (links : List (Link level)) :
    (d.extend links).yield = d.yield ++ linksYield links := by
  induction links generalizing d with
  | nil => simp [extend, linksYield]
  | cons link links ih =>
    have hrest := ih (.operation level d link.1 link.2)
    simpa [extend, linksYield, yield] using hrest

/-- The lexemes of a chain are those of its parts in order. -/
theorem yield_chain {level : Level} (first : Derivation level.operand)
    (links : List (Link level)) : (chain first links).yield = first.yield ++ linksYield links :=
  yield_extend (operand level first) links

/-- Every derivation of a level is a chain. -/
theorem exists_chain {level : Level} :
    (d : Derivation (.level level)) → ∃ first links, d = chain first links
  | .operand _ first => ⟨first, [], rfl⟩
  | .operation _ left operator right => by
    rcases exists_chain left with ⟨first, links, rfl⟩
    refine ⟨first, links ++ [(operator, right)], ?_⟩
    simp [chain, extend]

/-! ## Unique reading -/

/-- The derivation is the only one of its nonterminal at the front of what it starts. -/
def Unique {n : Nonterminal} (d : Derivation n) : Prop :=
  ∀ (d' : Derivation n) (rest rest' : List Lexeme), n.StoppedBy rest → n.StoppedBy rest' →
    d.yield ++ rest = d'.yield ++ rest' → d = d' ∧ rest = rest'

theorem stoppedBy_links {level : Level} (links : List (Link level)) {rest : List Lexeme}
    (h : Nonterminal.StoppedBy (.level level) rest) :
    level.operand.StoppedBy (linksYield links ++ rest) := by
  cases links with
  | nil =>
    have hnext := level.strength_operand
    exact h.mono (by simp only [Nonterminal.strength_level]; omega)
  | cons link links => exact Nonterminal.stoppedBy_operator link.1 _

/-- A level stops before an operator of the level. -/
theorem not_stoppedBy_operator {level : Level} (operator : Terminal level.operators)
    {rest : List Lexeme} : ¬ Nonterminal.StoppedBy (.level level) (operator.lexeme :: rest) := by
  intro h
  have hlt := h operator.lexeme rfl _ (Level.mem_operators_iff.1 operator.kind_mem)
  exact Nat.lt_irrefl _ hlt

/-- Chains with the same lexemes have the same operands and operators. -/
theorem chain_unique {level : Level} {first first' : Derivation level.operand}
    {links links' : List (Link level)} {rest rest' : List Lexeme} (hfirst : first.Unique)
    (hlinks : ∀ link ∈ links, link.2.Unique)
    (hrest : Nonterminal.StoppedBy (.level level) rest)
    (hrest' : Nonterminal.StoppedBy (.level level) rest')
    (h : first.yield ++ (linksYield links ++ rest) = first'.yield ++ (linksYield links' ++ rest')) :
    first = first' ∧ links = links' ∧ rest = rest' := by
  -- Both chains are followed from the left; neither can stop where the other has an operator.
  induction links generalizing first first' links' with
  | nil =>
    rcases hfirst first' _ _ (stoppedBy_links [] hrest) (stoppedBy_links links' hrest') h with
      ⟨rfl, htail⟩
    cases links' with
    | nil => exact ⟨rfl, rfl, htail⟩
    | cons link' links' =>
      have hoperator : rest = link'.1.lexeme :: (link'.2.yield ++ linksYield links' ++ rest') := by
        simpa [linksYield] using htail
      -- The other chain goes on with an operator of the level, which is no stop.
      rw [hoperator] at hrest
      exact absurd hrest (not_stoppedBy_operator link'.1)
  | cons link links ih =>
    rcases hfirst first' _ _ (stoppedBy_links (link :: links) hrest)
      (stoppedBy_links links' hrest') h with ⟨rfl, htail⟩
    cases links' with
    | nil =>
      have hoperator : link.1.lexeme :: (link.2.yield ++ linksYield links ++ rest) = rest' := by
        simpa [linksYield] using htail
      rw [← hoperator] at hrest'
      exact absurd hrest' (not_stoppedBy_operator link.1)
    | cons link' links' =>
      have hsplit : link.1.lexeme :: (link.2.yield ++ (linksYield links ++ rest)) =
          link'.1.lexeme :: (link'.2.yield ++ (linksYield links' ++ rest')) := by
        simpa [linksYield] using htail
      rcases List.cons.inj hsplit with ⟨hoperator, hoperands⟩
      rcases ih (hlinks link (by simp)) (fun l hl => hlinks l (by simp [hl])) hoperands with
        ⟨hright, rfl, rfl⟩
      have hlink : link = link' := Prod.ext (Terminal.ext hoperator) hright
      exact ⟨rfl, by rw [hlink], rfl⟩

/-- A derivation derives something, and only an expression starts with `let`. -/
theorem exists_head {n : Nonterminal} (d : Derivation n) :
    ∃ first rest, d.yield = first :: rest ∧ (n ≠ .expression → first.kind ≠ .letWord) := by
  induction d with
  | letIn letWord name equals value inWord body => exact ⟨_, _, rfl, fun h => absurd rfl h⟩
  | operations inner ih =>
    rcases ih with ⟨first, rest, hyield, -⟩
    exact ⟨first, rest, hyield, fun h => absurd rfl h⟩
  | operand level inner ih =>
    rcases ih with ⟨first, rest, hyield, hkind⟩
    exact ⟨first, rest, hyield, fun _ => hkind level.operand_ne_expression⟩
  | operation level left operator right ihleft ihright =>
    rcases ihleft with ⟨first, rest, hyield, hkind⟩
    exact ⟨first, rest ++ operator.lexeme :: right.yield, by simp [yield, hyield], hkind⟩
  | leaf lexeme tree isLeaf => exact ⟨lexeme, [], rfl, fun _ => isLeaf.kind_ne (by decide)⟩
  | parenthesis lpar inner rpar ih => exact ⟨_, _, rfl, fun _ => by simp [lpar.kind_eq]⟩

theorem yield_operations_ne_letIn (inner : Derivation (.level .disjunction))
    (letWord : Terminal [.letWord]) (rest more : List Lexeme) :
    inner.yield ++ rest ≠ letWord.lexeme :: more := by
  rcases inner.exists_head with ⟨first, tail, hyield, hkind⟩
  intro h
  rw [hyield] at h
  have hfirst : first = letWord.lexeme := (List.cons.inj h).1
  exact hkind (by simp) (by rw [hfirst, letWord.kind_eq])

/-- The keywords of a `let` tell its parts apart. -/
theorem unique_letIn {letWord : Terminal [.letWord]} {name : Terminal [.ident]}
    {equals : Terminal [.assign]} {value : Derivation .expression} {inWord : Terminal [.inWord]}
    {body : Derivation .expression} (hvalue : value.Unique) (hbody : body.Unique) :
    (letIn letWord name equals value inWord body).Unique := by
  intro d' rest rest' hrest hrest' h
  cases d' with
  | letIn letWord' name' equals' value' inWord' body' =>
    have hsplit : letWord.lexeme :: name.lexeme :: equals.lexeme ::
          (value.yield ++ inWord.lexeme :: (body.yield ++ rest)) =
        letWord'.lexeme :: name'.lexeme :: equals'.lexeme ::
          (value'.yield ++ inWord'.lexeme :: (body'.yield ++ rest')) := by
      simpa [yield] using h
    simp only [List.cons.injEq] at hsplit
    rcases hsplit with ⟨hlet, hname, hequals, hsplit⟩
    -- The value ends at its `in`, where no derivation of an expression goes on.
    rcases hvalue value' _ _ (inWord.stops rfl _ _) (inWord'.stops rfl _ _) hsplit with
      ⟨rfl, htail⟩
    rcases List.cons.inj htail with ⟨hin, hbodies⟩
    rcases hbody body' rest rest' hrest hrest' hbodies with ⟨rfl, rfl⟩
    cases Terminal.ext hlet
    cases Terminal.ext hname
    cases Terminal.ext hequals
    cases Terminal.ext hin
    exact ⟨rfl, rfl⟩
  | operations inner =>
    exact absurd h.symm (yield_operations_ne_letIn inner letWord rest' _)

theorem unique_operations {inner : Derivation (.level .disjunction)} (hinner : inner.Unique) :
    (operations inner).Unique := by
  intro d' rest rest' hrest hrest' h
  cases d' with
  | letIn letWord name equals value inWord body =>
    exact absurd h (yield_operations_ne_letIn inner letWord rest _)
  | operations inner' =>
    have hle : Nonterminal.strength .expression ≤ Nonterminal.strength (.level .disjunction) := by
      decide
    rcases hinner inner' rest rest' (hrest.mono hle) (hrest'.mono hle) h with ⟨rfl, rfl⟩
    exact ⟨rfl, rfl⟩

theorem unique_leaf {lexeme : Lexeme} {tree : Tree} (isLeaf : Leaf lexeme tree) :
    (leaf lexeme tree isLeaf).Unique := by
  intro d' rest rest' _ _ h
  cases d' with
  | leaf lexeme' tree' isLeaf' =>
    rcases List.cons.inj h with ⟨rfl, rfl⟩
    cases Leaf.unique isLeaf isLeaf'
    exact ⟨rfl, rfl⟩
  | parenthesis lpar inner rpar =>
    have hlexeme : lexeme = lpar.lexeme := (List.cons.inj h).1
    exact absurd (hlexeme ▸ lpar.kind_eq) (isLeaf.kind_ne (by decide))

/-- Parentheses tell what they enclose from the rest. -/
theorem unique_parenthesis {lpar : Terminal [.lpar]} {inner : Derivation .expression}
    {rpar : Terminal [.rpar]} (hinner : inner.Unique) : (parenthesis lpar inner rpar).Unique := by
  intro d' rest rest' _ _ h
  cases d' with
  | leaf lexeme tree isLeaf =>
    have hlexeme : lpar.lexeme = lexeme := (List.cons.inj h).1
    exact absurd (hlexeme ▸ lpar.kind_eq) (isLeaf.kind_ne (by decide))
  | parenthesis lpar' inner' rpar' =>
    have hsplit : lpar.lexeme :: (inner.yield ++ rpar.lexeme :: rest) =
        lpar'.lexeme :: (inner'.yield ++ rpar'.lexeme :: rest') := by
      simpa [yield] using h
    rcases List.cons.inj hsplit with ⟨hlpar, hsplit⟩
    rcases hinner inner' _ _ (rpar.stops rfl _ _) (rpar'.stops rfl _ _) hsplit with ⟨rfl, htail⟩
    rcases List.cons.inj htail with ⟨hrpar, rfl⟩
    cases Terminal.ext hlpar
    cases Terminal.ext hrpar
    exact ⟨rfl, rfl⟩

/-- What the induction carries: a derivation of a level is unique with any operators and operands
behind it. -/
def Carries : {n : Nonterminal} → Derivation n → Prop
  | .level level, d =>
      ∀ links : List (Link level), (∀ link ∈ links, link.2.Unique) → (extend d links).Unique
  | .expression, d => d.Unique
  | .atom, d => d.Unique

theorem Carries.unique {n : Nonterminal} {d : Derivation n} (h : d.Carries) : d.Unique := by
  cases n with
  | expression | atom => exact h
  | level level => exact h [] (by simp)

/-- By induction on the derivation, one lemma for each rule. -/
theorem carries {n : Nonterminal} (d : Derivation n) : d.Carries := by
  induction d with
  | letIn letWord name equals value inWord body ihvalue ihbody => exact unique_letIn ihvalue ihbody
  | operations inner ih => exact unique_operations ih.unique
  | operand level inner ih =>
    intro links hlinks d' rest rest' hrest hrest' h
    rcases exists_chain d' with ⟨first, links', rfl⟩
    have hsplit : inner.yield ++ (linksYield links ++ rest) =
        first.yield ++ (linksYield links' ++ rest') := by
      simpa [← List.append_assoc, yield_extend, yield_chain, yield] using h
    rcases chain_unique ih.unique hlinks hrest hrest' hsplit with ⟨rfl, rfl, rfl⟩
    exact ⟨rfl, rfl⟩
  | operation level left operator right ihleft ihright =>
    -- The last operation of the derivation is one more link of the chain on its left.
    intro links hlinks
    refine ihleft ((operator, right) :: links) ?_
    intro link hlink
    rcases List.mem_cons.1 hlink with rfl | hlink
    · exact ihright.unique
    · exact hlinks link hlink
  | leaf lexeme tree isLeaf => exact unique_leaf isLeaf
  | parenthesis lpar inner rpar ih => exact unique_parenthesis ih

/-- A derivation is determined by any lexemes that it starts, if what is left over cannot extend
it. -/
theorem unique {n : Nonterminal} (d : Derivation n) : d.Unique := d.carries.unique

/-- No two derivations derive the same lexemes. -/
theorem yield_injective {n : Nonterminal} {d d' : Derivation n} (h : d.yield = d'.yield) :
    d = d' := by
  have hboth := d.unique d' [] [] n.stoppedBy_nil n.stoppedBy_nil (by rw [h])
  exact hboth.1

/-! ## How operators group -/

/-- A derivation occurs inside another one, between the lexemes before and after it. -/
inductive Occurs {m : Nonterminal} (part : Derivation m) :
    {n : Nonterminal} → Derivation n → List Lexeme → List Lexeme → Prop where
  | here : Occurs part part [] []
  | letValue {letWord : Terminal [.letWord]} {name : Terminal [.ident]}
      {equals : Terminal [.assign]} {value : Derivation .expression} {inWord : Terminal [.inWord]}
      {body : Derivation .expression} {before after : List Lexeme}
      (h : Occurs part value before after) :
      Occurs part (.letIn letWord name equals value inWord body)
        (letWord.lexeme :: name.lexeme :: equals.lexeme :: before)
        (after ++ inWord.lexeme :: body.yield)
  | letBody {letWord : Terminal [.letWord]} {name : Terminal [.ident]}
      {equals : Terminal [.assign]} {value : Derivation .expression} {inWord : Terminal [.inWord]}
      {body : Derivation .expression} {before after : List Lexeme}
      (h : Occurs part body before after) :
      Occurs part (.letIn letWord name equals value inWord body)
        (letWord.lexeme :: name.lexeme :: equals.lexeme ::
          (value.yield ++ inWord.lexeme :: before)) after
  | operations {inner : Derivation (.level .disjunction)} {before after : List Lexeme}
      (h : Occurs part inner before after) : Occurs part (.operations inner) before after
  | operand {level : Level} {inner : Derivation level.operand} {before after : List Lexeme}
      (h : Occurs part inner before after) : Occurs part (.operand level inner) before after
  | left {level : Level} {left : Derivation (.level level)} {operator : Terminal level.operators}
      {right : Derivation level.operand} {before after : List Lexeme}
      (h : Occurs part left before after) :
      Occurs part (.operation level left operator right) before
        (after ++ operator.lexeme :: right.yield)
  | right {level : Level} {left : Derivation (.level level)} {operator : Terminal level.operators}
      {right : Derivation level.operand} {before after : List Lexeme}
      (h : Occurs part right before after) :
      Occurs part (.operation level left operator right)
        (left.yield ++ operator.lexeme :: before) after
  | parenthesis {lpar : Terminal [.lpar]} {inner : Derivation .expression}
      {rpar : Terminal [.rpar]} {before after : List Lexeme} (h : Occurs part inner before after) :
      Occurs part (.parenthesis lpar inner rpar) (lpar.lexeme :: before) (after ++ [rpar.lexeme])

/-- The lexeme may stand right before a derivation of the nonterminal: it opens an expression, or is
an operator that binds weaker. -/
def Opens (lexeme : Lexeme) (n : Nonterminal) : Prop :=
  lexeme.kind ∈ [.lpar, .assign, .inWord] ∨
    ∃ strength, precedence lexeme.kind = some strength ∧ strength < n.strength

/-- The lexeme may stand right behind a derivation of the nonterminal: it closes an expression, or
is an operator that binds at most as strongly. -/
def Closes (lexeme : Lexeme) (n : Nonterminal) : Prop :=
  lexeme.kind ∈ [.rpar, .inWord] ∨
    ∃ strength, precedence lexeme.kind = some strength ∧ strength ≤ n.strength

theorem Opens.of_expression {lexeme : Lexeme} (h : Opens lexeme .expression) :
    lexeme.kind ∈ [.lpar, .assign, .inWord] := by
  rcases h with hkind | ⟨strength, -, hlt⟩
  · exact hkind
  · exact absurd hlt (Nat.not_lt_zero _)

theorem Closes.of_expression {lexeme : Lexeme} (h : Closes lexeme .expression) :
    lexeme.kind ∈ [.rpar, .inWord] := by
  rcases h with hkind | ⟨strength, hstrength, hle⟩
  · exact hkind
  · rcases Level.exists_of_precedence hstrength with ⟨level, rfl⟩
    exact absurd hle (Nat.not_le.2 level.strength_pos)

namespace Occurs

variable {m n : Nonterminal} {part : Derivation m} {d : Derivation n} {before after : List Lexeme}

/-- The lexemes of the whole are those before the part, in it and after it. -/
theorem yield_eq (h : Occurs part d before after) : d.yield = before ++ (part.yield ++ after) := by
  induction h with
  | here => simp
  | _ => simp_all [yield]

/-- What stands before an occurrence; nothing stands there only if what it occurs in binds at most
as strongly. -/
theorem before_opens (h : Occurs part d before after) :
    (∀ lexeme ∈ before.getLast?, Opens lexeme m) ∧ (before = [] → n.strength ≤ m.strength) := by
  induction h with
  | here => simp
  | @letValue _ _ equals _ _ _ before _ _ ih =>
    cases before with
    | nil => simp [Opens, equals.kind_eq]
    | cons first before => simpa using ih.1
  | @letBody letWord name equals value inWord _ before _ _ ih =>
    have hlast : (letWord.lexeme :: name.lexeme :: equals.lexeme ::
        (value.yield ++ inWord.lexeme :: before)).getLast? = (inWord.lexeme :: before).getLast? := by
      simp only [← List.cons_append, List.getLast?_append]
      rw [List.getLast?_cons, Option.some_or]
    rw [hlast]
    cases before with
    | nil => simp [Opens, inWord.kind_eq]
    | cons first before => simpa using ih.1
  | operations _ ih => exact ⟨ih.1, by simp⟩
  | @operand level _ _ _ _ ih =>
    refine ⟨ih.1, fun hnil => ?_⟩
    have hle := ih.2 hnil
    have hnext := level.strength_operand
    rw [Nonterminal.strength_level]
    omega
  | left _ ih => exact ih
  -- A right operand binds stronger than its operator, so the operator opens it.
  | @right level _ operator _ before _ _ ih =>
    cases before with
    | nil =>
      have hle := ih.2 rfl
      have hnext := level.strength_operand
      have hown := Level.mem_operators_iff.1 operator.kind_mem
      have hopens : Opens operator.lexeme m := .inr ⟨level.strength, hown, by omega⟩
      simpa using hopens
    | cons first before => simpa using ih.1
  | @parenthesis lpar _ _ before _ _ ih =>
    cases before with
    | nil => simp [Opens, lpar.kind_eq]
    | cons first before => simpa using ih.1

/-- What stands behind an occurrence; nothing stands there only if what it occurs in binds at most
as strongly. -/
theorem after_closes (h : Occurs part d before after) :
    (∀ lexeme ∈ after.head?, Closes lexeme m) ∧ (after = [] → n.strength ≤ m.strength) := by
  induction h with
  | here => simp
  | @letValue _ _ _ _ inWord _ _ after _ ih =>
    cases after with
    | nil => simp [Closes, inWord.kind_eq]
    | cons first after => simpa using ih.1
  | letBody _ ih => exact ⟨ih.1, by simp⟩
  | operations _ ih => exact ⟨ih.1, by simp⟩
  | @operand level _ _ _ _ ih | @right level _ _ _ _ _ _ ih =>
    refine ⟨ih.1, fun hnil => ?_⟩
    have hle := ih.2 hnil
    have hnext := level.strength_operand
    rw [Nonterminal.strength_level]
    omega
  -- A left operand may be of the level of the operator, so the operator is at most as strong.
  | @left level _ operator _ _ after _ ih =>
    cases after with
    | nil =>
      have hown := Level.mem_operators_iff.1 operator.kind_mem
      have hcloses : Closes operator.lexeme m := .inr ⟨level.strength, hown, ih.2 rfl⟩
      simpa using hcloses
    | cons first after => simpa using ih.1
  | @parenthesis _ _ rpar _ after _ ih =>
    cases after with
    | nil => simp [Closes, rpar.kind_eq]
    | cons first after => simpa using ih.1

end Occurs

end Derivation

end Grammar

end LetLang
