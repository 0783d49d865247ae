import LetLang.Source.Progress

/-!
# The grammar

An expression is a `let` or operations on four levels, the weakest outside:

```
expression  ::= LET IDENT "=" expression IN expression | disjunction
disjunction ::= conjunction | disjunction OR conjunction
conjunction ::= sum | conjunction AND sum
sum         ::= product | sum (ADD | SUB) product
product     ::= atom | product (MULT | DIV | MOD) atom
atom        ::= INT | DOUBLE | TRUE | FALSE | IDENT | "(" expression ")"
```

A `Grammar.Derivation` has one constructor for each form of a rule. It yields the lexemes that it
derives and the tree that it stands for; a parenthesis leaves no trace in the tree.
-/

namespace LetLang

namespace Grammar

/-! ## Nonterminals -/

inductive Level where
  | disjunction
  | conjunction
  | sum
  | product
  deriving DecidableEq, Repr

inductive Nonterminal where
  | expression
  | level (level : Level)
  | atom
  deriving DecidableEq, Repr

namespace Level

def operators : Level → List TokenKind
  | .disjunction => [.or]
  | .conjunction => [.and]
  | .sum => [.add, .sub]
  | .product => [.mult, .div, .mod]

/-- What stands to the right of an operator of the level. -/
def operand : Level → Nonterminal
  | .disjunction => .level .conjunction
  | .conjunction => .level .sum
  | .sum => .level .product
  | .product => .atom

def strength : Level → Nat
  | .disjunction => 1
  | .conjunction => 2
  | .sum => 3
  | .product => 4

theorem operand_ne_expression (level : Level) : level.operand ≠ .expression := by
  cases level <;> simp [operand]

theorem strength_pos (level : Level) : 0 < level.strength := by
  cases level <;> decide

/-- The operators of a level are those with its strength. -/
theorem mem_operators_iff {level : Level} {kind : TokenKind} :
    kind ∈ level.operators ↔ precedence kind = some level.strength := by
  cases level <;> cases kind <;> decide

theorem exists_of_precedence {kind : TokenKind} {strength : Nat}
    (h : precedence kind = some strength) : ∃ level : Level, level.strength = strength := by
  cases kind <;> simp only [precedence, Option.some.injEq, reduceCtorEq] at h
  case or => exact ⟨.disjunction, h⟩
  case and => exact ⟨.conjunction, h⟩
  case add | sub => exact ⟨.sum, h⟩
  case mult | div | mod => exact ⟨.product, h⟩

end Level

/-- How strongly the operations of a nonterminal bind. An expression binds weaker than every
operation, an atom stronger. -/
def Nonterminal.strength : Nonterminal → Nat
  | .expression => 0
  | .level l => l.strength
  | .atom => 5

theorem Level.strength_operand (level : Level) :
    level.operand.strength = level.strength + 1 := by
  cases level <;> rfl

theorem Level.strength_lt_atom (level : Level) :
    level.strength < Nonterminal.strength .atom := by
  cases level <;> decide

namespace Nonterminal

@[simp] theorem strength_expression : strength .expression = 0 := rfl

@[simp] theorem strength_level (l : Level) : strength (.level l) = l.strength := rfl

@[simp] theorem strength_atom : strength .atom = 5 := rfl

theorem strength_le_five (n : Nonterminal) : n.strength ≤ 5 := by
  cases n with
  | level level => cases level <;> decide
  | expression | atom => decide

/-- Nonterminals are told apart by their strength. -/
theorem eq_of_strength_eq {m n : Nonterminal} (h : m.strength = n.strength) : m = n := by
  cases m with
  | expression | atom =>
    cases n with
    | level level => cases level <;> exact nomatch h
    | expression | atom => simp_all
  | level level =>
    cases n with
    | level level' => cases level <;> cases level' <;> simp_all [Level.strength]
    | expression | atom => cases level <;> exact nomatch h

end Nonterminal

/-! ## Derivations -/

structure Terminal (kinds : List TokenKind) where
  lexeme : Lexeme
  kind_mem : lexeme.kind ∈ kinds

@[ext] theorem Terminal.ext {kinds : List TokenKind} {a b : Terminal kinds}
    (h : a.lexeme = b.lexeme) : a = b := by
  cases a
  cases b
  simp_all

inductive Leaf : Lexeme → Tree → Prop where
  | int {lexeme : Lexeme} (h : lexeme.kind = .int) :
      Leaf lexeme (.int (digitsValue lexeme.text) (some lexeme.line))
  | double {lexeme : Lexeme} (h : lexeme.kind = .double) :
      Leaf lexeme (.double (doubleOfDigits lexeme.text) (some lexeme.line))
  | true {lexeme : Lexeme} (h : lexeme.kind = .trueWord) :
      Leaf lexeme (.bool true (some lexeme.line))
  | false {lexeme : Lexeme} (h : lexeme.kind = .falseWord) :
      Leaf lexeme (.bool false (some lexeme.line))
  | ident {lexeme : Lexeme} (h : lexeme.kind = .ident) :
      Leaf lexeme (.ident lexeme.nameToken (some lexeme.line))

/-- The rules for leaves say what the parser makes of one lexeme. -/
theorem leaf?_eq_some_iff {lexeme : Lexeme} {tree : Tree} :
    lexeme.leaf? = some tree ↔ Leaf lexeme tree := by
  constructor
  · intro h
    unfold Lexeme.leaf? at h
    split at h
    next hkind => cases h; exact .int hkind
    next hkind => cases h; exact .double hkind
    next hkind => cases h; exact .true hkind
    next hkind => cases h; exact .false hkind
    next hkind => cases h; exact .ident hkind
    · exact nomatch h
  · intro h
    cases h with
    | int h | double h | true h | false h | ident h => simp [Lexeme.leaf?, h]

inductive Derivation : Nonterminal → Type where
  | letIn (letWord : Terminal [.letWord]) (name : Terminal [.ident]) (equals : Terminal [.assign])
      (value : Derivation .expression) (inWord : Terminal [.inWord])
      (body : Derivation .expression) : Derivation .expression
  | operations (inner : Derivation (.level .disjunction)) : Derivation .expression
  | operand (level : Level) (inner : Derivation level.operand) : Derivation (.level level)
  | operation (level : Level) (left : Derivation (.level level))
      (operator : Terminal level.operators) (right : Derivation level.operand) :
      Derivation (.level level)
  | leaf (lexeme : Lexeme) (tree : Tree) (isLeaf : Leaf lexeme tree) : Derivation .atom
  | parenthesis (lpar : Terminal [.lpar]) (inner : Derivation .expression)
      (rpar : Terminal [.rpar]) : Derivation .atom

namespace Derivation

def yield {n : Nonterminal} : Derivation n → List Lexeme
  | .letIn letWord name equals value inWord body =>
      letWord.lexeme :: name.lexeme :: equals.lexeme :: (value.yield ++ inWord.lexeme :: body.yield)
  | .operations inner => inner.yield
  | .operand _ inner => inner.yield
  | .operation _ left operator right => left.yield ++ operator.lexeme :: right.yield
  | .leaf lexeme _ _ => [lexeme]
  | .parenthesis lpar inner rpar => lpar.lexeme :: (inner.yield ++ [rpar.lexeme])

def tree {n : Nonterminal} : Derivation n → Tree
  | .letIn _ name _ value _ body =>
      .letIn name.lexeme.nameToken value.tree body.tree (some name.lexeme.line)
  | .operations inner => inner.tree
  | .operand _ inner => inner.tree
  | .operation _ left operator right =>
      .binop left.tree (.known operator.lexeme.kind) right.tree (some operator.lexeme.line)
  | .leaf _ t _ => t
  | .parenthesis _ inner _ => inner.tree

end Derivation

/-- Some derivation of the nonterminal derives the lexemes and stands for the tree. -/
def Derives (n : Nonterminal) (lexemes : List Lexeme) (tree : Tree) : Prop :=
  ∃ d : Derivation n, d.yield = lexemes ∧ d.tree = tree

namespace Derives

variable {lexemes left right value body : List Lexeme} {tree l r v b : Tree}

theorem leaf {lexeme : Lexeme} (h : lexeme.leaf? = some tree) : Derives .atom [lexeme] tree :=
  ⟨.leaf lexeme tree (leaf?_eq_some_iff.1 h), rfl, rfl⟩

theorem parenthesis {lpar rpar : Lexeme} (hl : lpar.kind = .lpar) (hr : rpar.kind = .rpar)
    (h : Derives .expression lexemes tree) :
    Derives .atom (lpar :: (lexemes ++ [rpar])) tree := by
  rcases h with ⟨d, rfl, rfl⟩
  exact ⟨.parenthesis ⟨lpar, by simp [hl]⟩ d ⟨rpar, by simp [hr]⟩, rfl, rfl⟩

theorem operation {level : Level} {operator : Lexeme} (hl : Derives (.level level) left l)
    (ho : precedence operator.kind = some level.strength) (hr : Derives level.operand right r) :
    Derives (.level level) (left ++ operator :: right)
      (.binop l (.known operator.kind) r (some operator.line)) := by
  rcases hl with ⟨dl, rfl, rfl⟩
  rcases hr with ⟨dr, rfl, rfl⟩
  exact ⟨.operation level dl ⟨operator, Level.mem_operators_iff.2 ho⟩ dr, rfl, rfl⟩

theorem letIn {letWord name equals inWord : Lexeme} (hl : letWord.kind = .letWord)
    (hn : name.kind = .ident) (he : equals.kind = .assign) (hi : inWord.kind = .inWord)
    (hv : Derives .expression value v) (hb : Derives .expression body b) :
    Derives .expression (letWord :: name :: equals :: (value ++ inWord :: body))
      (.letIn name.nameToken v b (some name.line)) := by
  rcases hv with ⟨dv, rfl, rfl⟩
  rcases hb with ⟨db, rfl, rfl⟩
  exact ⟨.letIn ⟨letWord, by simp [hl]⟩ ⟨name, by simp [hn]⟩ ⟨equals, by simp [he]⟩ dv
    ⟨inWord, by simp [hi]⟩ db, rfl, rfl⟩

theorem operand {level : Level} (h : Derives level.operand lexemes tree) :
    Derives (.level level) lexemes tree := by
  rcases h with ⟨d, rfl, rfl⟩
  exact ⟨.operand level d, rfl, rfl⟩

theorem operations (h : Derives (.level .disjunction) lexemes tree) :
    Derives .expression lexemes tree := by
  rcases h with ⟨d, rfl, rfl⟩
  exact ⟨.operations d, rfl, rfl⟩

/-- What is derived from a nonterminal is derived from every one that binds weaker. -/
theorem weaken {m n : Nonterminal} (hle : m.strength ≤ n.strength) (h : Derives n lexemes tree) :
    Derives m lexemes tree := by
  rcases Nat.exists_eq_add_of_le hle with ⟨k, hk⟩
  -- The induction is on how many rules without an operator lie between the two.
  induction k generalizing m with
  | zero =>
    have hsame : m = n := Nonterminal.eq_of_strength_eq hk.symm
    exact hsame ▸ h
  | succ k ih =>
    cases m with
    | expression =>
      rw [Nonterminal.strength_expression] at hk
      have hnext : Nonterminal.strength (.level .disjunction) = 1 := rfl
      exact (ih (by omega) (by omega)).operations
    | level level =>
      rw [Nonterminal.strength_level] at hk
      have hnext := level.strength_operand
      exact (ih (by omega) (by omega)).operand
    | atom =>
      have hbound := n.strength_le_five
      rw [Nonterminal.strength_atom] at hk
      omega

/-- The right operand may be any derivation that binds stronger than the operator. -/
theorem operation_of_lt {level : Level} {operator : Lexeme} {n : Nonterminal}
    (hl : Derives (.level level) left l) (ho : precedence operator.kind = some level.strength)
    (hr : Derives n right r) (hlt : level.strength < n.strength) :
    Derives (.level level) (left ++ operator :: right)
      (.binop l (.known operator.kind) r (some operator.line)) := by
  have hnext := level.strength_operand
  have hoperand : level.operand.strength ≤ n.strength := by omega
  exact hl.operation ho (hr.weaken hoperand)

end Derives

end Grammar

end LetLang
