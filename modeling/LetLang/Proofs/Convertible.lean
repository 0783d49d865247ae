import LetLang.CommandLine.Options
import LetLang.Proofs.Lines
import LetLang.Proofs.Number.IntegerOperations

/-!
# Integers that can be written

An integer is converted from and to text with a limited number of digits. No integer that comes out
of a source text, an operation or a literal is longer: literals are counted, and arithmetic gives
integers below `2^1024` only.

* `Value.IsPlain`: a value of the language, within the limit if it is an integer.
-/

namespace LetLang

/-- The integer has at most as many digits as are converted. -/
def IsConvertible (n : Int) : Prop := n.natAbs < tenPow Source.maxIntegerDigits

/-- The limit counts the digits of the magnitude. -/
theorem isConvertible_iff {n : Int} :
    IsConvertible n ↔ (Nat.toDigits 10 n.natAbs).length ≤ Source.maxIntegerDigits := by
  have hlength {k : Nat} (hk : 0 < k) :
      n.natAbs < tenPow k ↔ (Nat.toDigits 10 n.natAbs).length ≤ k :=
    (Nat.length_toDigits_le_iff (by decide) hk).symm
  exact hlength (by decide)

/-- What the doubles reach is far below the limit. -/
theorem twoPow_le_limit : twoPow 1024 ≤ tenPow Source.maxIntegerDigits :=
  calc twoPow 1024 ≤ twoPow (3 * Source.maxIntegerDigits) := twoPow_le_twoPow (by decide)
    _ ≤ tenPow Source.maxIntegerDigits := twoPow_three_mul_le_tenPow _

theorem isConvertible_of_lt {n : Int} (h : n.natAbs < twoPow 1024) : IsConvertible n :=
  Nat.lt_of_lt_of_le h twoPow_le_limit

/-! ## Runs of digits -/

theorem digitValue?_lt {c : Char} {v : Nat} (h : digitValue? c = some v) : v < 10 := by
  obtain ⟨first, hfirst, rfl⟩ := Option.map_eq_some_iff.1 h
  have hrange := List.find?_some hfirst
  simp only [Bool.and_eq_true, decide_eq_true_eq] at hrange
  omega

theorem digitsValue_lt (cs : List Char) : digitsValue cs < tenPow cs.length := by
  -- In front of the rest stand the digits that were read before.
  have hfold (start : Nat) : cs.foldl (fun n c => 10 * n + (digitValue? c).getD 0) start <
      (start + 1) * tenPow cs.length := by
    induction cs generalizing start with
    | nil => simp
    | cons c cs ih =>
      have hdigit : (digitValue? c).getD 0 < 10 := by
        cases hc : digitValue? c with
        | none => decide
        | some v => exact digitValue?_lt hc
      rw [List.foldl_cons]
      calc cs.foldl (fun n c => 10 * n + (digitValue? c).getD 0)
            (10 * start + (digitValue? c).getD 0)
          < (10 * start + (digitValue? c).getD 0 + 1) * tenPow cs.length := ih _
        _ ≤ ((start + 1) * 10) * tenPow cs.length := Nat.mul_le_mul_right _ (by omega)
        _ = (start + 1) * tenPow (c :: cs).length := by
          rw [List.length_cons, Nat.add_comm cs.length, tenPow_add, Nat.mul_assoc]
          rfl
  have hstart := hfold 0
  rwa [Nat.zero_add, Nat.one_mul] at hstart

theorem tenPow_le_tenPow {a b : Nat} (h : a ≤ b) : tenPow a ≤ tenPow b :=
  Nat.pow_le_pow_right (by decide) h

theorem digitsValue_lt_of_length_le {cs : List Char} (h : cs.length ≤ Source.maxIntegerDigits) :
    digitsValue cs < tenPow Source.maxIntegerDigits :=
  Nat.lt_of_lt_of_le (digitsValue_lt cs) (tenPow_le_tenPow h)

/-! ## Operations -/

namespace Binary64

theorem natAbs_lt_of_truncate {x : Binary64} {n : Int} (h : x.truncate = .whole n) :
    n.natAbs < twoPow 1024 := by
  cases x with
  | nan | infinite _ => exact nomatch h
  | finite negative magnitude =>
    have hunits : magnitude.units / unitsInOne < twoPow 1024 := by
      apply Nat.div_lt_of_lt_mul
      rw [Nat.mul_comm, ← unitsLimit_eq]
      exact magnitude.representable.1
    cases negative with
    | true => rwa [← Truncated.whole.inj h, Int.natAbs_neg, Int.natAbs_natCast]
    | false => rwa [← Truncated.whole.inj h, Int.natAbs_natCast]

theorem natAbs_lt_of_ofInt? {x : Binary64} {n : Int} (h : ofInt? n = some x) :
    n.natAbs < twoPow 1024 := by
  rcases Nat.lt_or_ge n.natAbs integerLimit with hlt | hge
  · exact Nat.lt_of_lt_of_le hlt integerLimit_le
  · rw [ofInt?_of_le hge] at h
    exact nomatch h

end Binary64

namespace Arithmetic

variable {operation : Arithmetic} {lhs rhs : Value} {x y : Binary64} {line : Option Int}
  {log after : Log} {n : Int}

/-- A result that was computed on doubles is below `2^1024`. -/
theorem natAbs_lt_of_narrow {toInteger : Bool}
    (h : operation.narrow toInteger x line log = (.ok (.integer n), after)) :
    n.natAbs < twoPow 1024 := by
  unfold narrow at h
  split at h
  · split at h
    · next htruncate =>
      cases h
      exact Binary64.natAbs_lt_of_truncate htruncate
    · cases h
    · cases h
  · cases h

theorem natAbs_lt_of_quotient {a b : Int} (hx : Binary64.ofInt? a = some x)
    (h : settle (quotient a b) log = (.ok (.integer n), after)) : n.natAbs < twoPow 1024 := by
  by_cases hb : b = 0
  · rw [hb, quotient_zero] at h
    cases h
  · rw [quotient_eq_tdiv a hb] at h
    cases h
    rw [Int.natAbs_tdiv]
    exact Nat.lt_of_le_of_lt (Nat.div_le_self _ _) (Binary64.natAbs_lt_of_ofInt? hx)

/-- Quotients and remainders are not larger than the dividend, which has a double. -/
theorem natAbs_lt_of_combine (hx : lhs.toBinary64? = some x)
    (h : operation.combine lhs rhs x y line log = (.ok (.integer n), after)) :
    n.natAbs < twoPow 1024 := by
  cases operation with
  | add | sub | mult => exact natAbs_lt_of_narrow h
  | div =>
    rcases Value.integers?_cases lhs rhs with ⟨a, b, rfl, rfl⟩ | ⟨hnone, -⟩
    · simp only [combine, Value.integers?] at h
      split at h
      · cases h
      · exact natAbs_lt_of_quotient hx h
    · simp only [combine, hnone] at h
      split at h <;> cases h
  | mod =>
    rcases Value.integers?_cases lhs rhs with ⟨a, b, rfl, rfl⟩ | ⟨hnone, -⟩
    · simp only [combine, Value.integers?] at h
      split at h
      · cases h
      · next hb =>
        rw [remainder_eq_tmod a hb] at h
        cases h
        rw [Int.natAbs_tmod]
        exact Nat.lt_of_le_of_lt (Nat.mod_le _ _) (Binary64.natAbs_lt_of_ofInt? hx)
    · simp only [combine, hnone] at h
      cases h

/-- Arithmetic makes no integer that reaches `2^1024`. -/
theorem natAbs_lt_of_apply (h : operation.apply lhs rhs line log = (.ok (.integer n), after)) :
    n.natAbs < twoPow 1024 := by
  unfold apply at h
  split at h
  · split at h
    · next hx _ => exact natAbs_lt_of_combine hx h
    · cases h
  · cases h

end Arithmetic

/-- No operation at all gives a larger integer. -/
theorem Operator.natAbs_lt_of_decides {operator : Operator} {lhs rhs : Value} {n : Int}
    (h : operator.Decides lhs rhs (.ok (.integer n))) : n.natAbs < twoPow 1024 := by
  have happly := h none .empty
  unfold Operator.apply at happly
  cases hfamily : operator.family with
  | arithmetic operation =>
    rw [hfamily] at happly
    exact Arithmetic.natAbs_lt_of_apply happly
  | logical operation =>
    rw [hfamily] at happly
    simp only [Logical.apply] at happly
    split at happly <;> cases happly
  | unsupported =>
    rw [hfamily] at happly
    cases happly

/-! ## Source texts -/

/-- An integer in the tree is a natural number within the limit. -/
def Tree.IsConvertibleNode : Tree → Prop
  | .int n _ => 0 ≤ n ∧ n < tenPow Source.maxIntegerDigits
  | _ => True

namespace Grammar

theorem Leaf.isConvertibleNode {lexeme : Lexeme} {tree : Tree} (h : Leaf lexeme tree)
    (hlength : lexeme.kind = .int → lexeme.text.length ≤ Source.maxIntegerDigits) :
    tree.Everywhere Tree.IsConvertibleNode := by
  cases h with
  | int hkind =>
    have hlt := digitsValue_lt_of_length_le (hlength hkind)
    exact ⟨Int.natCast_nonneg _, Int.ofNat_lt.2 hlt⟩
  | double _ | true _ | false _ | ident _ => trivial

/-- By induction on the derivation: integers come from lexemes that are short enough. -/
theorem Derivation.everywhere_convertible {n : Nonterminal} (d : Derivation n)
    (h : ∀ lexeme ∈ d.yield, lexeme.kind = .int →
      lexeme.text.length ≤ Source.maxIntegerDigits) :
    d.tree.Everywhere Tree.IsConvertibleNode := by
  induction d with
  | letIn letWord name equals value inWord body ihvalue ihbody =>
    have hvalue := ihvalue fun lexeme hlexeme => h lexeme (by simp [yield, hlexeme])
    have hbody := ihbody fun lexeme hlexeme => h lexeme (by simp [yield, hlexeme])
    exact ⟨trivial, hvalue, hbody⟩
  | operations inner ih | operand level inner ih => exact ih h
  | operation level left operator right ihleft ihright =>
    have hleft := ihleft fun lexeme hlexeme => h lexeme (by simp [yield, hlexeme])
    have hright := ihright fun lexeme hlexeme => h lexeme (by simp [yield, hlexeme])
    exact ⟨trivial, hleft, hright⟩
  | leaf lexeme tree isLeaf => exact isLeaf.isConvertibleNode (h lexeme List.mem_cons_self)
  | parenthesis lpar inner rpar ih =>
    exact ih fun lexeme hlexeme => h lexeme (by simp [yield, hlexeme])

end Grammar

/-- What is read holds no integer beyond the limit. -/
theorem Source.everywhere_convertible {source : String} {tree : Tree}
    (h : Source.read source = .ok tree) : tree.Everywhere Tree.IsConvertibleNode := by
  obtain ⟨d, -, rfl, hshort⟩ := Source.read_eq_ok_iff.1 h
  exact d.everywhere_convertible (Source.oversized?_eq_none_iff.1 hshort)

/-! ## Evaluation -/

def Value.IsConvertible : Value → Prop
  | .integer n => LetLang.IsConvertible n
  | _ => True

/-- The integers among the visible bindings are within the limit. -/
def Scope.IsConvertible (scope : Scope) : Prop :=
  ∀ name n, scope.find? name = some (.integer n) → LetLang.IsConvertible n

theorem Scope.IsConvertible.bind {scope : Scope} (h : scope.IsConvertible) (name : String)
    {value : Value} (hvalue : value.IsConvertible) : (scope.bind name value).IsConvertible := by
  intro other n hfind
  rw [find?_bind] at hfind
  split at hfind
  · cases hfind
    exact hvalue
  · exact h other n hfind

/-- Evaluation stays within the limit. -/
theorem Tree.Evaluates.isConvertible {t : Tree} {scope : Scope} {value : Value}
    (h : t.Evaluates scope value) (ht : t.Everywhere IsConvertibleNode)
    (hscope : scope.IsConvertible) : value.IsConvertible := by
  induction h with
  | int n line scope =>
    have hn : 0 ≤ n ∧ n < tenPow Source.maxIntegerDigits := ht
    have hlimit : n.natAbs < tenPow Source.maxIntegerDigits := by omega
    exact hlimit
  | double _ _ _ | bool _ _ _ => trivial
  | @ident _ _ _ value h =>
    cases value with
    | integer n => exact hscope _ n h
    | _ => trivial
  | @binop _ _ _ _ _ _ _ value _ _ hverdict _ _ =>
    cases value with
    | integer n => exact isConvertible_of_lt (Operator.natAbs_lt_of_decides hverdict)
    | _ => trivial
  | letIn _ _ _ ihvalue ihbody =>
    exact ihbody ht.2.2 (hscope.bind _ (ihvalue ht.2.1 hscope))

/-- A run in such a scope gives no integer beyond the limit. -/
theorem isConvertible_of_run {source : String} {scope : Scope} {log : Log} {value : Value}
    (hscope : scope.IsConvertible) (h : (run source scope [] log).1 = .ok value) :
    value.IsConvertible := by
  cases hread : Source.read source with
  | error error => simp [run, hread] at h
  | ok tree =>
    have hvalue := (run_eq_ok_iff hread).1 h
    exact hvalue.isConvertible (Source.everywhere_convertible hread) hscope

/-! ## Literals and options -/

def Value.IsPlain (value : Value) : Prop := value.IsNative ∧ value.IsConvertible

namespace Literal

theorem isConvertible_of_integerOf? {cs : List Char} {n : Int} (h : integerOf? cs = some n) :
    IsConvertible n := by
  simp only [integerOf?] at h
  split at h
  · cases h
  · next hshort =>
    cases h
    simp only [Bool.or_eq_true, decide_eq_true_eq, not_or, Nat.not_lt] at hshort
    have hlt := digitsValue_lt_of_length_le hshort.2
    unfold signed
    split
    · rwa [IsConvertible, Int.natAbs_neg, Int.natAbs_natCast]
    · rwa [IsConvertible, Int.natAbs_natCast]

/-- A literal on its own is a plain value. -/
theorem isPlain_of_read? {text : String} {value : Value} (h : read? text = some value) :
    value.IsPlain := by
  simp only [read?] at h
  split at h
  · cases h
    exact ⟨trivial, trivial⟩
  · split at h
    · cases h
      exact ⟨trivial, trivial⟩
    · split at h
      · next hinteger =>
        cases h
        exact ⟨trivial, isConvertible_of_integerOf? hinteger⟩
      · obtain ⟨x, -, rfl⟩ := Option.map_eq_some_iff.1 h
        exact ⟨trivial, trivial⟩

end Literal

theorem Bindings.mem_put {bindings : Bindings} {name : String} {value : Value}
    {pair : String × Value} (h : pair ∈ bindings.put name value) :
    pair ∈ bindings ∨ pair.2 = value := by
  induction bindings with
  | nil =>
    cases List.mem_singleton.1 h
    exact .inr rfl
  | cons first rest ih =>
    obtain ⟨n, v⟩ := first
    unfold put at h
    split at h
    · rcases List.mem_cons.1 h with rfl | hrest
      · exact .inr rfl
      · exact .inl (List.mem_cons_of_mem _ hrest)
    · rcases List.mem_cons.1 h with rfl | hrest
      · exact .inl List.mem_cons_self
      · exact (ih hrest).imp_left (List.mem_cons_of_mem _)

namespace Options

def IsPlain (options : Options) : Prop := ∀ pair ∈ options.defines, pair.2.IsPlain

variable {options result : Options}

theorem isPlain_of_define? {spec name : String} {value : Value}
    (h : define? spec = .ok (name, value)) : value.IsPlain := by
  simp only [define?] at h
  split at h
  · cases h
  · split at h
    · split at h
      · next hread =>
        obtain ⟨-, rfl⟩ := Prod.mk.inj (Except.ok.inj h)
        exact Literal.isPlain_of_read? hread
      · cases h
    · cases h

/-- One argument keeps the values plain. -/
theorem IsPlain.add (h : options.IsPlain) {argument : Argument}
    (hadd : options.add argument = .ok result) : result.IsPlain := by
  cases argument with
  | tree | verbose =>
    cases hadd
    exact h
  | define spec =>
    simp only [Options.add, addDefine] at hadd
    split at hadd
    · next name value hdefine =>
      cases hadd
      intro pair hpair
      rcases Bindings.mem_put hpair with hold | hnew
      · exact h pair hold
      · rw [hnew]
        exact isPlain_of_define? hdefine
    · cases hadd
  | source text =>
    simp only [Options.add, addSource] at hadd
    split at hadd
    · cases hadd
      exact h
    · cases hadd

/-- So do all of them, from the left. -/
theorem IsPlain.addAll (h : options.IsPlain) {arguments : List String}
    (hadd : options.addAll arguments = .ok result) : result.IsPlain := by
  have hthen {options : Options} (h : options.IsPlain) {argument : Argument} {rest : List String}
      (ih : ∀ next : Options, next.IsPlain → next.addAll rest = .ok result → result.IsPlain)
      (hadd : ((options.add argument).bind fun next => next.addAll rest) = .ok result) :
      result.IsPlain := by
    cases hfirst : options.add argument with
    | error misuse =>
      rw [hfirst] at hadd
      cases hadd
    | ok next =>
      rw [hfirst] at hadd
      exact ih next (h.add hfirst) hadd
  fun_induction Options.addAll options arguments with
  | case1 options =>
    cases hadd
    exact h
  | case2 options rest ih => exact hthen h (fun next hnext => ih next hnext) hadd
  | case3 options rest ih => exact hthen h (fun next hnext => ih next hnext) hadd
  | case4 options => cases hadd
  | case5 options spec rest ih => exact hthen h (fun next hnext => ih next hnext) hadd
  | case6 options argument rest _ _ _ _ spec _ ih =>
    exact hthen h (fun next hnext => ih next hnext) hadd
  | case7 options argument rest _ _ _ _ _ ih =>
    exact hthen h (fun next hnext => ih next hnext) hadd

/-- Whatever the arguments are, they define plain values only. -/
theorem isPlain_of_ofArguments {arguments : List String}
    (h : ofArguments arguments = .ok options) : options.IsPlain := by
  have hnone : ({} : Options).IsPlain := fun pair hpair => absurd hpair List.not_mem_nil
  exact hnone.addAll h

end Options

end LetLang
