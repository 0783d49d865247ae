import LetLang.Proofs.Endings
import LetLang.Proofs.FreeNames

/-!
# Scopes and their histories

The history of a scope is the list of the bindings that were made on its chain, most recent first.
All that can be asked of a scope is determined by its history.

* `Making`: a step that makes a scope, from one of those made before or from named values.
* `Family.after`: the scopes that some steps make, each with its history.
-/

namespace LetLang

/-- The value that was bound to a name last, in a history with the most recent binding first. -/
def MostRecent (history : Bindings) (name : String) (value : Value) : Prop :=
  ∃ newer older, history = newer ++ (name, value) :: older ∧ ∀ pair ∈ newer, pair.1 ≠ name

namespace Scope

def ofHistory (history : Bindings) : Scope := ⟨history.map fun pair => ⟨some pair.1, pair.2⟩⟩

variable {history : Bindings} {name : String} {value : Value}

/-! ## Look-up -/

theorem find?_ofHistory (history : Bindings) (name : String) :
    (ofHistory history).find? name = (history.find? (·.1 == name)).map (·.2) := by
  rw [find?_eq_map, ofHistory, List.find?_map]
  simp [Function.comp_def]

/-- Look-up finds the most recent value. -/
theorem find?_ofHistory_eq_some_iff :
    (ofHistory history).find? name = some value ↔ MostRecent history name value := by
  rw [find?_ofHistory, Option.map_eq_some_iff]
  constructor
  · rintro ⟨⟨own, bound⟩, hfind, rfl⟩
    rcases List.find?_eq_some_iff_append.1 hfind with ⟨hname, newer, older, rfl, hnewer⟩
    have hown : own = name := by simpa using hname
    exact ⟨newer, older, by rw [hown], fun pair hpair => by simpa using hnewer pair hpair⟩
  · rintro ⟨newer, older, rfl, hnewer⟩
    refine ⟨(name, value), List.find?_eq_some_iff_append.2 ⟨by simp, newer, older, rfl, ?_⟩, rfl⟩
    intro pair hpair
    simpa using hnewer pair hpair

/-- Look-up fails exactly for names that were never bound. -/
theorem find?_ofHistory_eq_none_iff :
    (ofHistory history).find? name = none ↔ name ∉ history.map (·.1) := by
  rw [find?_ofHistory, Option.map_eq_none_iff, List.find?_eq_none]
  constructor
  · intro h hmem
    rcases List.mem_map.1 hmem with ⟨pair, hpair, hname⟩
    exact h pair hpair (by simp [hname])
  · intro h pair hpair hname
    have heq : pair.1 = name := by simpa using hname
    exact h (heq ▸ List.mem_map_of_mem hpair)

/-- Where no name is bound twice, every binding is found. -/
theorem find?_ofHistory_of_nodup (h : (history.map (·.1)).Nodup) :
    (ofHistory history).find? name = some value ↔ (name, value) ∈ history := by
  rw [find?_ofHistory_eq_some_iff]
  constructor
  · rintro ⟨newer, older, rfl, -⟩
    simp
  · intro hmem
    rcases List.append_of_mem hmem with ⟨newer, older, rfl⟩
    refine ⟨newer, older, rfl, ?_⟩
    -- A newer binding of the name would repeat it.
    intro pair hpair heq
    rw [List.map_append, List.nodup_append] at h
    exact h.2.2 pair.1 (List.mem_map_of_mem hpair) name (by simp) heq

/-! ## Visible names -/

theorem depth_ofHistory (history : Bindings) : (ofHistory history).depth = history.length := by
  simp [depth, frames, ofHistory, List.countP_map, Function.comp_def]

/-- The newest name comes first and hides its older bindings. -/
theorem names_ofHistory_cons (name : String) (value : Value) (history : Bindings) :
    (ofHistory ((name, value) :: history)).names =
      name :: (ofHistory history).names.filter (· != name) := by
  simp [names, visible_eq_unshadowed, ofHistory, unshadowed, List.filter_map, Function.comp_def]

/-- No name is visible twice. -/
theorem nodup_names_ofHistory (history : Bindings) : (ofHistory history).names.Nodup := by
  induction history with
  | nil => exact List.nodup_nil
  | cons pair history ih =>
    rw [names_ofHistory_cons]
    exact List.nodup_cons.2 ⟨by simp, ih.filter _⟩

/-- The visible names are names of the history, in its order. -/
theorem names_ofHistory_sublist (history : Bindings) :
    (ofHistory history).names.Sublist (history.map (·.1)) := by
  induction history with
  | nil => exact List.Sublist.refl _
  | cons pair history ih =>
    rw [names_ofHistory_cons]
    exact (List.filter_sublist.trans ih).cons_cons pair.1

/-- Without repetition nothing is hidden. -/
theorem names_ofHistory_of_nodup (h : (history.map (·.1)).Nodup) :
    (ofHistory history).names = history.map (·.1) := by
  induction history with
  | nil => rfl
  | cons pair history ih =>
    rw [List.map_cons, List.nodup_cons] at h
    rw [names_ofHistory_cons, ih h.2, List.map_cons]
    -- The newest name occurs nowhere else, so it hides nothing.
    congr
    refine List.filter_eq_self.2 fun other hother => ?_
    have hne : other ≠ pair.1 := fun heq => h.1 (heq ▸ hother)
    simpa using hne

/-- The most recently bound names come first. -/
theorem names_ofHistory_pairwise (history : Bindings) :
    (ofHistory history).names.Pairwise fun first second =>
      (history.map (·.1)).idxOf first < (history.map (·.1)).idxOf second := by
  induction history with
  | nil => exact List.Pairwise.nil
  | cons pair history ih =>
    rw [names_ofHistory_cons, List.map_cons]
    -- Every other name stands one place further back than in the older history.
    have hplace (other : String) (hother : other ∈ (ofHistory history).names.filter (· != pair.1)) :
        (pair.1 :: history.map (·.1)).idxOf other = (history.map (·.1)).idxOf other + 1 := by
      have hne : other ≠ pair.1 := by simpa using (List.mem_filter.1 hother).2
      simp [List.idxOf_cons, beq_eq_false_iff_ne.2 hne.symm]
    refine List.pairwise_cons.2 ⟨?_, ?_⟩
    · intro second hsecond
      rw [List.idxOf_cons_self, hplace second hsecond]
      exact Nat.succ_pos _
    · refine (ih.filter _).imp_of_mem ?_
      intro first second hfirst hsecond hlt
      rw [hplace first hfirst, hplace second hsecond]
      exact Nat.succ_lt_succ hlt

/-! ## Chains from named values -/

/-- The last of some named values is the most recent one. -/
theorem bindAll_ofHistory (history bindings : Bindings) :
    (ofHistory history).bindAll bindings = ofHistory (bindings.reverse ++ history) := by
  induction bindings generalizing history with
  | nil => rfl
  | cons pair bindings ih =>
    have hrest := ih (pair :: history)
    simpa [bindAll, bind, push, ofHistory] using hrest

theorem ofBindings_eq_ofHistory (bindings : Bindings) :
    ofBindings bindings = ofHistory bindings.reverse := by
  have hbind := bindAll_ofHistory [] bindings
  rwa [List.append_nil] at hbind

theorem nodup_reverse_visible (history : Bindings) :
    ((ofHistory history).visible.reverse.map (·.1)).Nodup := by
  have hnodup := nodup_names_ofHistory history
  rw [List.map_reverse]
  exact List.pairwise_reverse.2 (hnodup.imp Ne.symm)

/-- A chain that is made again from the visible bindings finds the same values. -/
theorem find?_ofBindings_visible (history : Bindings) (name : String) :
    (ofBindings (ofHistory history).visible).find? name = (ofHistory history).find? name := by
  apply Option.ext
  intro value
  rw [ofBindings_eq_ofHistory, find?_ofHistory_of_nodup (nodup_reverse_visible history),
    List.mem_reverse, mem_visible_iff]

/-- A chain made again from the visible bindings has the visible names in the opposite order. -/
theorem names_ofBindings_visible (history : Bindings) :
    (ofBindings (ofHistory history).visible).names = (ofHistory history).names.reverse := by
  rw [ofBindings_eq_ofHistory, names_ofHistory_of_nodup (nodup_reverse_visible history),
    List.map_reverse, names]

/-! ## Answers -/

theorem lookup_name_eq_ok_iff {scope : Scope} :
    scope.lookup (.name name) = .ok value ↔ scope.find? name = some value := by
  rw [lookup_name]
  cases scope.find? name <;> simp

/-- The error names what was looked up. -/
theorem lookup_name_eq_error_iff {scope : Scope} {error : RuntimeError} :
    scope.lookup (.name name) = .error error ↔
      error = { cause := .unbound name } ∧ scope.find? name = none := by
  rw [lookup_name]
  cases scope.find? name <;> simp [eq_comm]

/-- Every answer of the scope is the one that the history gives. -/
structure Records (scope : Scope) (history : Bindings) : Prop where
  lookup_eq_ok_iff : ∀ name value,
    scope.lookup (.name name) = .ok value ↔ MostRecent history name value
  lookup_eq_error_iff : ∀ name error,
    scope.lookup (.name name) = .error error ↔
      error = { cause := .unbound name } ∧ name ∉ history.map (·.1)
  has_iff : ∀ name, scope.has (.name name) = true ↔ ∃ value, scope.lookup (.name name) = .ok value
  mem_names_iff : ∀ name, name ∈ scope.names ↔ scope.has (.name name) = true
  mem_visible_iff : ∀ name value,
    (name, value) ∈ scope.visible ↔ scope.lookup (.name name) = .ok value
  names_eq : scope.names = scope.visible.map (·.1)
  nodup_names : scope.names.Nodup
  /-- The most recently bound names come first. -/
  names_pairwise : scope.names.Pairwise fun first second =>
    (history.map (·.1)).idxOf first < (history.map (·.1)).idxOf second
  depth_eq : scope.depth = history.length
  length_names_le : scope.names.length ≤ scope.depth
  length_names_eq_iff : scope.names.length = scope.depth ↔ (history.map (·.1)).Nodup
  /-- A token stands for the name that it carries. -/
  token_extend : ∀ token value,
    scope.extend (.token token) value = scope.extend (.name token.name) value
  token_lookup : ∀ token, scope.lookup (.token token) = scope.lookup (.name token.name)
  token_has : ∀ token, scope.has (.token token) = scope.has (.name token.name)
  /-- The scope that is made again from the visible bindings. -/
  visible_lookup : ∀ name,
    (ofBindings scope.visible).lookup (.name name) = scope.lookup (.name name)
  visible_depth : (ofBindings scope.visible).depth = scope.names.length
  visible_names : (ofBindings scope.visible).names = scope.names.reverse

/-- A chain records its history. -/
theorem records_ofHistory (history : Bindings) : (ofHistory history).Records history where
  lookup_eq_ok_iff name value := by
    rw [lookup_name_eq_ok_iff, find?_ofHistory_eq_some_iff]
  lookup_eq_error_iff name error := by
    rw [lookup_name_eq_error_iff, find?_ofHistory_eq_none_iff]
  has_iff name := by
    rw [has_name, Option.isSome_iff_exists]
    simp only [lookup_name_eq_ok_iff]
  mem_names_iff name := by
    rw [has_name, Option.isSome_iff_exists]
    constructor
    · intro hmem
      rcases List.mem_map.1 hmem with ⟨⟨own, value⟩, hvisible, rfl⟩
      exact ⟨value, (mem_visible_iff ..).1 hvisible⟩
    · rintro ⟨value, hfind⟩
      exact List.mem_map_of_mem ((mem_visible_iff ..).2 hfind)
  mem_visible_iff name value := by
    rw [lookup_name_eq_ok_iff, mem_visible_iff]
  names_eq := rfl
  nodup_names := nodup_names_ofHistory history
  names_pairwise := names_ofHistory_pairwise history
  depth_eq := depth_ofHistory history
  length_names_le := by
    have hle := (names_ofHistory_sublist history).length_le
    rwa [List.length_map, ← depth_ofHistory] at hle
  length_names_eq_iff := by
    rw [depth_ofHistory]
    constructor
    · intro hlength
      -- The visible names are part of the history, so all of it if they are as many.
      have hall := (names_ofHistory_sublist history).eq_of_length (by rw [hlength, List.length_map])
      exact hall ▸ nodup_names_ofHistory history
    · intro hnodup
      rw [names_ofHistory_of_nodup hnodup, List.length_map]
  token_extend _ _ := rfl
  token_lookup _ := rfl
  token_has _ := rfl
  visible_lookup name := by
    rw [lookup_name, lookup_name, find?_ofBindings_visible]
  visible_depth := by
    rw [ofBindings_eq_ofHistory, depth_ofHistory, List.length_reverse, names, List.length_map]
  visible_names := names_ofBindings_visible history

/-- What is left of a chain behind its innermost bindings: the scopes that it was built from. -/
def outer (scope : Scope) (count : Nat) : Scope := ⟨scope.bindings.drop count⟩

theorem outer_ofHistory (history : Bindings) (count : Nat) :
    (ofHistory history).outer count = ofHistory (history.drop count) := by
  simp [outer, ofHistory]

end Scope

/-! ## Scopes made from one another -/

inductive Making where
  | extend (origin : Nat) (reference : Reference) (value : Value)
  | bindLet (origin : Nat) (name : Token) (value : Value)
  | ofBindings (bindings : Bindings)

structure Made where
  scope : Scope
  history : Bindings

abbrev Family := List Made

/-- The scope that a step makes. There is none where its origin is missing, where the binding has no
name, or where a `let` binds no identifier. -/
def Making.made? (family : Family) : Making → Option Made
  | .extend origin reference value =>
      match family[origin]?, reference.key with
      | some made, some name =>
          some ⟨made.scope.extend reference value, (name, value) :: made.history⟩
      | _, _ => none
  | .bindLet origin token value =>
      match family[origin]? with
      | some made =>
          match made.scope.bindLet token value with
          | .ok inner => some ⟨inner, (token.name, value) :: made.history⟩
          | .error _ => none
      | none => none
  | .ofBindings bindings => some ⟨.ofBindings bindings, bindings.reverse⟩

namespace Family

def make (family : Family) (making : Making) : Family := family ++ (making.made? family).toList

def after (makings : List Making) : Family := makings.foldl make [⟨.empty, []⟩]

def IsFaithful (family : Family) : Prop :=
  ∀ made ∈ family, made.scope = .ofHistory made.history

/-- A scope that is made from faithful ones is the chain of its history. -/
theorem IsFaithful.made? {family : Family} (h : family.IsFaithful) {making : Making} {made : Made}
    (hmade : making.made? family = some made) : made.scope = .ofHistory made.history := by
  cases making with
  | extend origin reference value =>
    simp only [Making.made?] at hmade
    split at hmade
    next base name hbase hname =>
      cases hmade
      rw [Scope.extend, hname, h base (List.mem_of_getElem? hbase)]
      rfl
    next => cases hmade
  | bindLet origin token value =>
    simp only [Making.made?] at hmade
    split at hmade
    next base hbase =>
      have hchain := h base (List.mem_of_getElem? hbase)
      split at hmade
      next inner hinner =>
        cases hmade
        rw [hchain, Scope.bindLet] at hinner
        -- Only an identifier is bound; any other token is refused.
        split at hinner
        · cases hinner
          rfl
        · cases hinner
      next => cases hmade
    next => cases hmade
  | ofBindings bindings =>
    cases hmade
    exact Scope.ofBindings_eq_ofHistory bindings

/-- One step keeps a family faithful. -/
theorem IsFaithful.make {family : Family} (h : family.IsFaithful) (making : Making) :
    (family.make making).IsFaithful := by
  intro made hmade
  rcases List.mem_append.1 hmade with hold | hnew
  · exact h made hold
  · exact h.made? (Option.mem_toList.1 hnew)

/-- By induction on the steps: all scopes are the chains of their histories. -/
theorem isFaithful_after (makings : List Making) : (after makings).IsFaithful := by
  have hfold (family : Family) (h : family.IsFaithful) :
      (makings.foldl Family.make family).IsFaithful := by
    induction makings generalizing family with
    | nil => exact h
    | cons making makings ih => exact ih (family.make making) (h.make making)
  refine hfold _ ?_
  intro made hmade
  cases List.mem_singleton.1 hmade
  rfl

/-- Steps leave the scopes made before as they are. -/
theorem after_prefix (makings more : List Making) : after makings <+: after (makings ++ more) := by
  have hfold (family : Family) : family <+: more.foldl make family := by
    induction more generalizing family with
    | nil => exact List.prefix_refl _
    | cons making more ih => exact (List.prefix_append _ _).trans (ih (family.make making))
  rw [after, after, List.foldl_append]
  exact hfold _

/-- Scopes refine histories. However scopes are made from one another, every answer of a scope is
the one that the bindings on its chain give, and so are the answers of the scopes that it was built
from; and no scope changes when others are made. -/
theorem scopes_record_histories (makings more : List Making) :
    (∀ made ∈ after makings, made.scope.Records made.history ∧
        ∀ count, (made.scope.outer count).Records (made.history.drop count)) ∧
      after makings <+: after (makings ++ more) := by
  refine ⟨fun made hmade => ?_, after_prefix makings more⟩
  rw [isFaithful_after makings made hmade]
  refine ⟨Scope.records_ofHistory made.history, fun count => ?_⟩
  rw [Scope.outer_ofHistory]
  exact Scope.records_ofHistory (made.history.drop count)

-- Two scopes are made from the second one; each hides or adds a name for itself only.
example :
    (after [.extend 0 (.name "x") (.integer 1), .extend 1 (.name "x") (.integer 2),
      .extend 1 (.name "y") (.integer 3)]).map (·.scope.visible) =
      [[], [("x", .integer 1)], [("x", .integer 2)], [("y", .integer 3), ("x", .integer 1)]] := by
  decide

end Family

end LetLang
