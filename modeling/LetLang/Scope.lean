import LetLang.Value

/-!
# Scopes

A scope is a chain of bindings, innermost first. Extending a scope hides older bindings of the same
name and changes no scope it was built from.

* `Scope.find?`: the value most recently bound to a name.
* `Scope.ofBindings`: a scope from named values in order.
* `Bindings.ofList`: named values without repetition; a repeated name keeps its first place and
  takes its last value.

A binding may lack a name. Such a binding is found by asking for no name and is otherwise skipped;
every chain ends in one that holds the absent value.
-/

namespace LetLang

/-! ## Named values -/

abbrev Bindings := List (String × Value)

namespace Bindings

/-- Sets a name: in its place if it is there, at the end if not. -/
def put (bindings : Bindings) (name : String) (value : Value) : Bindings :=
  match bindings with
  | [] => [(name, value)]
  | (n, v) :: rest => if n = name then (n, value) :: rest else (n, v) :: put rest name value

/-- A new name is set at the end. -/
theorem put_of_notMem {bindings : Bindings} {name : String} (h : name ∉ bindings.map (·.1))
    (value : Value) : bindings.put name value = bindings ++ [(name, value)] := by
  induction bindings with
  | nil => rfl
  | cons pair rest ih =>
    rw [List.map_cons, List.mem_cons, not_or] at h
    rw [put, if_neg fun heq => h.1 heq.symm, ih h.2, List.cons_append]

def ofList (pairs : List (String × Value)) : Bindings :=
  pairs.foldl (fun bindings pair => bindings.put pair.1 pair.2) []

end Bindings

/-! ## Scopes -/

structure Binding where
  name : Option String
  value : Value
  deriving DecidableEq

/-- A chain of bindings, innermost first. -/
structure Scope where
  bindings : List Binding := []
  deriving DecidableEq

namespace Scope

def empty : Scope := {}

/-- Extends a scope by a binding that may lack a name. -/
def push (scope : Scope) (name : Option String) (value : Value) : Scope :=
  ⟨⟨name, value⟩ :: scope.bindings⟩

def bind (scope : Scope) (name : String) (value : Value) : Scope :=
  scope.push (some name) value

/-- Extends a scope by named values, the last one innermost. -/
def bindAll (scope : Scope) (bindings : Bindings) : Scope :=
  bindings.foldl (fun scope pair => scope.bind pair.1 pair.2) scope

def ofBindings (bindings : Bindings) : Scope := empty.bindAll bindings

/-- The chain down to the unnamed binding that it ends in. -/
def frames (scope : Scope) : List Binding := scope.bindings ++ [⟨none, .foreign .absent⟩]

def lookup? (scope : Scope) (name : Option String) : Option Value :=
  (scope.frames.find? (·.name == name)).map (·.value)

def find? (scope : Scope) (name : String) : Option Value := scope.lookup? (some name)

/-- Takes note of a binding, unless it lacks a name or its name was seen before. -/
def see (seen : Bindings) (frame : Binding) : Bindings :=
  match frame.name with
  | none => seen
  | some name => if name ∈ seen.map (·.1) then seen else seen.put name frame.value

/-- The bindings that are not hidden by a later one of the same name, most recent first. -/
def visible (scope : Scope) : Bindings := scope.frames.foldl see []

def names (scope : Scope) : List String := scope.visible.map (·.1)

/-- The number of named bindings, hidden ones included. -/
def depth (scope : Scope) : Nat := scope.frames.countP (·.name.isSome)

/-- For instance `Environment(y=2, x=1)`. -/
def text (scope : Scope) : String :=
  let pairs := scope.visible.map fun pair => pair.1 ++ "=" ++ pair.2.shown
  "Environment(" ++ ", ".intercalate pairs ++ ")"

/-! ## Names seen -/

theorem see_of_mem {seen : Bindings} {name : String} (h : name ∈ seen.map (·.1)) (value : Value) :
    see seen ⟨some name, value⟩ = seen := if_pos h

theorem see_of_notMem {seen : Bindings} {name : String} (h : name ∉ seen.map (·.1))
    (value : Value) : see seen ⟨some name, value⟩ = seen ++ [(name, value)] :=
  (if_neg h).trans (Bindings.put_of_notMem h value)

/-! ## Look-up after extension -/

@[simp] theorem frames_push (scope : Scope) (name : Option String) (value : Value) :
    (scope.push name value).frames = ⟨name, value⟩ :: scope.frames := rfl

@[simp] theorem find?_empty (name : String) : empty.find? name = none := rfl

@[simp] theorem find?_bind_self (scope : Scope) (name : String) (value : Value) :
    (scope.bind name value).find? name = some value := by
  simp [find?, bind, lookup?]

theorem find?_bind_of_ne (scope : Scope) {name other : String} (value : Value) (h : other ≠ name) :
    (scope.bind name value).find? other = scope.find? other := by
  have hne : (some name == some other) = false := by simpa using fun he => h he.symm
  simp [find?, bind, lookup?, hne]

/-- A binding hides older ones of its name, and no others. -/
theorem find?_bind (scope : Scope) (name other : String) (value : Value) :
    (scope.bind name value).find? other =
      if other = name then some value else scope.find? other := by
  split
  · next h => rw [h, find?_bind_self]
  · next h => exact find?_bind_of_ne scope value h

@[simp] theorem depth_bind (scope : Scope) (name : String) (value : Value) :
    (scope.bind name value).depth = scope.depth + 1 := by
  simp [depth, bind]

end Scope

end LetLang
