import LetLang.Number.Numeral
import LetLang.Number.Written
import LetLang.Text.Quoted

/-!
# Runtime values

* `Value`: integers of any size, doubles and Booleans. A caller may also bind values from outside
  the language; they can be named and shown, but no operator takes them.
* `Kind`: the kind of a value, as it is named in messages.
* `Value.text` is a value on its own, `Value.shown` a value inside other text.
-/

namespace LetLang

/-- A value from outside the language. -/
inductive Foreign where
  | absent
  | text (s : String)
  deriving DecidableEq, Repr

inductive Value where
  | integer (n : Int)
  | double (x : Binary64)
  | boolean (b : Bool)
  | foreign (v : Foreign)
  deriving DecidableEq

inductive Kind where
  | integer
  | double
  | boolean
  | absent
  | text
  deriving DecidableEq, Repr

def Kind.name : Kind → String
  | .integer => "Integer"
  | .double => "Double"
  | .boolean => "Boolean"
  | .absent => "NoneType"
  | .text => "str"

def Kind.isNumeric : Kind → Bool
  | .integer => true
  | .double => true
  | _ => false

namespace Value

def kind : Value → Kind
  | .integer _ => .integer
  | .double _ => .double
  | .boolean _ => .boolean
  | .foreign .absent => .absent
  | .foreign (.text _) => .text

/-- The value belongs to the language. -/
def IsNative : Value → Prop
  | .foreign _ => False
  | _ => True

def isNumeric (v : Value) : Bool := v.kind.isNumeric

/-! ## Text -/

def shown : Value → String
  | .integer n => numeral n
  | .double x => x.text
  | .boolean true => "true"
  | .boolean false => "false"
  | .foreign .absent => "None"
  | .foreign (.text s) => quoted s

def text : Value → String
  | .foreign (.text s) => s
  | v => v.shown

/-! ## Equality -/

/-- Equality within one kind; doubles are compared as numbers. -/
def equals : Value → Value → Bool
  | .double x, .double y => x.equals y
  | v, w => v == w

end Value

end LetLang
