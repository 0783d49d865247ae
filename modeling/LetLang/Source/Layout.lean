/-!
# Layout: what may stand between lexemes

Layout is spaces, tabs, form feeds, carriage returns, line feeds, and comments from `#` to the end
of the line.

* `layout`: the layout at the front of a text, `afterLayout`: what follows it.
-/

namespace LetLang

/-- A character of layout outside comments. -/
def isSpacing (c : Char) : Bool :=
  c = ' ' || c = '\t' || c = '\x0c' || c = '\r' || c = '\n'

/-- Splits a text behind its layout. The flag says that the text starts inside a comment, which only
a line feed ends. -/
def splitLayout : Bool → List Char → List Char × List Char
  | _, [] => ([], [])
  | true, c :: cs =>
      let split := splitLayout (c != '\n') cs
      (c :: split.1, split.2)
  | false, c :: cs =>
      if isSpacing c || c = '#' then
        let split := splitLayout (c = '#') cs
        (c :: split.1, split.2)
      else ([], c :: cs)

def layout (cs : List Char) : List Char := (splitLayout false cs).1

def afterLayout (cs : List Char) : List Char := (splitLayout false cs).2

private theorem splitLayout_append (inComment : Bool) (cs : List Char) :
    (splitLayout inComment cs).1 ++ (splitLayout inComment cs).2 = cs := by
  induction cs generalizing inComment with
  | nil => cases inComment <;> rfl
  | cons c cs ih =>
    cases inComment with
    | true => simp [splitLayout, ih]
    | false =>
      unfold splitLayout
      split
      · simp [ih]
      · rfl

/-- Nothing is lost between layout and what follows it. -/
theorem layout_append_afterLayout (cs : List Char) : layout cs ++ afterLayout cs = cs :=
  splitLayout_append false cs

theorem length_afterLayout_le (cs : List Char) : (afterLayout cs).length ≤ cs.length := by
  have h := congrArg List.length (layout_append_afterLayout cs)
  simp only [List.length_append] at h
  omega

end LetLang
