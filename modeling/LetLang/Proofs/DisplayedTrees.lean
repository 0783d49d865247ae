import LetLang.CommandLine
import LetLang.Proofs.Number.DoubleTexts
import LetLang.Proofs.Source.Placement

/-!
# Displays of trees are unambiguous

The lines that display a tree tell where they end, whatever follows them, and what tree they
display. So two trees with the same display have the same content: they differ at most in their
lines and in the kinds and positions of their tokens. The first line of a display (`Tree.headline`)
tells what the root is.
-/

namespace LetLang

open Grammar

/-! ## What a display shows -/

def Token.content (token : Token) : Token := ⟨.ident, token.payload, 0, 0⟩

/-- The payload is a name that is spelled like a word of the language. -/
def Token.IsNamed (token : Token) : Prop :=
  ∃ name, token.payload = .text name ∧ TokenKind.ident.Spells name.toList

namespace Tree

/-- The tree without lines, and with nothing but the payloads of its tokens. -/
def content : Tree → Tree
  | .int n _ => .int n none
  | .double x _ => .double x none
  | .bool b _ => .bool b none
  | .ident token _ => .ident token.content none
  | .binop left operator right _ => .binop left.content operator right.content none
  | .letIn token value body _ => .letIn token.content value.content body.content none
  | .hole => .hole

/-- The node is no hole, its name is a word and its operator is a token kind. -/
def IsDisplayableNode : Tree → Prop
  | .ident token _ => token.IsNamed
  | .binop _ operator _ _ => ∃ kind, operator = .known kind
  | .letIn token _ _ _ => token.IsNamed
  | .hole => False
  | _ => True

def IsDisplayable (t : Tree) : Prop := t.Everywhere IsDisplayableNode

end Tree

/-! ## Texts of leaves and operators -/

/-- Of two named tokens nothing but the name is displayed. -/
theorem Token.IsNamed.content_eq {token token' : Token} (h : token.IsNamed) (h' : token'.IsNamed)
    (hname : token.name = token'.name) : token.content = token'.content := by
  obtain ⟨name, hpayload, -⟩ := h
  obtain ⟨name', hpayload', -⟩ := h'
  rw [Token.name, Token.name, hpayload, hpayload'] at hname
  have hnames : name = name' := hname
  rw [content, content, hpayload, hpayload', hnames]

theorem TokenKind.name_injective : Function.Injective TokenKind.name := by
  have hback (kind : TokenKind) : ofName? kind.name = some kind := by
    cases kind <;> decide
  intro kind kind' h
  have hkind := hback kind
  rw [h, hback kind'] at hkind
  exact (Option.some.inj hkind).symm

/-- Different integers have different numerals. -/
theorem numeralChars_injective : Function.Injective numeralChars := by
  intro n m h
  have hparts := Literal.sign_numeralChars n
  rw [h, Literal.sign_numeralChars m] at hparts
  obtain ⟨hsign, hdigits⟩ := Prod.mk.inj hparts
  have habs : m.natAbs = n.natAbs := by
    rw [← digitsValue_toDigits m.natAbs, hdigits, digitsValue_toDigits]
  calc n = Literal.signed (decide (n < 0)) n.natAbs := (Literal.signed_natAbs n).symm
    _ = Literal.signed (decide (m < 0)) m.natAbs := by rw [hsign, habs]
    _ = m := Literal.signed_natAbs m

/-! ## First lines -/

namespace Tree

def headline : Tree → List Char
  | .int n _ => 'I' :: 'n' :: 't' :: '(' :: (numeralChars n ++ [')'])
  | .double x _ => 'D' :: 'o' :: 'u' :: 'b' :: 'l' :: 'e' :: '(' :: (x.textChars ++ [')'])
  | .bool b _ => 'B' :: 'o' :: 'o' :: 'l' :: '(' :: ((boolWord b).toList ++ [')'])
  | .ident token _ => 'I' :: 'd' :: '(' :: (token.name.toList ++ [')'])
  | .binop _ operator _ _ =>
      'B' :: 'i' :: 'n' :: 'O' :: 'p' :: '[' :: (operator.label.toList ++ [']', '('])
  | .letIn token _ _ _ => 'L' :: 'e' :: 't' :: ':' :: ' ' :: token.name.toList
  | .hole => []

inductive SameRoot : Tree → Tree → Prop where
  | int (n : Int) (line line' : Option Int) : SameRoot (.int n line) (.int n line')
  | double (x : Binary64) (line line' : Option Int) : SameRoot (.double x line) (.double x line')
  | bool (b : Bool) (line line' : Option Int) : SameRoot (.bool b line) (.bool b line')
  | ident {token token' : Token} (line line' : Option Int) (h : token.content = token'.content) :
      SameRoot (.ident token line) (.ident token' line')
  | binop (left left' : Tree) (operator : Operator) (right right' : Tree)
      (line line' : Option Int) :
      SameRoot (.binop left operator right line) (.binop left' operator right' line')
  | letIn {token token' : Token} (value value' body body' : Tree) (line line' : Option Int)
      (h : token.content = token'.content) :
      SameRoot (.letIn token value body line) (.letIn token' value' body' line')

/-- The first line tells the form of the root, and its leaf, name or operator. -/
theorem sameRoot_of_headline_eq {t u : Tree} (ht : t.IsDisplayableNode) (hu : u.IsDisplayableNode)
    (h : t.headline = u.headline) : SameRoot t u := by
  cases t with
  | int n line =>
    cases u with
    | int n' line' =>
      have hn : n = n' := numeralChars_injective (by simpa [headline] using h)
      exact hn ▸ .int n line line'
    | _ => simp [headline] at h
  | double x line =>
    cases u with
    | double x' line' =>
      have hchars : x.textChars = x'.textChars := by simpa [headline] using h
      have hx : x = x' := Binary64.text_injective (congrArg String.ofList hchars)
      exact hx ▸ .double x line line'
    | _ => simp [headline] at h
  | bool b line =>
    cases u with
    | bool b' line' =>
      have hb : b = b' := by
        cases b <;> cases b' <;> simp [headline, boolWord] at h ⊢
      exact hb ▸ .bool b line line'
    | _ => simp [headline] at h
  | ident token line =>
    cases u with
    | ident token' line' =>
      have hname : token.name = token'.name := by simpa [headline, String.toList_inj] using h
      exact .ident line line' (ht.content_eq hu hname)
    | _ => simp [headline] at h
  | binop left operator right line =>
    cases u with
    | binop left' operator' right' line' =>
      obtain ⟨kind, rfl⟩ := ht
      obtain ⟨kind', rfl⟩ := hu
      have hlabel : (Operator.known kind).label = (Operator.known kind').label := by
        simpa [headline, String.toList_inj] using h
      have hkind : kind = kind' := TokenKind.name_injective hlabel
      exact hkind ▸ .binop left left' _ right right' line line'
    | _ => simp [headline] at h
  | letIn token value body line =>
    cases u with
    | letIn token' value' body' line' =>
      have hname : token.name = token'.name := by simpa [headline, String.toList_inj] using h
      exact .letIn value value' body body' line line' (ht.content_eq hu hname)
    | _ => simp [headline] at h
  | hole => exact ht.elim

end Tree

/-! ## Line feeds -/

theorem notMem_newline_of_isBlank {cs : List Char} (h : ∀ c ∈ cs, isBlank c = false) :
    '\n' ∉ cs := by
  intro hmem
  exact absurd (h _ hmem) (by decide)

theorem notMem_newline_numeralChars (n : Int) : '\n' ∉ numeralChars n := by
  intro hmem
  exact absurd (Binary64.isTextChar_numeralChars n _ hmem) (by decide)

theorem Token.IsNamed.notMem_newline {token : Token} (h : token.IsNamed) :
    '\n' ∉ token.name.toList := by
  obtain ⟨name, hpayload, hspells⟩ := h
  rw [Token.name, hpayload]
  exact notMem_newline_of_isBlank (TokenKind.isBlank_of_ident hspells)

/-- The first line of a display is one line. -/
theorem Tree.notMem_newline_headline {t : Tree} (h : t.IsDisplayableNode) : '\n' ∉ t.headline := by
  cases t with
  | int n line =>
    have hn := notMem_newline_numeralChars n
    simpa [headline] using hn
  | double x line =>
    have hx : '\n' ∉ x.textChars := by
      intro hmem
      exact absurd (x.isTextChar_textChars _ hmem) (by decide)
    simpa [headline] using hx
  | bool b line => cases b <;> simp [headline, boolWord]
  | ident token line =>
    have hname := Token.IsNamed.notMem_newline h
    simpa [headline] using hname
  | binop left operator right line =>
    obtain ⟨kind, rfl⟩ := h
    have hlabel : '\n' ∉ (Operator.known kind).label.toList := by cases kind <;> decide
    simpa [headline] using hlabel
  | letIn token value body line =>
    have hname := Token.IsNamed.notMem_newline h
    simpa [headline] using hname
  | hole => exact h.elim

/-- A text is cut at its first line feed in one way. -/
theorem append_newline_inj {line line' rest rest' : List Char} (hline : '\n' ∉ line)
    (hline' : '\n' ∉ line') (h : line ++ '\n' :: rest = line' ++ '\n' :: rest') :
    line = line' ∧ rest = rest' := by
  have htake {line : List Char} (hline : '\n' ∉ line) (rest : List Char) :
      (line ++ '\n' :: rest).takeWhile (· != '\n') = line := by
    refine takeWhile_append_of_stopsAt (fun c hc => ?_) (by simp [StopsAt])
    rw [bne_iff_ne]
    rintro rfl
    exact hline hc
  have hsame : line = line' := by
    rw [← htake hline rest, h, htake hline' rest']
  subst hsame
  exact ⟨rfl, (List.cons.inj (List.append_cancel_left h)).2⟩

/-! ## Characters of a display -/

def lineChars (lines : List String) : List Char := lines.flatMap fun line => line.toList ++ ['\n']

theorem toList_textOf (lines : List String) :
    (Transcript.textOf lines).toList = lineChars lines := by
  simp [Transcript.textOf, lineChars, List.flatMap_map]

@[simp] theorem lineChars_nil : lineChars [] = [] := rfl

@[simp] theorem lineChars_cons (line : String) (lines : List String) :
    lineChars (line :: lines) = line.toList ++ '\n' :: lineChars lines := by
  simp [lineChars]

@[simp] theorem lineChars_append (lines more : List String) :
    lineChars (lines ++ more) = lineChars lines ++ lineChars more := List.flatMap_append

theorem toList_indented (indent : Int) (text : String) :
    (indented indent text).toList = List.replicate indent.toNat ' ' ++ text.toList := by
  simp [indented]

namespace Tree

def linesBelow : Tree → Int → List String
  | .binop left _ right _, indent =>
      left.displayLines (indent + 2) ++ right.displayLines (indent + 2) ++ [indented indent ")"]
  | .letIn _ value body _, indent =>
      indented indent " Value Expression:" :: value.displayLines (indent + 4) ++
        indented indent " Body Expression:" :: body.displayLines (indent + 4)
  | _, _ => []

/-- A display is its first line and the lines below. -/
theorem lineChars_displayLines {t : Tree} (h : t.IsDisplayableNode) (indent : Int) :
    lineChars (t.displayLines indent) = List.replicate indent.toNat ' ' ++
      (t.headline ++ '\n' :: lineChars (t.linesBelow indent)) := by
  cases t with
  | hole => exact h.elim
  | int _ _ | double _ _ | bool _ _ | ident _ _ | binop _ _ _ _ | letIn _ _ _ _ =>
    simp [displayLines, linesBelow, headline, toList_indented, Binary64.text]

/-- Displays that go on alike agree in their first lines, and go on alike below them. -/
theorem sameRoot_of_append_eq {t u : Tree} (ht : t.IsDisplayable) (hu : u.IsDisplayable)
    {indent : Int} {rest rest' : List Char}
    (h : lineChars (t.displayLines indent) ++ rest = lineChars (u.displayLines indent) ++ rest') :
    SameRoot t u ∧
      lineChars (t.linesBelow indent) ++ rest = lineChars (u.linesBelow indent) ++ rest' := by
  rw [lineChars_displayLines ht.root, lineChars_displayLines hu.root] at h
  simp only [List.append_assoc, List.cons_append] at h
  have hlines := List.append_cancel_left h
  obtain ⟨hhead, hbelow⟩ := append_newline_inj (notMem_newline_headline ht.root)
    (notMem_newline_headline hu.root) hlines
  exact ⟨sameRoot_of_headline_eq ht.root hu.root hhead, hbelow⟩

/-- A display determines the content of the tree, and where the display ends. -/
theorem content_eq_of_append_eq {t u : Tree} (ht : t.IsDisplayable) (hu : u.IsDisplayable)
    {indent : Int} {rest rest' : List Char}
    (h : lineChars (t.displayLines indent) ++ rest = lineChars (u.displayLines indent) ++ rest') :
    t.content = u.content ∧ rest = rest' := by
  induction t generalizing u indent rest rest' with
  | hole => exact ht.elim
  | int n line | double x line | bool b line =>
    obtain ⟨hroot, hbelow⟩ := sameRoot_of_append_eq ht hu h
    cases hroot
    exact ⟨rfl, hbelow⟩
  | ident token line =>
    obtain ⟨hroot, hbelow⟩ := sameRoot_of_append_eq ht hu h
    cases hroot with
    | ident _ _ htoken => exact ⟨by rw [content, content, htoken], hbelow⟩
  | binop left operator right line ihleft ihright =>
    obtain ⟨hroot, hbelow⟩ := sameRoot_of_append_eq ht hu h
    cases hroot with
    | binop _ left' _ _ right' _ _ =>
      -- The left operand ends where the right one starts, and that one before the closing line.
      simp only [linesBelow, lineChars_append, List.append_assoc] at hbelow
      obtain ⟨hleft, hbehind⟩ := ihleft ht.2.1 hu.2.1 hbelow
      obtain ⟨hright, hclosed⟩ := ihright ht.2.2 hu.2.2 hbehind
      exact ⟨by rw [content, content, hleft, hright], List.append_cancel_left hclosed⟩
  | letIn token value body line ihvalue ihbody =>
    obtain ⟨hroot, hbelow⟩ := sameRoot_of_append_eq ht hu h
    cases hroot with
    | letIn _ value' _ body' _ _ htoken =>
      -- Nothing closes the body: the display of the `let` ends where that of the body does.
      simp only [linesBelow, List.cons_append, lineChars_cons, lineChars_append,
        List.append_assoc] at hbelow
      have hsections := (List.cons.inj (List.append_cancel_left hbelow)).2
      obtain ⟨hvalue, hbehind⟩ := ihvalue ht.2.1 hu.2.1 hsections
      have hbodies := (List.cons.inj (List.append_cancel_left hbehind)).2
      obtain ⟨hbody, hrest⟩ := ihbody ht.2.2 hu.2.2 hbodies
      exact ⟨by rw [content, content, htoken, hvalue, hbody], hrest⟩

/-- The lines as they are written determine the content. -/
theorem content_eq_of_lineChars_eq {t u : Tree} (ht : t.IsDisplayable) (hu : u.IsDisplayable)
    {indent : Int} (h : lineChars (t.displayLines indent) = lineChars (u.displayLines indent)) :
    t.content = u.content :=
  (content_eq_of_append_eq ht hu (congrArg (· ++ []) h)).1

/-- What a display does not show has no influence on it. -/
theorem displayLines_content (t : Tree) (indent : Int) :
    t.content.displayLines indent = t.displayLines indent := by
  induction t generalizing indent with
  | binop left operator right line ihleft ihright =>
    simp only [content, displayLines, ihleft, ihright]
  | letIn token value body line ihvalue ihbody =>
    simp only [content, displayLines, ihvalue, ihbody]
    rfl
  | int _ _ | double _ _ | bool _ _ | ident _ _ | hole => rfl

/-- At every indent the lines determine the content, and are determined by it. -/
theorem displayLines_eq_iff {t u : Tree} (ht : t.IsDisplayable) (hu : u.IsDisplayable)
    (indent : Int) : t.displayLines indent = u.displayLines indent ↔ t.content = u.content := by
  constructor
  · intro h
    exact content_eq_of_lineChars_eq ht hu (congrArg lineChars h)
  · intro h
    rw [← displayLines_content t, h, displayLines_content]

/-- The display as one text is the lines with line feeds between them. -/
theorem toList_pretty {t : Tree} (h : t.IsDisplayableNode) (indent : Int) :
    (t.pretty indent).toList ++ ['\n'] = lineChars (t.displayLines indent) := by
  have hjoin {lines : List String} (hlines : lines ≠ []) :
      ("\n".intercalate lines).toList ++ ['\n'] = lineChars lines := by
    induction lines with
    | nil => exact absurd rfl hlines
    | cons line lines ih =>
      cases lines with
      | nil => simp
      | cons next lines =>
        have hrest := ih (List.cons_ne_nil _ _)
        rw [lineChars_cons, ← hrest]
        simp
  refine hjoin ?_
  cases t with
  | hole => exact h.elim
  | _ => simp [displayLines]

/-- At every indent the text determines the content, and is determined by it. -/
theorem pretty_eq_iff {t u : Tree} (ht : t.IsDisplayable) (hu : u.IsDisplayable)
    (indent : Int) : t.pretty indent = u.pretty indent ↔ t.content = u.content := by
  constructor
  · intro h
    have hchars : lineChars (t.displayLines indent) = lineChars (u.displayLines indent) := by
      rw [← toList_pretty ht.root, h, toList_pretty hu.root]
    exact content_eq_of_lineChars_eq ht hu hchars
  · intro h
    rw [pretty, (displayLines_eq_iff ht hu indent).2 h, pretty]

end Tree

/-! ## Trees that are read -/

/-- A leaf that was read has nothing else than what is displayed, apart from its place. -/
theorem Grammar.Leaf.isDisplayable {lexeme : Lexeme} {tree : Tree} (h : Leaf lexeme tree)
    (hspells : lexeme.kind.Spells lexeme.text) : tree.IsDisplayable ∧ tree.content = tree.bare := by
  cases h with
  | int _ | double _ | true _ | false _ => exact ⟨trivial, rfl⟩
  | ident hkind =>
    rw [hkind] at hspells
    exact ⟨⟨_, rfl, by simpa using hspells⟩, rfl⟩

/-- Names that are read are words, and their tokens have the kind of a name. -/
theorem Grammar.Derivation.isDisplayable {n : Nonterminal} (d : Derivation n)
    (h : ∀ lexeme ∈ d.yield, lexeme.kind.Spells lexeme.text) :
    d.tree.IsDisplayable ∧ d.tree.content = d.tree.bare := by
  induction d with
  | letIn letWord name equals value inWord body ihvalue ihbody =>
    obtain ⟨hvalue, hvaluebare⟩ := ihvalue fun l hl => h l (by simp [yield, hl])
    obtain ⟨hbody, hbodybare⟩ := ihbody fun l hl => h l (by simp [yield, hl])
    have hspells := h name.lexeme (by simp [yield])
    rw [List.mem_singleton.1 name.kind_mem] at hspells
    refine ⟨⟨⟨_, rfl, by simpa using hspells⟩, hvalue, hbody⟩, ?_⟩
    rw [tree, Tree.content, Tree.bare, hvaluebare, hbodybare]
    rfl
  | operations inner ih | operand level inner ih => exact ih h
  | operation level left operator right ihleft ihright =>
    obtain ⟨hleft, hleftbare⟩ := ihleft fun l hl => h l (by simp [yield, hl])
    obtain ⟨hright, hrightbare⟩ := ihright fun l hl => h l (by simp [yield, hl])
    refine ⟨⟨⟨_, rfl⟩, hleft, hright⟩, ?_⟩
    rw [tree, Tree.content, Tree.bare, hleftbare, hrightbare]
  | leaf lexeme tree isLeaf => exact isLeaf.isDisplayable (h lexeme (by simp [yield]))
  | parenthesis lpar inner rpar ih => exact ih fun l hl => h l (by simp [yield, hl])

/-- A tree that was read has nothing else than what is displayed, apart from places. -/
theorem Source.isDisplayable_of_read {source : String} {t : Tree} (h : Source.read source = .ok t) :
    t.IsDisplayable ∧ t.content = t.bare := by
  obtain ⟨d, htokens, rfl, -⟩ := Source.read_eq_ok_iff.1 h
  exact d.isDisplayable fun lexeme hlexeme => (Tokenizes.spells_of_mem htokens lexeme hlexeme).1

/-- What the command line writes starts with the display of the tree. -/
theorem CommandLine.exists_outText_eq (settings : Settings) {options : Options} {source : String}
    {t : Tree} (hshow : options.showTree = true) (hread : Source.read source = .ok t) :
    ∃ rest, (runSource settings options source).transcript.outText.toList =
      lineChars (t.displayLines 0) ++ rest := by
  have hlines : (execute source (.ofBindings options.defines) options.showTree).treeLines =
      t.displayLines 0 := by
    rw [execute, hread, hshow]
    rfl
  simp only [Transcript.outText, toList_textOf]
  unfold runSource
  simp only
  split
  next value _ => exact ⟨lineChars [value.text], by rw [hlines, lineChars_append]⟩
  next =>
    split
    · exact ⟨[], by rw [hlines, List.append_nil]⟩
    · exact ⟨[], by rw [hlines, List.append_nil]⟩

/-! ## Unambiguity -/

/-- Trees with the same display have the same content, at every indent, and so do the trees of
sources for which the command line writes the same. -/
theorem displays_are_unambiguous :
    (∀ t u : Tree, t.IsDisplayable → u.IsDisplayable → ∀ indent : Int,
      (t.displayLines indent = u.displayLines indent ↔ t.content = u.content) ∧
        (t.pretty indent = u.pretty indent ↔ t.content = u.content)) ∧
      ∀ (settings settings' : Settings) (options options' : Options) (source source' : String)
        (t u : Tree), options.showTree = true → options'.showTree = true →
        Source.read source = .ok t → Source.read source' = .ok u →
        (CommandLine.runSource settings options source).transcript.outText =
          (CommandLine.runSource settings' options' source').transcript.outText →
        t.bare = u.bare := by
  refine ⟨fun t u ht hu indent => ?_, ?_⟩
  · exact ⟨Tree.displayLines_eq_iff ht hu indent, Tree.pretty_eq_iff ht hu indent⟩
  · intro settings settings' options options' source source' t u hshow hshow' hread hread' hsame
    obtain ⟨rest, hout⟩ := CommandLine.exists_outText_eq settings hshow hread
    obtain ⟨rest', hout'⟩ := CommandLine.exists_outText_eq settings' hshow' hread'
    obtain ⟨ht, hbare⟩ := Source.isDisplayable_of_read hread
    obtain ⟨hu, hbare'⟩ := Source.isDisplayable_of_read hread'
    have hchars : lineChars (t.displayLines 0) ++ rest = lineChars (u.displayLines 0) ++ rest' := by
      rw [← hout, hsame, hout']
    rw [← hbare, ← hbare']
    exact (Tree.content_eq_of_append_eq ht hu hchars).1

/-- Two ways to nest subtractions have different displays; parentheses and line breaks that change
nothing in the tree are all that two sources with the same output differ in. -/
theorem displays_are_unambiguous_nested :
    (Tree.binop (.binop (.int 1 none) (.known .sub) (.int 2 none) none) (.known .sub)
        (.int 3 none) none).pretty 3 ≠
      (Tree.binop (.int 1 none) (.known .sub)
        (.binop (.int 2 none) (.known .sub) (.int 3 none) none) none).pretty 3 ∧
      ∃ t u, Source.read "let x = 1 in x" = .ok t ∧ Source.read "let x=1\nin (x)" = .ok u ∧
        t ≠ u ∧ t.bare = u.bare := by
  have hnode (operator : TokenKind) (left right : Tree) :
      (Tree.binop left (.known operator) right none).IsDisplayableNode := ⟨operator, rfl⟩
  have hleft : (Tree.binop (.binop (.int 1 none) (.known .sub) (.int 2 none) none) (.known .sub)
      (.int 3 none) none).IsDisplayable :=
    ⟨hnode _ _ _, ⟨hnode _ _ _, trivial, trivial⟩, trivial⟩
  have hright : (Tree.binop (.int 1 none) (.known .sub)
      (.binop (.int 2 none) (.known .sub) (.int 3 none) none) none).IsDisplayable :=
    ⟨hnode _ _ _, trivial, hnode _ _ _, trivial, trivial⟩
  have hread : Source.read "let x = 1 in x" =
      .ok (.letIn ⟨.ident, .text "x", 1, 5⟩ (.int 1 (some 1))
        (.ident ⟨.ident, .text "x", 1, 14⟩ (some 1)) (some 1)) := by decide +kernel
  have hread' : Source.read "let x=1\nin (x)" =
      .ok (.letIn ⟨.ident, .text "x", 1, 5⟩ (.int 1 (some 1))
        (.ident ⟨.ident, .text "x", 2, 5⟩ (some 2)) (some 1)) := by decide +kernel
  refine ⟨fun h => ?_, _, _, hread, hread', by decide, ?_⟩
  · exact absurd (((displays_are_unambiguous.1 _ _ hleft hright 3).2).1 h) (by decide)
  · exact displays_are_unambiguous.2 {} {} { showTree := true } { showTree := true } _ _ _ _ rfl rfl
      hread hread' (by decide +kernel)

end LetLang
