import Mathlib.Data.List.DropRight
import Mathlib.Data.List.Forall2
import LetLang.Proofs.Source.Spelling

/-!
# Recorded positions are positions in the text

An offset counts the characters in front of a place of a text. Line and column of the place are
counted out from the text alone, and compared with what lexemes, nodes and rejections record.

* `Tree.DefinedBy`: the lexeme that the root of a tree is made of.
* `Source.Marks`: the node is made of the lexeme at the offset, and records its position.
-/

namespace LetLang

open Grammar

/-! ## Offsets -/

/-- The position of an offset: one more than the line feeds in front of it, and one more than the
characters behind the last of them. -/
def Position.ofOffset (cs : List Char) (offset : Nat) : Position where
  line := 1 + (cs.take offset).count '\n'
  column := 1 + ((cs.take offset).rtakeWhile (· != '\n')).length

theorem Position.after_append_singleton (p : Position) (front : List Char) (c : Char) :
    p.after (front ++ [c]) = (p.after front).next c := by
  rw [after_append]
  rfl

/-- The position that is kept up to date character by character is the one that is counted out. -/
theorem Position.start_after (front : List Char) :
    start.after front =
      ⟨1 + front.count '\n', 1 + (front.rtakeWhile (· != '\n')).length⟩ := by
  induction front using List.reverseRec with
  | nil => rfl
  | append_singleton front c ih =>
    rw [after_append_singleton, ih, List.rtakeWhile_concat, List.count_append]
    by_cases hc : c = '\n'
    · simp [next, hc, Nat.add_assoc]
    · simp [next, hc, Nat.add_assoc]

/-- The position that reading has reached is the one counted from the text. -/
theorem Position.start_after_take (cs : List Char) (offset : Nat) :
    start.after (cs.take offset) = ofOffset cs offset := start_after _

/-! ## Texts that are read up to a place -/

/-- The front of a text, read in a context as the words with layout around them. It leads to another
context, and to a place where a lexeme stands or the text ends. -/
inductive Consumes : Context → List Char → List Word → Context → List Char → Prop where
  | layout {context : Context} {gap rest : List Char} (hgap : Gap gap rest) :
      Consumes context gap [] context rest
  | lexeme {context reached : Context} {gap text front rest : List Char} {kind : TokenKind}
      {words : List Word} (hgap : Gap gap (text ++ (front ++ rest)))
      (hreads : context.Reads kind text (front ++ rest))
      (hfront : Consumes (context.next kind) front words reached rest) :
      Consumes context (gap ++ (text ++ front)) (⟨kind, text⟩ :: words) reached rest

structure Tokenizes.Holds (context : Context) (position : Position) (cs : List Char)
    (lexeme : Lexeme) (offset : Nat) : Prop where
  position_eq : lexeme.position = position.after (cs.take offset)
  reads : ∃ words reached rest, Consumes context (cs.take offset) words reached (cs.drop offset) ∧
    cs.drop offset = lexeme.text ++ rest ∧ reached.Reads lexeme.kind lexeme.text rest

namespace Tokenizes

variable {context : Context} {position : Position} {gap text rest : List Char} {kind : TokenKind}

theorem Holds.first (hgap : Gap gap (text ++ rest)) (hreads : context.Reads kind text rest) :
    Holds context position (gap ++ (text ++ rest)) ⟨kind, text, position.after gap⟩ gap.length where
  position_eq := by simp
  reads := ⟨[], context, rest, by simpa using Consumes.layout hgap, by simp, hreads⟩

theorem Holds.later (hgap : Gap gap (text ++ rest)) (hreads : context.Reads kind text rest)
    {lexeme : Lexeme} {offset : Nat}
    (h : Holds (context.next kind) ((position.after gap).after text) rest lexeme offset) :
    Holds context position (gap ++ (text ++ rest)) lexeme ((gap ++ text).length + offset) := by
  have htake : (gap ++ (text ++ rest)).take ((gap ++ text).length + offset) =
      gap ++ (text ++ rest.take offset) := by
    rw [← List.append_assoc, List.take_length_add_append, List.append_assoc]
  have hdrop : (gap ++ (text ++ rest)).drop ((gap ++ text).length + offset) = rest.drop offset := by
    rw [← List.append_assoc, List.drop_length_add_append]
  rcases h.reads with ⟨words, reached, behind, hconsumes, hsplit, hlexeme⟩
  refine ⟨?_, ⟨kind, text⟩ :: words, reached, behind, ?_, ?_, hlexeme⟩
  · rw [htake, h.position_eq, Position.after_append, Position.after_append]
  · rw [htake, hdrop]
    rw [← List.take_append_drop offset rest] at hgap hreads
    exact .lexeme hgap hreads hconsumes
  · rw [hdrop, hsplit]

/-- The lexemes of a text stand at offsets that increase. -/
theorem exists_offsets {cs : List Char} {lexemes : List Lexeme}
    (h : Tokenizes context position cs lexemes) :
    ∃ offsets : List Nat, offsets.Pairwise (· < ·) ∧
      List.Forall₂ (Holds context position cs) lexemes offsets := by
  induction h with
  | done _ => exact ⟨[], .nil, .nil⟩
  | @lexeme context position gap text rest kind lexemes hgap hreads _ ih =>
    rcases ih with ⟨offsets, hincreasing, hholds⟩
    refine ⟨gap.length :: offsets.map ((gap ++ text).length + ·), ?_, ?_⟩
    · -- The lexeme has a text, so everything behind it has a greater offset.
      have hpos : 0 < text.length := List.length_pos_iff.2 hreads.text_ne_nil
      refine .cons ?_ (hincreasing.map _ fun a b hlt => Nat.add_lt_add_left hlt _)
      intro offset hoffset
      rcases List.mem_map.1 hoffset with ⟨own, -, rfl⟩
      rw [List.length_append]
      omega
    · refine .cons (Holds.first hgap hreads) ?_
      rw [List.forall₂_map_right_iff]
      exact hholds.imp fun lexeme offset => Holds.later hgap hreads

/-- A text without lexemes is layout. -/
theorem gap_of_nil {cs : List Char} (h : Tokenizes context position cs []) : Gap cs [] := by
  cases h with
  | done hgap => exact hgap

end Tokenizes

namespace Source

/-- Reading gets to the offset: in front of it stand the words, with layout around them. -/
def Reaches (source : String) (offset : Nat) (words : List Word) (context : Context) : Prop :=
  Consumes .expression (source.toList.take offset) words context (source.toList.drop offset)

/-- A lexeme is read at the offset. -/
def LexemeAt (source : String) (offset : Nat) (kind : TokenKind) (text : List Char) : Prop :=
  ∃ words context rest, Reaches source offset words context ∧
    source.toList.drop offset = text ++ rest ∧ context.Reads kind text rest

end Source

/-! ## Nodes -/

namespace Tree

/-- The nodes in the order of the source: an operation stands between its operands, and a `let`
where its name stands. -/
def nodes : Tree → List Tree
  | .binop left operator right line => left.nodes ++ .binop left operator right line :: right.nodes
  | .letIn name value body line => .letIn name value body line :: (value.nodes ++ body.nodes)
  | node => [node]

inductive DefinedBy : Tree → TokenKind → List Char → Prop where
  | int (text : List Char) (line : Option Int) : DefinedBy (.int (digitsValue text) line) .int text
  | double (text : List Char) (line : Option Int) :
      DefinedBy (.double (doubleOfDigits text) line) .double text
  | true (text : List Char) (line : Option Int) : DefinedBy (.bool true line) .trueWord text
  | false (text : List Char) (line : Option Int) : DefinedBy (.bool false line) .falseWord text
  | ident {token : Token} {text : List Char} (h : token.payload = .text (String.ofList text))
      (line : Option Int) : DefinedBy (.ident token line) .ident text
  | binop (left right : Tree) (kind : TokenKind) (text : List Char) (line : Option Int) :
      DefinedBy (.binop left (.known kind) right line) kind text
  | letIn {token : Token} {text : List Char} (h : token.payload = .text (String.ofList text))
      (value body : Tree) (line : Option Int) : DefinedBy (.letIn token value body line) .ident text

def token? : Tree → Option Token
  | .ident token _ => some token
  | .letIn token _ _ _ => some token
  | _ => none

/-- The node is made of the lexeme, and records its position. -/
structure MadeOf (node : Tree) (lexeme : Lexeme) : Prop where
  definedBy : node.DefinedBy lexeme.kind lexeme.text
  line_eq : node.line = some (lexeme.position.line : Int)
  token_eq : ∀ token ∈ node.token?,
    token.line = lexeme.position.line ∧ token.column = lexeme.position.column

theorem madeOf_binop (operator : Lexeme) (left right : Tree) :
    (binop left (.known operator.kind) right (some operator.line)).MadeOf operator := by
  refine ⟨.binop _ _ _ _ _, rfl, ?_⟩
  intro token htoken
  cases htoken

theorem madeOf_letIn {name : Lexeme} (h : name.kind = .ident) (value body : Tree) :
    (letIn name.nameToken value body (some name.line)).MadeOf name := by
  refine ⟨?_, rfl, ?_⟩
  · rw [h]
    exact .letIn rfl _ _ _
  · intro token htoken
    cases htoken
    exact ⟨rfl, rfl⟩

end Tree

namespace Grammar

theorem Leaf.nodes_eq {lexeme : Lexeme} {tree : Tree} (h : Leaf lexeme tree) :
    tree.nodes = [tree] := by
  cases h with
  | int _ | double _ | true _ | false _ | ident _ => simp only [Tree.nodes]

theorem Leaf.definedBy {lexeme : Lexeme} {tree : Tree} (h : Leaf lexeme tree) :
    tree.DefinedBy lexeme.kind lexeme.text := by
  cases h with
  | int hkind =>
    rw [hkind]
    exact .int _ _
  | double hkind =>
    rw [hkind]
    exact .double _ _
  | true hkind =>
    rw [hkind]
    exact .true _ _
  | false hkind =>
    rw [hkind]
    exact .false _ _
  | ident hkind =>
    rw [hkind]
    exact .ident rfl _

theorem Leaf.madeOf {lexeme : Lexeme} {tree : Tree} (h : Leaf lexeme tree) :
    tree.MadeOf lexeme := by
  refine ⟨h.definedBy, ?_, ?_⟩
  · cases h with
    | int _ | double _ | true _ | false _ | ident _ => rfl
  · intro token htoken
    cases h with
    | int _ | double _ | true _ | false _ => cases htoken
    | ident _ =>
      cases htoken
      exact ⟨rfl, rfl⟩

/-- Nodes are made of lexemes of all kinds but the words and symbols that only hold others
together. -/
def makesNode (lexeme : Lexeme) : Bool :=
  decide (lexeme.kind ∉ [.letWord, .inWord, .assign, .lpar, .rpar])

theorem makesNode_of_leaf {lexeme : Lexeme} {tree : Tree} (h : Leaf lexeme tree) :
    makesNode lexeme = true := by
  cases h with
  | int h | double h | true h | false h | ident h =>
    rw [makesNode, h]
    rfl

theorem makesNode_of_operator {level : Level} {lexeme : Lexeme}
    (h : lexeme.kind ∈ level.operators) : makesNode lexeme = true := by
  have htable : ∀ kind ∈ level.operators,
      kind ∉ ([.letWord, .inWord, .assign, .lpar, .rpar] : List TokenKind) := by
    cases level <;> decide
  exact decide_eq_true (htable _ h)

/-- The nodes of a tree are made of the lexemes of its derivation that make nodes, in their
order. -/
theorem Derivation.nodes_madeOf {n : Nonterminal} (d : Derivation n) :
    List.Forall₂ Tree.MadeOf d.tree.nodes (d.yield.filter makesNode) := by
  induction d with
  | letIn letWord name equals value inWord body ihvalue ihbody =>
    -- Of the lexemes of the `let` itself only the name makes a node.
    have hyield : (letIn letWord name equals value inWord body).yield.filter makesNode =
        name.lexeme :: (value.yield.filter makesNode ++ body.yield.filter makesNode) := by
      simp [yield, makesNode, letWord.kind_eq, name.kind_eq, equals.kind_eq, inWord.kind_eq]
    rw [hyield, tree, Tree.nodes]
    exact .cons (Tree.madeOf_letIn name.kind_eq _ _) (List.rel_append ihvalue ihbody)
  | operations inner ih | operand level inner ih => exact ih
  | operation level left operator right ihleft ihright =>
    have hoperator := makesNode_of_operator operator.kind_mem
    rw [yield, List.filter_append, List.filter_cons_of_pos hoperator, tree, Tree.nodes]
    exact List.rel_append ihleft (.cons (Tree.madeOf_binop _ _ _) ihright)
  | leaf lexeme tree isLeaf =>
    rw [yield, List.filter_cons_of_pos (makesNode_of_leaf isLeaf), Derivation.tree, isLeaf.nodes_eq]
    exact .cons isLeaf.madeOf .nil
  | parenthesis lpar inner rpar ih =>
    have hyield : (parenthesis lpar inner rpar).yield.filter makesNode =
        inner.yield.filter makesNode := by
      simp [yield, makesNode, lpar.kind_eq, rpar.kind_eq]
    rw [hyield]
    exact ih

/-- By induction on the derivation: nodes in the order of the source are made of lexemes in their
order. -/
theorem Derivation.exists_lexemes {n : Nonterminal} (d : Derivation n) :
    ∃ lexemes : List Lexeme, List.Forall₂ Tree.MadeOf d.tree.nodes lexemes ∧
      lexemes.Sublist d.yield :=
  ⟨_, d.nodes_madeOf, List.filter_sublist⟩

end Grammar

/-- What is related to part of a list is related to part of every list that the whole is related
to. -/
theorem forall₂_of_sublist {α β γ : Type} {r : α → β → Prop} {s : β → γ → Prop}
    {xs : List α} {ys all : List β} {zs : List γ} (hxs : List.Forall₂ r xs ys)
    (hys : ys.Sublist all) (hall : List.Forall₂ s all zs) :
    ∃ part, part.Sublist zs ∧ List.Forall₂ (fun x z => ∃ y, r x y ∧ s y z) xs part := by
  induction hys generalizing xs zs with
  | slnil =>
    cases hxs
    exact ⟨[], List.nil_sublist _, .nil⟩
  | cons y _ ih =>
    rcases hall with _ | ⟨_, hall⟩
    rcases ih hxs hall with ⟨part, hpart, hrelated⟩
    exact ⟨part, .cons _ hpart, hrelated⟩
  | cons_cons y _ ih =>
    rcases hall with _ | ⟨hy, hall⟩
    rcases hxs with _ | ⟨hx, hxs⟩
    rcases ih hxs hall with ⟨part, hpart, hrelated⟩
    exact ⟨_ :: part, .cons_cons _ hpart, .cons ⟨y, hx, hy⟩ hrelated⟩

structure Source.Marks (source : String) (node : Tree) (offset : Nat) : Prop where
  lexemeAt : ∃ kind text, node.DefinedBy kind text ∧ kind.Spells text ∧
    LexemeAt source offset kind text
  line_eq : node.line = some ((Position.ofOffset source.toList offset).line : Int)
  token_eq : ∀ token ∈ node.token?,
    token.line = (Position.ofOffset source.toList offset).line ∧
      token.column = (Position.ofOffset source.toList offset).column

/-- A node made of a lexeme of the text marks the offset of the lexeme. -/
theorem Source.marks_of_holds {source : String} {node : Tree} {lexeme : Lexeme} {offset : Nat}
    (hmade : node.MadeOf lexeme)
    (hheld : Tokenizes.Holds .expression .start source.toList lexeme offset) :
    Marks source node offset := by
  have hposition : lexeme.position = .ofOffset source.toList offset := by
    rw [hheld.position_eq, Position.start_after_take]
  rcases hheld.reads with ⟨words, context, rest, hreaches, htext, hreads⟩
  have hlexeme : LexemeAt source offset lexeme.kind lexeme.text :=
    ⟨words, context, rest, hreaches, htext, hreads⟩
  refine ⟨⟨_, _, hmade.definedBy, hreads.spells, hlexeme⟩, ?_, ?_⟩
  · rw [← hposition, hmade.line_eq]
  · rw [← hposition]
    exact hmade.token_eq

/-! ## Rejections -/

namespace Stream

variable {context : Context} {here : Position} {front : List Char} {lexeme : Lexeme}
  {lexemes : List Lexeme} {ending : Ending}

/-- Where a lexeme is read, the rest of the stream is read behind it. -/
theorem ofFront_eq_cons (h : ofFront context here front = ⟨lexeme :: lexemes, ending⟩) :
    lexeme.position = here ∧ ∃ rest, front = lexeme.text ++ rest ∧
      context.Reads lexeme.kind lexeme.text rest ∧
      ofChars (context.next lexeme.kind) (here.after lexeme.text) rest = ⟨lexemes, ending⟩ := by
  cases hmatch : context.match? front with
  | some m =>
    rw [ofFront_of_match hmatch] at h
    cases h
    rcases Context.match?_eq_some_iff.1 hmatch with ⟨hsplit, hreads⟩
    exact ⟨rfl, m.rest, hsplit.symm, hreads, rfl⟩
  | none =>
    cases front with
    | nil => cases h
    | cons c rest => cases hany : anyLexeme? (c :: rest) <;> simp [ofFront, hmatch, hany] at h

/-- Where no lexeme is read, the text ends, or something stands there that is not acceptable. -/
theorem ofFront_eq_nil (h : ofFront context here front = ⟨[], ending⟩) :
    (front = [] ∧ ending = .complete) ∨
      (∃ m, anyLexeme? front = some m ∧ ending = .unexpected ⟨m.kind, m.text, here⟩) ∨
      ∃ c, front.head? = some c ∧ ending = .stray c here := by
  cases front with
  | nil =>
    cases h
    exact .inl ⟨rfl, rfl⟩
  | cons c rest =>
    cases hmatch : context.match? (c :: rest) with
    | some m =>
      rw [ofFront_of_match hmatch] at h
      cases h
    | none =>
      cases hany : anyLexeme? (c :: rest) with
      | some m =>
        simp only [ofFront, hmatch, hany, mk.injEq, true_and] at h
        exact .inr (.inl ⟨m, rfl, h.symm⟩)
      | none =>
        simp only [ofFront, hmatch, hany, mk.injEq, true_and] at h
        exact .inr (.inr ⟨c, rfl, h.symm⟩)

/-- The first lexemes of a text lead to a place, from which the others are read. -/
theorem exists_front {position : Position} {cs : List Char} {before after : List Lexeme}
    (h : (ofChars context position cs).lexemes = before ++ after) :
    ∃ front rest reached, cs = front ++ rest ∧
      Consumes context front (before.map Lexeme.word) reached rest ∧
      ofFront reached (position.after front) rest =
        ⟨after, (ofChars context position cs).ending⟩ := by
  induction before generalizing context position cs with
  | nil =>
    refine ⟨layout cs, afterLayout cs, context, (layout_append_afterLayout cs).symm,
      .layout (gap_layout cs), ?_⟩
    rw [← ofChars_eq_ofFront, ← List.nil_append after, ← h]
  | cons lexeme before ih =>
    have hfront : ofFront context (position.after (layout cs)) (afterLayout cs) =
        ⟨lexeme :: (before ++ after), (ofChars context position cs).ending⟩ := by
      rw [← ofChars_eq_ofFront, ← List.cons_append, ← h]
    rcases ofFront_eq_cons hfront with ⟨-, rest, hsplit, hreads, htail⟩
    rcases ih (congrArg Stream.lexemes htail) with ⟨front, behind, reached, rfl, hconsumes, hrest⟩
    have hgap := gap_layout cs
    have hcs := layout_append_afterLayout cs
    rw [hsplit] at hgap hcs
    refine ⟨layout cs ++ (lexeme.text ++ front), behind, reached, ?_,
      .lexeme hgap hreads hconsumes, ?_⟩
    · simpa using hcs.symm
    · rw [Position.after_append, Position.after_append, hrest, htail]

end Stream

/-- The lexeme that is refused is one of those that were read. -/
theorem Progress.mem_of_run_error {progress : Progress} {lexemes : List Lexeme} {lexeme : Lexeme}
    (h : progress.run lexemes = .error lexeme) : lexeme ∈ lexemes := by
  induction lexemes generalizing progress with
  | nil => cases h
  | cons first lexemes ih =>
    simp only [run] at h
    split at h
    · exact List.mem_cons_of_mem _ (ih h)
    · cases h
      exact List.mem_cons_self

namespace ParseError

def unexpectedAt (position : Position) (terminal text : String) : ParseError where
  message := "Unexpected token Token('" ++ terminal ++ "', '" ++ text ++ "') at line " ++
    numeral position.line ++ ", column " ++ numeral position.column ++ "."
  line := some position.line
  column := some position.column

/-- The error about a character that starts no lexeme. Its message keeps to one line, so it ends in
front of a character that would break it. -/
def strayAt (position : Position) (c : Char) : ParseError where
  message :=
    if breaksMessage c then "No terminal matches '"
    else
      "No terminal matches '" ++ String.singleton c ++
        "' in the current parser context, at line " ++ numeral position.line ++ " col " ++
        numeral position.column
  line := some position.line
  column := some position.column

end ParseError

namespace Rejection

/-- The marks around the text of a token may be taken to belong to the message. -/
theorem tokenMessage_eq (terminal text line column : String) :
    "Unexpected token Token('" ++ terminal ++ "', " ++ ("'" ++ text ++ "'") ++ ") at line " ++
        line ++ ", column " ++ column ++ "." =
      "Unexpected token Token('" ++ terminal ++ "', '" ++ text ++ "') at line " ++ line ++
        ", column " ++ column ++ "." := by
  have hopen : "', '" = "', " ++ "'" := by decide
  have hclose : "') at line " = "'" ++ ") at line " := by decide
  rw [hopen, hclose]
  simp only [String.append_assoc]

/-- No escape is needed for the text of a lexeme. -/
theorem toParseError_unexpected {lexeme : Lexeme} (h : lexeme.kind.Spells lexeme.text) :
    (unexpected lexeme).toParseError =
      .unexpectedAt lexeme.position lexeme.kind.terminal (String.ofList lexeme.text) := by
  have hmessage := message_unexpected lexeme
  rw [h.quoted_eq, tokenMessage_eq] at hmessage
  calc (unexpected lexeme).toParseError
      = ⟨(unexpected lexeme).message, some lexeme.position.line, some lexeme.position.column⟩ := rfl
    _ = .unexpectedAt lexeme.position lexeme.kind.terminal (String.ofList lexeme.text) := by
        rw [hmessage]
        rfl

theorem toParseError_incomplete (position : Position) :
    (incomplete position).toParseError = .unexpectedAt position "$END" "" := by
  have hmessage := message_incomplete position
  have hempty : quoted "" = "'" ++ "" ++ "'" := by decide
  rw [hempty, tokenMessage_eq] at hmessage
  calc (incomplete position).toParseError
      = ⟨(incomplete position).message, some position.line, some position.column⟩ := rfl
    _ = .unexpectedAt position "$END" "" := by
        rw [hmessage]
        rfl

theorem toParseError_stray (c : Char) (position : Position) :
    (stray c position).toParseError = .strayAt position c := rfl

end Rejection

/-- The message and the position of an error are those of an offset that reading gets to. -/
inductive ParseError.PlacedIn (source : String) : ParseError → Prop where
  /-- The lexeme that the message quotes stands at the offset. -/
  | unexpected {offset : Nat} {words : List Word} {context : Context} {kind : TokenKind}
      {text : List Char} (hreaches : Source.Reaches source offset words context)
      (htext : text <+: source.toList.drop offset) (hspells : kind.Spells text) :
      PlacedIn source
        (.unexpectedAt (.ofOffset source.toList offset) kind.terminal (String.ofList text))
  /-- The character that the message quotes stands at the offset. -/
  | stray {offset : Nat} {words : List Word} {context : Context} {c : Char}
      (hreaches : Source.Reaches source offset words context)
      (hchar : (source.toList.drop offset).head? = some c) :
      PlacedIn source (.strayAt (.ofOffset source.toList offset) c)
  /-- The text ends too early: behind the lexeme at the offset there is nothing but layout. -/
  | ended {offset : Nat} {kind : TokenKind} {text gap : List Char}
      (hlexeme : Source.LexemeAt source offset kind text)
      (htext : source.toList.drop offset = text ++ gap) (hgap : Gap gap []) :
      PlacedIn source (.unexpectedAt (.ofOffset source.toList offset) "$END" "")
  /-- The text holds nothing but layout. -/
  | empty (hgap : Gap source.toList []) :
      PlacedIn source (.unexpectedAt .start "$END" "")

namespace Source

variable {source : String}

/-- What the first lexemes of a source text lead to, with the offset of the place. -/
theorem exists_reaches {before after : List Lexeme}
    (h : (Stream.ofSource source).lexemes = before ++ after) :
    ∃ offset context, Reaches source offset (before.map Lexeme.word) context ∧
      Stream.ofFront context (.ofOffset source.toList offset) (source.toList.drop offset) =
        ⟨after, (Stream.ofSource source).ending⟩ := by
  rcases Stream.exists_front h with ⟨front, rest, context, hsplit, hconsumes, hrest⟩
  have htake : source.toList.take front.length = front := by simp [hsplit]
  have hdrop : source.toList.drop front.length = rest := by simp [hsplit]
  refine ⟨front.length, context, ?_, ?_⟩
  · rw [Reaches, htake, hdrop]
    exact hconsumes
  · rw [← Position.start_after_take, htake, hdrop]
    exact hrest

/-- The case of a lexeme, from where reading has got to. -/
theorem placedIn_of_unexpected {lexeme : Lexeme} {offset : Nat} {words : List Word}
    {context : Context} (hreaches : Reaches source offset words context)
    (hposition : lexeme.position = .ofOffset source.toList offset)
    (htext : lexeme.text <+: source.toList.drop offset) (hspells : lexeme.kind.Spells lexeme.text) :
    (Rejection.unexpected lexeme).toParseError.PlacedIn source := by
  rw [Rejection.toParseError_unexpected hspells, hposition]
  exact .unexpected hreaches htext hspells

/-- A lexeme that the grammar refuses stands where its position says. -/
theorem placedIn_of_refused {lexeme : Lexeme}
    (hlexeme : lexeme ∈ (Stream.ofSource source).lexemes) :
    (Rejection.unexpected lexeme).toParseError.PlacedIn source := by
  rcases List.append_of_mem hlexeme with ⟨before, after, hsplit⟩
  rcases exists_reaches hsplit with ⟨offset, context, hreaches, hfront⟩
  rcases Stream.ofFront_eq_cons hfront with ⟨hposition, rest, htext, hreads, -⟩
  exact placedIn_of_unexpected hreaches hposition (htext ▸ List.prefix_append _ _) hreads.spells

/-- A lexeme or a character that the lexer refuses stands where its position says. -/
theorem placedIn_of_ending :
    (∀ lexeme, (Stream.ofSource source).ending = .unexpected lexeme →
      (Rejection.unexpected lexeme).toParseError.PlacedIn source) ∧
    ∀ c position, (Stream.ofSource source).ending = .stray c position →
      (Rejection.stray c position).toParseError.PlacedIn source := by
  have hall : (Stream.ofSource source).lexemes = (Stream.ofSource source).lexemes ++ [] := by simp
  rcases exists_reaches hall with ⟨offset, context, hreaches, hfront⟩
  rcases Stream.ofFront_eq_nil hfront with ⟨-, hcomplete⟩ | ⟨m, hany, hending⟩ | ⟨c, hc, hending⟩
  · simp [hcomplete]
  · refine ⟨?_, by simp [hending]⟩
    intro lexeme hlexeme
    cases hending.symm.trans hlexeme
    have htext := (anyLexeme?_splits hany).1
    exact placedIn_of_unexpected hreaches rfl (htext ▸ List.prefix_append _ _)
      (anyLexeme?_spells hany)
  · refine ⟨by simp [hending], ?_⟩
    intro d position hstray
    cases hending.symm.trans hstray
    rw [Rejection.toParseError_stray]
    exact .stray hreaches hc

/-- A text that ends too early has the position of its last lexeme, or of its first character. -/
theorem placedIn_of_lastPosition (h : (Stream.ofSource source).ending = .complete) :
    (Rejection.incomplete (lastPosition (Stream.ofSource source).lexemes)).toParseError.PlacedIn
      source := by
  rw [Rejection.toParseError_incomplete]
  have htokens : Tokenized source (Stream.ofSource source).lexemes := tokenizes_of_complete _ _ _ h
  rcases List.eq_nil_or_concat (Stream.ofSource source).lexemes with hnil | ⟨before, last, hlast⟩
  · rw [hnil] at htokens ⊢
    exact .empty htokens.gap_of_nil
  · rw [List.concat_eq_append] at hlast
    rcases exists_reaches hlast with ⟨offset, context, hreaches, hfront⟩
    rcases Stream.ofFront_eq_cons hfront with ⟨hposition, rest, htext, hreads, hrest⟩
    -- Nothing is read behind the last lexeme, so the rest of the text is layout.
    rw [h, Stream.tokenizes_iff] at hrest
    have hend : lastPosition (Stream.ofSource source).lexemes = .ofOffset source.toList offset := by
      rw [hlast, lastPosition, List.getLast?_concat, ← hposition]
      rfl
    rw [hend]
    exact .ended ⟨_, context, rest, hreaches, htext, hreads⟩ htext hrest.gap_of_nil

/-- Every rejection is placed at an offset of the text. -/
theorem placedIn_of_parse {rejection : Rejection} (h : parse source = .error rejection) :
    rejection.toParseError.PlacedIn source := by
  rw [parse, parseStream] at h
  split at h
  next lexeme hrun =>
    cases h
    exact placedIn_of_refused (Progress.mem_of_run_error hrun)
  next progress hrun =>
    split at h
    next lexeme hending =>
      cases h
      exact placedIn_of_ending.1 lexeme hending
    next c position hending =>
      cases h
      exact placedIn_of_ending.2 c position hending
    next hending =>
      split at h
      · cases h
      · cases h
        exact placedIn_of_lastPosition hending

/-- Positions that are recorded are positions in the text. The nodes of a tree that is read, in the
order of the source, are made of the lexemes at offsets that increase, and they record the lines of
these offsets, names and binders their columns as well. An error is about the token or the character
at the offset whose line and column it carries; everything in front of the offset has been read. An
error about the end of the text has the position of the last token, or of the first character. -/
theorem positions_are_true (source : String) :
    (∀ tree, read source = .ok tree →
      ∃ offsets : List Nat, offsets.Pairwise (· < ·) ∧
        List.Forall₂ (Marks source) tree.nodes offsets) ∧
    ∀ rejection, read source = .error (.rejected rejection) →
      rejection.toParseError.PlacedIn source := by
  constructor
  · intro tree hread
    rcases read_eq_ok_iff.1 hread with ⟨d, htokens, rfl, -⟩
    rcases htokens.exists_offsets with ⟨offsets, hincreasing, hholds⟩
    rcases d.exists_lexemes with ⟨lexemes, hnodes, hlexemes⟩
    rcases forall₂_of_sublist hnodes hlexemes hholds with ⟨part, hpart, hmarks⟩
    refine ⟨part, hincreasing.sublist hpart, hmarks.imp ?_⟩
    rintro node offset ⟨lexeme, hmade, hheld⟩
    exact marks_of_holds hmade hheld
  · intro rejection hread
    exact placedIn_of_parse (read_eq_rejected_iff.1 hread)

end Source

end LetLang
