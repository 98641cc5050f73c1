import JavaEdit.Proofs.RoundTrip.Expressions

/-!
# Precedence climbing

A row of names and literals with operators between them is read as the one tree that the precedences of
its operators prescribe: its traversal from left to right is the row, on the left of an operator stand
operators that bind as tightly or more tightly, and on its right those that bind more tightly
(`OperatorTree.Graded`). Every row has such a tree, which grows at its right edge (`OperatorTree.push`), and
no operand of it needs parentheses, so its words are read as every expression is. Nothing nests in a row: it
is read at any length.
-/

namespace JavaEdit

open Layout Lexer List
open ParserState (firstWord)

/-! ## Rows of operands -/

/-- An operand of one word. -/
inductive Atom where
  | name (n : String)
  | literal (value : Literal)

namespace Atom

def word : Atom → Token
  | name n => nameWord n
  | literal value => literalWord value

def kind {ι : Type} : Atom → Kind ι
  | name n => .name n
  | literal value => .literal value

/-- Names are identifiers, and literals are written as one word. -/
def Fits : Atom → Prop
  | name n => isIdentifier n = true
  | literal value => value.IsWritten

end Atom

abbrev Row := List (BinaryOperator × Atom)

namespace Row

def words (row : Row) : List Token := row.flatMap fun p => [sign p.1.symbol, p.2.word]

/-- The words with a blank in front of each. -/
def text : Row → String
  | [] => ""
  | (op, x) :: row => " " ++ op.symbol ++ " " ++ x.word.text ++ text row

/-- Operators that join expressions, and operands of one word. -/
def Fits (row : Row) : Prop := ∀ p ∈ row, p.1 ≠ .instanceOf ∧ p.2.Fits

end Row

/-- Operands joined by binary operators. -/
inductive OperatorTree where
  | operand (x : Atom)
  | apply (op : BinaryOperator) (left right : OperatorTree)

namespace OperatorTree

/-- The operator at the root. -/
def operator? : OperatorTree → Option BinaryOperator
  | operand _ => none
  | apply op _ _ => some op

/-- The first operand, and the operators behind it with their operands. -/
def inOrder : OperatorTree → Atom × Row
  | operand x => (x, [])
  | apply op left right => (left.inOrder.1, left.inOrder.2 ++ (op, right.inOrder.1) :: right.inOrder.2)

/-- Every operator binds at most as tightly as the one on its left side, and less tightly than the one on
its right side. -/
def Graded : OperatorTree → Prop
  | operand _ => True
  | apply op left right => left.Graded ∧ right.Graded ∧
      (∀ inner ∈ left.operator?, op.precedence ≤ inner.precedence) ∧
      ∀ inner ∈ right.operator?, op.precedence < inner.precedence

/-- The tree of an operation, with the same label everywhere. -/
def tree {ι : Type} (label : ι) : OperatorTree → Tree ι
  | operand x => .node label x.kind
  | apply op left right => .node label (.binary op (left.tree label) (right.tree label))

end OperatorTree

namespace OperatorTree

variable {t : OperatorTree} {op : BinaryOperator} {y : Atom}

/-! ## Trees of rows -/

/-- One more operator with its operand, behind all others. -/
def push : OperatorTree → BinaryOperator → Atom → OperatorTree
  | operand x, op, y => apply op (operand x) (operand y)
  | apply o left right, op, y =>
    if op.precedence ≤ o.precedence then apply op (apply o left right) (operand y)
    else apply o left (right.push op y)

theorem inOrder_push (t : OperatorTree) (op : BinaryOperator) (y : Atom) :
    (t.push op y).inOrder = (t.inOrder.1, t.inOrder.2 ++ [(op, y)]) := by
  induction t with
  | operand x => rfl
  | apply o left right _ ih =>
    rw [push]
    split
    · rfl
    · simp [inOrder, ih]

theorem operator?_push (t : OperatorTree) (op : BinaryOperator) (y : Atom) :
    (t.push op y).operator? = some op ∨ (t.push op y).operator? = t.operator? := by
  cases t with
  | operand x => exact .inl rfl
  | apply o left right =>
    rw [push]
    split
    · exact .inl rfl
    · exact .inr rfl

theorem Graded.push (h : t.Graded) : (t.push op y).Graded := by
  induction t with
  | operand x => exact ⟨trivial, trivial, by rintro _ ⟨⟩, by rintro _ ⟨⟩⟩
  | apply o left right _ ih =>
    rw [OperatorTree.push]
    split
    · rename_i looser
      exact ⟨h, trivial, by rintro _ ⟨⟩; exact looser, by rintro _ ⟨⟩⟩
    · rename_i tighter
      obtain ⟨onLeft, onRight, low, high⟩ := h
      refine ⟨onLeft, ih onRight, low, fun inner root => ?_⟩
      rcases right.operator?_push op y with last | same
      · rw [last] at root
        cases root
        exact Nat.lt_of_not_le tighter
      · exact high inner (same ▸ root)

theorem exists_graded (x : Atom) (row : Row) : ∃ t : OperatorTree, t.inOrder = (x, row) ∧ t.Graded := by
  induction row using List.reverseRecOn with
  | nil => exact ⟨operand x, rfl, trivial⟩
  | append_singleton row p ih =>
    obtain ⟨t, order, graded⟩ := ih
    exact ⟨t.push p.1 p.2, by rw [inOrder_push, order], graded.push⟩

/-! ## Reading -/

/-- A tree binds as tightly as the operator at its root. -/
theorem le_precedence {least : Nat} (le : least ≤ 15) (h : ∀ op ∈ t.operator?, least ≤ op.precedence) :
    least ≤ precedence (t.tree ([] : List Comment)).kind := by
  cases t with
  | operand x => cases x <;> exact le
  | apply op left right => exact h op rfl

open Parser in
/-- The operands of a graded tree stand without parentheses. -/
theorem readsAs_tree {deep : Nat → Prop} [Limited deep] (graded : t.Graded) (first : t.inOrder.1.Fits)
    (others : t.inOrder.2.Fits) :
    ReadsAs (precedence (t.tree ([] : List Comment)).kind) (t.inOrder.1.word :: t.inOrder.2.words) (t.tree []) deep := by
  induction t with
  | operand x =>
    cases x with
    | name n => exact (readsAs_spine (by decide : 14 ≤ 15)).mpr (reads_name first)
    | literal value => exact (readsAs_spine (by decide : 14 ≤ 15)).mpr (reads_literal first)
  | apply op left right onLeft onRight =>
    obtain ⟨gradedLeft, gradedRight, low, high⟩ := graded
    obtain ⟨fitsLeft, behind⟩ := forall_mem_append.mp others
    obtain ⟨⟨(notTest : op ≠ .instanceOf), fitsFirst⟩, fitsRight⟩ := forall_mem_cons.mp behind
    have words : (apply op left right).inOrder.1.word :: (apply op left right).inOrder.2.words =
        (left.inOrder.1.word :: left.inOrder.2.words) ++ sign op.symbol ::
          (right.inOrder.1.word :: right.inOrder.2.words) := by
      simp [inOrder, Row.words]
    have bounds := precedence_bounds op
    rw [words]
    refine reads_binary notTest ((onLeft gradedLeft first fitsLeft).mono (le_precedence (by omega) low))
      ((onRight gradedRight fitsFirst fitsRight).mono (le_precedence (by omega) high)) fun _ => ?_
    cases left with
    | operand x => cases x <;> rfl
    | apply o _ _ =>
      have notTest : o ≠ .instanceOf := (fitsLeft _ (mem_append_right _ (.head _))).1
      unfold endsWithTypeName
      split
      · rename_i kind
        cases kind
        exact absurd rfl notTest
      · rfl

end OperatorTree

/-- An operand is one token in front of a blank and at the end. -/
theorem Lexer.LexesOn.atom {base : List Char → List Token → Prop} {rest : List Char} {ws : List Token} {x : Atom}
    (h : LexesOn base rest ws) (fits : x.Fits) (apart : ∀ c ∈ rest.head?, c = ' ') :
    LexesOn base (x.word.text.toList ++ rest) (x.word :: ws) := by
  have heads : ∀ {p : Char → Bool}, p ' ' → Heads p rest := fun blank c first => by
    rw [apart c first]
    exact blank
  cases x with
  | name n =>
    have name : isName n := by
      exact (Bool.and_eq_true_iff.mp fits).1
    exact h.name n name (heads rfl)
  | literal value =>
    have text : (literalWord value).text = value.text := by cases value <;> rfl
    show LexesOn base ((literalWord value).text.toList ++ rest) (literalWord value :: ws)
    rw [text]
    refine h.literal fits ?_
    unfold Literal.EndsBefore
    cases value with
    | int v =>
      dsimp only
      split
      · exact heads rfl
      · cases rest with
        | nil => rfl
        | cons c rest =>
          rw [apart c rfl]
          rfl
    | string | double | boolean | null => exact heads rfl
    | _ => trivial

theorem Row.lexes {row : Row} (fits : row.Fits) {x : Atom} (first : x.Fits) :
    Lexes (x.word.text ++ row.text).toList (x.word :: (row.words ++ [Parser.endToken])) := by
  induction row generalizing x with
  | nil =>
    rw [String.toList_append]
    exact Lexes.done.atom first nofun
  | cons p row ih =>
    obtain ⟨op, y⟩ := p
    obtain ⟨⟨notTest, isAtom⟩, others⟩ := forall_mem_cons.mp fits
    have behind := ((ih others isAtom).spaced op.symbol (symbol_mem_operators op notTest)).space.atom first
      (by rintro _ ⟨⟩; rfl)
    have chars : (x.word.text ++ Row.text ((op, y) :: row)).toList =
        x.word.text.toList ++ ' ' :: (op.symbol.toList ++ ' ' :: (y.word.text ++ Row.text row).toList) := by
      simp [Row.text, String.toList_append]
    rw [chars]
    exact behind

theorem Row.bare_words {row : Row} (x : Atom) :
    (x.word :: (row.words ++ [Parser.endToken])).map Token.bare = x.word :: (row.words ++ [Parser.endToken]) := by
  have atom : ∀ x : Atom, x.word.bare = x.word := by
    intro x
    cases x with
    | name n => rfl
    | literal value => cases value <;> rfl
  rw [map_cons, atom, map_append]
  congr 2
  induction row with
  | nil => rfl
  | cons p row ih =>
    show (sign p.1.symbol).bare :: p.2.word.bare :: (Row.words row).map Token.bare =
      sign p.1.symbol :: p.2.word :: Row.words row
    rw [atom, ih]
    rfl

theorem OperatorTree.bare_tree {ι : Type} (label : ι) (t : OperatorTree) : (t.tree label).bare = t.tree () := by
  induction t with
  | operand x =>
    cases x with
    | name n | literal value => exact Tree.bare_node ..
  | apply op left right onLeft onRight =>
    rw [tree, Tree.bare_node, Kind.map, onLeft, onRight]
    rfl

namespace Arena

variable {x : Atom} {row : Row} {a : Arena}

theorem readExpression_row (fits : x.Fits) (others : row.Fits) (a : Arena) :
    ∃ id b t, a.readExpression (x.word.text ++ row.text) = (.ok id, b) ∧ b.Shows id (OperatorTree.tree [] t) ∧
      t.inOrder = (x, row) ∧ t.Graded := by
  obtain ⟨t, order, graded⟩ := OperatorTree.exists_graded x row
  obtain ⟨rfl, rfl⟩ := Prod.mk.inj order
  have reads : ∀ n s, s.At (t.inOrder.1.word :: t.inOrder.2.words ++ []) →
      Reads (Parser.expression ⟨n, Parser.grammar n⟩) s [] (fun b id => b.Shows id (t.tree [])) (nestingLimit ≤ ·) :=
    fun _ _ ahead => Parser.readsAs_one.mp ((t.readsAs_tree graded fits others).mono (Parser.one_le_precedence _))
      ahead (.inl rfl)
  have read := Parser.yields_of_lexes (Row.lexes others fits) (fun _ _ _ _ => ⟨_, inferInstance⟩) reads
    "<expression>" a
  unfold Yields at read
  split at read
  · rename_i id b run
    exact ⟨id, b, t, run, read, rfl, graded⟩
  · exact absurd read.1 (by decide)

theorem readExpression_literal {value : Literal} (written : value.IsWritten) (a : Arena) :
    ∃ id b, a.readExpression value.text = (.ok id, b) ∧ b.kind id = .literal value := by
  have others : Row.Fits [] := nofun
  have text : (Atom.literal value).word.text ++ Row.text [] = value.text := by
    rw [show Row.text [] = "" from rfl, String.append_empty]
    cases value <;> rfl
  obtain ⟨id, b, t, read, shown, order, -⟩ := readExpression_row (x := .literal value) written others a
  rw [text] at read
  refine ⟨id, b, read, ?_⟩
  cases t with
  | operand x =>
    obtain rfl : x = .literal value := congrArg Prod.fst order
    have same : (b.kind id).map b.commented = .literal value :=
      congrArg Tree.kind (shown.1.commented_eq.symm.trans shown.2)
    cases kind : b.kind id <;> rw [kind] at same <;> cases same
    rfl
  | apply op left right =>
    have none := congrArg (fun p => p.2.length) order
    simp [OperatorTree.inOrder] at none

end Arena

/-- Names and literals with binary operators between them, other than type tests, are read as a tree with
the precedences of the operators in it. It has the names and literals from left to right, with the
operators between them; on the left of every operator there is none that binds looser than it, and on the
right there are only those that bind tighter. This holds for the text with one blank between words and for
every other text with the same tokens. -/
theorem rows_are_read_by_precedence (x : Atom) (row : Row) (fits : x.Fits) (others : row.Fits) :
    (∃ ts, tokenize "<expression>" (x.word.text ++ row.text) = .ok ts ∧
      ts.map Token.bare = x.word :: (row.words ++ [Parser.endToken])) ∧
    ∀ text ts, tokenize "<expression>" text = .ok ts →
      ts.map Token.bare = x.word :: (row.words ++ [Parser.endToken]) → ∀ a : Arena, ∃ id b t,
        a.readExpression text = (.ok id, b) ∧ b.bare id = OperatorTree.tree () t ∧ t.inOrder = (x, row) ∧ t.Graded := by
  obtain ⟨ts, tokens, plain⟩ := tokenize_of_lexes (Row.lexes others fits) "<expression>"
  have bare : ts.map Token.bare = x.word :: (row.words ++ [Parser.endToken]) := by
    rw [← Token.map_bare_plain, plain, Row.bare_words]
  refine ⟨⟨ts, tokens, bare⟩, fun text ts' tokens' words a => ?_⟩
  obtain ⟨id, b, t, read, shown, order, graded⟩ := Arena.readExpression_row fits others a
  obtain ⟨b', read', alike⟩ := Parser.readWith_of_words (fun _ _ => inferInstance) tokens tokens' (words.trans bare.symm) read
  refine ⟨id, b', t, read', ?_, order, graded⟩
  rw [alike.bare, ← t.bare_tree ([] : List Comment), ← shown.2]
  exact (Tree.bare_mapLabels ..).symm

/-- Operators of three levels, two of them equal. -/
def mixedRow : Row := [(.minus, .name "b"), (.mul, .name "c"), (.minus, .literal (.int (-1))), (.or, .name "d")]

theorem rows_are_read_by_precedence_mixed : ∃ id b t,
    Arena.empty.readExpression "a - b * c - 0xFFFFFFFF || d" = (.ok id, b) ∧ b.bare id = OperatorTree.tree () t ∧
      t.inOrder = (.name "a", mixedRow) ∧ t.Graded := by
  have name : (Atom.name "a").Fits := (by decide : isIdentifier "a" = true)
  have others : mixedRow.Fits := by
    intro p member
    simp only [mixedRow, List.mem_cons, List.not_mem_nil, or_false] at member
    rcases member with rfl | rfl | rfl | rfl
    · exact ⟨nofun, (by decide : isIdentifier "b" = true)⟩
    · exact ⟨nofun, (by decide : isIdentifier "c" = true)⟩
    · exact ⟨nofun, trivial⟩
    · exact ⟨nofun, (by decide : isIdentifier "d" = true)⟩
  have text : (Atom.name "a").word.text ++ mixedRow.text = "a - b * c - 0xFFFFFFFF || d" := by decide +kernel
  obtain ⟨⟨ts, tokens, words⟩, read⟩ := rows_are_read_by_precedence (.name "a") mixedRow name others
  rw [text] at tokens
  exact read _ ts tokens words .empty

/-- The text of a literal that is no floating point number is one token, which is read as that literal. In
particular the escapes of every text denote that text, between either kind of quotes. -/
theorem literals_are_read_back (value : Literal) (notFloat : ∀ bits, value ≠ .float bits)
    (notDouble : ∀ bits, value ≠ .double bits) :
    (∀ file, ∃ token last, tokenize file value.text = .ok [token, last] ∧ token.text = value.text ∧ last.kind = .eof) ∧
    (∀ a : Arena, ∃ id b, a.readExpression value.text = (.ok id, b) ∧ b.kind id = .literal value) ∧
    ∀ quote, quote = '"' ∨ quote = '\'' → ∀ cs, unescape (escape quote cs) = .ok cs := by
  have written : value.IsWritten := by
    cases value with
    | float bits => exact absurd rfl (notFloat bits)
    | double bits => exact absurd rfl (notDouble bits)
    | _ => trivial
  have text : (Atom.literal value).word.text = value.text := by cases value <;> rfl
  refine ⟨fun file => ?_, Arena.readExpression_literal written, fun quote isQuote cs => unescape_escape isQuote cs⟩
  have lexes : Lexes value.text.toList [(Atom.literal value).word, Parser.endToken] := by
    have alone := Lexes.done.atom (x := .literal value) written nofun
    rwa [text, List.append_nil] at alone
  obtain ⟨ts, tokens, plain⟩ := tokenize_of_lexes lexes file
  obtain ⟨token, rest, rfl, first, others⟩ := List.map_eq_cons_iff.mp plain
  obtain ⟨last, rest, rfl, isEnd, none⟩ := List.map_eq_cons_iff.mp others
  obtain rfl := List.map_eq_nil_iff.mp none
  refine ⟨token, last, tokens, ?_, ?_⟩
  · rw [← Token.text_plain, first, text]
  · rw [← Token.kind_plain, isEnd]
    rfl

/-- A negative number, which is written with hexadecimal digits. -/
theorem literals_are_read_back_negative :
    (∀ file, ∃ token last, tokenize file "0xFFFFFFFF" = .ok [token, last] ∧ token.text = "0xFFFFFFFF" ∧
      last.kind = .eof) ∧
    ∀ a : Arena, ∃ id b, a.readExpression "0xFFFFFFFF" = (.ok id, b) ∧ b.kind id = .literal (.int (-1)) := by
  have text : (Literal.int (-1)).text = "0xFFFFFFFF" := by decide +kernel
  obtain ⟨token, read, -⟩ := literals_are_read_back (.int (-1)) nofun nofun
  rw [text] at token read
  exact ⟨token, read⟩

end JavaEdit
