import JavaEdit.Proofs.Layout.Heads
import JavaEdit.Proofs.Reading.Heads
import JavaEdit.Proofs.RoundTrip.Expressions

/-!
# Heads of units are read back

A text that starts with the package and imports of a unit and the head of a type is read as a unit
with that package whose first type has that name, if it is read at all: what stands behind the name
has no say in this.
-/

namespace JavaEdit

open Arena Layout List
open ParserState (firstWord)

variable {a b : Arena} {id : NodeId} {keyword name : String} {package : Option String}
    {s : ParserState} {ws : List Token} {α β : Type}

/-! ## Runs that may fail -/

theorem ends_somehow (p : Parser α) (s : ParserState) : Ends p s (fun _ _ => True) fun _ _ => True := by
  unfold Ends
  split <;> trivial

variable {good : β → ParserState → Prop} {p : Parser α} {f : α → Parser β}

/-- A run whose end does not depend on how its first part ends. -/
theorem ends_behind
    (next : ∀ x s', Ends (f x) s' good fun _ _ => True) :
    Ends (p >>= f) s good fun _ _ => True :=
  (ends_somehow p s).bind fun x s' _ => next x s'

/-- A run whose end does not depend on which first part it has. -/
theorem ends_behind_either {c : Prop} [Decidable c] {q : Parser α}
    (next : ∀ x s', Ends (f x) s' good fun _ _ => True) :
    Ends (if c then p >>= f else q >>= f) s good fun _ _ => True := by
  split
  · exact ends_behind next
  · exact ends_behind next

/-- Behind words that are read, a run goes on with what follows them. -/
theorem Reads.next {rest : List Token}
    {result : Arena → α → Prop} (h : Reads p s rest result)
    (next : ∀ x s', s'.At rest → result s'.arena x → Ends (f x) s' good fun _ _ => True) :
    Ends (p >>= f) s good fun _ _ => True :=
  Ends.bind (Ends.mono h (fun _ _ ended => ended) fun _ _ _ => trivial)
    fun x s' ⟨_, ahead, found⟩ => next x s' ahead found

/-! ## Types -/

/-- A node is a class or an interface with a name. -/
structure Arena.Declares (a : Arena) (name : String) (id : NodeId) : Prop where
  inside : id < a.size
  isType : (a.kind id).variant.isType = true
  named : (a.kind id).simpleName? = some name

theorem Arena.Declares.mono (h : a.Declares name id)
    (size_le : a.size ≤ b.size) (same : b.kind id = a.kind id) : b.Declares name id :=
  ⟨Nat.lt_of_lt_of_le h.inside size_le, same ▸ h.isType, same ▸ h.named⟩

theorem Arena.declares_alloc (a : Arena) {k : Kind NodeId} (isType : k.variant.isType)
    (named : k.simpleName? = some name) (pos : Position) (cs : List Comment) :
    (a.alloc k pos cs).2.Declares name a.size where
  inside := by rw [size_alloc]; exact Nat.lt_succ_self _
  isType := by rw [kind_alloc, if_pos rfl]; exact isType
  named := by rw [kind_alloc, if_pos rfl]; exact named

/-- A unit with a package and a first type. -/
def Arena.Opens (a : Arena) (package : Option String) (name : String) (id : NodeId) : Prop :=
  ∃ imports first others, a.kind id = .compilationUnit package imports (first :: others) ∧ a.Declares name first

theorem Arena.Opens.of_alike (alike : a.Alike b) (h : b.Opens package name id) : a.Opens package name id := by
  obtain ⟨imports, first, others, unit, declares⟩ := h
  refine ⟨imports, first, others, (alike.kind id).symm.trans unit, ?_⟩
  exact declares.mono (Nat.le_of_eq alike.size) (alike.kind first).symm

namespace Parser

section Types

variable {r : Rules} {start : Token} {cs : List Comment} {ms : Modifiers}
    {annotations : List NodeId} (isName : isIdentifier name = true) {rest : List Token}
include isName

theorem ends_classDeclaration (ahead : s.At (nameWord name :: rest)) :
    Ends (classDeclaration r start cs ms annotations) s (fun id s' => s'.arena.Declares name id) fun _ _ => True := by
  unfold classDeclaration
  rw [ends_bind, ends_identifier, ahead.kind, ahead.text, ParserState.firstWord_cons,
    kind_nameWord_of_isIdentifier isName, if_pos (by decide), text_nameWord]
  refine ends_behind fun _ _ => ends_behind fun _ _ => ends_behind_either fun _ _ => ?_
  refine ends_behind fun _ _ => ends_behind_either fun _ _ => ?_
  refine ends_behind fun _ _ => ends_behind fun _ s' => ?_
  exact declares_alloc s'.arena rfl rfl ..

theorem ends_interfaceDeclaration (ahead : s.At (nameWord name :: rest)) :
    Ends (interfaceDeclaration r start cs ms annotations) s (fun id s' => s'.arena.Declares name id)
      fun _ _ => True := by
  unfold interfaceDeclaration
  rw [ends_bind, ends_identifier, ahead.kind, ahead.text, ParserState.firstWord_cons,
    kind_nameWord_of_isIdentifier isName, if_pos (by decide), text_nameWord]
  refine ends_behind fun _ _ => ends_behind fun _ _ => ends_behind_either fun _ _ => ?_
  refine ends_behind fun _ _ => ends_behind fun _ s' => ?_
  exact declares_alloc s'.arena rfl rfl ..

theorem ends_typeDeclaration (known : keyword = "class" ∨ keyword = "interface")
    (ahead : s.At (nameWord keyword :: nameWord name :: rest)) :
    Ends (typeDeclaration r start cs ms annotations) s (fun id s' => s'.arena.Declares name id) fun _ _ => True := by
  have word : ∀ text, s.token.is text = (nameWord keyword).is text := ahead.is
  have noRecord : (s.token.kind == .identifier) = false := by
    rw [ahead.kind, ParserState.firstWord_cons]
    rcases known with rfl | rfl <;> decide
  unfold typeDeclaration atRecord
  simp only [ends_bind, ends_look, ends_pure, ends_ite, ends_eat, word, noRecord, Bool.false_and]
  rcases known with rfl | rfl
  · rw [if_neg (by decide), if_neg Bool.false_ne_true, if_pos (by decide), if_pos trivial]
    exact ends_classDeclaration isName ahead.advanced
  · rw [if_neg (by decide), if_neg Bool.false_ne_true, if_neg (by decide), if_neg Bool.false_ne_true,
      if_pos (by decide), if_pos trivial]
    exact ends_interfaceDeclaration isName ahead.advanced

end Types

/-! ## Units -/

/-- Words that a type starts with, in front of its comments. -/
structure OpensType (w : Token) : Prop where
  silent : w.comments = []
  notEnd : (w.kind == .eof) = false
  other : ∀ text ∈ [";", "package", "import"], w.is text = false

theorem opensType {notes : List Page} (isNote : ∀ t ∈ notes, IsNote Clear .use t) (ms : Modifiers)
    (known : keyword = "class" ∨ keyword = "interface") (rest : List Token) :
    ∃ w ws, prefaceWords (notes.map phrase) ms ++ nameWord keyword :: rest = w :: ws ∧ OpensType w := by
  cases notes with
  | cons t notes =>
    obtain ⟨p, ws, words, -⟩ := words_note (isNote t (.head _))
    exact ⟨sign "@", _, by simp [prefaceWords, words]; rfl, rfl, rfl, by decide⟩
  | nil =>
    cases ms with
    | cons m ms =>
      have listed : ∀ text ∈ [";", "package", "import"], text ∈ ["@", ".", "(", ";", "package", "import"] := by
        decide
      refine ⟨nameWord m.keyword, _, rfl, rfl, ?_, fun text mem => modifier_other m text (listed text mem)⟩
      rw [nameWord_keyword]
      rfl
    | nil =>
      rcases known with rfl | rfl
      · exact ⟨nameWord "class", rest, rfl, rfl, rfl, by decide⟩
      · exact ⟨nameWord "interface", rest, rfl, rfl, rfl, by decide⟩

/-- The words ahead, where comments stood in front of them. -/
theorem at_uncommented {w : Token} {found : List Comment}
    (h : s.At (w.led found :: ws)) (silent : w.comments = []) : s.uncommented.At (w :: ws) := by
  obtain ⟨token, ts, rest, first, others⟩ := h.rest_eq
  unfold ParserState.At ParserState.words ParserState.uncommented
  rw [rest]
  have word : Token.plain { token with comments := [] } = w := by
    have cleared := congrArg (fun t : Token => { t with comments := [] }) first
    obtain ⟨kind, text, start, stop, comments⟩ := w
    subst silent
    exact cleared
  rw [map_cons, word, others]
  rfl

section Units

variable {m : Nat} {notes : List Page} (isNote : ∀ t ∈ notes, IsNote Clear .use t) {ms : Modifiers}
    (once : ms.Nodup) (known : keyword = "class" ∨ keyword = "interface")
    (isName : isIdentifier name = true) {found : List Comment} {rest : List Token}
include isNote once known isName

theorem ends_topLevelTypes {steps : Nat} (ahead : s.At
      (leading found (prefaceWords (notes.map phrase) ms ++ nameWord keyword :: nameWord name :: rest))) :
    Ends (topLevelTypes ⟨m, grammar m⟩ steps) s
      (fun ids s' => ∃ id others, ids = id :: others ∧ s'.arena.Declares name id) fun _ _ => True := by
  obtain _ | steps := steps
  · trivial
  obtain ⟨w, ws, words, silent, notEnd, other⟩ := opensType isNote ms known (nameWord name :: rest)
  rw [words] at ahead
  have notEnd : (s.token.kind == .eof) = false := by
    rw [ahead.kind]
    exact notEnd
  have notEmpty : s.token.is ";" = false := by
    rw [ahead.is]
    exact other ";" (by simp)
  have uncommented := at_uncommented ahead silent
  rw [← words] at uncommented
  rw [topLevelTypes, ends_bind, ends_look, notEnd, if_neg Bool.false_ne_true, ends_bind, ends_eat, notEmpty,
    if_neg Bool.false_ne_true, if_neg Bool.false_ne_true, ends_bind, ends_takeComments, ends_bind, ends_look]
  have ends : EndsPreface (firstWord (nameWord keyword :: nameWord name :: rest)) := by
    rw [ParserState.firstWord_cons]
    rcases known with rfl | rfl
    · exact ⟨by decide, by decide⟩
    · exact ⟨by decide, by decide⟩
  have preface : Reads (modifiers ⟨m, grammar m⟩) s.uncommented (nameWord keyword :: nameWord name :: rest)
      fun _ _ => True :=
    reads_preface isNote once [] uncommented ends
  refine preface.next fun (found, annotations) s1 ahead1 _ => ?_
  refine (ends_typeDeclaration isName known ahead1).bind fun first s2 declared => ?_
  have uses : Uses ownership (topLevelTypes ⟨m, grammar m⟩ steps) [] := inferInstance
  have others := uses.uses.keeps s2.arena [] s2 (.start _)
  refine Ends.bind (others.mono (fun _ _ owns => owns.grown) fun _ _ _ => trivial) fun ids _ grown => ?_
  exact ⟨first, ids, rfl, declared.mono grown.size_le (congrArg Node.kind (grown.node_eq declared.inside))⟩

theorem ends_compilationUnit {imports : List Import}
    (isPackage : ∀ n ∈ package, isDotted n) (isImport : ∀ i ∈ imports, isDotted i.path)
    (ahead : s.At (headerWords package imports ++
      leading found (prefaceWords (notes.map phrase) ms ++ nameWord keyword :: nameWord name :: rest))) :
    Ends (compilationUnit ⟨m, grammar m⟩) s (fun id s' => s'.arena.Opens package name id) fun _ _ => True := by
  obtain ⟨w, ws, words, opens⟩ := opensType isNote ms known (nameWord name :: rest)
  have front : leading found _ = w.led found :: ws := congrArg (leading found) words
  rw [front] at ahead
  have noPackage : (firstWord (imports.flatMap importWords ++ w.led found :: ws)).is "package" = false := by
    cases imports with
    | cons => rfl
    | nil => exact opens.other "package" (by simp)
  unfold compilationUnit
  rw [ends_bind, ends_look]
  refine Ends.either (fun _ s0 => s0.At (headerWords package imports ++ w.led found :: ws)) (fun isFirst => ?_)
    (fun _ => ahead) fun cs s0 ahead0 => ?_
  · rw [ends_takeComments]
    cases package with
    | some package =>
      have silent : s.At ((nameWord "package").led [] :: _) := ahead
      exact at_uncommented silent rfl
    | none =>
      rw [ahead.is] at isFirst
      exact absurd (noPackage.symm.trans isFirst) Bool.false_ne_true
  · rw [headerWords, append_assoc] at ahead0
    rw [ends_bind, ends_look, ends_ite]
    split
    · trivial
    have noImport : (w.led found).is "import" = false := opens.other "import" (by simp)
    refine (reads_packageLine isPackage ahead0 noPackage).next fun package s1 ahead1 same => ?_
    subst same
    refine (reads_importLines isImport ahead1 noImport).next fun imports s2 ahead2 _ => ?_
    refine (ends_topLevelTypes isNote once known isName (front ▸ ahead2)).bind ?_
    rintro types s3 ⟨id, others, rfl, declared⟩
    rw [ends_bind, ends_look, ends_bind, ends_get, ends_bind, ends_set, ends_pure]
    refine ⟨imports, id, others, by rw [kind_alloc]; exact if_pos rfl, ?_⟩
    have kept := extends_alloc s3.arena (.compilationUnit package imports (id :: others))
      (.real s3.file .start s3.token.start.offset) cs
    exact declared.mono kept.size_le (kept.kind_eq id declared.inside)

end Units

/-- Whether a parser ends well, and in which payloads, can be told from a text with the same words. -/
theorem ends_of_alike (sees : Agrees p p) {s' : ParserState} (alike : s.Alike s')
    {good : α → Arena → Prop} (stable : ∀ x a b, a.Alike b → good x b → good x a)
    (h : Ends p s' (fun x t => good x t.arena) fun _ _ => True) :
    Ends p s (fun x t => good x t.arena) fun _ _ => True := by
  refine (sees.agrees s s' alike).mono (fun x t same => ?_) fun _ _ _ => trivial
  have both := same.and h
  unfold Ends at both
  split at both
  · obtain ⟨⟨rfl, alike'⟩, holds⟩ := both
    exact stable _ _ _ alike'.arena holds
  · exact both.1.elim

/-- What is read from a text is known from the words of the text, with its end left out: comments there
do not matter. -/
theorem holds_of_readWith {entry : Rules → Parser α}
    (sees : ∀ r, SeesWords r → Agrees (entry r) (entry r)) {P : α → Arena → Prop}
    (stable : ∀ x a b, a.Alike b → P x b → P x a) {file text : String} {ts : List Token} {last : Token}
    (tokens : tokenize file text = .ok ts) (plain : ts.map Token.plain = ws ++ [last])
    (isEnd : last.bare = endToken) (h : ∀ s, s.At ws →
      Ends (entry ⟨stepsFor ts, grammar (stepsFor ts)⟩) s (fun x t => P x t.arena) fun _ _ => True)
    {x : α} (read : readWith entry a file text = (.ok x, b)) : P x b := by
  obtain ⟨front, tail, rfl, frontWords, tailWords⟩ := map_eq_append_iff.mp plain
  obtain ⟨stop, rfl, rfl⟩ := map_eq_singleton_iff.mp tailWords
  have alike : ParserState.Alike ⟨file, front ++ [stop], 0, 0, [], a⟩ ⟨file, front ++ [endToken], 0, 0, [], a⟩ := by
    refine ⟨?_, rfl, rfl, .refl a⟩
    have same : stop.bare = endToken := isEnd
    rw [map_append, map_append, map_singleton, map_singleton, same]
    rfl
  have ahead : ParserState.At ⟨file, front ++ [endToken], 0, 0, [], a⟩ ws := by
    unfold ParserState.At ParserState.words
    rw [map_append, frontWords]
    rfl
  obtain ⟨ts, s, same, rfl, run⟩ := run_of_readWith read
  cases same.symm.trans tokens
  exact (ends_of_alike (sees _ (seesWords_grammar _)) alike stable (h _ ahead)).of_ok run

end Parser

/-! ## Texts -/

theorem leading_append (cs : List Comment) (some : ws ≠ []) (more : List Token) :
    leading cs ws ++ more = leading cs (ws ++ more) := by
  obtain ⟨w, ws, rfl⟩ := exists_cons_of_ne_nil some
  rfl

/-- A text that starts with the package, the imports and the head of a type is read as a unit with the
package, whose first type has the name in the head. -/
theorem opens_of_readUnit {imports : List Import}
    (isPackage : ∀ n ∈ package, isDotted n) (isImport : ∀ i ∈ imports, isDotted i.path)
    {comments : List Comment} (written : ∀ c ∈ comments, c.IsWritten) {notes : List Page}
    (isNote : ∀ t ∈ notes, IsNote Clear .use t) {ms : Modifiers} (once : ms.Nodup)
    (known : keyword = "class" ∨ keyword = "interface") (isName : isIdentifier name) {rest : List Char}
    (stop : Heads endsName rest) {file text : String} (whole : text.toList =
      (headerText package imports ++ (above comments (notes.map piece) 0 ++ modifierText ms
        ++ (keyword ++ " ") ++ name)).toList ++ rest)
    (read : a.readUnit file text = (.ok id, b)) : b.Opens package name id := by
  obtain ⟨ts, -, tokens, -⟩ := Parser.run_of_readWith read
  have isKeyword : Lexer.isName keyword := by rcases known with rfl | rfl <;> decide
  -- the tokens up to the name, those behind it, and the end of the text
  have start : Lexer.LexesOn (fun cs ws => cs = rest ∧ ws = []) rest [] := .base ⟨rfl, rfl⟩
  obtain ⟨found, front⟩ := lexes_head isPackage isImport written isNote ms isKeyword
    (isName_of_isIdentifier isName) stop start
  have lexes := lexes_of_tokenize tokens
  rw [whole] at lexes
  obtain ⟨more, words, behind⟩ := front.split lexes
  obtain ⟨others, last, rfl, isEnd, -⟩ := Lexer.scanned_of_lexes behind
  have all : ts.map Token.plain = (headerWords package imports ++ leading found
      (prefaceWords (notes.map phrase) ms ++ nameWord keyword :: nameWord name :: others)) ++ [last] := by
    rw [words, append_assoc, append_assoc, ← append_assoc (leading found _),
      leading_append found (by simp), append_assoc (prefaceWords _ _)]
    rfl
  refine Parser.holds_of_readWith (P := fun id a => a.Opens package name id) (fun _ _ => inferInstance)
    (fun _ _ _ => Opens.of_alike) tokens all isEnd (fun s ahead => ?_) read
  exact Parser.ends_compilationUnit isNote once known isName isPackage isImport ahead

end JavaEdit
