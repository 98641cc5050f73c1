import JavaEdit.Machine.Program
import JavaEdit.Proofs.Accepted.Basic
import JavaEdit.Proofs.Arena.Shown
import JavaEdit.Proofs.Layout.Distinct
import JavaEdit.Proofs.Layout.Nodes

/-!
# Members of classes

A class is loaded member by member. What this depends on are the names of the fields and the signatures
of the methods and constructors in front (`Takes`); a member that is refused has a name or a signature
that is taken, or is a method without a body (`Refused`). In the signature the types of the parameters are
erased: type arguments and the parts of a dotted name up to the last one are left out, and dots count as
one more dimension (`signatureOf_inj`).
-/

namespace JavaEdit

open List

namespace ClassInfo

def fieldName? (t : Tree Unit) : Option String :=
  match t.kind with
  | .field name .. => some name
  | _ => none

/-- The signature that a method or constructor takes. -/
def signature? (t : Tree Unit) : Option String :=
  match t.kind with
  | .method name _ _ _ _ parameters _ _ | .constructor name _ _ parameters _ _ =>
    some (signatureOf name (parameters.filterMap ParameterInfo.ofTree?))
  | _ => none

/-- Why a class with these names and signatures does not take a member. -/
inductive Refused (owner : String) (names signatures : List String) (t : Tree Unit) : LoadError → Prop
  | field {name : String} : fieldName? t = some name → name ∈ names →
      Refused owner names signatures t (.duplicateField name owner)
  | method {s : String} : t.variant = .method → signature? t = some s → s ∈ signatures →
      Refused owner names signatures t (.duplicateMethod s owner)
  | constructor {s : String} : t.variant = .constructor → signature? t = some s → s ∈ signatures →
      Refused owner names signatures t (.duplicateConstructor s owner)
  | body {name : String} : t.variant = .method → t.kind.simpleName? = some name → t.kind.body? = none →
      Refused owner names signatures t (.missingBody owner name)

/-- The class `c` with the signatures `taken` becomes `c'` with `taken'` by some members. -/
structure Takes (c : ClassInfo) (taken : List String) (ts : List (Tree Unit)) (c' : ClassInfo) (taken' : List String) :
    Prop where
  name : c'.name = c.name
  fields : c'.fields.map FieldInfo.name = c.fields.map FieldInfo.name ++ ts.filterMap fieldName?
  signatures : taken' = (ts.filterMap signature?).reverse ++ taken
  distinct : (ts.filterMap signature?).Nodup ∧ ∀ s ∈ ts.filterMap signature?, s ∉ taken

section Members

variable {c c' c'' : ClassInfo} {taken taken' taken'' : List String} {t : Tree Unit} {ts us : List (Tree Unit)}

theorem Takes.nil : c.Takes taken [] c taken := ⟨rfl, by simp, rfl, .nil, nofun⟩

theorem Takes.append (h : c.Takes taken ts c' taken') (h' : c'.Takes taken' us c'' taken'') :
    c.Takes taken (ts ++ us) c'' taken'' := by
  obtain ⟨name, fields, rfl, nodup, free⟩ := h
  obtain ⟨name', fields', rfl, nodup', free'⟩ := h'
  refine ⟨name'.trans name, ?_, ?_, ?_, ?_⟩
  · rw [fields', fields, filterMap_append, append_assoc]
  · rw [filterMap_append, reverse_append, append_assoc]
  · rw [filterMap_append]
    refine nodup_append.mpr ⟨nodup, nodup', fun s here s' there same => free' s' there ?_⟩
    exact mem_append_left _ (mem_reverse.mpr (same ▸ here))
  · rw [filterMap_append, forall_mem_append]
    exact ⟨free, fun s mem before => free' s mem (mem_append_right _ before)⟩

theorem Takes.singleton (name : c'.name = c.name)
    (fields : c'.fields.map FieldInfo.name = c.fields.map FieldInfo.name ++ (fieldName? t).toList)
    (signatures : taken' = (signature? t).toList ++ taken) (free : ∀ s ∈ signature? t, s ∉ taken) :
    c.Takes taken [t] c' taken' := by
  have single : ∀ f : Tree Unit → Option String, [t].filterMap f = (f t).toList := fun f => by
    cases h : f t <;> simp [h]
  refine ⟨name, by rw [fields, single], ?_, ?_, by simpa [single] using free⟩ <;> rw [single]
  · rw [signatures]
    cases signature? t <;> rfl
  · cases signature? t <;> simp

/-- A member is taken, or refused for one of the reasons. -/
theorem addMember_spec (c : ClassInfo) (taken : List String) (t : Tree Unit) : match c.addMember taken t with
    | .ok (c', taken') => c.Takes taken [t] c' taken'
    | .error e => Refused c.name (c.fields.map FieldInfo.name) taken t e := by
  obtain ⟨label, kind⟩ := t
  generalize run : c.addMember taken (.node label kind) = result
  unfold addMember at run
  cases kind with
  | field name ms notes type value =>
    simp only [Tree.kind] at run
    split at run <;> subst run
    · rename_i found
      exact .field rfl (by simpa using found)
    · exact .singleton rfl (by simp [fieldName?, Tree.kind]) rfl (by rintro _ ⟨⟩)
  | method name ms notes typeParameters returned parameters thrown body =>
    simp only [Tree.kind] at run
    split at run
    · rename_i found
      subst run
      exact .method rfl rfl (by simpa using found)
    · rename_i free
      split at run <;> subst run
      · rename_i missing
        simp only [Bool.and_eq_true, Option.isNone_iff_eq_none] at missing
        exact .body rfl rfl missing.1
      · refine .singleton rfl (by simp [fieldName?, Tree.kind]) rfl fun s here mem => free ?_
        simpa [← Option.some.inj here] using mem
  | constructor name ms notes parameters thrown body =>
    simp only [Tree.kind] at run
    split at run <;> subst run
    · rename_i found
      exact .constructor rfl rfl (by simpa using found)
    · rename_i free
      refine .singleton rfl (by simp [fieldName?, Tree.kind]) rfl fun s here mem => free ?_
      simpa [← Option.some.inj here] using mem
  | _ =>
    subst run
    exact .singleton rfl (by simp [fieldName?, Tree.kind]) rfl (by rintro _ ⟨⟩)

theorem addMembers_ok (loaded : c.addMembers taken ts = .ok c') :
    ∃ taken', c.Takes taken ts c' taken' ∧ ∀ us, c.addMembers taken (ts ++ us) = c'.addMembers taken' us := by
  induction ts generalizing c taken with
  | nil =>
    cases loaded
    exact ⟨taken, .nil, fun _ => rfl⟩
  | cons t ts ih =>
    have spec := addMember_spec c taken t
    rw [addMembers] at loaded
    split at loaded
    · cases loaded
    · rename_i first
      rw [first] at spec
      obtain ⟨taken', takes, more⟩ := ih loaded
      refine ⟨taken', spec.append takes, fun us => ?_⟩
      rw [cons_append, addMembers, first]
      exact more us

theorem addMembers_refused {e : LoadError} (failed : c.addMembers taken ts = .error e) :
    ∃ before t after, ts = before ++ t :: after ∧
      Refused c.name (c.fields.map FieldInfo.name ++ before.filterMap fieldName?)
        ((before.filterMap signature?).reverse ++ taken) t e := by
  induction ts generalizing c taken with
  | nil => cases failed
  | cons t ts ih =>
    have spec := addMember_spec c taken t
    rw [addMembers] at failed
    split at failed
    · rename_i refused
      cases failed
      refine ⟨[], t, ts, rfl, ?_⟩
      simpa [refused] using spec
    · rename_i c' taken' first
      rw [first] at spec
      obtain ⟨before, u, after, rfl, refused⟩ := ih failed
      refine ⟨t :: before, u, after, rfl, ?_⟩
      obtain ⟨name, fields, rfl, -⟩ := spec
      rw [name, fields, append_assoc, ← filterMap_append, ← append_assoc, ← reverse_append,
        ← filterMap_append] at refused
      exact refused

theorem Refused.mono {owner : String} {names signatures names' signatures' : List String} {e : LoadError}
    (h : Refused owner names signatures t e) (more : ∀ n ∈ names, n ∈ names')
    (more' : ∀ s ∈ signatures, s ∈ signatures') : Refused owner names' signatures' t e := by
  cases h with
  | field name taken => exact .field name (more _ taken)
  | method variant signature taken => exact .method variant signature (more' _ taken)
  | constructor variant signature taken => exact .constructor variant signature (more' _ taken)
  | body variant name missing => exact .body variant name missing

theorem ofTree_more {k k' : Kind (Tree Unit)} (more : k.mapMembers? (· ++ us) = some k') (outer : Option String) :
    ∃ c : ClassInfo, c.fields = [] ∧ ofTree outer (.node () k) = c.addMembers [] k.members ∧
      ofTree outer (.node () k') = c.addMembers [] (k.members ++ us) := by
  cases k with
  | classDecl | interfaceDecl =>
    cases more
    exact ⟨_, rfl, rfl, rfl⟩
  | _ => cases more

/-- A class that is loaded, with more members: its signatures are different, or one of these members is refused. -/
theorem ofTree_more_spec {k k' : Kind (Tree Unit)} {info : ClassInfo} {outer : Option String}
    (more : k.mapMembers? (· ++ us) = some k') (loads : ofTree outer (.node () k) = .ok info) :
    match ofTree outer (.node () k') with
    | .ok _ => ((k.members ++ us).filterMap signature?).Nodup
    | .error e => ∃ before t after, us = before ++ t :: after ∧
        Refused info.name ((k.members ++ before).filterMap fieldName?) ((k.members ++ before).filterMap signature?) t e := by
  obtain ⟨c, none, first, whole⟩ := ofTree_more more outer
  rw [first] at loads
  rw [whole]
  cases loaded : c.addMembers [] (k.members ++ us) with
  | ok info' =>
    obtain ⟨taken, takes, -⟩ := addMembers_ok loaded
    exact takes.distinct.1
  | error e =>
    obtain ⟨taken, takes, goesOn⟩ := addMembers_ok loads
    rw [goesOn] at loaded
    obtain ⟨before, t, after, split, refused⟩ := addMembers_refused loaded
    refine ⟨before, t, after, split, ?_⟩
    rw [takes.fields, none] at refused
    refine refused.mono (fun n mem => ?_) fun s mem => ?_
    · simpa [filterMap_append] using mem
    · rw [takes.signatures] at mem
      simpa [filterMap_append, or_comm] using mem

end Members

end ClassInfo

/-! ## Erased signatures -/

/-- What a signature says of a parameter: the simple name of its type and its dimensions, where dots count as one. -/
def ParameterInfo.erasure (p : ParameterInfo) : String × Nat :=
  (p.type.name, p.type.dimensions + if p.varargs then 1 else 0)

open Layout Lexer

/-- The characters of an erased type. -/
def erasedChars (e : String × Nat) : List Char := e.1.toList ++ (String.join (List.replicate e.2 "[]")).toList

/-- An erased type by its characters. -/
def takeErased (cs : List Char) : String × Nat :=
  (String.ofList (cs.takeWhile isNamePart), (takeDimensions (cs.dropWhile isNamePart)).1)

theorem takeErased_erasedChars {e : String × Nat} (h : isName e.1) : takeErased (erasedChars e) = e := by
  have stop : Heads (fun c => !isNamePart c) (String.join (replicate e.2 "[]")).toList := by
    cases e.2 with
    | zero => exact heads_nil _
    | succ n =>
      rw [replicate_succ, String.toList_join]
      exact .cons (by decide)
  obtain ⟨take, drop⟩ := takeWhile_append_stop (isNamePart_of_isName h) stop
  have dimensions := takeDimensions_brackets e.2 [] (heads_nil _)
  rw [append_nil] at dimensions
  rw [takeErased, erasedChars, take, drop, dimensions, String.ofList_toList]

theorem comma_not_mem {e : String × Nat} (h : isName e.1) : ',' ∉ erasedChars e := by
  simp only [erasedChars, String.toList_join, mem_append, mem_flatMap, mem_replicate, not_or]
  refine ⟨fun mem => absurd (isNamePart_of_isName h _ mem) (by decide), ?_⟩
  rintro ⟨_, ⟨-, rfl⟩, mem⟩
  exact absurd mem (by decide)

/-- Erased types are told by the list of their texts. -/
theorem eq_of_erased_eq {es ds : List (String × Nat)} (left : ∀ e ∈ es, isName e.1) (right : ∀ d ∈ ds, isName d.1)
    (same : [','].intercalate (es.map erasedChars) = [','].intercalate (ds.map erasedChars)) : es = ds := by
  have taken : ∀ {es : List (String × Nat)}, (∀ e ∈ es, isName e.1) →
      (if [','].intercalate (es.map erasedChars) = [] then []
        else (Text.splitChars ',' ([','].intercalate (es.map erasedChars))).map takeErased) = es := by
    intro es names
    cases es with
    | nil => rfl
    | cons e es =>
      have whole := Text.splitChars_intercalate (erasedChars e) (es.map erasedChars) (forall_mem_map (l := e :: es).mpr
        fun e mem => comma_not_mem (names e mem))
      rw [map_cons, whole, ← map_cons, map_map, if_neg]
      · exact (map_congr_left fun e mem => takeErased_erasedChars (names e mem)).trans (map_id _)
      · intro empty
        rw [← map_cons, empty] at whole
        obtain ⟨c, cs, chars, -⟩ := starts_name (names e (.head _))
        simpa [erasedChars, chars] using (cons.inj whole).1
  rw [← taken left, same, taken right]

theorem signatureOf_inj {n n' : String} {ps qs : List ParameterInfo} (isName : isName n)
    (isName' : Lexer.isName n') (left : ∀ p ∈ ps, Lexer.isName p.type.name)
    (right : ∀ p ∈ qs, Lexer.isName p.type.name) : signatureOf n ps = signatureOf n' qs ↔
      n = n' ∧ ps.map ParameterInfo.erasure = qs.map ParameterInfo.erasure := by
  have chars : ∀ n (ps : List ParameterInfo), (signatureOf n ps).toList =
      n.toList ++ '(' :: ([','].intercalate ((ps.map ParameterInfo.erasure).map erasedChars) ++ [')']) := fun n ps => by
    have types : ps.map ParameterInfo.typeText =
        (ps.map ParameterInfo.erasure).map fun e => e.1 ++ String.join (replicate e.2 "[]") := by
      rw [map_map]
      rfl
    unfold signatureOf
    rw [types]
    simp [String.toList_append, String.toList_intercalate, erasedChars, Function.comp_def]
  rw [← String.toList_inj, chars, chars]
  constructor
  · intro same
    obtain ⟨sameName, sameList⟩ := eq_of_call_eq isName isName' same
    exact ⟨sameName, eq_of_erased_eq (forall_mem_map.mpr left) (forall_mem_map.mpr right) sameList⟩
  · rintro ⟨rfl, same⟩
    rw [same]

theorem isName_simpleName {n : String} (h : isDotted n) : isName (simpleName n) := by
  have some : Text.split '.' n ≠ [] := by simpa [Text.split] using Text.splitChars_ne_nil '.' n.toList
  unfold isDotted at h
  rw [all_eq_true] at h
  unfold simpleName
  rw [getLastD_eq_getLast?, getLast?_eq_some_getLast some, Option.getD_some]
  exact isName_of_isIdentifier (h _ (getLast_mem some))

theorem isName_of_isType {t : Page} (h : IsType .plain t) : isName (TypeUse.ofTree t.bare).name := by
  have primitives : ∀ n ∈ Token.primitives, isName (simpleName n) := by decide +kernel
  cases h with
  | primitive known _ => exact primitives _ known
  | named isDotted _ _ => exact isName_simpleName isDotted

/-! ## Parameters of methods and constructors -/

/-- The parameters of a method or constructor. -/
def Kind.parameters {α : Type} : Kind α → List α
  | .method _ _ _ _ _ parameters _ _ | .constructor _ _ _ parameters _ _ => parameters
  | _ => []

namespace Tree

/-- The type that a parameter is declared with. -/
def declaredType (p : Page) : Page :=
  match p.kind with
  | .parameter _ _ _ type _ => type
  | _ => p

/-- The types of the parameters of a method or constructor. -/
def parameterTypes (t : Page) : List Page := t.kind.parameters.map declaredType

/-- Which parameters of a method or constructor have dots. -/
def dots (t : Page) : List Bool := t.kind.parameters.map fun p => p.kind.isVarargs

/-- What the signature of a method or constructor says of its parameters. -/
def erasures (t : Page) : List (String × Nat) :=
  (t.kind.parameters.filterMap fun p => ParameterInfo.ofTree? p.bare).map ParameterInfo.erasure

end Tree

variable {ok : Page → Prop}

theorem IsParameter.ofTree? {p : Page} (h : IsParameter ok p) : ∃ name,
    ParameterInfo.ofTree? p.bare = some ⟨name, TypeUse.ofTree p.declaredType.bare, p.kind.isVarargs⟩ ∧
      IsType .plain p.declaredType := by
  obtain ⟨_, _, _, isType⟩ := h
  exact ⟨_, rfl, isType⟩

theorem erasures_eq {ps : List Page} (h : ∀ p ∈ ps, IsParameter ok p) :
    (ps.filterMap fun p => ParameterInfo.ofTree? p.bare).map ParameterInfo.erasure =
      ps.map fun p => ((TypeUse.ofTree p.declaredType.bare).name,
        (TypeUse.ofTree p.declaredType.bare).dimensions + if p.kind.isVarargs then 1 else 0) := by
  induction ps with
  | nil => rfl
  | cons p ps ih =>
    obtain ⟨first, others⟩ := forall_mem_cons.mp h
    obtain ⟨name, info, -⟩ := first.ofTree?
    rw [filterMap_cons, info, map_cons, map_cons, ih others]
    rfl

theorem IsDeclaration.callable {owner : Option String} {t : Page} (h : IsDeclaration ok owner t)
    (callable : t.kind.isCallable) : ∃ name, t.kind.simpleName? = some name ∧ isName name ∧
      (∀ p ∈ t.kind.parameters, IsParameter ok p) ∧ ClassInfo.signature? t.bare =
        some (signatureOf name (t.kind.parameters.filterMap fun p => ParameterInfo.ofTree? p.bare)) := by
  cases h with
  | method isName _ _ _ parameters | constructor isName _ parameters =>
    refine ⟨_, rfl, isName_of_isIdentifier isName, parameters.each, ?_⟩
    rw [Tree.bare_node]
    simp only [ClassInfo.signature?, Tree.kind, Kind.map, filterMap_map, Function.comp_def, Kind.parameters]
  | classDecl | interfaceDecl | field => cases callable

/-- Two methods or constructors take the same signature if they have the same name and erased parameters. -/
theorem signature?_eq_iff {owner owner' : Option String} {t u : Page} (h : IsDeclaration ok owner t)
    (h' : IsDeclaration ok owner' u) (callable : t.kind.isCallable) (callable' : u.kind.isCallable) :
    ClassInfo.signature? t.bare = ClassInfo.signature? u.bare ↔
      t.kind.simpleName? = u.kind.simpleName? ∧ t.erasures = u.erasures := by
  have typed : ∀ {ps : List Page}, (∀ p ∈ ps, IsParameter ok p) →
      ∀ info ∈ ps.filterMap fun p => ParameterInfo.ofTree? p.bare, isName info.type.name := by
    intro ps each info mem
    obtain ⟨p, here, same⟩ := mem_filterMap.mp mem
    obtain ⟨name, is, isType⟩ := (each p here).ofTree?
    cases same.symm.trans is
    exact isName_of_isType isType
  obtain ⟨name, named, isName, each, signature⟩ := h.callable callable
  obtain ⟨name', named', isName', each', signature'⟩ := h'.callable callable'
  rw [named, named', signature, signature', Option.some_inj, Option.some_inj,
    signatureOf_inj isName isName' (typed each) (typed each')]
  rfl

/-- Of parameters with the same types, the dots tell whether the signature is the same. -/
theorem erasures_eq_iff {ps qs : List Page} (types : ps.map Tree.declaredType = qs.map Tree.declaredType)
    (left : ∀ p ∈ ps, IsParameter ok p) (right : ∀ q ∈ qs, IsParameter ok q) :
    (ps.filterMap fun p => ParameterInfo.ofTree? p.bare).map ParameterInfo.erasure =
        (qs.filterMap fun p => ParameterInfo.ofTree? p.bare).map ParameterInfo.erasure ↔
      ps.map (fun p => p.kind.isVarargs) = qs.map fun p => p.kind.isVarargs := by
  rw [erasures_eq left, erasures_eq right]
  clear left right
  induction ps generalizing qs with
  | nil =>
    cases qs with
    | nil => exact iff_of_true rfl rfl
    | cons => cases types
  | cons p ps ih =>
    cases qs with
    | nil => cases types
    | cons q qs =>
      obtain ⟨type, others⟩ := cons.inj types
      have dots : ((if p.kind.isVarargs then 1 else 0 : Nat) = if q.kind.isVarargs then 1 else 0) ↔
          p.kind.isVarargs = q.kind.isVarargs := by
        cases p.kind.isVarargs <;> cases q.kind.isVarargs <;> decide
      simp only [map_cons, cons.injEq, Prod.mk.injEq, type, true_and, Nat.add_left_cancel_iff, dots, ih others]

end JavaEdit
