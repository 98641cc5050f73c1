import JavaEdit.Node.Kind

/-!
# Child slots

Operations on single child slots of a payload. A child in a list or an optional slot can be
removed, one in a required slot cannot; the last type of a catch clause is required too.
-/

namespace JavaEdit

/-- What comes of removing a child. -/
inductive Removal (α : Type) where
  | removed (kind : Kind α)
  /-- The child stands in a slot that cannot be empty. -/
  | required
  | notFound

namespace Kind

variable {α β : Type}

/-- An optional slot emptied if it holds `child`. -/
def clearSlot? [BEq α] (slot : Option α) (child : α) : Option (Option α) :=
  match slot with
  | some c => if c == child then some none else none
  | none => none

/-- A list slot without the first occurrence of `child`. -/
def dropFrom? [BEq α] (list : List α) (child : α) : Option (List α) :=
  if list.contains child then some (list.erase child) else none

/-- The payload without `child`, when it stands in a slot that may be empty. -/
def without? [BEq α] (child : α) : Kind α → Option (Kind α)
  | compilationUnit p is types => return compilationUnit p is (← dropFrom? types child)
  | classDecl n ms as ts sup is members =>
    (do return classDecl n ms (← dropFrom? as child) ts sup is members)
    <|> (do return classDecl n ms as (← dropFrom? ts child) sup is members)
    <|> (do return classDecl n ms as ts (← clearSlot? sup child) is members)
    <|> (do return classDecl n ms as ts sup (← dropFrom? is child) members)
    <|> (do return classDecl n ms as ts sup is (← dropFrom? members child))
  | interfaceDecl n ms as ts sups members =>
    (do return interfaceDecl n ms (← dropFrom? as child) ts sups members)
    <|> (do return interfaceDecl n ms as (← dropFrom? ts child) sups members)
    <|> (do return interfaceDecl n ms as ts (← dropFrom? sups child) members)
    <|> (do return interfaceDecl n ms as ts sups (← dropFrom? members child))
  | method n ms as ts r ps th body =>
    (do return method n ms (← dropFrom? as child) ts r ps th body)
    <|> (do return method n ms as (← dropFrom? ts child) r ps th body)
    <|> (do return method n ms as ts r (← dropFrom? ps child) th body)
    <|> (do return method n ms as ts r ps (← dropFrom? th child) body)
    <|> (do return method n ms as ts r ps th (← clearSlot? body child))
  | constructor n ms as ps th body =>
    (do return constructor n ms (← dropFrom? as child) ps th body)
    <|> (do return constructor n ms as (← dropFrom? ps child) th body)
    <|> (do return constructor n ms as ps (← dropFrom? th child) body)
  | field n ms as type i =>
    (do return field n ms (← dropFrom? as child) type i)
    <|> (do return field n ms as type (← clearSlot? i child))
  | parameter n ms as type v => return parameter n ms (← dropFrom? as child) type v
  | annotationUse n as => return annotationUse n (← dropFrom? as child)
  | typeParameter n bs => return typeParameter n (← dropFrom? bs child)
  | typeReference n as d dims => return typeReference n (← dropFrom? as child) d dims
  | wildcardType b u => return wildcardType (← clearSlot? b child) u
  | block ss => return block (← dropFrom? ss child)
  | localVariable n ms type i => return localVariable n ms type (← clearSlot? i child)
  | ifElse c t e => return ifElse c t (← clearSlot? e child)
  | forLoop i c u b =>
    (do return forLoop (← dropFrom? i child) c u b)
    <|> (do return forLoop i (← clearSlot? c child) u b)
    <|> (do return forLoop i c (← dropFrom? u child) b)
  | returnStmt v => return returnStmt (← clearSlot? v child)
  | tryStmt b cs f =>
    (do return tryStmt b (← dropFrom? cs child) f)
    <|> (do return tryStmt b cs (← clearSlot? f child))
  | catchClause n ms ts b =>
    if 1 < ts.length then return catchClause n ms (← dropFrom? ts child) b else none
  | invocation t n as =>
    (do return invocation (← clearSlot? t child) n as)
    <|> (do return invocation t n (← dropFrom? as child))
  | new t as => return new t (← dropFrom? as child)
  | _ => none

def removeChild [BEq α] (child : α) (k : Kind α) : Removal α :=
  match k.without? child with
  | some kind => .removed kind
  | none => if k.children.contains child then .required else .notFound

/-- Put `new` in every slot that holds `old`. -/
def replaceChild [BEq α] (old new : α) (k : Kind α) : Kind α :=
  k.map fun c => if c == old then new else c

/-- Change every child, in source order, with an effect. -/
def mapM {m : Type → Type} [Monad m] (f : α → m β) : Kind α → m (Kind β)
  | compilationUnit p is types => return compilationUnit p is (← types.mapM f)
  | classDecl n ms as ts sup is members => do
    let as ← as.mapM f
    let ts ← ts.mapM f
    let sup ← sup.mapM f
    let is ← is.mapM f
    return classDecl n ms as ts sup is (← members.mapM f)
  | interfaceDecl n ms as ts sups members => do
    let as ← as.mapM f
    let ts ← ts.mapM f
    let sups ← sups.mapM f
    return interfaceDecl n ms as ts sups (← members.mapM f)
  | method n ms as ts r ps th body => do
    let as ← as.mapM f
    let ts ← ts.mapM f
    let r ← f r
    let ps ← ps.mapM f
    let th ← th.mapM f
    return method n ms as ts r ps th (← body.mapM f)
  | constructor n ms as ps th body => do
    let as ← as.mapM f
    let ps ← ps.mapM f
    let th ← th.mapM f
    return constructor n ms as ps th (← f body)
  | field n ms as type i => do
    let as ← as.mapM f
    let type ← f type
    return field n ms as type (← i.mapM f)
  | parameter n ms as type v => do
    let as ← as.mapM f
    return parameter n ms as (← f type) v
  | annotationUse n as => return annotationUse n (← as.mapM f)
  | typeParameter n bs => return typeParameter n (← bs.mapM f)
  | typeReference n as d dims => return typeReference n (← as.mapM f) d dims
  | wildcardType b u => return wildcardType (← b.mapM f) u
  | block ss => return block (← ss.mapM f)
  | localVariable n ms type i => do
    let type ← f type
    return localVariable n ms type (← i.mapM f)
  | expressionStatement e => return expressionStatement (← f e)
  | ifElse c t e => do
    let c ← f c
    let t ← f t
    return ifElse c t (← e.mapM f)
  | whileLoop c b => do
    let c ← f c
    return whileLoop c (← f b)
  | doWhile b c => do
    let b ← f b
    return doWhile b (← f c)
  | forLoop i c u b => do
    let i ← i.mapM f
    let c ← c.mapM f
    let u ← u.mapM f
    return forLoop i c u (← f b)
  | forEach e i b => do
    let e ← f e
    let i ← f i
    return forEach e i (← f b)
  | returnStmt v => return returnStmt (← v.mapM f)
  | throwStmt v => return throwStmt (← f v)
  | breakStmt l => return breakStmt l
  | continueStmt l => return continueStmt l
  | tryStmt b cs fin => do
    let b ← f b
    let cs ← cs.mapM f
    return tryStmt b cs (← fin.mapM f)
  | catchClause n ms ts b => do
    let ts ← ts.mapM f
    return catchClause n ms ts (← f b)
  | empty => return empty
  | literal v => return literal v
  | name n => return name n
  | fieldAccess t n => return fieldAccess (← f t) n
  | invocation t n as => do
    let t ← t.mapM f
    return invocation t n (← as.mapM f)
  | new t as => do
    let t ← f t
    return new t (← as.mapM f)
  | newArray e ds x => do
    let e ← f e
    return newArray e (← ds.mapM f) x
  | arrayAccess t i => do
    let t ← f t
    return arrayAccess t (← f i)
  | binary op l r => do
    let l ← f l
    return binary op l (← f r)
  | unary op e => return unary op (← f e)
  | assignment op t v => do
    let t ← f t
    return assignment op t (← f v)
  | conditional c t e => do
    let c ← f c
    let t ← f t
    return conditional c t (← f e)
  | cast t e => do
    let t ← f t
    return cast t (← f e)
  | this => return this
  | super => return super

end Kind

end JavaEdit
