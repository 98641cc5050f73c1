import JavaEdit.Layout.Statements

/-!
# Layout of declarations
-/

namespace JavaEdit.Layout

def importText (i : Import) : String :=
  "import " ++ (if i.isStatic then "static " else "") ++ i.path
    ++ (if i.wildcard then ".*" else "") ++ ";\n"

/-- Package and imports of a unit, each part with a blank line behind it. -/
def headerText (package : Option String) (imports : List Import) : String :=
  let packageLine := match package with
    | some name => "package " ++ name ++ ";\n\n"
    | none => ""
  packageLine ++ String.join (imports.map importText) ++ (if imports.isEmpty then "" else "\n")

/-- What stands above a declaration and at the start of its line. -/
def above (comments : List Comment) (annotations : List Piece) (depth : Nat) : String :=
  commentLines depth comments
    ++ String.join (annotations.map fun p => margin depth ++ p.only .annotationUse depth ++ "\n")
    ++ margin depth

def typeParameterText (ps : List Piece) (depth : Nat) : String :=
  if ps.isEmpty then ""
  else "<" ++ ", ".intercalate (ps.map fun p => p.only .typeParameter depth) ++ ">"

def clause (keyword : String) (types : List Piece) (depth : Nat) : String :=
  if types.isEmpty then "" else " " ++ keyword ++ " " ++ Piece.list types depth

/-- The members of a class or interface in braces. -/
def typeBodyText (members : List Piece) (depth : Nat) : String :=
  " " ++ braces (Piece.membersText members (depth + 1)) depth

def parameterText (ps : List Piece) (depth : Nat) : String :=
  "(" ++ ", ".intercalate (ps.map fun p => p.only .parameter depth) ++ ")"

/-- The head of a method or constructor, without annotations. -/
def signatureText (depth : Nat) : Kind Piece → String
  | .method name ms _ typeParameters returned parameters thrown _ =>
    modifierText ms ++ typeParameterText typeParameters depth
      ++ (if typeParameters.isEmpty then "" else " ") ++ returned.text depth ++ " " ++ name
      ++ parameterText parameters depth ++ clause "throws" thrown depth
  | .constructor name ms _ parameters thrown _ =>
    modifierText ms ++ name ++ parameterText parameters depth ++ clause "throws" thrown depth
  | _ => ""

/-- Classes, interfaces and their members, with what stands above them. -/
def declarationPart (comments : List Comment) (depth : Nat) (kind : Kind Piece) : String :=
  match kind with
  | .classDecl name ms annotations typeParameters superclass interfaces members =>
    above comments annotations depth ++ modifierText ms ++ "class " ++ name
      ++ typeParameterText typeParameters depth ++ clause "extends" superclass.toList depth
      ++ clause "implements" interfaces depth ++ typeBodyText members depth
  | .interfaceDecl name ms annotations typeParameters supertypes members =>
    above comments annotations depth ++ modifierText ms ++ "interface " ++ name
      ++ typeParameterText typeParameters depth ++ clause "extends" supertypes depth
      ++ typeBodyText members depth
  | .method _ _ annotations _ _ _ _ none =>
    above comments annotations depth ++ signatureText depth kind ++ ";"
  | .method _ _ annotations _ _ _ _ (some body) =>
    above comments annotations depth ++ signatureText depth kind ++ " " ++ body.text depth
  | .constructor _ _ annotations _ _ body =>
    above comments annotations depth ++ signatureText depth kind ++ " " ++ body.text depth
  | .field name ms annotations type initializer =>
    above comments annotations depth ++ localText name ms type initializer depth ++ ";"
  | _ => ""

end JavaEdit.Layout
