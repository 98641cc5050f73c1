import JavaEdit.Data.Basic
import JavaEdit.Number.Binary

/-!
# Scripts

A script names the sources of a project, changes to be made to them, and how the changed classes
are expected to behave. `Script.ofData?` reads one from plain data: unknown fields are passed over,
and fields with a default may be missing. A list may stand for any of the records; `surplus` says
whether it may then hold more than the record has fields. For a change it may not.
-/

namespace JavaEdit

/-- What a script says about itself and its sources. -/
structure ScriptMeta where
  name : String := ""
  description : Option String := none
  inputs : List String := []
  classpath : List String := []
  outputDir : Option String := none
  /-- Whether printed units are checked. A script that says nothing about itself has no use for
  the check, all others do unless they say otherwise. -/
  validateOutput : Bool := false
  deriving DecidableEq, Repr

inductive Operation where
  /-- Replace every binary operator of one kind by another. -/
  | replaceOperator (old new : String)
  | deleteMethod (name : String)
  | addMembers (code : String)
  | replaceBody (method body : String)
  deriving DecidableEq, Repr

def Operation.kind : Operation → String
  | replaceOperator .. => "replace-operator"
  | deleteMethod .. => "delete-method"
  | addMembers .. => "add-members"
  | replaceBody .. => "replace-body"

/-- A change to a class. Operators can also be replaced in all input units. -/
structure Transform where
  id : String
  className : Option String
  operation : Operation
  deriving DecidableEq, Repr

/-- A result that a method is expected to have. -/
inductive ExpectedValue where
  | boolean (value : Bool)
  | integer (value : Int64)
  | float (bits : Nat)
  | text (value : String)
  deriving DecidableEq, Repr

/-- How a method without arguments is expected to behave. -/
structure Expectation where
  className : String
  method : String
  returns : Option ExpectedValue
  output : Option String
  /-- The exception that ends the call, with or without its package. -/
  throws : Option String
  deriving DecidableEq, Repr

/-- Sources, changes and expectations. -/
structure Script where
  info : ScriptMeta
  transforms : List Transform
  expectations : List Expectation
  deriving DecidableEq, Repr

/-- Read what a script says about itself. -/
def ScriptMeta.ofData? (surplus : Bool) (d : Data) : Option ScriptMeta := do
  let names := ["name", "description", "inputs", "classpath", "output_dir", "validate_output"]
  let texts? (d : Data) := d.items?.bind Data.texts?
  match ← d.fields? surplus names with
  | [name, description, inputs, classpath, outputDir, validateOutput] =>
    return {
      name := ← Data.getD "" (fun d => Data.text? (some d)) name
      description := ← Data.optionalText? description
      inputs := ← Data.getD [] texts? inputs
      classpath := ← Data.getD [] texts? classpath
      outputDir := ← Data.optionalText? outputDir
      validateOutput := ← Data.getD true Data.boolean? validateOutput }
  | _ => none

/-- Read a change of a kind from the rest of its fields. -/
def Operation.ofFields? (d : Data) : String → Option Operation
  | "replace-operator" => do
    match ← d.fields? false ["from", "to"] with
    | [old, new] => return .replaceOperator (← Data.text? old) (← Data.text? new)
    | _ => none
  | "delete-method" => do
    match ← d.fields? false ["name"] with
    | [name] => return .deleteMethod (← Data.text? name)
    | _ => none
  | "add-members" => do
    match ← d.fields? false ["code"] with
    | [code] => return .addMembers (← Data.text? code)
    | _ => none
  | "replace-body" => do
    match ← d.fields? false ["method", "body"] with
    | [method, body] => return .replaceBody (← Data.text? method) (← Data.text? body)
    | _ => none
  | _ => none

/-- Read a change. Its kind is the field `type` of a table or the first item of a list. -/
def Operation.ofData? (d : Data) : Option Operation :=
  match d with
  | .table _ entries => (Data.text? (entries.lookup "type")).bind (ofFields? d)
  | .list (.text kind :: rest) => ofFields? (.list rest) kind
  | _ => none

def Transform.ofData? (surplus : Bool) (d : Data) : Option Transform := do
  match ← d.fields? surplus ["id", "class", "operation"] with
  | [id, className, some operation] =>
    return ⟨← Data.text? id, ← Data.optionalText? className, ← Operation.ofData? operation⟩
  | _ => none

/-- Read an expected result. An integer beyond 64 bits counts as a floating point number. -/
def ExpectedValue.ofData? : Data → Option ExpectedValue
  | .boolean b => some (.boolean b)
  | .integer n =>
    let limit : Int := Number.twoPow 63
    if -limit ≤ n ∧ n < limit then some (.integer (Int64.ofInt n))
    else
      let f := Number.Format.double
      let bits := f.ofDecimal n.natAbs 0
      some (.float (if n < 0 then f.signBit + bits else bits))
  | .float bits => some (.float bits)
  | .text s => some (.text s)
  | _ => none

/-- Read an expected result that may be missing or null. -/
def ExpectedValue.optional? : Option Data → Option (Option ExpectedValue)
  | none | some .null => some none
  | some d => (ofData? d).map some

def Expectation.ofData? (surplus : Bool) (d : Data) : Option Expectation := do
  match ← d.fields? surplus ["class", "method", "returns", "output", "throws"] with
  | [className, method, returns, output, throws] =>
    return ⟨← Data.text? className, ← Data.text? method, ← ExpectedValue.optional? returns,
      ← Data.optionalText? output, ← Data.optionalText? throws⟩
  | _ => none

def Script.ofData? (surplus : Bool) (d : Data) : Option Script := do
  match ← d.fields? surplus ["meta", "transforms", "expect"] with
  | [info, transforms, expectations] =>
    return ⟨← Data.getD {} (ScriptMeta.ofData? surplus) info,
      ← Data.getD [] (Data.readList? (Transform.ofData? surplus)) transforms,
      ← Data.getD [] (Data.readList? (Expectation.ofData? surplus)) expectations⟩
  | _ => none

end JavaEdit
