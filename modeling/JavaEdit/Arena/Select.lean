import JavaEdit.Arena.Walk
import JavaEdit.Text.Split

/-!
# Paths to nodes

A path leads from one node to another in steps: to the child with a number, or to an element of a
variant, `Method`, `Method:run`, `Method#1` or `Method:run#1`, numbered from zero in the walk from
the node it starts at.
-/

namespace JavaEdit

inductive NodeStep where
  | child (index : Nat)
  | element (variant : Variant) (name : Option String) (index : Nat)
  deriving DecidableEq, Repr

namespace NodeStep

def number? (cs : List Char) : Option Nat := unsignedValue? 10 cs

def numbered? (cs : List Char) : Option (List Char × Nat) :=
  match cs.reverse.dropWhile (· != '#') with
  | [] => some (cs, 0)
  | _ :: front => (number? (cs.reverse.takeWhile (· != '#')).reverse).map fun n => (front.reverse, n)

def read? (text : String) : Option NodeStep :=
  match number? text.toList with
  | some n => some (child n)
  | none => do
    let (cs, index) ← numbered? text.toList
    let variant ← Variant.ofText? (String.ofList (cs.takeWhile (· != ':')))
    let name := match cs.dropWhile (· != ':') with
      | _ :: name => some (String.ofList name)
      | [] => none
    return element variant name index

end NodeStep

namespace Arena

def step? (a : Arena) (id : NodeId) : NodeStep → Option NodeId
  | .child index => (a.children id)[index]?
  | .element variant none index => (a.elements id (isVariant variant))[index]?
  | .element variant (some name) index => (a.elements id (isNamed variant name))[index]?

def follow? (a : Arena) : NodeId → List String → Option NodeId
  | id, [] => some id
  | id, part :: rest => do
    let next ← a.step? id (← NodeStep.read? part)
    a.follow? next rest

end Arena

end JavaEdit
