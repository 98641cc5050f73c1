/-!
# Modifiers

Declaration modifiers and sets of them. A set is a list in the canonical order without
repetition, which is also the order of printing.
-/

namespace JavaEdit

/-- Modifiers in canonical order. -/
inductive Modifier where
  | pub | prot | priv | abstract | static | final | transient | volatile
  | synchronized | native | strictfp | default
  deriving DecidableEq, Repr

namespace Modifier

def all : List Modifier :=
  [pub, prot, priv, abstract, static, final, transient, volatile, synchronized,
   native, strictfp, default]

def keyword : Modifier → String
  | pub => "public"
  | prot => "protected"
  | priv => "private"
  | abstract => "abstract"
  | static => "static"
  | final => "final"
  | transient => "transient"
  | volatile => "volatile"
  | synchronized => "synchronized"
  | native => "native"
  | strictfp => "strictfp"
  | default => "default"

def ofKeyword? (word : String) : Option Modifier :=
  all.find? fun m => m.keyword == word

end Modifier

/-- A set of modifiers, in canonical order. -/
abbrev Modifiers := List Modifier

namespace Modifiers

def ofPredicate (p : Modifier → Bool) : Modifiers := Modifier.all.filter p

def insert (ms : Modifiers) (m : Modifier) : Modifiers :=
  ofPredicate fun x => x == m || ms.contains x

/-- The modifiers among some keywords in any case; other words are passed over. -/
def ofKeywords (words : List String) : Modifiers :=
  let found := words.filterMap fun w =>
    Modifier.ofKeyword? (String.ofList (w.toList.map Char.toLower))
  ofPredicate found.contains

end Modifiers

end JavaEdit
