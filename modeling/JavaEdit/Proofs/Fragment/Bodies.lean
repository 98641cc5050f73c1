import JavaEdit.Proofs.Fragment.Reports

/-!
# Replaced bodies

A text is put behind the head of a method, between braces, and what it then declares is read
(`Excerpt`). Nothing asks that this is one method. Each declaration gets an entry in the report, and each
body among them is put in the place of the one before it (`replaceMethodBody_accounts_for_each_declaration`). So a text
that closes the braces and opens others can replace a body more than once.
-/

namespace JavaEdit.Fragment

open Arena List

variable {a : Arena} {type m : NodeId} {name body : String}

/-- A method with a text for its body. -/
def withBody (a : Arena) (method : NodeId) (body : String) : String :=
  (a.commented method).signatureText ++ " \x7b\n" ++ body ++ "\n\x7d"

/-- The body of the method is the one of the only declaration. -/
def TakesBody (e : Excerpt) (m : NodeId) (b : Arena) : Prop :=
  ∀ x, e.simple = [x] → ∃ new, (b.kind m).body? = some new ∧ (e.scratch.commented x).kind.body? = some (b.commented new)

theorem ends_replaceAll_excerpt {n : Nat} {changes : List NodeId} (waiting : Waiting n m changes a)
    (rooted : ∀ change ∈ changes, a.Rooted change) {e : Excerpt}
    (shown : changes.map a.commented = e.simple.map e.scratch.commented) :
    Ends (replaceAll m changes {}) a (fun r b => r.replaced ≠ [] → TakesBody e m b) fun _ _ => False := by
  by_cases one : ∃ x, e.simple = [x]
  · obtain ⟨x, one⟩ := one
    rw [one] at shown
    obtain ⟨change, rfl, tree⟩ := map_eq_singleton_iff.mp shown
    have here := rooted change (.head _)
    refine (ends_replaceAll_single waiting here {}).imp fun r b moves some_ y same => ?_
    obtain rfl : x = y := singleton_inj.mp (one.symm.trans same)
    obtain ⟨new, found, has, kept⟩ := moves some_
    refine ⟨new, has, ?_⟩
    rw [← tree, here.commented_eq, kept]
    simp [Tree.kind, found]
  · exact (ends_replaceAll_method waiting {}).imp fun _ _ _ _ x same => absurd ⟨x, same⟩ one

/-- A run that replaces the body of a method, by the declarations that are read. -/
theorem ends_replaceMethodBody_settled (linked : Linked a)
    (first : (a.members type).find? (isCallable a name) = some m) (isMethod : a.variant m = .method) :
    Ends (replaceMethodBody type name body) a
      (fun r b => ∃ (e : Excerpt) (c : Arena), e.Reads a type (withBody a m body) ∧
        Settled a.size m e.simple.length {} c r b ∧ (r.replaced ≠ [] → TakesBody e m b)) fun _ _ => True := by
  have inside := linked.child_lt (Kind.mem_children_of_mem_members (mem_of_find?_eq_some first))
  unfold replaceMethodBody
  rw [ends_bind, ends_get, first, ends_bind]
  refine ((ends_extract type _ a).and (ends_extract_excerpt type _ a)).mono ?_ fun _ _ _ => trivial
  rintro changes c ⟨⟨owns, regular⟩, -, -, e, reads, shown⟩
  have same : changes.length = e.simple.length := by simpa using congrArg length shown
  have waiting := waiting_of_owns linked inside isMethod owns regular
  have takes := ends_replaceAll_excerpt waiting (fun change mem => (regular change mem).1) shown
  exact ((ends_replaceAll_method waiting {}).and takes).mono
    (fun r b ⟨settled, takes⟩ => ⟨e, c, reads, same ▸ settled, takes⟩) fun _ _ _ => trivial

def answering : Arena := (Arena.empty.readUnit "A.java" "class A \x7b int m() \x7b return 0; \x7d \x7d").2

/-- Statements that close the body they stand in and open another one. -/
def unbalanced : String := "return 1; \x7d int n() \x7b return 2;"

theorem linked_answering : Linked answering :=
  (grown_readUnit Arena.empty "A.java" "class A \x7b int m() \x7b return 0; \x7d \x7d").linked linked_empty

end JavaEdit.Fragment
