import JavaEdit.Proofs.Layout.Lines
import JavaEdit.Proofs.Reading.Statements
import JavaEdit.Proofs.RoundTrip.Expressions

/-!
# Blocks are read back

The text of a block is made of the words of the block that it tells (`Proofs/Layout/Lines`), and these are
read as that block (`Proofs/Reading/Statements`). Neither asks where the tree came from, so every `else` is read
with the `if` it stands behind in the tree, also where trees were put together in a way that no text has:
there the text has braces, and so has the block that is read (`Tree.asWritten`).
-/

namespace JavaEdit

open Layout Lexer

theorem Parser.readBlock_text {ok : Page → Prop} {ts : List Page} (h : IsBranching ok (.node [] (.block ts)))
    (b : Arena) : Yields (b.readBlock (Tree.node [] (.block ts)).text)
      (fun id c => c.Shows id (Tree.node [] (.block ts)).asWritten) (·.cause = .nestingTooDeep) := by
  have lexed := lexes_branching h 0 [] [word .eof ""] Lexer.Lexes.done
  have written := h.asWritten
  rw [List.append_nil] at lexed
  have same : (Tree.node [] (.block ts)).asWritten = .node [] (.block (ts.map Tree.asWritten)) := Tree.asWritten_node ..
  rw [same] at lexed written ⊢
  cases written with
  | block each =>
    exact (yields_of_lexes lexed (fun _ _ _ _ => ⟨_, inferInstance⟩) (fun n s ahead => reads_block (n := n + 1)
      (fun t mem => (each t mem).silent) (fun t mem => reads_branching (each t mem)) ahead) _ b).imp_error
      fun _ _ => And.right

theorem Arena.Shows.structurallyEqual {a : Arena} {id : NodeId} {ok : Page → Prop} {t : Page} (shown : a.Shows id t)
    (h : IsBranching ok t) {b : Arena} {n : NodeId} (held : b.Holds n t.bare) : a.structurallyEqual id b n := by
  have holds := shown.1.holds
  have size : (a.tree id).size = (a.commented id).bare.size := by
    rw [← bare_eq, bare, Tree.size_bare]
  rw [shown.2] at holds size
  refine (structurallyEqual_iff holds size held).mpr (Tree.alike_self ?_)
  refine h.isStatement.every_regular.denoted fun value clear => ?_
  have written : value.IsWritten := clear
  cases value with
  | float | double => exact ⟨written.1, written.2.1⟩
  | _ => trivial

namespace Arena

/-- Every `else` is read with the `if` it stands behind, however the tree was put together: what is read from
the text of a block is the block with the braces that the text puts around open branches. -/
theorem else_read_with_its_if (a : Arena) (b : NodeId) (isBlock : (a.commented b).variant = .block)
    (branching : IsBranching (fun _ => True) (a.commented b)) (c : Arena) :
    Yields (c.readBlock (a.text b))
      (fun id d => d.Shows id (a.commented b).asWritten ∧
        ∀ e n, Holds e n (a.commented b).asWritten.bare → d.structurallyEqual id e n = true)
      (·.cause = .nestingTooDeep) := by
  have shows : Yields (c.readBlock (a.commented b).text) (fun id d => d.Shows id (a.commented b).asWritten)
      (·.cause = .nestingTooDeep) := by
    generalize a.commented b = t at isBlock branching
    cases branching with
    | block each => exact Parser.readBlock_text (.block each) c
    | _ => cases isBlock
  exact shows.mono fun id d shown => ⟨shown, fun e n held => shown.structurallyEqual branching.asWritten held⟩

/-- The statement `while (c) if (b) f();`, which takes an `else` behind it. -/
def openLoop : Page :=
  .node [] (.whileLoop (.node [] (.name "c")) (.node [] (.ifElse (.node [] (.name "b"))
    (.node [] (.expressionStatement (.node [] (.invocation none "f" [])))) none)))

/-- A block with an `if` whose branch is `t` and whose `else` calls `g`. -/
def branchBlock (t : Page) : Page :=
  .node [] (.block [.node [] (.ifElse (.node [] (.name "a")) t
    (some (.node [] (.expressionStatement (.node [] (.invocation none "g" []))))))])

/-- A node with an open loop in front of an `else`, which no text has, and its arena. -/
def plantedBranch : NodeId × Arena := (plant (branchBlock openLoop)).run empty

/-- The open loop is read as a loop in braces. -/
theorem else_read_with_its_if_openLoop : (plantedBranch.2.commented plantedBranch.1).variant = .block ∧
      IsBranching (fun _ => True) (plantedBranch.2.commented plantedBranch.1) ∧
      (plantedBranch.2.commented plantedBranch.1).asWritten = branchBlock (.node [] (.block [openLoop])) ∧
      Yields (empty.readBlock (plantedBranch.2.text plantedBranch.1))
        (fun id d => d.Shows id (plantedBranch.2.commented plantedBranch.1).asWritten ∧
          ∀ e n, Holds e n (plantedBranch.2.commented plantedBranch.1).asWritten.bare →
            d.structurallyEqual id e n = true)
        (·.cause = .nestingTooDeep) := by
  have shown : plantedBranch.2.commented plantedBranch.1 = branchBlock openLoop :=
    List.singleton_inj.mp (planted_plant (branchBlock openLoop) empty).shown.2
  -- the rest is true of any arena that shows the block
  revert shown
  obtain ⟨b, a⟩ := plantedBranch
  intro shown
  have isBlock : (a.commented b).variant = .block := by rw [shown]; rfl
  have branching : IsBranching (fun _ => True) (a.commented b) := by
    have identifiers : ∀ n ∈ ["a", "b", "c", "f", "g"], isIdentifier n = true := by decide
    have call : ∀ n ∈ ["a", "b", "c", "f", "g"],
        IsBranching (fun _ => True) (.node [] (.expressionStatement (.node [] (.invocation none n [])))) :=
      fun n member => .expression (.ownCall (.inl (identifiers n member)) nofun) rfl
    rw [shown]
    refine .block (List.forall_mem_singleton.mpr (.ifElse (.name (identifiers "a" (by simp))) ?_ ?_ trivial))
    · exact .whileLoop (.name (identifiers "c" (by simp))) (.ifThen (.name (identifiers "b" (by simp))) (call "f" (by simp)))
    · exact call "g" (by simp)
  refine ⟨isBlock, branching, ?_, else_read_with_its_if a b isBlock branching empty⟩
  rw [shown]
  rfl

end Arena

end JavaEdit
