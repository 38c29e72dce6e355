import Lox.Proofs.Bracing.Session
import Lox.Proofs.Session.Concluded

namespace Lox.Session

theorem same_untraced {α : Type} (tree : ScopeTree) (scope : Nat) (trace : String)
    (result : EStateM.Result Failure World α) :
    Same (concluded tree scope result)
        (concluded tree scope (inWorld (Recast.untraced trace).world result)) ∧
      (concluded tree scope (inWorld (Recast.untraced trace).world result)).trace = trace := by
  cases result with
  | ok value world => exact ⟨⟨rfl, rfl, rfl⟩, rfl⟩
  | error failure world => exact ⟨⟨rfl, rfl, rfl⟩, rfl⟩

theorem perform_untraced {α : Type} {run : Run α}
    (kept : ∀ trace, (Recast.untraced trace).Keeps run) (limits : Limits) (scope : Nat)
    (trace : String) (tree : ScopeTree) :
    let step (traced : Bool) := settled (perform ⟨traced, limits⟩ scope trace run tree)
    Same (step true) (step false) ∧ (step false).trace = trace := by
  intro step
  have unseen := kept trace (opening ⟨true, limits⟩) (entrance tree scope trace)
  have silent : step false = concluded tree scope
      (inWorld (Recast.untraced trace).world
        (run (opening ⟨true, limits⟩) (entrance tree scope trace))) := by
    rw [← unseen]
    exact settled_perform run
  have loud : step true = concluded tree scope
      (run (opening ⟨true, limits⟩) (entrance tree scope trace)) := settled_perform run
  rw [silent, loud]
  exact same_untraced tree scope trace _

/-- Whether a run is traced changes its trace and nothing else, in any chain of scopes and after
anything that was printed, for every list of nodes and every single node, well placed or not. The
run that is not traced ends as the other does: with the same value, with the same failure, or by
using up the rounds that its loops have, however many these are. In a session the two give the same
result, print the same and leave the same bindings in every scope. -/
theorem tracing_unseen (limits : Limits) :
    (∀ depth (world : World),
      let under (traced : Bool) : Context := ⟨traced, limits, depth⟩
      let untraced (after : World) : World := { after with trace := world.trace }
      (∀ node : Node, node.evaluate (under false) world =
        inWorld untraced (node.evaluate (under true) world)) ∧
      ∀ nodes, Node.executeAll nodes (under false) world =
        inWorld untraced (Node.executeAll nodes (under true) world)) ∧
    ∀ (scope : Nat) (tree : ScopeTree),
      (∀ node, let step traced := evaluateIn ⟨traced, limits⟩ scope node tree
        Same (step true) (step false) ∧ (step false).trace = "") ∧
      ∀ trace nodes, let step traced := execute ⟨traced, limits⟩ scope trace nodes tree
        Same (step true) (step false) ∧ (step false).trace = trace := by
  have values (node : Node) (trace : String) : (Recast.untraced trace).Keeps node.evaluate :=
    (Recast.untraced trace).keeps_closed.evaluate node
  have runs (nodes : List Node) (trace : String) :
      (Recast.untraced trace).Keeps (Node.executeAll nodes) :=
    (Recast.untraced trace).keeps_closed.executeAll nodes
  constructor
  · intro depth world under untraced
    constructor
    · intro node
      exact values node world.trace (under true) world
    · intro nodes
      exact runs nodes world.trace (under true) world
  · intro scope tree
    constructor
    · intro node
      exact perform_untraced (values node) limits scope "" tree
    · intro trace nodes
      exact perform_untraced (runs nodes) limits scope trace tree

/-- The traces of the two runs do differ. -/
example :
    let step (traced : Bool) := execute ⟨traced, .standard⟩ 0 "" [.print (.literal .nil)] .initial
    (step true).trace = "Executing: Print\nEvaluating: Literal\n" ∧ (step false).trace = "" ∧
      (step true).output = "nil\n" ∧ (step false).output = "nil\n" := by
  decide +kernel

end Lox.Session
