import Lox.Proofs.Piecewise.Steady
import Lox.Session

namespace Lox.Session

def opening (options : Options) : Context :=
  ⟨options.traced, options.limits, options.limits.evaluating⟩

def entrance (tree : ScopeTree) (scope : Nat) (trace : String) : World :=
  ⟨tree.chain scope, "", trace⟩

def concluded {α : Type} (tree : ScopeTree) (scope : Nat) :
    EStateM.Result Failure World α → Step α
  | .ok value world => ⟨.ok value, world.output, world.trace, tree.update scope world.chain⟩
  | .error failure world =>
    ⟨.error (.failure failure.settle), world.output, world.trace, tree.update scope world.chain⟩

def evaluateIn (options : Options) (scope : Nat) (node : Node) (tree : ScopeTree) : Step Value :=
  settled (perform options scope "" node.evaluate tree)

variable {options : Options} {scope : Nat} {trace : String} {tree : ScopeTree}

theorem settled_perform {α : Type} (run : Run α) :
    settled (perform options scope trace run tree) =
      concluded tree scope (run (opening options) (entrance tree scope trace)) := by
  rw [perform]
  change settled (match run (opening options) (entrance tree scope trace) with
    | .ok value world => _
    | .error failure world => _) = _
  cases run (opening options) (entrance tree scope trace) <;> rfl

theorem execute_concluded (statements : List Node) :
    execute options scope trace statements tree = concluded tree scope
      (Node.executeAll statements (opening options) (entrance tree scope trace)) :=
  settled_perform _

theorem evaluateIn_concluded (node : Node) :
    evaluateIn options scope node tree = concluded tree scope
      (node.evaluate (opening options) (entrance tree scope "")) :=
  settled_perform _

theorem concluded_tree {α : Type} (result : EStateM.Result Failure World α) :
    (concluded tree scope result).tree = tree.update scope (worldAfter result).chain := by
  cases result <;> rfl

theorem concluded_output {α : Type} (result : EStateM.Result Failure World α) :
    (concluded tree scope result).output = (worldAfter result).output := by
  cases result <;> rfl

end Lox.Session
