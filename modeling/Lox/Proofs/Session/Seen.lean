import Lox.Proofs.Safety.Session
import Lox.Proofs.Safety.Shown
import Lox.Proofs.Session.Concluded
import Lox.Proofs.Session.Line

namespace Lox.Session

/-- What is to be seen of the run of a line, up to its end or to the error that it comes to.
Observing a line changes nothing about what it does. -/
inductive Seen (options : Options) (source : List Char) (tree : ScopeTree) : List Sight → Prop where
  | expression {node : Node} :
    Source.expression options.limits source = .ok node →
    node.observedEvaluate.run = node.evaluate →
    Seen options source tree (sights options 0 "" node.observedEvaluate tree)
  | program {statements : List Node} (trace : String) :
    (∀ node, Source.expression options.limits source ≠ .ok node) →
    Source.program options.limits source = .ok statements →
    (Node.observedExecuteAll statements).run = Node.executeAll statements →
    Seen options source tree (sights options 0 trace (Node.observedExecuteAll statements) tree)

/-- A step that printed what was seen, and that left the scopes as they were seen last. -/
structure Leaving {α : Type} (tree : ScopeTree) (scope : Nat) (seen : List Sight) (step : Step α) :
    Prop where
  output : step.output = Sight.output seen
  tree : ∃ left, Trail (tree.chain scope) seen left ∧ step.tree = tree.update scope left

theorem leaving_performed {α : Type} {observed : Observed α} (shown : Shown observed)
    (options : Options) (scope : Nat) (trace : String) (tree : ScopeTree) :
    Leaving tree scope (sights options scope trace observed tree)
      (settled (perform options scope trace observed.run tree)) := by
  rw [settled_perform]
  constructor
  · rw [concluded_output, shown]
    exact String.empty_append
  · rw [concluded_tree]
    exact ⟨_, observed.trail (opening options) (entrance tree scope trace), rfl⟩

theorem line_leaving {options : Options} {source : List Char} {tree : ScopeTree} {failure : Failure}
    (failed : (line options source tree).result = .error (.failure failure)) :
    ∃ seen, Seen options source tree seen ∧ Leaving tree 0 seen (line options source tree) := by
  have taken := line_taken options source tree
  generalize line options source tree = step at taken failed ⊢
  cases taken with
  | @expression node read =>
    have leaving := leaving_performed (shown_observedEvaluate node) options 0 "" tree
    rw [node.observedEvaluate_run] at leaving
    change Leaving tree 0 _ (evaluate options node tree) at leaving
    refine ⟨_, .expression read node.observedEvaluate_run, ?_⟩
    cases result : (evaluate options node tree).result with
    | ok value =>
      rw [echo, result] at failed
      cases failed
    | error problem =>
      rw [echo, result]
      exact ⟨leaving.output, leaving.tree⟩
  | @program statements trace unread read =>
    have leaving := leaving_performed (shown_observedExecuteAll statements) options 0 trace tree
    rw [Node.observedExecuteAll_run] at leaving
    exact ⟨_, .program trace unread read (Node.observedExecuteAll_run statements), leaving⟩
  | refused error trace _ => cases failed

end Lox.Session
