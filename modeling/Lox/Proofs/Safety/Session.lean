import Lox.Proofs.Grammar.Acceptance
import Lox.Proofs.Safety.Sound
import Lox.Session

namespace Lox

theorem Failure.Internal.of_settle {failure : Failure} (internal : failure.settle.Internal) :
    failure.Internal := by
  cases failure with
  | tooDeep =>
    cases internal with
    | runtime deep => cases deep
  | _ => exact internal

namespace Session

/-- What a session can come to from a fresh scope by programs that were read and run in any of its
scopes, by expressions that were read and evaluated, and by new scopes. -/
inductive Reachable : ScopeTree → Prop where
  | fresh : Reachable .initial
  | child {tree : ScopeTree} (parent : Nat) : Reachable tree → Reachable (tree.child parent)
  | executed {tree : ScopeTree} {limit : Nat} {tokens : List Token} {statements : List Node}
      (options : Options) (scope : Nat) (trace : String) :
    Reachable tree → Grammar.parseProgram limit tokens = .ok statements →
    Reachable (execute options scope trace statements tree).tree
  | evaluated {tree : ScopeTree} {limit : Nat} {tokens : List Token} {node : Node}
      (options : Options) :
    Reachable tree → Grammar.parseExpression limit tokens = .ok node →
    Reachable (evaluate options node tree).tree

def sights {α : Type} (options : Options) (scope : Nat) (trace : String) (observed : Observed α)
    (tree : ScopeTree) : List Sight :=
  observed.sights ⟨options.traced, options.limits, options.limits.evaluating⟩
    ⟨tree.chain scope, "", trace⟩

/-- A step without internal errors, that comes to known values and leaves no others. -/
structure Clean {α : Type} (good : α → Prop) (step : Step α) (seen : List Sight) : Prop where
  value : ∀ value, step.result = .ok value → good value
  failure : ∀ failure, step.result = .error (.failure failure) → ¬ failure.Internal
  tree : step.tree.Known
  seen : ∀ sight ∈ seen, sight.Known

section
variable {tree : ScopeTree} {limit : Nat} {tokens : List Token}

theorem clean_performed {α : Type} {good : α → Prop} {observed : Observed α} (safe : Safe good observed)
    (known : tree.Known) (options : Options) (scope : Nat) (trace : String) :
    Clean good (settled (perform options scope trace observed.run tree))
      (sights options scope trace observed tree) := by
  have start := known.chain scope
  have ended := safe.ends ⟨options.traced, options.limits, options.limits.evaluating⟩
    ⟨tree.chain scope, "", trace⟩ start
  have seen := safe.seen ⟨options.traced, options.limits, options.limits.evaluating⟩
    ⟨tree.chain scope, "", trace⟩ start
  simp only [settled, perform]
  generalize observed.run _ _ = result at ended
  cases ended with
  | ok holds left =>
    refine ⟨fun value same => ?_, fun failure same => ?_, known.update left scope, seen⟩
    · cases same
      exact holds
    · cases same
  | error ordinary left =>
    refine ⟨fun value same => ?_, fun failure same => ?_, known.update left scope, seen⟩
    · cases same
    · cases same
      exact fun internal => ordinary internal.of_settle

theorem executed_clean {statements : List Node} (known : tree.Known)
    (read : Grammar.parseProgram limit tokens = .ok statements) (options : Options) (scope : Nat)
    (trace : String) :
    Clean (fun _ => True) (execute options scope trace statements tree)
      (sights options scope trace (Node.observedExecuteAll statements) tree) := by
  have derived := Grammar.parseProgram_sound (Grammar.ended_of_ok read) read
  have clean := clean_performed derived.safe known options scope trace
  rw [Node.observedExecuteAll_run] at clean
  exact clean

theorem evaluated_clean {node : Node} (known : tree.Known)
    (read : Grammar.parseExpression limit tokens = .ok node) (options : Options) :
    Clean (fun value => value.known = true) (evaluate options node tree)
      (sights options 0 "" node.observedEvaluate tree) := by
  have phrase := Grammar.parseExpression_sound (Grammar.ended_of_ok read) read
  have clean := clean_performed phrase.safe known options 0 ""
  rw [Node.observedEvaluate_run] at clean
  exact clean

theorem Reachable.known (reachable : Reachable tree) : tree.Known := by
  induction reachable with
  | fresh => exact ScopeTree.known_initial
  | child parent _ ih => exact ih.child parent
  | executed options scope trace _ read ih => exact (executed_clean ih read options scope trace).tree
  | evaluated options _ read ih => exact (evaluated_clean ih read options).tree

/-- However far a session has come, all its scopes hold known values only. No further program and no
further expression stops with an internal error, and observing them, which changes nothing about what
they do, shows no moment at which a value is produced, printed or bound that is not known. -/
theorem internal_errors_unreachable (reachable : Reachable tree) (options : Options) :
    tree.Known ∧
    (∀ scope trace limit tokens statements, Grammar.parseProgram limit tokens = .ok statements →
      (Node.observedExecuteAll statements).run = Node.executeAll statements ∧
      Clean (fun _ => True) (execute options scope trace statements tree)
        (sights options scope trace (Node.observedExecuteAll statements) tree)) ∧
    ∀ limit tokens node, Grammar.parseExpression limit tokens = .ok node →
      node.observedEvaluate.run = node.evaluate ∧
      Clean (fun value => value.known = true) (evaluate options node tree)
        (sights options 0 "" node.observedEvaluate tree) := by
  have known := reachable.known
  refine ⟨known, ?_, ?_⟩
  · intro scope trace limit tokens statements read
    exact ⟨Node.observedExecuteAll_run statements, executed_clean known read options scope trace⟩
  · intro limit tokens node read
    exact ⟨node.observedEvaluate_run, evaluated_clean known read options⟩

end

/-- After `var a = nil;` the expression `a == -a` fails cleanly: it cannot negate nil. -/
theorem negated_nil_clean :
    let options : Options := ⟨false, .standard⟩
    let tree := (execute options 0 "" [.declare "a" (some (.literal .nil))] .initial).tree
    let node : Node := .binary (.identifier "a") .equalEqual (.unary .minus (.identifier "a"))
    Reachable tree ∧
      sights options 0 "" node.observedEvaluate tree = [.produced .nil, .produced .nil] ∧
      Clean (fun value => value.known = true) (evaluate options node tree)
        (sights options 0 "" node.observedEvaluate tree) := by
  intro options tree node
  let declaration : List Token := [⟨.varWord, "var", 1⟩, ⟨.identifier "a", "a", 1⟩, ⟨.equal, "=", 1⟩,
    ⟨.nilWord, "nil", 1⟩, ⟨.semicolon, ";", 1⟩, .endOfInput 1]
  let comparison : List Token := [⟨.identifier "a", "a", 1⟩, ⟨.equalEqual, "==", 1⟩,
    ⟨.minus, "-", 1⟩, ⟨.identifier "a", "a", 1⟩, .endOfInput 1]
  have declared : Grammar.parseProgram 40 declaration =
    .ok [.declare "a" (some (.literal .nil))] := rfl
  have compared : Grammar.parseExpression 40 comparison = .ok node := rfl
  have reachable : Reachable tree := .executed options 0 "" .fresh declared
  refine ⟨reachable, rfl, ?_⟩
  exact ((internal_errors_unreachable reachable options).2.2 40 comparison node compared).2

end Session
end Lox
