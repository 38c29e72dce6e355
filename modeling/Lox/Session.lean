import Lox.Evaluation
import Lox.Scope.Tree
import Lox.Source

/-!
Sessions run one program after the other in a tree of scopes. What a program did before it failed
is kept.
-/
namespace Lox

structure Options where
  traced : Bool
  limits : Limits

inductive Problem where
  | source (error : SourceError)
  | failure (failure : Failure)

structure Step (α : Type) where
  result : Except Problem α
  output : String
  trace : String
  tree : ScopeTree

def Failure.settle : Failure → Failure
  | tooDeep => runtime .tooDeep
  | failure => failure

namespace Session

def failed {α : Type} (error : SourceError) (trace : String) (tree : ScopeTree) : Step α :=
  ⟨.error (.source error), "", trace, tree⟩

def perform {α : Type} (options : Options) (scope : Nat) (trace : String) (run : Run α)
    (tree : ScopeTree) : Step α :=
  let context : Context := ⟨options.traced, options.limits, options.limits.evaluating⟩
  match run context ⟨tree.chain scope, "", trace⟩ with
  | .ok value world => ⟨.ok value, world.output, world.trace, tree.update scope world.chain⟩
  | .error failure world =>
    ⟨.error (.failure failure), world.output, world.trace, tree.update scope world.chain⟩

def settled {α : Type} (step : Step α) : Step α :=
  { step with result := step.result.mapError fun
      | .failure failure => .failure failure.settle
      | problem => problem }

def execute (options : Options) (scope : Nat) (trace : String) (statements : List Node)
    (tree : ScopeTree) : Step Unit :=
  settled (perform options scope trace (Node.executeAll statements) tree)

def evaluate (options : Options) (node : Node) (tree : ScopeTree) : Step Value :=
  settled (perform options 0 "" node.evaluate tree)

def executeSource (options : Options) (scope : Nat) (source : List Char) (tree : ScopeTree) :
    Step Unit :=
  match Source.program options.limits source with
  | .error error => failed error "" tree
  | .ok statements => execute options scope "" statements tree

def evaluateSource (options : Options) (source : List Char) (tree : ScopeTree) : Step Value :=
  match Source.expression options.limits source with
  | .error error => failed error "" tree
  | .ok node => evaluate options node tree

def echo (step : Step Value) : Step Unit :=
  match step.result with
  | .ok value =>
    { step with result := .ok (), output := step.output ++ "=> " ++ value.display ++ "\n" }
  | .error problem => { step with result := .error problem }

/-- A line that is one expression is evaluated and its value shown; any other is a program. -/
def line (options : Options) (source : List Char) (tree : ScopeTree) : Step Unit :=
  match Source.tokens source with
  | .error error => failed error "" tree
  | .ok tokens =>
    match Grammar.parseExpression options.limits.parsing tokens with
    | .ok node => echo (evaluate options node tree)
    | .error _ =>
      let (trace, result) := Source.statements options.limits options.traced source tokens
      match result with
      | .error error => failed error trace tree
      | .ok statements => execute options 0 trace statements tree

end Session
end Lox
