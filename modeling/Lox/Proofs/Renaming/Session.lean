import Mathlib.Logic.Equiv.Basic
import Lox.Proofs.Renaming.Correspondence
import Lox.Proofs.Renaming.Fragment
import Lox.Proofs.Session.Concluded

namespace Lox

section
variable {change : String → String}

def otherNames (injective : Function.Injective change) (admits : Node → Prop)
    (closed : ∀ {node part}, admits node → part ∈ node.children → admits part) :
    Correspondence where
  change := change
  admits := admits
  chains chain twin := twin = chain.rename change
  part := closed
  entered same := congrArg ([] :: ·) same
  left same := by
    rw [same]
    exact List.map_tail.symm
  looked _ same := by
    rw [same]
    exact Chain.lookup_rename injective _ _
  assigned {name _ chain _} value _ same := by
    rw [same, Chain.assign?_rename injective]
    cases chain.assign? name value with
    | none => exact .none
    | some changed => exact .some rfl
  defined held _ same := by
    rw [same]
    exact Chain.define_rename injective _ held _

namespace Session

section
variable (injective : Function.Injective change) (admits : Node → Prop)
  (closed : ∀ {node part}, admits node → part ∈ node.children → admits part)

theorem twin_eq {world twin : World} (alike : (otherNames injective admits closed).Alike world twin) :
    twin = { world with chain := world.chain.rename change } := by
  rcases twin with ⟨chain, output, trace⟩
  cases alike.chain
  cases alike.output
  cases alike.trace
  rfl

theorem concluded_rename {α : Type} {result ended : EStateM.Result Failure World α}
    (ends : (otherNames injective admits closed).Matches result ended) (tree : ScopeTree)
    (scope : Nat) :
    concluded (tree.rename change) scope ended = (concluded tree scope result).rename change := by
  cases ends with
  | @ok world twin value alike =>
    rw [twin_eq injective admits closed alike]
    exact congrArg (Step.mk _ _ _) (ScopeTree.update_rename tree scope world.chain)
  | @error world twin failure _ alike =>
    rw [twin_eq injective admits closed alike]
    change Step.mk (.error (.failure (failure.rename change).settle)) world.output world.trace
      ((tree.rename change).update scope (world.chain.rename change)) = _
    rw [Failure.settle_rename, ScopeTree.update_rename]
    rfl

theorem executeAll_rename {statements : List Node} (admitted : ∀ node ∈ statements, admits node)
    (options : Options) (scope : Nat) (trace : String) (tree : ScopeTree) :
    (otherNames injective admits closed).Matches
      (Node.executeAll statements (opening options) (entrance tree scope trace))
      (Node.executeAll (Node.renameAll change statements) (opening options)
        (entrance (tree.rename change) scope trace)) :=
  Correspondence.executeAll_follows (c := otherNames injective admits closed) admitted _ _ _
    ⟨ScopeTree.chain_rename tree scope, rfl, rfl⟩

end

theorem execute_rename (injective : Function.Injective change) (options : Options) (scope : Nat)
    (trace : String) (statements : List Node) (tree : ScopeTree) :
    execute options scope trace (Node.renameAll change statements) (tree.rename change) =
      (execute options scope trace statements tree).rename change := by
  have ends := executeAll_rename injective (fun _ => True) (fun _ _ => trivial)
    (fun node (_ : node ∈ statements) => trivial) options scope trace tree
  rw [execute_concluded, execute_concluded]
  exact concluded_rename injective _ _ ends tree scope

theorem shown_call {options : Options} {scope : Nat} {trace : String} {statements : List Node}
    {tree : ScopeTree} {node : Node} (kinds : Node.areStatements statements = true)
    (failed : (execute options scope trace statements tree).result =
      .error (.failure (.runtime (.call node)))) : node.isExpression = true := by
  have sorted : ∀ part ∈ statements, part.Sorted := fun part member =>
    .inr (Node.areStatements_iff.mp kinds part member)
  -- the run is compared with itself, for what this says of a failure that shows a call
  have ends := executeAll_rename Function.injective_id Node.Sorted Node.Sorted.part sorted options
    scope trace tree
  rw [execute_concluded] at failed
  generalize Node.executeAll statements _ _ = result at ends failed
  generalize Node.executeAll (Node.renameAll id statements) _ _ = ended at ends
  cases ends with
  | ok => cases failed
  | error failure shows _ =>
    cases failure with
    | runtime error =>
      cases failed
      rcases shows node rfl with ⟨sorted, callee, arguments, rfl⟩
      exact sorted.resolve_right nofun
    | misplaced | tooDeep | outOfRounds => cases failed

/-- What variables are called makes no difference. With an injective change of the names in a
program, a new session prints the same, ends with the same values bound to the changed names in the
same order, and stops with an error where it did before, with the changed names in the error. If
statements and expressions stand where they have to, just the names in the message are others, also
those in a call that it shows. -/
theorem renamed_does_same (injective : Function.Injective change) (statements : List Node)
    (options : Options) :
    let step := execute options 0 "" statements .initial
    let renamed := execute options 0 "" (Node.renameAll change statements) .initial
    renamed = step.rename change ∧
    ∀ error, step.result = .error (.failure (.runtime error)) →
      renamed.result = .error (.failure (.runtime (error.rename change))) ∧
      error.message = Fragment.written error.fragments ∧
      (Node.areStatements statements = true → (error.rename change).message =
        Fragment.written (error.fragments.map (Fragment.rename change))) := by
  intro step renamed
  have same : renamed = step.rename change :=
    execute_rename injective options 0 "" statements .initial
  refine ⟨same, fun error failed => ⟨?_, error.written_fragments.symm, fun kinds => ?_⟩⟩
  · rw [same, Step.rename, failed]
    rfl
  · have expressions : ∀ node, error = .call node → node.isExpression = true := by
      rintro node rfl
      exact shown_call kinds failed
    rw [← RuntimeError.fragments_rename change expressions, RuntimeError.written_fragments]

/-- `var a = true; { var b = a; a = b; } print a; f(a, b);` with `a` and `b` in each other's
place. -/
theorem swapped_does_same :
    let change : String → String := Equiv.swap "a" "b"
    let statements : List Node := [.declare "a" (some (.literal (.boolean true))),
      .block [.declare "b" (some (.identifier "a")), .expression (.assign "a" (.identifier "b"))],
      .print (.identifier "a"),
      .expression (.call (.identifier "f") [.identifier "a", .identifier "b"])]
    let step := execute ⟨false, .standard⟩ 0 "" statements .initial
    let renamed := execute ⟨false, .standard⟩ 0 "" (Node.renameAll change statements) .initial
    Function.Injective change ∧ Node.areStatements statements = true ∧
      renamed = step.rename change ∧
      renamed.output = "true\n" ∧ renamed.tree.bindings 0 = [("b", some (.boolean true))] ∧
      ∃ error, renamed.result = .error (.failure (.runtime error)) ∧
        error.message = "Function calls are not yet supported: f(b, a)" := by
  intro change statements step renamed
  have injective : Function.Injective change := (Equiv.swap "a" "b").injective
  have same := renamed_does_same injective statements ⟨false, .standard⟩
  rcases same with ⟨all, errors⟩
  rcases errors (.call (.call (.identifier "f") [.identifier "a", .identifier "b"])) rfl with
    ⟨failed, -, words⟩
  refine ⟨injective, rfl, all, rfl, rfl, _, failed, ?_⟩
  rw [words rfl]
  rfl

end Session
end
end Lox
