import Lox.Proofs.Frame.Confined
import Lox.Proofs.Session.Concluded

namespace Lox.Session

/-- What a program or an expression that runs in a scope may leave of a tree. It may assign some
targets and declare some names. -/
structure Isolated (targets declared : List String) (scope : Nat) (tree after : ScopeTree) : Prop where
  /-- the scopes are the same ones, each within the same others -/
  links : after.map Scope.ancestors = tree.map Scope.ancestors
  /-- scopes that are neither this one nor around it -/
  apart : ∀ other ∉ tree.path scope, after[other]? = tree[other]?
  /-- scopes around this one -/
  outer : ∀ other ∈ tree.path scope, other ≠ scope →
    (after.bindings other).names = (tree.bindings other).names
  inner : ∃ added, (after.bindings scope).names = (tree.bindings scope).names ++ added ∧
    ∀ name ∈ added, name ∈ declared
  changed : ∀ other name held, (tree.bindings other).lookup name = some held →
    (after.bindings other).lookup name ≠ some held →
    name ∈ targets ∨ other = scope ∧ name ∈ declared

section
variable {targets declared done : List String} {tree : ScopeTree} {scope : Nat} {chain : Chain}

theorem isolated_of_revised (revised : Chain.Revised targets done (tree.chain scope) chain)
    (among : done ⊆ declared) (rooted : tree.Rooted) (inside : scope < tree.length) :
    Isolated targets declared scope tree (tree.update scope chain) := by
  have each := revised.update rooted inside
  refine ⟨ScopeTree.links_update tree scope chain, fun other => ScopeTree.update_apart chain,
    ?_, ?_, ?_⟩
  · intro other _ different
    rw [(each other).names, if_neg different]
    rfl
  · have names := (each scope).names
    rw [if_pos rfl] at names
    rcases enlist_extends (tree.bindings scope).names done with ⟨added, extended, new⟩
    exact ⟨added, names.trans extended, fun name member => among (new name member)⟩
  · intro other name held bound changed
    by_contra neither
    rw [not_or, not_and] at neither
    refine changed ?_
    rw [← bound]
    refine (each other).others name neither.1 ?_
    split
    next same => exact fun member => neither.2 same (among member)
    next => exact List.not_mem_nil

/-- Scopes are isolated. A program that was read and is run in a scope, whether it comes to its end
or fails, leaves all scopes but that one and those around it as they are, and the names of those
around it; it adds to that scope only names that it declares itself, not in a block, and it changes
no binding but of such names in that scope and of names that it assigns. An expression moreover
declares and prints nothing, and what is initialized stays so. -/
theorem scopes_isolated {limit : Nat} {tokens : List Token} {statements : List Node}
    (read : Grammar.parseProgram limit tokens = .ok statements) (rooted : tree.Rooted)
    (inside : scope < tree.length) (options : Options) (trace : String) :
    Isolated (Node.allTargets statements) (Node.allDeclared statements) scope tree
      (execute options scope trace statements tree).tree ∧
    evaluate options = evaluateIn options 0 ∧
    ∀ node, Isolated node.targets [] scope tree (evaluateIn options scope node tree).tree ∧
      ((evaluateIn options scope node tree).tree.bindings scope).names =
        (tree.bindings scope).names ∧
      (evaluateIn options scope node tree).output = "" ∧
      ∀ other name value, (tree.bindings other).lookup name = some (some value) →
        ∃ changed, ((evaluateIn options scope node tree).tree.bindings other).lookup name =
          some (some changed) := by
  refine ⟨?_, rfl, ?_⟩
  · rcases executeAll_revised read (opening options) (entrance tree scope trace) with
      ⟨done, before, revised⟩
    rw [execute_concluded, concluded_tree]
    exact isolated_of_revised revised.chain before.subset rooted inside
  · intro node
    have confined := evaluate_confined (List.Subset.refl node.targets) false
    rcases (confined (opening options) (entrance tree scope "")).revised with
      ⟨done, before, revised⟩
    cases List.prefix_nil.mp before
    rw [evaluateIn_concluded, concluded_tree, concluded_output]
    have each := revised.chain.update rooted inside
    simp only [ite_self] at each
    refine ⟨isolated_of_revised revised.chain (List.Subset.refl []) rooted inside, ?_, ?_, ?_⟩
    · exact (each scope).names
    · exact revised.output rfl
    · exact fun other name value => (each other).held name value List.not_mem_nil

end

/-- Of two scopes within the outermost one, the first runs `var a = b; { var c; b = true; } print c;`,
which fails. The second one is left as it was. -/
theorem sibling_isolated :
    let tokens : List Token := [⟨.varWord, "var", 1⟩, ⟨.identifier "a", "a", 1⟩, ⟨.equal, "=", 1⟩,
      ⟨.identifier "b", "b", 1⟩, ⟨.semicolon, ";", 1⟩, ⟨.leftBrace, "\x7b", 1⟩, ⟨.varWord, "var", 1⟩,
      ⟨.identifier "c", "c", 1⟩, ⟨.semicolon, ";", 1⟩, ⟨.identifier "b", "b", 1⟩, ⟨.equal, "=", 1⟩,
      ⟨.trueWord, "true", 1⟩, ⟨.semicolon, ";", 1⟩, ⟨.rightBrace, "\x7d", 1⟩,
      ⟨.printWord, "print", 1⟩, ⟨.identifier "c", "c", 1⟩, ⟨.semicolon, ";", 1⟩, .endOfInput 1]
    let statements : List Node := [.declare "a" (some (.identifier "b")),
      .block [.declare "c" none, .expression (.assign "b" (.literal (.boolean true)))],
      .print (.identifier "c")]
    let tree : ScopeTree := ((ScopeTree.initial.child 0).child 0).define 0 "b" (some .nil)
    let step := execute ⟨false, .standard⟩ 1 "" statements tree
    Grammar.parseProgram 40 tokens = .ok statements ∧ tree.Rooted ∧ 1 < tree.length ∧
      Isolated ["b"] ["a"] 1 tree step.tree ∧
      step.result = .error (.failure (.runtime (.unknownName "c"))) ∧
      step.tree = [⟨[("b", some (.boolean true))], []⟩, ⟨[("a", some .nil)], [0]⟩, ⟨[], [0]⟩] := by
  intro tokens statements tree step
  have read : Grammar.parseProgram 40 tokens = .ok statements := rfl
  have rooted : tree.Rooted :=
    ((ScopeTree.rooted_initial.child (by decide)).child (by decide)).update 0 _
  have inside : 1 < tree.length := by decide
  exact ⟨read, rooted, inside, (scopes_isolated read rooted inside ⟨false, .standard⟩ "").1, rfl, rfl⟩

end Lox.Session
