import Lox.Evaluation
import Lox.Session

namespace Lox

variable (change : String → String)

namespace Node

mutual

def rename : Node → Node
  | literal value => literal value
  | identifier name => identifier (change name)
  | assign name value => assign (change name) value.rename
  | unary operator right => unary operator right.rename
  | binary left operator right => binary left.rename operator right.rename
  | logical left operator right => logical left.rename operator right.rename
  | grouping inner => grouping inner.rename
  | call callee arguments => call callee.rename (renameAll arguments)
  | expression inner => expression inner.rename
  | print inner => print inner.rename
  | declare name none => declare (change name) none
  | declare name (some initializer) => declare (change name) (some initializer.rename)
  | block statements => block (renameAll statements)
  | choice condition thenBranch none => choice condition.rename thenBranch.rename none
  | choice condition thenBranch (some elseBranch) =>
    choice condition.rename thenBranch.rename (some elseBranch.rename)
  | loop condition body => loop condition.rename (renameAll body)
  | foreign => foreign

def renameAll : List Node → List Node
  | [] => []
  | node :: rest => node.rename :: renameAll rest

end

mutual

theorem height_rename (node : Node) : (node.rename change).height = node.height := by
  match node with
  | literal _ | identifier _ | foreign | declare _ none => rfl
  | assign _ inner | unary _ inner | grouping inner | expression inner | print inner
  | declare _ (some inner) => simp only [rename, height, height_rename inner]
  | binary left _ right | logical left _ right =>
    simp only [rename, height, height_rename left, height_rename right]
  | call callee arguments =>
    simp only [rename, height, height_rename callee, heights_renameAll arguments]
  | block statements => simp only [rename, height, heights_renameAll statements]
  | choice condition thenBranch none =>
    simp only [rename, height, height_rename condition, height_rename thenBranch]
  | choice condition thenBranch (some elseBranch) =>
    simp only [rename, height, height_rename condition, height_rename thenBranch,
      height_rename elseBranch]
  | loop condition body =>
    simp only [rename, height, height_rename condition, heights_renameAll body]

theorem heights_renameAll (nodes : List Node) : heights (renameAll change nodes) = heights nodes := by
  match nodes with
  | [] => rfl
  | node :: rest => simp only [renameAll, heights, height_rename node, heights_renameAll rest]

end

mutual

theorem rename_id (node : Node) : node.rename id = node := by
  match node with
  | literal _ | identifier _ | foreign | declare _ none => rfl
  | assign _ inner | unary _ inner | grouping inner | expression inner | print inner
  | declare _ (some inner) => simp only [rename, id, rename_id inner]
  | binary left _ right | logical left _ right =>
    simp only [rename, rename_id left, rename_id right]
  | call callee arguments => simp only [rename, rename_id callee, renameAll_id arguments]
  | block statements => simp only [rename, renameAll_id statements]
  | choice condition thenBranch none =>
    simp only [rename, rename_id condition, rename_id thenBranch]
  | choice condition thenBranch (some elseBranch) =>
    simp only [rename, rename_id condition, rename_id thenBranch, rename_id elseBranch]
  | loop condition body => simp only [rename, rename_id condition, renameAll_id body]

theorem renameAll_id (nodes : List Node) : renameAll id nodes = nodes := by
  match nodes with
  | [] => rfl
  | node :: rest => simp only [renameAll, rename_id node, renameAll_id rest]

end

end Node

def RuntimeError.rename : RuntimeError → RuntimeError
  | uninitialized name => uninitialized (change name)
  | unknownName name => unknownName (change name)
  | unknownTarget name => unknownTarget (change name)
  | call node => call (node.rename change)
  | error => error

def Failure.rename : Failure → Failure
  | runtime error => runtime (error.rename change)
  | failure => failure

def Problem.rename : Problem → Problem
  | failure cause => failure (cause.rename change)
  | problem => problem

def Bindings.rename (bindings : Bindings) : Bindings := bindings.map (Prod.map change id)

def Chain.rename (chain : Chain) : Chain := chain.map (Bindings.rename change)

def ScopeTree.rename (tree : ScopeTree) : ScopeTree :=
  tree.map fun scope => { scope with bindings := scope.bindings.rename change }

def Step.rename {α : Type} (step : Step α) : Step α :=
  { step with result := step.result.mapError (Problem.rename change), tree := step.tree.rename change }

variable {change}

theorem RuntimeError.rename_id (error : RuntimeError) : error.rename id = error := by
  cases error with
  | call node => rw [rename, Node.rename_id]
  | _ => rfl

theorem Failure.rename_id (failure : Failure) : failure.rename id = failure := by
  cases failure with
  | runtime error => rw [rename, RuntimeError.rename_id]
  | _ => rfl

theorem Failure.settle_rename (failure : Failure) :
    (failure.rename change).settle = failure.settle.rename change := by
  cases failure <;> rfl

/-! With an injective change of names, scopes with other names answer and change as before. -/

section
variable (injective : Function.Injective change)
include injective

theorem Bindings.lookup_rename (bindings : Bindings) (name : String) :
    (bindings.rename change).lookup (change name) = bindings.lookup name := by
  induction bindings with
  | nil => rfl
  | cons binding rest ih =>
    rcases binding with ⟨key, held⟩
    simp only [Bindings.rename, List.map_cons, Prod.map, id, lookup_cons, injective.eq_iff] at ih ⊢
    rw [ih]

theorem Bindings.declares_rename (bindings : Bindings) (name : String) :
    (bindings.rename change).declares (change name) = bindings.declares name := by
  rw [declares, declares, lookup_rename injective]

theorem Bindings.put_rename (name : String) (held : Option Value) (bindings : Bindings) :
    (bindings.rename change).put (change name) held = (bindings.put name held).rename change := by
  induction bindings with
  | nil => rfl
  | cons binding rest ih =>
    rcases binding with ⟨key, old⟩
    simp only [Bindings.rename, List.map_cons, Prod.map, id, put, injective.eq_iff] at ih ⊢
    split
    · rfl
    · rw [ih]
      rfl

theorem Chain.define_rename (name : String) (held : Option Value) (chain : Chain) :
    (chain.rename change).define (change name) held = (chain.define name held).rename change := by
  cases chain with
  | nil => rfl
  | cons bindings outer =>
    exact congrArg (· :: Chain.rename change outer) (Bindings.put_rename injective name held bindings)

theorem Chain.lookup_rename (name : String) (chain : Chain) :
    (chain.rename change).lookup (change name) =
      (chain.lookup name).mapError (RuntimeError.rename change) := by
  induction chain with
  | nil => rfl
  | cons bindings outer ih =>
    simp only [Chain.rename, List.map_cons, lookup, Bindings.lookup_rename injective] at ih ⊢
    rcases bindings.lookup name with - | - | value
    · exact ih
    · rfl
    · rfl

theorem Chain.assign?_rename (name : String) (value : Value) (chain : Chain) :
    (chain.rename change).assign? (change name) value =
      (chain.assign? name value).map (Chain.rename change) := by
  induction chain with
  | nil => rfl
  | cons bindings outer ih =>
    change assign? (change name) value (bindings.rename change :: Chain.rename change outer) = _
    rw [assign?, assign?, Bindings.declares_rename injective, Bindings.put_rename injective, ih]
    split
    · rfl
    · rw [Option.map_map, Option.map_map]
      rfl

end

/-! The scopes of a tree stand where they stood. -/

theorem ScopeTree.path_rename (tree : ScopeTree) (scope : Nat) :
    (tree.rename change).path scope = tree.path scope := by
  rw [path, path, ScopeTree.rename, List.getElem?_map]
  cases tree[scope]? <;> rfl

theorem ScopeTree.bindings_rename (tree : ScopeTree) (scope : Nat) :
    (tree.rename change).bindings scope = (tree.bindings scope).rename change := by
  rw [bindings, bindings, ScopeTree.rename, List.getElem?_map]
  cases tree[scope]? <;> rfl

theorem ScopeTree.chain_rename (tree : ScopeTree) (scope : Nat) :
    (tree.rename change).chain scope = (tree.chain scope).rename change := by
  rw [chain, chain, path_rename, Chain.rename, List.map_map]
  exact List.map_congr_left fun place _ => bindings_rename tree place

theorem ScopeTree.write_rename (tree : ScopeTree) (scope : Nat) (bindings : Bindings) :
    (tree.rename change).write scope (bindings.rename change) =
      (tree.write scope bindings).rename change := by
  apply List.ext_getElem?
  intro place
  simp only [write, ScopeTree.rename, List.getElem?_map, List.getElem?_modify]
  split <;> cases tree[place]? <;> rfl

theorem ScopeTree.writeAll_rename (tree : ScopeTree) (scopes : List Nat) (chain : Chain) :
    (tree.rename change).writeAll scopes (chain.rename change) =
      (tree.writeAll scopes chain).rename change := by
  induction scopes generalizing tree chain with
  | nil => rfl
  | cons scope scopes ih =>
    cases chain with
    | nil => rfl
    | cons bindings outer =>
      change ((tree.rename change).write scope (bindings.rename change)).writeAll scopes
        (Chain.rename change outer) = _
      rw [write_rename, ih]
      rfl

theorem ScopeTree.update_rename (tree : ScopeTree) (scope : Nat) (chain : Chain) :
    (tree.rename change).update scope (chain.rename change) =
      (tree.update scope chain).rename change := by
  rw [update, path_rename, writeAll_rename]
  rfl

end Lox
