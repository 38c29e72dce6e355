import Mathlib.Data.List.Forall2
import Lox.Scope.Tree

/-!
Trees in which every scope was made within an earlier one or within none. The way from a scope
outwards then comes to each scope once, so that replacing what is seen from a scope replaces just
that, scope by scope: `chain_update` says what is seen afterwards, and `update_apart` that all
other scopes are left as they are.
-/
namespace Lox.ScopeTree

variable {tree : ScopeTree} {scope other : Nat}

/-- The way outwards from a scope ends there or goes on from a scope that was made before. -/
def Rooted (tree : ScopeTree) : Prop :=
  ∀ scope, tree.path scope = [scope] ∨
    ∃ parent < scope, tree.path scope = scope :: tree.path parent

theorem Rooted.descends (rooted : tree.Rooted) (scope : Nat) : (tree.path scope).Pairwise (· > ·) := by
  induction scope using Nat.strongRecOn with
  | ind scope ih =>
    rcases rooted scope with alone | ⟨parent, before, within⟩
    · rw [alone]
      exact List.pairwise_singleton _ scope
    · have further := ih parent before
      rw [within, List.pairwise_cons]
      refine ⟨fun place member => ?_, further⟩
      rcases List.mem_cons.mp member with rfl | outer
      · exact before
      · exact Nat.lt_trans ((List.pairwise_cons.mp further).1 place outer) before

theorem Rooted.nodup (rooted : tree.Rooted) (scope : Nat) : (tree.path scope).Nodup :=
  (rooted.descends scope).imp Nat.ne_of_gt

theorem Rooted.inside (rooted : tree.Rooted) (inside : scope < tree.length) :
    ∀ place ∈ tree.path scope, place < tree.length := by
  intro place member
  rcases List.mem_cons.mp member with rfl | outer
  · exact inside
  · exact Nat.lt_trans ((List.pairwise_cons.mp (rooted.descends scope)).1 place outer) inside

theorem rooted_initial : Rooted initial := by
  intro scope
  cases scope with
  | zero => exact .inl rfl
  | succ scope => exact .inl rfl

theorem path_child {parent : Nat} (inside : scope < tree.length) :
    (tree.child parent).path scope = tree.path scope := by
  rw [path, path, child, List.getElem?_append_left inside]

theorem Rooted.child (rooted : tree.Rooted) {parent : Nat} (inside : parent < tree.length) :
    Rooted (tree.child parent) := by
  intro scope
  rcases Nat.lt_trichotomy scope tree.length with old | rfl | beyond
  · rw [path_child old]
    refine (rooted scope).imp id fun ⟨outer, before, within⟩ => ⟨outer, before, ?_⟩
    rw [path_child (Nat.lt_trans before old)]
    exact within
  · refine .inr ⟨parent, inside, ?_⟩
    rw [path_child inside, path, ScopeTree.child, List.getElem?_concat_length]
    rfl
  · have outside : (tree.child parent).length ≤ scope := by
      rw [ScopeTree.child, List.length_append]
      exact beyond
    refine .inl ?_
    rw [path, List.getElem?_eq_none outside]
    rfl

/-! Writing keeps the shape of the tree, and it changes the scopes that are written only. -/

theorem links_write (tree : ScopeTree) (scope : Nat) (bindings : Bindings) :
    (tree.write scope bindings).map Scope.ancestors = tree.map Scope.ancestors := by
  apply List.ext_getElem?
  intro place
  simp only [write, List.getElem?_map, List.getElem?_modify]
  split <;> cases tree[place]? <;> rfl

theorem write_apart (bindings : Bindings) (apart : other ≠ scope) :
    (tree.write scope bindings)[other]? = tree[other]? := by
  rw [write, List.getElem?_modify_ne _ _ apart.symm]

theorem bindings_write (bindings : Bindings) (inside : scope < tree.length) :
    (tree.write scope bindings).bindings scope = bindings := by
  rw [ScopeTree.bindings, write, List.getElem?_modify_eq, List.getElem?_eq_getElem inside]
  rfl

theorem links_writeAll (tree : ScopeTree) (scopes : List Nat) (chain : Chain) :
    (tree.writeAll scopes chain).map Scope.ancestors = tree.map Scope.ancestors := by
  induction scopes generalizing tree chain with
  | nil => rfl
  | cons scope scopes ih =>
    cases chain with
    | nil => rfl
    | cons bindings chain => exact (ih _ chain).trans (links_write tree scope bindings)

theorem writeAll_apart {scopes : List Nat} (chain : Chain) (apart : other ∉ scopes) :
    (tree.writeAll scopes chain)[other]? = tree[other]? := by
  induction scopes generalizing tree chain with
  | nil => rfl
  | cons scope scopes ih =>
    rw [List.mem_cons, not_or] at apart
    cases chain with
    | nil => rfl
    | cons bindings chain => exact (ih chain apart.2).trans (write_apart bindings apart.1)

theorem map_bindings_writeAll {scopes : List Nat} {chain : Chain} (distinct : scopes.Nodup)
    (inside : ∀ scope ∈ scopes, scope < tree.length) (same : chain.length = scopes.length) :
    scopes.map (tree.writeAll scopes chain).bindings = chain := by
  induction scopes generalizing tree chain with
  | nil => exact (List.length_eq_zero_iff.mp same).symm
  | cons scope scopes ih =>
    cases chain with
    | nil => cases same
    | cons bindings chain =>
      rw [List.nodup_cons] at distinct
      rw [List.forall_mem_cons] at inside
      have length : (tree.write scope bindings).length = tree.length := List.length_modify ..
      have first : (ScopeTree.writeAll tree (scope :: scopes) (bindings :: chain)).bindings scope =
          bindings := by
        rw [ScopeTree.writeAll, ScopeTree.bindings, writeAll_apart chain distinct.1]
        exact bindings_write bindings inside.1
      rw [List.map_cons, first]
      refine congrArg (bindings :: ·) (ih distinct.2 ?_ (Nat.succ.inj same))
      rw [length]
      exact inside.2

theorem links_update (tree : ScopeTree) (scope : Nat) (chain : Chain) :
    (tree.update scope chain).map Scope.ancestors = tree.map Scope.ancestors :=
  links_writeAll tree (tree.path scope) chain

theorem path_of_links {after : ScopeTree}
    (links : after.map Scope.ancestors = tree.map Scope.ancestors) (place : Nat) :
    after.path place = tree.path place := by
  rw [path, path, ← List.getElem?_map, ← List.getElem?_map, links]

theorem Rooted.of_links {after : ScopeTree} (rooted : tree.Rooted)
    (links : after.map Scope.ancestors = tree.map Scope.ancestors) : after.Rooted := by
  intro place
  simp only [path_of_links links]
  exact rooted place

theorem path_update (tree : ScopeTree) (scope : Nat) (chain : Chain) (other : Nat) :
    (tree.update scope chain).path other = tree.path other :=
  path_of_links (links_update tree scope chain) other

theorem Rooted.update (rooted : tree.Rooted) (scope : Nat) (chain : Chain) :
    Rooted (tree.update scope chain) :=
  rooted.of_links (links_update tree scope chain)

theorem update_apart (chain : Chain) (apart : other ∉ tree.path scope) :
    (tree.update scope chain)[other]? = tree[other]? :=
  writeAll_apart chain apart

theorem Rooted.chain_update (rooted : tree.Rooted) (inside : scope < tree.length) {chain : Chain}
    (same : chain.length = (tree.chain scope).length) :
    (tree.update scope chain).chain scope = chain := by
  rw [ScopeTree.chain, List.length_map] at same
  rw [ScopeTree.chain, path_update]
  exact map_bindings_writeAll (rooted.nodup scope) (rooted.inside inside) same

end Lox.ScopeTree
