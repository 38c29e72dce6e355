import Lox.Scope.Basic

/-!
A tree of scopes. Scopes are numbered in the order in which they were made, and the first one
encloses all others. A scope keeps the way to the first one for as long as it lives.
-/
namespace Lox

structure Scope where
  bindings : Bindings
  /-- the enclosing scopes, the nearest one first -/
  ancestors : List Nat

abbrev ScopeTree := List Scope

namespace ScopeTree

def initial : ScopeTree := [⟨[], []⟩]

def bindings (tree : ScopeTree) (scope : Nat) : Bindings :=
  ((tree[scope]?).map Scope.bindings).getD []

def path (tree : ScopeTree) (scope : Nat) : List Nat :=
  scope :: ((tree[scope]?).map Scope.ancestors).getD []

def chain (tree : ScopeTree) (scope : Nat) : Chain := (tree.path scope).map tree.bindings

def child (tree : ScopeTree) (parent : Nat) : ScopeTree := tree ++ [⟨[], tree.path parent⟩]

def write (tree : ScopeTree) (scope : Nat) (bindings : Bindings) : ScopeTree :=
  tree.modify scope fun old => { old with bindings := bindings }

def writeAll : ScopeTree → List Nat → Chain → ScopeTree
  | tree, scope :: scopes, bindings :: chain => writeAll (tree.write scope bindings) scopes chain
  | tree, _, _ => tree

def update (tree : ScopeTree) (scope : Nat) (chain : Chain) : ScopeTree :=
  tree.writeAll (tree.path scope) chain

def define (tree : ScopeTree) (scope : Nat) (name : String) (value : Option Value) : ScopeTree :=
  tree.update scope ((tree.chain scope).define name value)

def lookup (tree : ScopeTree) (scope : Nat) (name : String) : Except RuntimeError Value :=
  (tree.chain scope).lookup name

def assign (tree : ScopeTree) (scope : Nat) (name : String) (value : Value) :
    Except RuntimeError ScopeTree := do
  return tree.update scope (← (tree.chain scope).assign name value)

end ScopeTree
end Lox
