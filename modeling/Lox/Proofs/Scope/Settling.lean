import Mathlib.Data.List.Forall2
import Lox.Scope.Basic

namespace Lox

namespace Bindings

variable {bindings : Bindings} {name other : String}

theorem declares_put (name : String) (value : Option Value) (bindings : Bindings) (other : String) :
    (bindings.put name value).declares other = (decide (other = name) || bindings.declares other) := by
  have front (key : String) (bound : Option Value) (rest : Bindings) :
      declares other ((key, bound) :: rest) = (decide (other = key) || declares other rest) := by
    by_cases found : other = key
    · simp [declares, found]
    · simp [declares, lookup_cons, found]
  induction bindings with
  | nil => exact front name value []
  | cons binding rest ih =>
    rcases binding with ⟨key, old⟩
    rw [put]
    by_cases same : key = name
    · rw [if_pos same, front, front, same, ← Bool.or_assoc, Bool.or_self]
    · rw [if_neg same, front, front, ih, Bool.or_left_comm]

theorem put_of_declares (declared : bindings.declares name = true) (value : Option Value)
    (other : String) : (bindings.put name value).declares other = bindings.declares other := by
  rw [declares_put]
  by_cases same : other = name
  · simp [same, declared]
  · simp [same]

end Bindings

namespace Chain

variable {name : String} {chain : Chain}

def settle (name : String) (chain : Chain) : Option Nat := chain.findIdx? (·.declares name)

def valueAt (name : String) (chain : Chain) : Option Nat → Except RuntimeError Value
  | none => .error (.unknownName name)
  | some out =>
    match (chain[out]?).bind (·.lookup name) with
    | some (some value) => .ok value
    | _ => .error (.uninitialized name)

def assignAt (name : String) (value : Value) (chain : Chain) :
    Option Nat → Except RuntimeError Chain
  | none => .error (.unknownTarget name)
  | some out => .ok (chain.modify out (·.put name value))

theorem settle_cons (name : String) (bindings : Bindings) (outer : Chain) :
    settle name (bindings :: outer) =
      if bindings.declares name then some 0 else (settle name outer).map (· + 1) :=
  List.findIdx?_cons

theorem valueAt_settle (name : String) (chain : Chain) :
    chain.valueAt name (chain.settle name) = chain.lookup name := by
  induction chain with
  | nil => rfl
  | cons bindings outer ih =>
    rw [settle_cons, lookup]
    cases found : bindings.lookup name with
    | none =>
      rw [if_neg (by simp [Bindings.declares, found]), ← ih]
      cases settle name outer <;> rfl
    | some bound =>
      rw [if_pos (by simp [Bindings.declares, found])]
      cases bound <;> simp [valueAt, found]

theorem assignAt_settle (name : String) (value : Value) (chain : Chain) :
    chain.assignAt name value (chain.settle name) = chain.assign name value := by
  have placed : chain.assign? name value =
      (chain.settle name).map fun out => chain.modify out (·.put name value) := by
    induction chain with
    | nil => rfl
    | cons bindings outer ih =>
      rw [settle_cons, assign?]
      by_cases declared : bindings.declares name = true
      · rw [if_pos declared, if_pos declared]
        rfl
      · rw [if_neg declared, if_neg declared, ih]
        cases settle name outer <;> rfl
  rw [assign, placed]
  cases settle name chain <;> rfl

end Chain

abbrev Names := List (List String)

namespace Names

variable {names : Names} {chain : Chain} {name : String}

/-- A chain declares in each of its scopes the names listed for it, and no others. -/
def Models (names : Names) (chain : Chain) : Prop :=
  List.Forall₂ (fun listed bindings => ∀ name, bindings.declares name = listed.contains name)
    names chain

def settle (name : String) (names : Names) : Option Nat := names.findIdx? (·.contains name)

theorem Models.settle (models : Models names chain) (name : String) :
    chain.settle name = names.settle name := by
  induction models with
  | nil => rfl
  | cons same _ ih =>
    simp only [Chain.settle, Names.settle] at ih ⊢
    rw [List.findIdx?_cons, List.findIdx?_cons, same name, ih]

theorem Models.assignAt (models : Models names chain) {out : Nat}
    (settled : chain.settle name = some out) (value : Option Value) :
    Models names (chain.modify out (·.put name value)) := by
  induction models generalizing out with
  | nil => cases settled
  | @cons listed bindings names chain same _ ih =>
    rw [Chain.settle_cons] at settled
    by_cases declared : bindings.declares name = true
    · rw [if_pos declared] at settled
      cases settled
      refine .cons (fun other => ?_) ‹_›
      rw [Bindings.put_of_declares declared]
      exact same other
    · rw [if_neg declared] at settled
      rcases Option.map_eq_some_iff.mp settled with ⟨further, found, rfl⟩
      exact .cons same (ih found)

theorem Models.define {listed : List String} (models : Models (listed :: names) chain)
    (name : String) (value : Option Value) :
    Models ((listed ++ [name]) :: names) (chain.define name value) := by
  cases models with
  | cons same outer =>
    refine .cons (fun other => ?_) outer
    rw [Bindings.declares_put, same other, List.contains_eq_mem, List.contains_eq_mem]
    by_cases found : other = name <;> simp [found]

end Names
end Lox
