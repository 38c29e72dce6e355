import Lox.Evaluation
import Lox.Proofs.Value.Complaint
import Lox.Scope.Tree

namespace Lox

/-- Errors that say that a tree or a value is none that could come from a source text. -/
inductive RuntimeError.Internal : RuntimeError → Prop where
  | incomparable (left right : Value) : Internal (.incomparable left right)
  | unaryOperator (operator : Operator) : Internal (.unaryOperator operator)
  | binaryOperator (operator : Operator) : Internal (.binaryOperator operator)
  | logicalOperator (operator : Operator) : Internal (.logicalOperator operator)

inductive Failure.Internal : Failure → Prop where
  | runtime {error : RuntimeError} : error.Internal → Internal (.runtime error)
  | misplaced (role label : String) : Internal (.misplaced role label)

/-! What the operators make of known values. -/

namespace Value

/-- An operator returns a known value, or it complains about the program. -/
inductive Lawful : Value.Result → Prop where
  | ok {value : Value} : value.known = true → Lawful (.ok value)
  | error {error : RuntimeError} : ¬ error.Internal → Lawful (.error error)

section
variable {x y : Value}

theorem negate_lawful (x : Value) : Lawful x.negate := by
  cases x with
  | number x => exact .ok rfl
  | _ => exact .error nofun

theorem unary_lawful {operator : Operator} (listed : operator = .bang ∨ operator = .minus)
    (x : Value) : Lawful (x.unary operator) := by
  rcases listed with rfl | rfl
  · exact .ok rfl
  · exact negate_lawful x

theorem arithmetic_lawful (operator : Operator) (apply : Number → Number → Number) (x y : Value) :
    Lawful (arithmetic operator apply x y) := by
  cases x with
  | number x =>
    cases y with
    | number y => exact .ok rfl
    | _ => exact .error nofun
  | _ => exact .error nofun

theorem comparison_lawful (operator : Operator) (holds : Number → Number → Bool) (x y : Value) :
    Lawful (comparison operator holds x y) := by
  cases x with
  | number x =>
    cases y with
    | number y => exact .ok rfl
    | _ => exact .error nofun
  | _ => exact .error nofun

theorem add_lawful (x y : Value) : Lawful (add x y) := by
  cases x with
  | string x =>
    cases y with
    | string y => exact .ok rfl
    | _ => exact .error nofun
  | number x => exact arithmetic_lawful .plus Number.add (number x) y
  | _ => exact .error nofun

theorem equality_lawful (equal : Bool → Bool) (left : x.known = true) (right : y.known = true) :
    Lawful (equality equal x y) := by
  rw [equality, left, right]
  exact .ok rfl

def operators : List Operator :=
  [.plus, .minus, .star, .slash, .equalEqual, .bangEqual, .less, .greater, .lessEqual, .greaterEqual]

theorem binary_lawful {operator : Operator} (listed : operator ∈ operators) (left : x.known = true)
    (right : y.known = true) : Lawful (x.binary operator y) := by
  cases operator with
  | plus => exact add_lawful x y
  | minus | star | slash => exact arithmetic_lawful _ _ x y
  | equalEqual | bangEqual => exact equality_lawful _ left right
  | less | greater | lessEqual | greaterEqual => exact comparison_lawful _ _ x y
  | equal | bang | and | or => simp [operators] at listed

end
end Value

/-! Scopes that are bound to known values only. -/

def Bindings.Known (bindings : Bindings) : Prop :=
  ∀ name value, (name, some value) ∈ bindings → value.known = true

def Chain.Known (chain : Chain) : Prop := ∀ bindings ∈ chain, Bindings.Known bindings

def ScopeTree.Known (tree : ScopeTree) : Prop := ∀ scope ∈ tree, scope.bindings.Known

namespace Bindings

variable {bindings : Bindings} {name : String} {value : Value}

theorem known_nil : Known [] := nofun

theorem known_cons {entry : String × Option Value} :
    Known (entry :: bindings) ↔ (∀ value, entry.2 = some value → value.known = true) ∧ Known bindings := by
  constructor
  · intro known
    refine ⟨fun value same => known entry.1 value ?_, fun name value member => ?_⟩
    · rw [← same]
      exact List.mem_cons_self
    · exact known name value (List.mem_cons_of_mem entry member)
  · intro known name value member
    rcases List.mem_cons.mp member with rfl | later
    · exact known.1 value rfl
    · exact known.2 name value later

theorem Known.put {held : Option Value} (known : Known bindings)
    (good : ∀ value, held = some value → value.known = true) : Known (bindings.put name held) := by
  induction bindings with
  | nil => exact known_cons.mpr ⟨good, known_nil⟩
  | cons entry bindings ih =>
    have parts := known_cons.mp known
    rw [Bindings.put]
    split
    · exact known_cons.mpr ⟨good, parts.2⟩
    · exact known_cons.mpr ⟨parts.1, ih parts.2⟩

theorem Known.lookup_known (known : Known bindings) (found : bindings.lookup name = some (some value)) :
    value.known = true := by
  induction bindings with
  | nil => cases found
  | cons entry bindings ih =>
    have parts := known_cons.mp known
    rw [Bindings.lookup_cons] at found
    split at found
    · exact parts.1 value (Option.some.inj found)
    · exact ih parts.2 found

end Bindings

namespace Chain

variable {chain changed : Chain} {bindings : Bindings} {name : String} {value : Value}

theorem known_nil : Known [] := nofun

theorem known_cons : Known (bindings :: chain) ↔ bindings.Known ∧ Known chain := by
  simp only [Known, List.mem_cons, forall_eq_or_imp]

theorem Known.enter (known : Known chain) : Known ([] :: chain) :=
  known_cons.mpr ⟨Bindings.known_nil, known⟩

theorem Known.tail (known : Known chain) : Known chain.tail :=
  fun bindings member => known bindings (List.mem_of_mem_tail member)

theorem Known.define {held : Option Value} (known : Known chain)
    (good : ∀ value, held = some value → value.known = true) : Known (chain.define name held) := by
  cases chain with
  | nil => exact known_nil
  | cons bindings outer =>
    have parts := known_cons.mp known
    exact known_cons.mpr ⟨parts.1.put good, parts.2⟩

theorem Known.lookup (known : Known chain) (found : chain.lookup name = .ok value) :
    value.known = true := by
  induction chain with
  | nil => cases found
  | cons bindings outer ih =>
    have parts := known_cons.mp known
    rw [Chain.lookup] at found
    cases bound : bindings.lookup name with
    | none =>
      simp only [bound] at found
      exact ih parts.2 found
    | some held =>
      cases held with
      | none => simp [bound] at found
      | some held =>
        simp only [bound] at found
        cases found
        exact parts.1.lookup_known bound

theorem Known.assign? (known : Known chain) (good : value.known = true)
    (found : chain.assign? name value = some changed) : Known changed := by
  induction chain generalizing changed with
  | nil => cases found
  | cons bindings outer ih =>
    have parts := known_cons.mp known
    rw [Chain.assign?] at found
    split at found
    · cases found
      exact known_cons.mpr ⟨parts.1.put (by simpa using good), parts.2⟩
    · obtain ⟨rest, further, rfl⟩ := Option.map_eq_some_iff.mp found
      exact known_cons.mpr ⟨parts.1, ih parts.2 further⟩

theorem lookup_error {error : RuntimeError} (failed : chain.lookup name = .error error) :
    ¬ error.Internal := by
  rcases lookup_complaint failed with rfl | rfl
  · nofun
  · nofun

end Chain

namespace ScopeTree

variable {tree : ScopeTree} {seen : Chain}

theorem known_initial : Known initial := by
  intro scope member
  rw [List.mem_singleton.mp member]
  exact Bindings.known_nil

theorem Known.bindings (known : Known tree) (scope : Nat) : (tree.bindings scope).Known := by
  rw [ScopeTree.bindings]
  cases found : tree[scope]? with
  | none => exact Bindings.known_nil
  | some held => exact known held (List.mem_of_getElem? found)

theorem Known.chain (known : Known tree) (scope : Nat) : (tree.chain scope).Known := by
  intro bindings member
  obtain ⟨place, -, rfl⟩ := List.mem_map.mp member
  exact known.bindings place

theorem Known.child (known : Known tree) (parent : Nat) : Known (tree.child parent) := by
  intro scope member
  rcases List.mem_append.mp member with old | new
  · exact known scope old
  · rw [List.mem_singleton.mp new]
    exact Bindings.known_nil

theorem Known.write {bindings : Bindings} (known : Known tree) (good : bindings.Known) (scope : Nat) :
    Known (tree.write scope bindings) := by
  intro held member
  obtain ⟨place, inside, found⟩ := List.mem_iff_getElem.mp member
  simp only [ScopeTree.write, List.getElem_modify] at found
  split at found
  · rw [← found]
    exact good
  · rw [← found]
    exact known _ (List.getElem_mem _)

theorem Known.writeAll (known : Known tree) (good : seen.Known) (scopes : List Nat) :
    Known (tree.writeAll scopes seen) := by
  induction scopes generalizing tree seen with
  | nil => simpa [ScopeTree.writeAll] using known
  | cons scope scopes ih =>
    cases seen with
    | nil => simpa [ScopeTree.writeAll] using known
    | cons bindings outer =>
      have parts := Chain.known_cons.mp good
      exact ih (known.write parts.1 scope) parts.2

theorem Known.update (known : Known tree) (good : seen.Known) (scope : Nat) :
    Known (tree.update scope seen) :=
  known.writeAll good (tree.path scope)

end ScopeTree
end Lox
