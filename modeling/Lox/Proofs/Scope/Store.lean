import Lox.Proofs.Scope.Revised
import Lox.Session

/-!
The laws of a tree of scopes as a store. An assignment and a declaration write one scope each, the
assignment the nearest one on the way outwards that declares the name: `assign_eq` and `define_eq`.
What is seen from any scope afterwards follows from what a write to one scope changes: `lookup_put`.
-/
namespace Lox

namespace Chain

theorem lookup_append (name : String) (nearer outer : Chain) :
    lookup name (nearer ++ outer) =
      if nearer.any (·.declares name) then lookup name nearer else lookup name outer := by
  induction nearer with
  | nil => rfl
  | cons bindings nearer ih =>
    rw [List.cons_append, lookup, lookup, List.any_cons, Bindings.declares]
    cases bindings.lookup name with
    | none => exact ih
    | some held => cases held <;> rfl

theorem lookup_congr {places : List Nat} {before after : Nat → Bindings} {name : String}
    (alike : ∀ place ∈ places, (after place).lookup name = (before place).lookup name) :
    lookup name (places.map after) = lookup name (places.map before) := by
  induction places with
  | nil => rfl
  | cons place places ih =>
    rw [List.forall_mem_cons] at alike
    rw [List.map_cons, List.map_cons, lookup, lookup, alike.1, ih alike.2]

end Chain

namespace ScopeTree

variable {tree : ScopeTree} {scope other place : Nat} {name : String}

def declarer? (tree : ScopeTree) (scope : Nat) (name : String) : Option Nat :=
  (tree.path scope).find? fun place => (tree.bindings place).declares name

/-- A scope is on the way outwards from another one, and no scope before it declares a name. -/
def Exposed (tree : ScopeTree) (scope other : Nat) (name : String) : Prop :=
  ∃ nearer outer, tree.path other = nearer ++ scope :: outer ∧
    ∀ place ∈ nearer, (tree.bindings place).declares name = false

theorem declarer?_eq_some : tree.declarer? other name = some scope ↔
    (tree.bindings scope).declares name = true ∧ tree.Exposed scope other name := by
  rw [declarer?, List.find?_eq_some_iff_append]
  simp only [Exposed, Bool.not_eq_true']

theorem declarer?_eq_none : tree.declarer? scope name = none ↔
    ∀ place ∈ tree.path scope, (tree.bindings place).declares name = false := by
  rw [declarer?, List.find?_eq_none]
  simp only [Bool.not_eq_true]

theorem inside_of_declares (declared : (tree.bindings place).declares name = true) :
    place < tree.length := by
  by_contra outside
  rw [bindings, List.getElem?_eq_none (Nat.le_of_not_lt outside)] at declared
  cases declared

/-! A write to one scope. -/

theorem write_self (tree : ScopeTree) (scope : Nat) :
    tree.write scope (tree.bindings scope) = tree := by
  apply List.ext_getElem?
  intro place
  rw [write, List.getElem?_modify]
  by_cases same : scope = place
  · subst same
    cases found : tree[scope]? <;> simp [bindings, found]
  · simp [same]

theorem writeAll_self (tree : ScopeTree) (scopes : List Nat) :
    tree.writeAll scopes (scopes.map tree.bindings) = tree := by
  induction scopes with
  | nil => rfl
  | cons scope scopes ih => rw [List.map_cons, writeAll, write_self, ih]

theorem bindings_apart (changed : Bindings) (different : other ≠ scope) :
    (tree.write scope changed).bindings other = tree.bindings other := by
  rw [bindings, bindings, write_apart changed different]

theorem map_bindings_apart {scopes : List Nat} (apart : scope ∉ scopes) (changed : Bindings) :
    scopes.map (tree.write scope changed).bindings = scopes.map tree.bindings := by
  apply List.map_congr_left
  intro place member
  exact bindings_apart changed fun same => apart (same ▸ member)

theorem writeAll_first {scopes : List Nat} (apart : scope ∉ scopes) (changed : Bindings) :
    tree.writeAll (scope :: scopes) (changed :: scopes.map tree.bindings) =
      tree.write scope changed := by
  rw [writeAll, ← map_bindings_apart apart changed, writeAll_self]

/-- Changed scopes along a way are the nearest one that declares the name. -/
theorem writeAll_assign? {scopes : List Nat} (distinct : scopes.Nodup) (value : Value) :
    (Chain.assign? name value (scopes.map tree.bindings)).map (tree.writeAll scopes) =
      (scopes.find? fun place => (tree.bindings place).declares name).map fun place =>
        tree.write place ((tree.bindings place).put name (some value)) := by
  induction scopes with
  | nil => rfl
  | cons scope scopes ih =>
    rw [List.nodup_cons] at distinct
    rw [List.map_cons, Chain.assign?, List.find?_cons]
    cases declared : (tree.bindings scope).declares name with
    | true => simp [writeAll_first distinct.1]
    | false =>
      have skipped : tree.writeAll (scope :: scopes) ∘ (tree.bindings scope :: ·) =
          tree.writeAll scopes := by
        funext changed
        simp only [Function.comp, writeAll, write_self]
      simp [skipped, ih distinct.2]

theorem Rooted.assign_eq (rooted : tree.Rooted) (scope : Nat) (name : String) (value : Value) :
    tree.assign scope name value =
      match tree.declarer? scope name with
      | some place => .ok (tree.write place ((tree.bindings place).put name (some value)))
      | none => .error (.unknownTarget name) := by
  have written := @writeAll_assign? tree name (tree.path scope) (rooted.nodup scope) value
  rw [assign, Chain.assign, declarer?]
  change Option.map (tree.update scope) (Chain.assign? name value (tree.chain scope)) = _ at written
  cases found : Chain.assign? name value (tree.chain scope) with
  | none =>
    rw [found] at written
    rw [Option.map_eq_none_iff.mp written.symm]
    rfl
  | some changed =>
    rw [found] at written
    rcases Option.map_eq_some_iff.mp written.symm with ⟨place, nearest, same⟩
    simp only [nearest, same]
    rfl

theorem Rooted.define_eq (rooted : tree.Rooted) (scope : Nat) (name : String)
    (held : Option Value) :
    tree.define scope name held = tree.write scope ((tree.bindings scope).put name held) :=
  writeAll_first (List.nodup_cons.mp (rooted.nodup scope)).1 _

/-! What is seen when a name was put into a scope. -/

theorem lookup_write (tree : ScopeTree) (scope other : Nat) (changed : Bindings) (asked : String) :
    (tree.write scope changed).lookup other asked =
      Chain.lookup asked ((tree.path other).map (tree.write scope changed).bindings) := by
  rw [lookup, chain, path_of_links (links_write tree scope changed)]

theorem lookup_put_other (scope other : Nat) (held : Option Value) {asked : String}
    (different : asked ≠ name) :
    (tree.write scope ((tree.bindings scope).put name held)).lookup other asked =
      tree.lookup other asked := by
  rw [lookup_write]
  apply Chain.lookup_congr
  intro place _
  by_cases same : place = scope
  · subst same
    by_cases inside : place < tree.length
    · rw [bindings_write _ inside, Bindings.lookup_put, if_neg different]
    · rw [write, List.modify_eq_self (Nat.le_of_not_lt inside)]
  · rw [bindings_apart _ same]

theorem Rooted.lookup_put_exposed (rooted : tree.Rooted) (inside : scope < tree.length)
    (held : Option Value) (exposed : tree.Exposed scope other name) :
    (tree.write scope ((tree.bindings scope).put name held)).lookup other name =
      held.elim (.error (.uninitialized name)) .ok := by
  rcases exposed with ⟨nearer, outer, split, undeclared⟩
  have apart : scope ∉ nearer := by
    intro member
    have distinct := rooted.nodup other
    rw [split, List.nodup_append] at distinct
    exact distinct.2.2 scope member scope List.mem_cons_self rfl
  have none : (nearer.map tree.bindings).any (·.declares name) = false := by
    simpa using undeclared
  rw [lookup_write, split, List.map_append, map_bindings_apart apart, Chain.lookup_append, none,
    if_neg Bool.false_ne_true, List.map_cons, Chain.lookup, bindings_write _ inside,
    Bindings.lookup_put, if_pos rfl]
  cases held <;> rfl

theorem lookup_put_hidden (scope other : Nat) (held : Option Value)
    (hidden : ¬ tree.Exposed scope other name) :
    (tree.write scope ((tree.bindings scope).put name held)).lookup other name =
      tree.lookup other name := by
  rw [lookup_write, lookup, chain]
  by_cases onWay : scope ∈ tree.path other
  · rcases List.eq_append_cons_of_mem onWay with ⟨nearer, outer, split, apart⟩
    have declared : (nearer.map tree.bindings).any (·.declares name) = true := by
      by_contra none
      exact hidden ⟨nearer, outer, split, by simpa using none⟩
    rw [split, List.map_append, List.map_append, map_bindings_apart apart, Chain.lookup_append,
      Chain.lookup_append, if_pos declared, if_pos declared]
  · rw [map_bindings_apart onWay]

/-- What a name means from a scope when another name, or the same one, was put into a scope. -/
theorem Rooted.lookup_put (rooted : tree.Rooted) (inside : scope < tree.length) (name : String)
    (held : Option Value) (other : Nat) (asked : String) :
    let after := tree.write scope ((tree.bindings scope).put name held)
    (asked = name ∧ tree.Exposed scope other name →
      after.lookup other asked = held.elim (.error (.uninitialized name)) .ok) ∧
    (¬ (asked = name ∧ tree.Exposed scope other name) →
      after.lookup other asked = tree.lookup other asked) := by
  constructor
  · rintro ⟨rfl, exposed⟩
    exact rooted.lookup_put_exposed inside held exposed
  · intro unchanged
    by_cases same : asked = name
    · subst same
      exact lookup_put_hidden scope other held fun exposed => unchanged ⟨rfl, exposed⟩
    · exact lookup_put_other scope other held same

theorem names_put (inside : scope < tree.length) (name : String) (held : Option Value)
    (place : Nat) :
    ((tree.write scope ((tree.bindings scope).put name held)).bindings place).names =
      if place = scope then enlist (tree.bindings scope).names [name]
      else (tree.bindings place).names := by
  by_cases same : place = scope
  · rw [if_pos same, same, bindings_write _ inside, Bindings.names_put]
  · rw [if_neg same, bindings_apart _ same]

/-- An assignment in a run is an assignment in the tree. One that fails leaves the tree as it is. -/
theorem perform_assign (tree : ScopeTree) (scope : Nat) (name : String) (value : Value)
    (options : Options) (trace : String) :
    (Session.perform options scope trace (Run.assign name value) tree).tree =
      match tree.assign scope name value with
      | .ok after => after
      | .error _ => tree := by
  rw [Session.perform, Run.assign_eq, assign, Chain.assign]
  cases Chain.assign? name value (tree.chain scope) with
  | none => exact writeAll_self tree (tree.path scope)
  | some changed => rfl

theorem Rooted.assigned (rooted : tree.Rooted) {value : Value} {after : ScopeTree}
    (done : tree.assign scope name value = .ok after) :
    (∀ other asked, after.lookup other asked =
      if asked = name ∧ tree.declarer? other name = tree.declarer? scope name then .ok value
      else tree.lookup other asked) ∧
    ∀ place, (after.bindings place).names = (tree.bindings place).names := by
  rw [rooted.assign_eq] at done
  cases found : tree.declarer? scope name with
  | none =>
    rw [found] at done
    cases done
  | some place =>
    rw [found] at done
    cases done
    have declared := (declarer?_eq_some.mp found).1
    have inside := inside_of_declares declared
    have exposed (other : Nat) : tree.declarer? other name = some place ↔
        tree.Exposed place other name := by
      rw [declarer?_eq_some, and_iff_right declared]
    constructor
    · intro other asked
      have seen := rooted.lookup_put inside name (some value) other asked
      rw [← exposed] at seen
      split
      · next reached => exact seen.1 reached
      · next apart => exact seen.2 apart
    · intro other
      rw [names_put inside]
      split
      · next same =>
        rw [enlist_singleton, if_pos (Bindings.declares_iff.mp declared), same]
      · rfl

/-- The laws of the tree as a store. An assignment fails if and only if no scope on the way outwards
declares the name, and then it leaves the tree as it is. Otherwise the name has the new value from
everywhere where it is declared nearest by the scope that declares it nearest for the assignment; all
else that is seen from any scope is as it was, and the names of each scope stay in their order. After
a declaration in a scope the name means what was declared from everywhere where the scope is on the
way outwards and no scope before it declares the name; all else that is seen is as it was. A name
that is new there goes to the end of its scope. What a run does in a scope is just that. -/
theorem store_laws (rooted : tree.Rooted) (inside : scope < tree.length) (name : String) :
    (∀ value,
      (tree.assign scope name value = .error (.unknownTarget name) ↔
        ∀ place ∈ tree.path scope, (tree.bindings place).declares name = false) ∧
      ((∃ place ∈ tree.path scope, (tree.bindings place).declares name = true) →
        ∃ after, tree.assign scope name value = .ok after ∧
          (∀ other asked, after.lookup other asked =
            if asked = name ∧ tree.declarer? other name = tree.declarer? scope name then .ok value
            else tree.lookup other asked) ∧
          ∀ place, (after.bindings place).names = (tree.bindings place).names) ∧
      ∀ options trace, (Session.perform options scope trace (Run.assign name value) tree).tree =
        match tree.assign scope name value with
        | .ok after => after
        | .error _ => tree) ∧
    ∀ held,
      let after := tree.define scope name held
      (∀ other asked,
        (asked = name ∧ tree.Exposed scope other name →
          after.lookup other asked = held.elim (.error (.uninitialized name)) .ok) ∧
        (¬ (asked = name ∧ tree.Exposed scope other name) →
          after.lookup other asked = tree.lookup other asked)) ∧
      (∀ place, (after.bindings place).names =
        if place = scope ∧ name ∉ (tree.bindings scope).names then
          (tree.bindings scope).names ++ [name]
        else (tree.bindings place).names) ∧
      ∀ options trace,
        (Session.perform options scope trace (Run.define name held) tree).tree = after := by
  refine ⟨fun value => ⟨?_, ?_, ?_⟩, fun held => ⟨?_, ?_, fun _ _ => rfl⟩⟩
  · rw [rooted.assign_eq, ← declarer?_eq_none]
    cases tree.declarer? scope name <;> simp
  · rintro ⟨place, onWay, declared⟩
    cases done : tree.assign scope name value with
    | ok after => exact ⟨after, rfl, rooted.assigned done⟩
    | error error =>
      rw [rooted.assign_eq] at done
      cases found : tree.declarer? scope name with
      | some nearest =>
        rw [found] at done
        cases done
      | none =>
        rw [declarer?_eq_none.mp found place onWay] at declared
        cases declared
  · exact perform_assign tree scope name value
  · intro other asked
    rw [rooted.define_eq]
    exact rooted.lookup_put inside name held other asked
  · intro place
    rw [rooted.define_eq, names_put inside, enlist_singleton]
    by_cases same : place = scope <;> by_cases known : name ∈ (tree.bindings scope).names <;>
      simp [same, known]

/-- In `a = nil; { a; { } } { }`, less the values, an assignment in the innermost scope comes to the
declaration around it that has no value yet. The outermost scope and its other child see the outermost
declaration as before, and declaring that one again changes nothing for the innermost scope. -/
theorem shadowed_assignment_stays_inside :
    let outer := initial.define 0 "a" (some .nil)
    let tree := (((outer.child 0).define 1 "a" none).child 1).child 0
    tree.Rooted ∧ 2 < tree.length ∧
      (∃ after, tree.assign 2 "a" (.boolean true) = .ok after ∧
        after.lookup 1 "a" = .ok (.boolean true) ∧ after.lookup 2 "a" = .ok (.boolean true) ∧
        after.lookup 0 "a" = .ok .nil ∧ after.lookup 3 "a" = .ok .nil) ∧
      (tree.define 0 "a" none).lookup 2 "a" = .error (.uninitialized "a") ∧
      (tree.define 0 "a" none).lookup 3 "a" = .error (.uninitialized "a") := by
  intro outer tree
  have rooted : tree.Rooted := by
    refine Rooted.child (Rooted.child (Rooted.update ?_ 1 _) ?_) ?_
    · exact Rooted.child (rooted_initial.update 0 _) (by decide)
    all_goals decide
  have inside : 2 < tree.length := by decide
  have fromInner := (store_laws rooted inside "a").1 (.boolean true)
  have fromOuter := (@store_laws tree 0 rooted (by decide) "a").2 none
  obtain ⟨after, done, seen, -⟩ := fromInner.2.1 ⟨1, by decide, by decide⟩
  refine ⟨rooted, inside, ⟨after, done, ?_, ?_, ?_, ?_⟩, ?_, ?_⟩
  · rw [seen, if_pos (by decide)]
  · rw [seen, if_pos (by decide)]
  · rw [seen, if_neg (by decide)]
    rfl
  · rw [seen, if_neg (by decide)]
    rfl
  · rfl
  · exact (fromOuter.1 3 "a").1 ⟨rfl, [3], [], rfl, by decide⟩

end ScopeTree
end Lox
