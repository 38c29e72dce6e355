import Mathlib.Data.List.Forall2
import Mathlib.Data.List.Induction
import Lox.Proofs.Scope.Rooted

namespace Lox

/-- Names after the declaration of further ones: a new name goes to the end, a known one keeps its
place. -/
def enlist (names further : List String) : List String :=
  further.foldl (fun names name => if name ∈ names then names else names ++ [name]) names

section
variable {names first rest further : List String}

theorem enlist_append (names first rest : List String) :
    enlist names (first ++ rest) = enlist (enlist names first) rest :=
  List.foldl_append

theorem enlist_singleton (names : List String) (name : String) :
    enlist names [name] = if name ∈ names then names else names ++ [name] := rfl

theorem enlist_extends (names further : List String) :
    ∃ added, enlist names further = names ++ added ∧ ∀ name ∈ added, name ∈ further := by
  induction further generalizing names with
  | nil => exact ⟨[], (List.append_nil names).symm, by simp⟩
  | cons name further ih =>
    rcases ih (enlist names [name]) with ⟨later, extended, among⟩
    have split : enlist names (name :: further) = enlist names [name] ++ later := extended
    by_cases known : name ∈ names
    · rw [enlist_singleton, if_pos known] at split
      exact ⟨later, split, fun other member => List.mem_cons_of_mem _ (among other member)⟩
    · rw [enlist_singleton, if_neg known, List.append_assoc] at split
      refine ⟨name :: later, split, fun other member => ?_⟩
      rcases List.mem_cons.mp member with rfl | last
      · exact List.mem_cons_self
      · exact List.mem_cons_of_mem _ (among other last)

/-- In a new scope the names stand in the order in which they occur first. -/
theorem enlist_nil (further : List String) : enlist [] further = further.eraseDups := by
  -- from the end, for it is what stands before a name that makes it new or known
  induction further using List.reverseRecOn with
  | nil => rfl
  | append_singleton earlier name ih =>
    rw [enlist_append, ih, enlist_singleton, List.eraseDups_append]
    by_cases known : name ∈ earlier
    · simp [known, List.removeAll]
    · simp [known, List.removeAll, List.eraseDups_cons]

end

namespace Bindings

variable {bindings before middle after : Bindings} {name : String} {targets : List String}

def names (bindings : Bindings) : List String := bindings.map Prod.fst

theorem declares_iff : bindings.declares name = true ↔ name ∈ bindings.names := by
  induction bindings with
  | nil => simp [declares, names]
  | cons binding rest ih =>
    rcases binding with ⟨key, held⟩
    rw [names, List.map_cons, List.mem_cons, ← names, ← ih, declares, lookup_cons]
    by_cases found : key = name
    · simp [found]
    · simp [declares, Ne.symm found]

theorem names_put (name : String) (held : Option Value) (bindings : Bindings) :
    (bindings.put name held).names = enlist bindings.names [name] := by
  rw [enlist_singleton]
  induction bindings with
  | nil => rfl
  | cons binding rest ih =>
    rcases binding with ⟨key, old⟩
    rw [put]
    by_cases found : key = name
    · simp [found, names]
    · simp only [names] at ih
      by_cases known : name ∈ rest.map Prod.fst
      · simp [found, known, names, ih]
      · simp [found, known, names, ih, Ne.symm found]

theorem lookup_put (name : String) (held : Option Value) (bindings : Bindings) (other : String) :
    (bindings.put name held).lookup other = if other = name then some held else bindings.lookup other := by
  induction bindings with
  | nil => simp [put, lookup_cons]
  | cons binding rest ih =>
    rcases binding with ⟨key, old⟩
    rw [put]
    by_cases found : key = name
    · rw [if_pos found, lookup_cons, lookup_cons, found]
      by_cases same : other = name
      · rw [if_pos same, if_pos same]
      · rw [if_neg same, if_neg same, if_neg same]
    · rw [if_neg found, lookup_cons, lookup_cons, ih]
      by_cases same : other = key
      · simp [same, found]
      · simp [same]

/-- What may become of a scope by declarations of names in it, one after the other, and by
assignments to some targets. -/
structure Revised (targets declared : List String) (before after : Bindings) : Prop where
  names : after.names = enlist before.names declared
  others : ∀ name, name ∉ targets → name ∉ declared → after.lookup name = before.lookup name
  held : ∀ name value, name ∉ declared → before.lookup name = some (some value) →
    ∃ changed, after.lookup name = some (some changed)

namespace Revised

variable {first rest : List String}

theorem refl (targets : List String) (bindings : Bindings) : Revised targets [] bindings bindings :=
  ⟨rfl, fun _ _ _ => rfl, fun _ value _ bound => ⟨value, bound⟩⟩

theorem trans (early : Revised targets first before middle)
    (late : Revised targets rest middle after) : Revised targets (first ++ rest) before after := by
  refine ⟨?_, fun name untargeted undeclared => ?_, fun name value undeclared bound => ?_⟩
  · rw [late.names, early.names, enlist_append]
  · rw [List.mem_append, not_or] at undeclared
    rw [late.others name untargeted undeclared.2, early.others name untargeted undeclared.1]
  · rw [List.mem_append, not_or] at undeclared
    rcases early.held name value undeclared.1 bound with ⟨changed, found⟩
    exact late.held name changed undeclared.2 found

theorem defined (targets : List String) (name : String) (held : Option Value) (bindings : Bindings) :
    Revised targets [name] bindings (bindings.put name held) := by
  refine ⟨names_put name held bindings, fun other _ undeclared => ?_,
    fun other value undeclared bound => ⟨value, ?_⟩⟩
  all_goals rw [List.mem_singleton] at undeclared
  · rw [lookup_put, if_neg undeclared]
  · rw [lookup_put, if_neg undeclared, bound]

theorem assigned (targeted : name ∈ targets) (declared : bindings.declares name = true)
    (value : Value) : Revised targets [] bindings (bindings.put name (some value)) := by
  refine ⟨?_, fun other untargeted _ => ?_, fun other old _ bound => ?_⟩
  · rw [names_put, enlist_singleton, if_pos (declares_iff.mp declared)]
    rfl
  · have different : other ≠ name := fun same => untargeted (same ▸ targeted)
    rw [lookup_put, if_neg different]
  · rw [lookup_put]
    by_cases same : other = name
    · exact ⟨value, if_pos same⟩
    · exact ⟨old, by rw [if_neg same, bound]⟩

end Revised
end Bindings

namespace Chain

/-- What may become of a chain: names are declared in its innermost scope only. -/
inductive Revised (targets declared : List String) : Chain → Chain → Prop where
  | nil : Revised targets declared [] []
  | cons {bindings changed : Bindings} {outer rest : Chain} :
    bindings.Revised targets declared changed →
    List.Forall₂ (Bindings.Revised targets []) outer rest →
    Revised targets declared (bindings :: outer) (changed :: rest)

namespace Revised

variable {targets declared first rest : List String} {before middle after chain : Chain}

theorem length (revised : Revised targets declared before after) : after.length = before.length := by
  cases revised with
  | nil => rfl
  | cons _ outer => simp [outer.length_eq]

theorem iff_forall₂ :
    Revised targets [] before after ↔ List.Forall₂ (Bindings.Revised targets []) before after := by
  constructor
  · intro revised
    cases revised with
    | nil => exact .nil
    | cons inner outer => exact .cons inner outer
  · intro revised
    cases revised with
    | nil => exact .nil
    | cons inner outer => exact .cons inner outer

theorem refl (targets : List String) (chain : Chain) : Revised targets [] chain chain :=
  iff_forall₂.mpr (List.forall₂_same.mpr fun bindings _ => .refl targets bindings)

theorem trans_outer (early : List.Forall₂ (Bindings.Revised targets []) before middle)
    (late : List.Forall₂ (Bindings.Revised targets []) middle after) :
    List.Forall₂ (Bindings.Revised targets []) before after := by
  induction early generalizing after with
  | nil => exact late
  | cons inner _ ih =>
    cases late with
    | cons later outer => exact .cons (inner.trans later) (ih outer)

theorem trans (early : Revised targets first before middle)
    (late : Revised targets rest middle after) : Revised targets (first ++ rest) before after := by
  cases early with
  | nil =>
    cases late
    exact .nil
  | cons inner outer =>
    cases late with
    | cons later further => exact .cons (inner.trans later) (trans_outer outer further)

theorem defined (targets : List String) (name : String) (held : Option Value) (chain : Chain) :
    Revised targets [name] chain (chain.define name held) := by
  cases chain with
  | nil => exact .nil
  | cons bindings outer =>
    exact .cons (.defined targets name held bindings)
      (iff_forall₂.mp (refl targets outer))

theorem assigned {name : String} {value : Value} (targeted : name ∈ targets)
    (found : chain.assign? name value = some after) : Revised targets [] chain after := by
  refine iff_forall₂.mpr ?_
  induction chain generalizing after with
  | nil => cases found
  | cons bindings outer ih =>
    rw [Chain.assign?] at found
    split at found
    next declared =>
      cases found
      exact .cons (.assigned targeted declared value) (iff_forall₂.mp (refl targets outer))
    next =>
      rcases Option.map_eq_some_iff.mp found with ⟨rest, further, rfl⟩
      exact .cons (.refl targets bindings) (ih further)

theorem map_names (revised : Revised targets [] before after) :
    after.map Bindings.names = before.map Bindings.names := by
  have each := iff_forall₂.mp revised
  induction each with
  | nil => rfl
  | cons inner outer ih =>
    rw [List.map_cons, List.map_cons, ih (iff_forall₂.mpr outer), inner.names]
    rfl

theorem left (revised : Revised targets declared ([] :: before) after) :
    Revised targets [] before after.tail := by
  cases revised with
  | cons _ outer => exact iff_forall₂.mpr outer

/-- What is revised as seen from a scope is revised in each scope of the tree. -/
theorem update {tree : ScopeTree} {scope : Nat}
    (revised : Revised targets declared (tree.chain scope) chain)
    (rooted : tree.Rooted) (inside : scope < tree.length) (place : Nat) :
    (tree.bindings place).Revised targets (if place = scope then declared else [])
      ((tree.update scope chain).bindings place) := by
  have seen := rooted.chain_update inside revised.length
  rw [ScopeTree.chain, ScopeTree.path_update] at seen
  have distinct := List.nodup_cons.mp (rooted.nodup scope)
  rw [← seen] at revised
  -- scopes on the path were revised as parts of the chain, and no other is written
  by_cases onPath : place ∈ tree.path scope
  · cases revised with
    | cons inner outer =>
      rcases List.mem_cons.mp onPath with rfl | around
      · rw [if_pos rfl]
        exact inner
      · have different : place ≠ scope := fun same => distinct.1 (by rwa [same] at around)
        rw [List.forall₂_map_left_iff, List.forall₂_map_right_iff, List.forall₂_same] at outer
        rw [if_neg different]
        exact outer place around
  · have different : place ≠ scope := fun same => onPath (by rw [same]; exact List.mem_cons_self)
    rw [if_neg different, ScopeTree.bindings, ScopeTree.bindings, ScopeTree.update_apart chain onPath]
    exact .refl targets _

end Revised
end Chain
end Lox
