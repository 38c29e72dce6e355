import Lox.Proofs.Grammar.Acceptance

namespace Lox

theorem Node.anyForeign_eq_false {nodes : List Node} :
    Node.anyForeign nodes = false ↔ ∀ node ∈ nodes, node.hasForeign = false := by
  induction nodes with
  | nil => simp [Node.anyForeign]
  | cons node nodes ih => simp [Node.anyForeign, ih]

namespace Grammar

open Token (Kind)

theorem join_native {level : Level} {left right : Node} (operator : Operator)
    (first : left.hasForeign = false) (second : right.hasForeign = false) :
    (level.join left operator right).hasForeign = false := by
  cases level <;> simp [Level.join, Node.hasForeign, first, second]

theorem Phrase.native {level : Level} {kinds : List Kind} {node : Node}
    (phrase : Phrase level kinds node) : node.hasForeign = false := by
  induction phrase with
  | assign _ ih => simpa only [Node.hasForeign] using ih
  | disjunction _ ih => exact ih
  | chain _ _ _ _ first operands =>
    exact Link.chain_induction (motive := fun node => node.hasForeign = false) first operands
      fun link _ _ => join_native link.operator
  | signed _ _ ih => simpa only [Node.hasForeign] using ih
  | unsigned _ ih => exact ih
  | call _ _ _ callee arguments =>
    refine applied_induction (motive := fun node => node.hasForeign = false) callee
      fun parts listed callee begins => ?_
    have each : Node.anyForeign (parts.map Part.node) = false :=
      Node.anyForeign_eq_false.mpr (List.forall_mem_map.mpr (arguments parts listed))
    rw [Node.hasForeign, begins, each, Bool.or_self]
  | literal _ => rfl
  | identifier => rfl
  | grouping _ ih => simpa only [Node.hasForeign] using ih

theorem Variable.native {kinds : List Kind} {node : Node} (declaration : Variable kinds node) :
    node.hasForeign = false := by
  cases declaration with
  | bare => rfl
  | initialized phrase => simpa only [Node.hasForeign] using phrase.native

theorem Evaluation.native {kinds : List Kind} {node : Node} (evaluated : Evaluation kinds node) :
    node.hasForeign = false := by
  cases evaluated with
  | intro phrase => simpa only [Node.hasForeign] using phrase.native

theorem Initializer.native {kinds : List Kind} {held : Option Node} (begun : Initializer kinds held) :
    ∀ node ∈ held.toList, node.hasForeign = false := by
  cases begun with
  | absent => simp
  | declared declaration => simpa using declaration.native
  | evaluation evaluated => simpa using evaluated.native

theorem Clause.native {kinds : List Kind} {held : Option Node} (clause : Clause kinds held) :
    ∀ node ∈ held, node.hasForeign = false := by
  cases clause with
  | absent => simp
  | present phrase => simpa using phrase.native

theorem Sentence.native {form : Form} {kinds : List Kind} {node : Node}
    (sentence : Sentence form kinds node) : node.hasForeign = false := by
  induction sentence with
  | declared declaration => exact declaration.native
  | statement _ ih => exact ih
  | evaluation evaluated => exact evaluated.native
  | output phrase => simpa only [Node.hasForeign] using phrase.native
  | choice phrase _ ih => simp only [Node.hasForeign, phrase.native, ih, Bool.or_false]
  | alternative phrase _ _ branch other =>
    simp only [Node.hasForeign, phrase.native, branch, other, Bool.or_false]
  | whileLoop phrase _ ih =>
    simp only [Node.hasForeign, Node.anyForeign, phrase.native, ih, Bool.or_false]
  | @forLoop _ _ _ _ _ initializer condition increment body begun tested advanced _ ih =>
    have test : (condition.getD (.literal (.boolean true))).hasForeign = false := by
      cases condition with
      | none => rfl
      | some node => exact tested.native node rfl
    have steps : Node.anyForeign (increment.map Node.expression).toList = false := by
      rw [Node.anyForeign_eq_false]
      intro node member
      obtain ⟨inner, held, rfl⟩ := Option.map_eq_some_iff.mp (Option.mem_toList.mp member)
      simpa only [Node.hasForeign] using advanced.native inner held
    rw [desugared, Node.hasForeign, Node.anyForeign_eq_false, List.forall_mem_append]
    refine ⟨begun.native, ?_⟩
    simp only [List.mem_singleton, forall_eq, Node.hasForeign, Node.anyForeign, test, ih, steps,
      Bool.or_false]
  | block _ ih =>
    rw [Node.hasForeign, Node.anyForeign_eq_false]
    exact List.forall_mem_map.mpr ih

theorem parsed_native {limit : Nat} {tokens : List Token} {statements : List Node}
    (read : parseProgram limit tokens = .ok statements) :
    ∀ statement ∈ statements, statement.hasForeign = false := by
  obtain ⟨parts, sentences, -, rfl⟩ := parseProgram_sound (ended_of_ok read) read
  exact List.forall_mem_map.mpr fun part member => (sentences part member).native

end Grammar
end Lox
