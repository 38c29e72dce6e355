import Lox.Proofs.Grammar.Rendering.Phrase

namespace Lox

def Node.Carries : Node → Prop
  | literal value => ∃ kind : Token.Kind, kind.Scanned ∧ Grammar.literal? kind = some value
  | identifier name | assign name _ | declare name _ => (Token.Kind.identifier name).Scanned
  | foreign => False
  | _ => True

/-- All that the nodes of a tree carry stems from kinds that can be scanned. -/
inductive Node.Scanned : Node → Prop where
  | intro {node : Node} :
    node.Carries → (∀ part ∈ node.children, part.Scanned) → node.Scanned

namespace Grammar

open Token (Kind)

theorem join_scanned {level : Level} {left right : Node} (operator : Operator)
    (first : left.Scanned) (second : right.Scanned) :
    (level.join left operator right).Scanned := by
  have both : ∀ part ∈ [left, right], part.Scanned := by simp [first, second]
  cases level <;> exact ⟨trivial, both⟩

theorem Phrase.scanned {level : Level} {kinds : List Kind} {node : Node}
    (phrase : Phrase level kinds node) (scanned : ∀ kind ∈ kinds, kind.Scanned) :
    node.Scanned := by
  induction phrase with
  | assign _ ih =>
    have value := ih fun kind member => scanned kind (by simp [member])
    exact ⟨scanned _ List.mem_cons_self, by simpa [Node.children] using value⟩
  | disjunction _ ih => exact ih scanned
  | chain _ _ _ _ first operands =>
    have begins := first fun kind member => scanned kind (List.mem_append_left _ member)
    refine Link.chain_induction begins ?_ fun link _ _ => join_scanned link.operator
    intro link listed
    refine operands link listed fun kind member => scanned kind (List.mem_append_right _ ?_)
    exact List.mem_flatMap.mpr ⟨link, listed, List.mem_cons_of_mem _ member⟩
  | signed _ _ ih =>
    have right := ih fun kind member => scanned kind (List.mem_cons_of_mem _ member)
    exact ⟨trivial, by simpa [Node.children] using right⟩
  | unsigned _ ih => exact ih scanned
  | call _ _ _ callee arguments =>
    have begins := callee fun kind member => scanned kind (List.mem_append_left _ member)
    refine applied_induction begins fun parts listed callee called => ?_
    refine ⟨trivial, List.forall_mem_cons.mpr ⟨called, List.forall_mem_map.mpr ?_⟩⟩
    intro part within
    refine arguments parts listed part within fun kind member => ?_
    refine scanned kind (List.mem_append_right _ (List.mem_flatMap.mpr ⟨parts, listed, ?_⟩))
    exact mem_enclosed within member
  | literal found => exact ⟨⟨_, scanned _ List.mem_cons_self, found⟩, by simp [Node.children]⟩
  | identifier => exact ⟨scanned _ List.mem_cons_self, by simp [Node.children]⟩
  | grouping _ ih =>
    have inner := ih fun kind member => scanned kind (by simp [member])
    exact ⟨trivial, by simpa [Node.children] using inner⟩

section
variable {kinds : List Kind} {node : Node} {held : Option Node}
  (each : ∀ kind ∈ kinds, kind.Scanned)
include each

theorem Variable.scanned (declaration : Variable kinds node) : node.Scanned := by
  cases declaration with
  | @bare name =>
    have carried : (Kind.identifier name).Scanned := each _ (by simp)
    exact ⟨carried, by simp [Node.children]⟩
  | @initialized name _ _ phrase =>
    have carried : (Kind.identifier name).Scanned := each _ (by simp)
    have initializer := phrase.scanned fun kind member => each kind (by simp [member])
    exact ⟨carried, by simpa [Node.children] using initializer⟩

theorem Evaluation.scanned (evaluated : Evaluation kinds node) : node.Scanned := by
  cases evaluated with
  | intro phrase =>
    have inner := phrase.scanned fun kind member => each kind (by simp [member])
    exact ⟨trivial, by simpa [Node.children] using inner⟩

theorem Initializer.scanned (begun : Initializer kinds held) :
    ∀ node ∈ held.toList, node.Scanned := by
  cases begun with
  | absent => simp
  | declared declaration => simpa using declaration.scanned each
  | evaluation evaluated => simpa using evaluated.scanned each

theorem Clause.scanned (clause : Clause kinds held) : ∀ node ∈ held, node.Scanned := by
  cases clause with
  | absent => simp
  | present phrase => simpa using phrase.scanned each

end

/-- The loop that a `for` stands for carries what the parts of the `for` do, and `true` in place of a
condition that is left out. -/
theorem desugared_scanned {initializer condition increment : Option Node} {body : Node}
    (begun : ∀ node ∈ initializer.toList, node.Scanned)
    (tested : ∀ node ∈ condition, node.Scanned) (advanced : ∀ node ∈ increment, node.Scanned)
    (inside : body.Scanned) : (desugared initializer condition increment body).Scanned := by
  have test : (condition.getD (.literal (.boolean true))).Scanned := by
    cases condition with
    | none => exact ⟨⟨.trueWord, trivial, rfl⟩, by simp [Node.children]⟩
    | some node => exact tested node rfl
  have steps : ∀ node ∈ (increment.map Node.expression).toList, node.Scanned := by
    intro node member
    obtain ⟨inner, held, rfl⟩ := Option.map_eq_some_iff.mp (Option.mem_toList.mp member)
    exact ⟨trivial, by simpa [Node.children] using advanced inner held⟩
  have looped : (Node.loop (condition.getD (.literal (.boolean true)))
      (body :: (increment.map Node.expression).toList)).Scanned :=
    ⟨trivial, List.forall_mem_cons.mpr ⟨test, List.forall_mem_cons.mpr ⟨inside, steps⟩⟩⟩
  refine ⟨trivial, List.forall_mem_append.mpr ⟨begun, ?_⟩⟩
  simpa using looped

theorem Sentence.scanned {form : Form} {kinds : List Kind} {node : Node}
    (sentence : Sentence form kinds node) (scanned : ∀ kind ∈ kinds, kind.Scanned) :
    node.Scanned := by
  induction sentence with
  | declared declaration => exact declaration.scanned scanned
  | statement _ ih => exact ih scanned
  | evaluation evaluated => exact evaluated.scanned scanned
  | output phrase =>
    have inner := phrase.scanned fun kind member => scanned kind (by simp [member])
    exact ⟨trivial, by simpa [Node.children] using inner⟩
  | choice phrase _ ih =>
    have test := phrase.scanned fun kind member => scanned kind (by simp [member])
    have branch := ih fun kind member => scanned kind (by simp [member])
    exact ⟨trivial, by simp [Node.children, test, branch]⟩
  | alternative phrase _ _ thenIh elseIh =>
    have test := phrase.scanned fun kind member => scanned kind (by simp [member])
    have branch := thenIh fun kind member => scanned kind (by simp [member])
    have other := elseIh fun kind member => scanned kind (by simp [member])
    exact ⟨trivial, by simp [Node.children, test, branch, other]⟩
  | whileLoop phrase _ ih =>
    have test := phrase.scanned fun kind member => scanned kind (by simp [member])
    have body := ih fun kind member => scanned kind (by simp [member])
    exact ⟨trivial, by simp [Node.children, test, body]⟩
  | forLoop begun tested advanced _ ih =>
    exact desugared_scanned (begun.scanned fun kind member => scanned kind (by simp [member]))
      (tested.scanned fun kind member => scanned kind (by simp [member]))
      (advanced.scanned fun kind member => scanned kind (by simp [member]))
      (ih fun kind member => scanned kind (by simp [member]))
  | @block parts _ ih =>
    refine ⟨trivial, List.forall_mem_map.mpr fun part listed => ?_⟩
    refine ih part listed fun kind inside => scanned kind ?_
    have within := List.mem_flatMap.mpr ⟨part, listed, inside⟩
    exact List.mem_cons_of_mem _ (List.mem_append_left _ within)

theorem Program.scanned {kinds : List Kind} {statements : List Node}
    (derived : Program kinds statements) (scanned : ∀ kind ∈ kinds, kind.Scanned) :
    ∀ statement ∈ statements, statement.Scanned := by
  obtain ⟨parts, sentences, rfl, rfl⟩ := derived
  refine List.forall_mem_map.mpr fun part listed => ?_
  exact (sentences part listed).scanned fun kind inside =>
    scanned kind (List.mem_flatMap.mpr ⟨part, listed, inside⟩)

end Grammar
end Lox
