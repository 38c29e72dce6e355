import Lox.Proofs.Grammar.Derivation
import Lox.Proofs.Scope.Settling

namespace Lox.Node

def declared : Node → List String
  | declare name _ => [name]
  | _ => []

def allDeclared (statements : List Node) : List String := statements.flatMap declared

/-- The node at a place within a node, and the names declared before it in each block around it,
those of the innermost block first. Of the statements of a block, those count that stand before
the one the place leads to. -/
def reach (names : Names) : Node → List Nat → Option (Node × Names)
  | node, [] => some (node, names)
  | block statements, number :: place =>
    (statements[number]?).bind fun part =>
      part.reach (allDeclared (statements.take number) :: names) place
  | node, number :: place => (node.children[number]?).bind fun part => part.reach names place

/-- How many scopes out the declaration is that a name at a place of a program refers to, if there
is one: the innermost block or the outermost level where the name is declared before. -/
def predicted (statements : List Node) (place : List Nat) (name : String) : Option Nat :=
  ((block statements).reach [] place).bind fun found => found.2.settle name

mutual

/-- Whether no declaration is a branch or the body of a loop. -/
def placed : Node → Bool
  | block statements => allPlaced statements
  | choice _ thenBranch none => thenBranch.declared.isEmpty && thenBranch.placed
  | choice _ thenBranch (some elseBranch) =>
    thenBranch.declared.isEmpty && thenBranch.placed && elseBranch.declared.isEmpty &&
      elseBranch.placed
  | loop _ body => (allDeclared body).isEmpty && allPlaced body
  | _ => true

def allPlaced : List Node → Bool
  | [] => true
  | node :: rest => node.placed && allPlaced rest

end

theorem allPlaced_iff {nodes : List Node} : allPlaced nodes = true ↔ ∀ node ∈ nodes, node.placed := by
  induction nodes with
  | nil => simp [allPlaced]
  | cons node rest ih => simp [allPlaced, ih]

end Lox.Node

namespace Lox.Grammar

open Token (Kind)

theorem Variable.placed {kinds : List Kind} {node : Node} (declaration : Variable kinds node) :
    node.placed = true := by
  cases declaration <;> rfl

theorem Evaluation.placed {kinds : List Kind} {node : Node} (evaluated : Evaluation kinds node) :
    node.placed = true := by
  cases evaluated
  rfl

theorem Initializer.placed {kinds : List Kind} {held : Option Node}
    (begun : Initializer kinds held) : ∀ node ∈ held, node.placed = true := by
  cases begun with
  | absent => simp
  | declared declaration => simpa using declaration.placed
  | evaluation evaluated => simpa using evaluated.placed

def Form.declares : Form → Node → Prop
  | declaration, _ => True
  | statement _, node => node.declared = []

theorem desugared_placed {start increment condition : Option Node} {body : Node}
    (begun : ∀ node ∈ start, node.placed = true) (undeclared : body.declared = [])
    (placed : body.placed = true) :
    (desugared start condition increment body).placed = true := by
  have advances : Node.allDeclared (increment.map Node.expression).toList = [] := by
    cases increment <;> rfl
  have steps : Node.allPlaced (increment.map Node.expression).toList = true := by
    cases increment <;> rfl
  have loops : Node.placed (.loop (condition.getD (.literal (.boolean true)))
      (body :: (increment.map Node.expression).toList)) = true := by
    rw [Node.allDeclared] at advances
    simp [Node.placed, Node.allPlaced, Node.allDeclared, undeclared, advances, placed, steps]
  rw [desugared, Node.placed, Node.allPlaced_iff]
  intro node member
  rcases List.mem_append.mp member with first | last
  · exact begun node (Option.mem_toList.mp first)
  · rw [List.mem_singleton.mp last]
    exact loops

/-- In what was read, no declaration is a branch or the body of a loop. -/
theorem Sentence.placed {form : Form} {kinds : List Kind} {node : Node}
    (sentence : Sentence form kinds node) : node.placed = true ∧ form.declares node := by
  induction sentence with
  | declared declaration => exact ⟨declaration.placed, trivial⟩
  | statement _ ih => exact ⟨ih.1, trivial⟩
  | evaluation evaluated =>
    cases evaluated
    exact ⟨rfl, rfl⟩
  | output => exact ⟨rfl, rfl⟩
  | choice _ _ ih =>
    have undeclared : _ = [] := ih.2
    exact ⟨by simp [Node.placed, ih.1, undeclared], rfl⟩
  | alternative _ _ _ branch other =>
    have first : _ = [] := branch.2
    have second : _ = [] := other.2
    exact ⟨by simp [Node.placed, branch.1, other.1, first, second], rfl⟩
  | whileLoop _ _ ih =>
    have undeclared : _ = [] := ih.2
    exact ⟨by simp [Node.placed, Node.allPlaced, Node.allDeclared, ih.1, undeclared], rfl⟩
  | forLoop begun _ _ _ ih => exact ⟨desugared_placed begun.placed ih.2 ih.1, rfl⟩
  | block _ ih =>
    refine ⟨?_, rfl⟩
    rw [Node.placed, Node.allPlaced_iff]
    intro node member
    rcases List.mem_map.mp member with ⟨part, listed, rfl⟩
    exact (ih part listed).1

theorem Program.placed {kinds : List Kind} {statements : List Node}
    (program : Program kinds statements) : ∀ node ∈ statements, node.placed = true := by
  rcases program with ⟨parts, sentences, -, rfl⟩
  intro node member
  rcases List.mem_map.mp member with ⟨part, listed, rfl⟩
  exact (sentences part listed).placed.1

end Lox.Grammar
