import Lox.Node.Text
import Lox.Token.Basic

/-!
What the source text of a tree reads back as. The text of an infinite number is `inf`, which reads
as a name; everything else reads back as it was.
-/
namespace Lox

def Token.Kind.readBack : Token.Kind → Token.Kind
  | .number (.infinite _) => .identifier "inf"
  | kind => kind

def Value.finite : Value → Bool
  | .number (.finite _ _) => true
  | .number _ => false
  | _ => true

namespace Node

mutual

/-- The tree with the name `inf` in place of each infinite number. -/
def readBack : Node → Node
  | literal (.number (.infinite _)) => identifier "inf"
  | literal value => literal value
  | identifier name => identifier name
  | assign name value => assign name value.readBack
  | unary operator right => unary operator right.readBack
  | binary left operator right => binary left.readBack operator right.readBack
  | logical left operator right => logical left.readBack operator right.readBack
  | grouping inner => grouping inner.readBack
  | call callee arguments => call callee.readBack (readBacks arguments)
  | expression inner => expression inner.readBack
  | print inner => print inner.readBack
  | declare name none => declare name none
  | declare name (some initializer) => declare name (some initializer.readBack)
  | block statements => block (readBacks statements)
  | choice condition thenBranch none => choice condition.readBack thenBranch.readBack none
  | choice condition thenBranch (some elseBranch) =>
    choice condition.readBack thenBranch.readBack (some elseBranch.readBack)
  | loop condition body => loop condition.readBack (readBacks body)
  | foreign => foreign

def readBacks : List Node → List Node
  | [] => []
  | node :: rest => node.readBack :: readBacks rest

end

mutual

def finite : Node → Bool
  | literal value => value.finite
  | identifier _ | declare _ none => true
  | assign _ inner | unary _ inner | grouping inner | expression inner | print inner
  | declare _ (some inner) => inner.finite
  | binary left _ right | logical left _ right => left.finite && right.finite
  | call callee arguments => callee.finite && allFinite arguments
  | block statements => allFinite statements
  | choice condition thenBranch none => condition.finite && thenBranch.finite
  | choice condition thenBranch (some elseBranch) =>
    condition.finite && thenBranch.finite && elseBranch.finite
  | loop condition body => condition.finite && allFinite body
  | foreign => false

def allFinite : List Node → Bool
  | [] => true
  | node :: rest => node.finite && allFinite rest

end

theorem readBacks_eq_map (nodes : List Node) : readBacks nodes = nodes.map readBack := by
  induction nodes with
  | nil => rfl
  | cons node rest ih => rw [readBacks, ih, List.map_cons]

theorem allFinite_iff {nodes : List Node} : allFinite nodes = true ↔ ∀ node ∈ nodes, node.finite := by
  induction nodes with
  | nil => simp [allFinite]
  | cons node rest ih => simp [allFinite, ih]

theorem agrees_literal (value : Value) :
    (literal value).agrees (literal value).readBack = value.finite := by
  match value with
  | .number .nan => rfl
  | .number (.infinite negative) => rfl
  | .number (.finite negative rank) => simp [readBack, agrees, Value.agrees, Number.equal,
      Number.related, Number.key, Value.finite]
  | .string _ | .boolean _ | .nil | .other _ => simp [readBack, agrees, Value.agrees, Value.finite]

mutual

/-- A tree reads back as an equal tree exactly if all of its numbers are finite. -/
theorem agrees_readBack (node : Node) : node.agrees node.readBack = node.finite := by
  match node with
  | literal value => simpa [finite] using agrees_literal value
  | identifier name => simp [readBack, agrees, finite]
  | assign name value => simp [readBack, agrees, finite, agrees_readBack value]
  | unary operator right => simp [readBack, agrees, finite, agrees_readBack right]
  | binary left operator right =>
    simp [readBack, agrees, finite, agrees_readBack left, agrees_readBack right]
  | logical left operator right =>
    simp [readBack, agrees, finite, agrees_readBack left, agrees_readBack right]
  | grouping inner => simp [readBack, agrees, finite, agrees_readBack inner]
  | call callee arguments =>
    simp [readBack, agrees, finite, agrees_readBack callee, allAgree_readBacks arguments]
  | expression inner => simp [readBack, agrees, finite, agrees_readBack inner]
  | print inner => simp [readBack, agrees, finite, agrees_readBack inner]
  | declare name none => simp [readBack, agrees, finite]
  | declare name (some initializer) =>
    simp [readBack, agrees, finite, agrees_readBack initializer]
  | block statements => simp [readBack, agrees, finite, allAgree_readBacks statements]
  | choice condition thenBranch none =>
    simp [readBack, agrees, finite, agrees_readBack condition, agrees_readBack thenBranch]
  | choice condition thenBranch (some elseBranch) =>
    simp [readBack, agrees, finite, agrees_readBack condition, agrees_readBack thenBranch,
      agrees_readBack elseBranch]
  | loop condition body =>
    simp [readBack, agrees, finite, agrees_readBack condition, allAgree_readBacks body]
  | foreign => rfl

theorem allAgree_readBacks (nodes : List Node) :
    allAgree nodes (readBacks nodes) = allFinite nodes := by
  match nodes with
  | [] => rfl
  | node :: rest =>
    simp [readBacks, allAgree, allFinite, agrees_readBack node, allAgree_readBacks rest]

end

mutual

theorem readBack_of_finite {node : Node} (bounded : node.finite = true) : node.readBack = node := by
  match node with
  | literal (.number (.finite _ _)) => rfl
  | literal (.string _) | literal (.boolean _) | literal .nil | literal (.other _) => rfl
  | identifier name | declare name none => rfl
  | assign _ inner | unary _ inner | grouping inner | expression inner | print inner
  | declare _ (some inner) =>
    rw [finite] at bounded
    rw [readBack, readBack_of_finite bounded]
  | binary left operator right | logical left operator right =>
    rw [finite, Bool.and_eq_true] at bounded
    rw [readBack, readBack_of_finite bounded.1, readBack_of_finite bounded.2]
  | call callee arguments =>
    rw [finite, Bool.and_eq_true] at bounded
    rw [readBack, readBack_of_finite bounded.1, readBacks_of_finite bounded.2]
  | block statements =>
    rw [finite] at bounded
    rw [readBack, readBacks_of_finite bounded]
  | choice condition thenBranch none =>
    rw [finite, Bool.and_eq_true] at bounded
    rw [readBack, readBack_of_finite bounded.1, readBack_of_finite bounded.2]
  | choice condition thenBranch (some elseBranch) =>
    rw [finite, Bool.and_eq_true, Bool.and_eq_true] at bounded
    rw [readBack, readBack_of_finite bounded.1.1, readBack_of_finite bounded.1.2,
      readBack_of_finite bounded.2]
  | loop condition body =>
    rw [finite, Bool.and_eq_true] at bounded
    rw [readBack, readBack_of_finite bounded.1, readBacks_of_finite bounded.2]

theorem readBacks_of_finite {nodes : List Node} (bounded : allFinite nodes = true) :
    readBacks nodes = nodes := by
  match nodes with
  | [] => rfl
  | node :: rest =>
    rw [allFinite, Bool.and_eq_true] at bounded
    rw [readBacks, readBack_of_finite bounded.1, readBacks_of_finite bounded.2]

end

end Node
end Lox
