import Lox.Proofs.Node.Occurrence
import Lox.Proofs.Renaming.Renamed

namespace Lox

inductive Fragment where
  | between (text : String)
  | name (name : String)

namespace Fragment

def shown : Fragment → String
  | between text => text
  | name word => word

def rename (change : String → String) : Fragment → Fragment
  | between text => between text
  | name word => name (change word)

def written (fragments : List Fragment) : String := String.join (fragments.map shown)

theorem written_cons (fragment : Fragment) (rest : List Fragment) :
    written (fragment :: rest) = fragment.shown ++ written rest :=
  String.join_cons

theorem written_append (first rest : List Fragment) :
    written (first ++ rest) = written first ++ written rest := by
  rw [written, List.map_append, String.join_append]
  rfl

theorem written_singleton (fragment : Fragment) : written [fragment] = fragment.shown := by
  simp [written]

end Fragment

open Fragment (written written_cons written_append written_singleton)

namespace Node

mutual

def isExpression : Node → Bool
  | literal _ | identifier _ => true
  | assign _ inner | unary _ inner | grouping inner => inner.isExpression
  | binary left _ right | logical left _ right => left.isExpression && right.isExpression
  | call callee arguments => callee.isExpression && areExpressions arguments
  | _ => false

def areExpressions : List Node → Bool
  | [] => true
  | node :: rest => node.isExpression && areExpressions rest

end

mutual

def isStatement : Node → Bool
  | expression inner | print inner | declare _ (some inner) => inner.isExpression
  | declare _ none => true
  | block statements => areStatements statements
  | choice condition thenBranch none => condition.isExpression && thenBranch.isStatement
  | choice condition thenBranch (some elseBranch) =>
    condition.isExpression && thenBranch.isStatement && elseBranch.isStatement
  | loop condition body => condition.isExpression && areStatements body
  | _ => false

def areStatements : List Node → Bool
  | [] => true
  | node :: rest => node.isStatement && areStatements rest

end

def Sorted (node : Node) : Prop := node.isExpression = true ∨ node.isStatement = true

theorem areExpressions_iff {nodes : List Node} :
    areExpressions nodes = true ↔ ∀ node ∈ nodes, node.isExpression = true := by
  induction nodes with
  | nil => simp [areExpressions]
  | cons node rest ih => simp [areExpressions, ih]

theorem areStatements_iff {nodes : List Node} :
    areStatements nodes = true ↔ ∀ node ∈ nodes, node.isStatement = true := by
  induction nodes with
  | nil => simp [areStatements]
  | cons node rest ih => simp [areStatements, ih]

theorem Sorted.part {node part : Node} (sorted : node.Sorted) (member : part ∈ node.children) :
    part.Sorted := by
  match node with
  | literal _ | identifier _ | foreign | declare _ none => cases member
  | assign _ inner | unary _ inner | grouping inner =>
    cases List.mem_singleton.mp member
    exact .inl (sorted.resolve_right nofun)
  | binary left _ right | logical left _ right =>
    have both := Bool.and_eq_true_iff.mp (sorted.resolve_right nofun)
    simp only [children, List.mem_cons, List.not_mem_nil, or_false] at member
    rcases member with rfl | rfl
    · exact .inl both.1
    · exact .inl both.2
  | call callee arguments =>
    have both := Bool.and_eq_true_iff.mp (sorted.resolve_right nofun)
    rcases List.mem_cons.mp member with rfl | among
    · exact .inl both.1
    · exact .inl (areExpressions_iff.mp both.2 part among)
  | expression inner | print inner | declare _ (some inner) =>
    cases List.mem_singleton.mp member
    exact .inl (sorted.resolve_left nofun)
  | block statements =>
    exact .inr (areStatements_iff.mp (sorted.resolve_left nofun) part member)
  | choice condition thenBranch none =>
    have both := Bool.and_eq_true_iff.mp (sorted.resolve_left nofun)
    simp only [children, Option.toList_none, List.mem_cons, List.not_mem_nil, or_false] at member
    rcases member with rfl | rfl
    · exact .inl both.1
    · exact .inr both.2
  | choice condition thenBranch (some elseBranch) =>
    have all := Bool.and_eq_true_iff.mp (sorted.resolve_left nofun)
    have both := Bool.and_eq_true_iff.mp all.1
    simp only [children, Option.toList_some, List.mem_cons, List.not_mem_nil, or_false] at member
    rcases member with rfl | rfl | rfl
    · exact .inl both.1
    · exact .inr both.2
    · exact .inr all.2
  | loop condition body =>
    have both := Bool.and_eq_true_iff.mp (sorted.resolve_left nofun)
    rcases List.mem_cons.mp member with rfl | among
    · exact .inl both.1
    · exact .inr (areStatements_iff.mp both.2 part among)

mutual

def fragments : Node → List Fragment
  | literal value => [.between value.source]
  | identifier name => [.name name]
  | assign name value => .name name :: .between " = " :: value.fragments
  | unary operator right => .between operator.symbol :: right.fragments
  | binary left operator right | logical left operator right =>
    left.fragments ++ .between " " :: .between operator.symbol :: .between " " :: right.fragments
  | grouping inner => .between "(" :: inner.fragments ++ [.between ")"]
  | call callee arguments =>
    callee.fragments ++ .between "(" :: listed arguments ++ [.between ")"]
  | node => [.between node.source]

def listed : List Node → List Fragment
  | [] => []
  | [node] => node.fragments
  | node :: next :: rest => node.fragments ++ .between ", " :: listed (next :: rest)

end

mutual

theorem written_fragments (node : Node) : written node.fragments = node.source := by
  match node with
  | literal _ | identifier _ => exact written_singleton _
  | assign name inner =>
    rw [fragments, written_cons, written_cons, written_fragments inner, source, String.append_assoc]
    rfl
  | unary operator right =>
    rw [fragments, written_cons, written_fragments right, source]
    rfl
  | binary left operator right | logical left operator right =>
    rw [fragments, written_append, written_cons, written_cons, written_cons,
      written_fragments left, written_fragments right, source]
    simp only [String.append_assoc, Fragment.shown]
  | grouping inner =>
    rw [fragments, written_append, written_cons, written_fragments inner, written_singleton, source]
    rfl
  | call callee arguments =>
    rw [fragments, written_append, written_append, written_cons, written_fragments callee,
      written_listed arguments, written_singleton, source]
    simp only [String.append_assoc, Fragment.shown]
  | expression _ | print _ | declare _ none | declare _ (some _) | block _ | choice _ _ none
  | choice _ _ (some _) | loop _ _ | foreign => exact written_singleton _

theorem written_listed (nodes : List Node) :
    written (listed nodes) = ", ".intercalate (sources nodes) := by
  match nodes with
  | [] => rfl
  | [node] => exact written_fragments node
  | node :: next :: rest =>
    rw [listed, written_append, written_cons, written_fragments node, written_listed (next :: rest),
      sources, sources, sources, String.intercalate_cons_cons, String.append_assoc]
    rfl

end

variable (change : String → String)

mutual

/-- With other names in an expression, the names in its source form are others and nothing else. -/
theorem fragments_rename (node : Node) (kind : node.isExpression = true) :
    (node.rename change).fragments = node.fragments.map (Fragment.rename change) := by
  match node with
  | literal _ | identifier _ => rfl
  | assign name inner =>
    rw [rename, fragments, fragments_rename inner kind]
    rfl
  | unary operator right =>
    rw [rename, fragments, fragments_rename right kind]
    rfl
  | binary left operator right | logical left operator right =>
    have both := Bool.and_eq_true_iff.mp kind
    rw [rename, fragments, fragments_rename left both.1, fragments_rename right both.2, fragments,
      List.map_append]
    rfl
  | grouping inner =>
    rw [rename, fragments, fragments_rename inner kind, fragments, List.map_append]
    rfl
  | call callee arguments =>
    have both := Bool.and_eq_true_iff.mp kind
    rw [rename, fragments, fragments_rename callee both.1, listed_renameAll arguments both.2,
      fragments, List.map_append, List.map_append]
    rfl

theorem listed_renameAll (nodes : List Node) (kind : areExpressions nodes = true) :
    listed (renameAll change nodes) = (listed nodes).map (Fragment.rename change) := by
  match nodes with
  | [] => rfl
  | [node] => exact fragments_rename node (Bool.and_eq_true_iff.mp kind).1
  | node :: next :: rest =>
    have both := Bool.and_eq_true_iff.mp kind
    have later := listed_renameAll (next :: rest) both.2
    rw [renameAll] at later
    rw [renameAll, renameAll, listed, fragments_rename node both.1, later, listed, List.map_append]
    rfl

end

end Node

namespace RuntimeError

def fragments : RuntimeError → List Fragment
  | uninitialized name => [.between "Uninitialized variable access: ", .name name]
  | unknownName name => [.between "Unknown variable access: ", .name name]
  | unknownTarget name => [.between "Assignment to unknown variable ", .name name]
  | call node => .between "Function calls are not yet supported: " :: node.fragments
  | error => [.between error.message]

theorem written_fragments (error : RuntimeError) : written error.fragments = error.message := by
  cases error with
  | call node =>
    rw [fragments, written_cons, node.written_fragments]
    rfl
  | uninitialized _ | unknownName _ | unknownTarget _ =>
    rw [fragments, written_cons, written_singleton]
    rfl
  | _ => exact written_singleton _

theorem fragments_rename {error : RuntimeError} (change : String → String)
    (kind : ∀ node, error = .call node → node.isExpression = true) :
    (error.rename change).fragments = error.fragments.map (Fragment.rename change) := by
  cases error with
  | call node => exact congrArg (_ :: ·) (Node.fragments_rename change node (kind node rfl))
  | _ => rfl

end RuntimeError
end Lox
