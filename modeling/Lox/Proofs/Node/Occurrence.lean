import Lox.Node.Basic

namespace Lox.Node

mutual

def gathered (own : Node → List String) : Node → List String
  | node@(literal _) | node@(identifier _) | node@foreign | node@(declare _ none) => own node
  | node@(assign _ inner) | node@(unary _ inner) | node@(grouping inner) | node@(expression inner)
  | node@(print inner) | node@(declare _ (some inner)) => own node ++ inner.gathered own
  | node@(binary left _ right) | node@(logical left _ right) =>
    own node ++ left.gathered own ++ right.gathered own
  | node@(call callee arguments) => own node ++ callee.gathered own ++ gatheredAll own arguments
  | node@(block statements) => own node ++ gatheredAll own statements
  | node@(choice condition thenBranch none) =>
    own node ++ condition.gathered own ++ thenBranch.gathered own
  | node@(choice condition thenBranch (some elseBranch)) =>
    own node ++ condition.gathered own ++ thenBranch.gathered own ++ elseBranch.gathered own
  | node@(loop condition body) => own node ++ condition.gathered own ++ gatheredAll own body

def gatheredAll (own : Node → List String) : List Node → List String
  | [] => []
  | node :: rest => node.gathered own ++ gatheredAll own rest

end

def assigned : Node → List String
  | assign name _ => [name]
  | _ => []

def mentioned : Node → List String
  | identifier name | assign name _ | declare name _ => [name]
  | _ => []

abbrev targets (node : Node) : List String := node.gathered assigned

abbrev allTargets (nodes : List Node) : List String := gatheredAll assigned nodes

abbrev names (node : Node) : List String := node.gathered mentioned

abbrev allNames (nodes : List Node) : List String := gatheredAll mentioned nodes

variable {own : Node → List String} {node part : Node} {nodes : List Node}

theorem gatheredAll_eq_flatMap (own : Node → List String) (nodes : List Node) :
    gatheredAll own nodes = nodes.flatMap (gathered own) := by
  induction nodes with
  | nil => rfl
  | cons node rest ih => rw [gatheredAll, ih, List.flatMap_cons]

theorem gathered_eq (own : Node → List String) (node : Node) :
    node.gathered own = own node ++ node.children.flatMap (gathered own) := by
  match node with
  | literal _ | identifier _ | foreign | declare _ none | assign _ _ | unary _ _ | grouping _
  | expression _ | print _ | declare _ (some _) | binary _ _ _ | logical _ _ _ | call _ _ | block _
  | choice _ _ none | choice _ _ (some _) | loop _ _ =>
    simp [gathered, children, gatheredAll_eq_flatMap]

theorem own_subset (own : Node → List String) (node : Node) : own node ⊆ node.gathered own := by
  rw [gathered_eq]
  exact List.subset_append_left _ _

theorem part_subset (member : part ∈ node.children) : part.gathered own ⊆ node.gathered own := by
  rw [gathered_eq own node]
  intro name among
  exact List.mem_append_right _ (List.mem_flatMap.mpr ⟨part, member, among⟩)

theorem member_subset (member : node ∈ nodes) : node.gathered own ⊆ gatheredAll own nodes := by
  rw [gatheredAll_eq_flatMap]
  intro name among
  exact List.mem_flatMap.mpr ⟨node, member, among⟩

theorem gatheredAll_subset (parts : nodes ⊆ node.children) :
    gatheredAll own nodes ⊆ node.gathered own := by
  rw [gatheredAll_eq_flatMap]
  intro name among
  rcases List.mem_flatMap.mp among with ⟨part, member, found⟩
  exact part_subset (parts member) found

theorem append_mono {first second names others : List String} (early : first ⊆ second)
    (late : names ⊆ others) : first ++ names ⊆ second ++ others :=
  List.append_subset.mpr ⟨List.subset_append_of_subset_left _ early,
    List.subset_append_of_subset_right _ late⟩

section
variable {other : Node → List String}

mutual

theorem gathered_mono (each : ∀ node, own node ⊆ other node) (node : Node) :
    node.gathered own ⊆ node.gathered other := by
  match node with
  | literal _ | identifier _ | foreign | declare _ none => exact each _
  | assign _ inner | unary _ inner | grouping inner | expression inner | print inner
  | declare _ (some inner) => exact append_mono (each _) (gathered_mono each inner)
  | binary left _ right | logical left _ right =>
    exact append_mono (append_mono (each _) (gathered_mono each left)) (gathered_mono each right)
  | call callee arguments =>
    exact append_mono (append_mono (each _) (gathered_mono each callee))
      (gatheredAll_mono each arguments)
  | block statements => exact append_mono (each _) (gatheredAll_mono each statements)
  | choice condition thenBranch none =>
    exact append_mono (append_mono (each _) (gathered_mono each condition))
      (gathered_mono each thenBranch)
  | choice condition thenBranch (some elseBranch) =>
    exact append_mono (append_mono (append_mono (each _) (gathered_mono each condition))
      (gathered_mono each thenBranch)) (gathered_mono each elseBranch)
  | loop condition body =>
    exact append_mono (append_mono (each _) (gathered_mono each condition))
      (gatheredAll_mono each body)

theorem gatheredAll_mono (each : ∀ node, own node ⊆ other node) (nodes : List Node) :
    gatheredAll own nodes ⊆ gatheredAll other nodes := by
  match nodes with
  | [] => exact List.Subset.refl []
  | node :: rest => exact append_mono (gathered_mono each node) (gatheredAll_mono each rest)

end

end

theorem allTargets_subset (nodes : List Node) : allTargets nodes ⊆ allNames nodes := by
  refine gatheredAll_mono (fun node => ?_) nodes
  cases node with
  | assign name _ => exact List.Subset.refl [name]
  | _ => exact List.nil_subset _

end Lox.Node
