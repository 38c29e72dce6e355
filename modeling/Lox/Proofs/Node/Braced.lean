import Lox.Node.Basic

namespace Lox.Node

mutual

def braced : Node → Node
  | block statements => block (allBraced statements)
  | choice condition thenBranch none => choice condition thenBranch.braced none
  | choice condition thenBranch (some elseBranch) =>
    choice condition thenBranch.braced (some elseBranch.braced)
  | loop condition body => loop condition [block (allBraced body)]
  | node => node

def allBraced : List Node → List Node
  | [] => []
  | node :: rest => node.braced :: allBraced rest

end

theorem allBraced_eq_map (nodes : List Node) : allBraced nodes = nodes.map braced := by
  induction nodes with
  | nil => rfl
  | cons node rest ih => rw [allBraced, ih, List.map_cons]

end Lox.Node
