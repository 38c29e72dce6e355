import Lox.Proofs.Bracing.Simulates
import Lox.Proofs.Node.Braced
import Lox.Proofs.Resolution.Static

namespace Lox

open Simulates (report)

variable {mask : List Bool}

theorem simulates_evaluate (node : Node) : Simulates mask node.evaluate node.evaluate := by
  match node with
  | .literal value => exact .nested 1 (.bind (report _ _) fun _ => .pure value)
  | .identifier name => exact .nested 1 (.bind (report _ _) fun _ => .lookup name)
  | .assign name inner =>
    refine .nested 1 (.bind (report _ _) fun _ => ?_)
    exact .bind (.nested 1 (simulates_evaluate inner)) fun value =>
      .bind (.assign name value) fun _ => .pure value
  | .unary operator right =>
    refine .nested 1 (.bind (report _ _) fun _ => ?_)
    exact .bind (.nested 1 (simulates_evaluate right)) fun _ => .ofResult _
  | .binary left operator right =>
    refine .nested 1 (.bind (report _ _) fun _ => ?_)
    exact .bind (.nested 1 (simulates_evaluate left)) fun _ =>
      .bind (.nested 1 (simulates_evaluate right)) fun _ => .ofResult _
  | .logical left operator right =>
    refine .nested 1 (.bind (report _ _) fun _ => ?_)
    refine .bind (.nested 1 (simulates_evaluate left)) fun value => ?_
    have later : Simulates mask (.nested 1 right.evaluate) (.nested 1 right.evaluate) :=
      .nested 1 (simulates_evaluate right)
    cases operator with
    | and => exact .ite later (.pure value)
    | or => exact .ite (.pure value) later
    | _ => exact .throw _
  | .grouping inner => exact .nested 1 (.bind (report _ _) fun _ => simulates_evaluate inner)
  | .call callee arguments => exact .nested 1 (.bind (report _ _) fun _ => .call _)
  | .expression _ | .print _ | .declare _ _ | .block _ | .choice _ _ _ | .loop _ _ | .foreign =>
    exact .nested 1 (.bind (report _ _) fun _ => .throw _)

def Room (mask : List Bool) (declared : List String) : Prop :=
  declared = [] ∨ mask.head? = some true

theorem Room.append {first second : List String} (room : Room mask (first ++ second)) :
    Room mask first ∧ Room mask second := by
  rcases room with undeclared | shared
  · rcases List.append_eq_nil_iff.mp undeclared with ⟨none, nothing⟩
    exact ⟨.inl none, .inl nothing⟩
  · exact ⟨.inr shared, .inr shared⟩

theorem simulates_define (name : String) (value : Option Value) (room : Room mask [name]) :
    Simulates mask (Run.define name value) (Run.define name value) := by
  rcases room with undeclared | shared
  · cases undeclared
  · rcases List.head?_eq_some_iff.mp shared with ⟨rest, rfl⟩
    exact .define name value

theorem executeAll_singleton (node : Node) : Node.executeAll [node] = node.execute := by
  rw [Node.executeAll, Node.executeAll]
  exact bind_pure_unit

theorem simulates_inBlock {run : Run Unit} {statements : List Node}
    (inside : Simulates (false :: mask) run (Node.executeAll statements)) :
    Simulates mask run (Node.executeAll [.block statements]) := by
  rw [executeAll_singleton, Node.execute]
  exact .nested_wide 1 (.report_wide _ _ (.inScope_wide (.nested_wide 2 inside)))

mutual

theorem simulates_execute (mask : List Bool) (node : Node) (placed : node.placed = true)
    (room : Room mask node.declared) : Simulates mask node.execute node.braced.execute := by
  match node with
  | .expression inner =>
    refine .nested 1 (.bind (report _ _) fun _ => ?_)
    exact .bind (simulates_evaluate inner) fun _ => .pure ()
  | .print inner =>
    refine .nested 1 (.bind (report _ _) fun _ => ?_)
    exact .bind (.nested 1 (simulates_evaluate inner)) fun _ => .print _
  | .declare name none =>
    exact .nested 1 (.bind (report _ _) fun _ => simulates_define name none room)
  | .declare name (some initializer) =>
    refine .nested 1 (.bind (report _ _) fun _ => ?_)
    exact .bind (.nested 1 (simulates_evaluate initializer)) fun value =>
      simulates_define name (some value) room
  | .block statements =>
    refine .nested 1 (.bind (report _ _) fun _ => ?_)
    exact .inScope (.nested 2 (simulates_executeAll (true :: mask) statements placed (.inr rfl)))
  | .choice condition thenBranch none =>
    simp only [Node.placed, Bool.and_eq_true, List.isEmpty_iff] at placed
    refine .nested 1 (.bind (report _ _) fun _ => ?_)
    refine .bind (.nested 1 (simulates_evaluate condition)) fun _ => ?_
    exact .ite (.nested 1 (simulates_execute mask thenBranch placed.2 (.inl placed.1))) (.pure ())
  | .choice condition thenBranch (some elseBranch) =>
    simp only [Node.placed, Bool.and_eq_true, List.isEmpty_iff] at placed
    rcases placed with ⟨⟨⟨thenUndeclared, thenPlaced⟩, elseUndeclared⟩, elsePlaced⟩
    refine .nested 1 (.bind (report _ _) fun _ => ?_)
    refine .bind (.nested 1 (simulates_evaluate condition)) fun _ => ?_
    exact .ite (.nested 1 (simulates_execute mask thenBranch thenPlaced (.inl thenUndeclared)))
      (.nested 1 (simulates_execute mask elseBranch elsePlaced (.inl elseUndeclared)))
  | .loop condition body =>
    simp only [Node.placed, Bool.and_eq_true, List.isEmpty_iff] at placed
    refine .nested 1 (.bind (report _ _) fun _ => .nested 1 ?_)
    refine .whileTrue (.map (simulates_evaluate condition)) (.nested 1 ?_)
    exact simulates_inBlock (simulates_executeAll (false :: mask) body placed.2 (.inl placed.1))
  | .literal _ | .identifier _ | .assign _ _ | .unary _ _ | .binary _ _ _ | .logical _ _ _
  | .grouping _ | .call _ _ | .foreign =>
    exact .nested 1 (.bind (report _ _) fun _ => .throw _)

theorem simulates_executeAll (mask : List Bool) (nodes : List Node)
    (placed : Node.allPlaced nodes = true) (room : Room mask (Node.allDeclared nodes)) :
    Simulates mask (Node.executeAll nodes) (Node.executeAll (Node.allBraced nodes)) := by
  match nodes with
  | [] => exact .pure ()
  | node :: rest =>
    simp only [Node.allPlaced, Bool.and_eq_true] at placed
    rw [Node.allDeclared, List.flatMap_cons] at room
    exact .bind (simulates_execute mask node placed.1 room.append.1) fun _ =>
      simulates_executeAll mask rest placed.2 room.append.2

end

end Lox
