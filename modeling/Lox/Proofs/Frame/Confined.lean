import Lox.Evaluation
import Lox.Proofs.Grammar.Acceptance
import Lox.Proofs.Node.Occurrence
import Lox.Proofs.Piecewise.Steady
import Lox.Proofs.Resolution.Static
import Lox.Proofs.Scope.Revised

/-!
What a run may change. A confined run assigns no names but some targets, and it declares its names
in the innermost scope, all of them if it comes to its end and the first few if it fails; all else
is as it was before. An expression declares and prints nothing: `evaluate_confined`. A statement
declares what it says itself, for all other declarations in it stand in blocks: `execute_confined`.
-/
namespace Lox

/-- What may become of a world by declarations in its innermost scope and by assignments to some
targets. -/
structure World.Revised (targets declared : List String) (prints : Bool) (before after : World) :
    Prop where
  chain : Chain.Revised targets declared before.chain after.chain
  output : prints = false → after.output = before.output

inductive Leaves {α : Type} (targets declared : List String) (prints : Bool) (before : World) :
    EStateM.Result Failure World α → Prop where
  | ok {after : World} (value : α) :
    before.Revised targets declared prints after → Leaves targets declared prints before (.ok value after)
  | error {after : World} {done : List String} (failure : Failure) :
    done <+: declared → before.Revised targets done prints after →
    Leaves targets declared prints before (.error failure after)

def Confined {α : Type} (targets declared : List String) (prints : Bool) (run : Run α) : Prop :=
  ∀ context world, Leaves targets declared prints world (run context world)

/-- Whether a run comes to its end or fails, it declares the first few of its names. -/
theorem Leaves.revised {α : Type} {targets declared : List String} {prints : Bool} {world : World}
    {result : EStateM.Result Failure World α} (leaves : Leaves targets declared prints world result) :
    ∃ done, done <+: declared ∧ world.Revised targets done prints (worldAfter result) := by
  cases leaves with
  | ok value revised => exact ⟨declared, List.prefix_rfl, revised⟩
  | error failure before revised => exact ⟨_, before, revised⟩

namespace World.Revised

variable {targets first rest : List String} {prints : Bool} {before middle after : World}

theorem refl (targets : List String) (prints : Bool) (world : World) :
    world.Revised targets [] prints world :=
  ⟨.refl targets world.chain, fun _ => rfl⟩

theorem trans (early : before.Revised targets first prints middle)
    (late : middle.Revised targets rest prints after) :
    before.Revised targets (first ++ rest) prints after :=
  ⟨early.chain.trans late.chain, fun silent => (late.output silent).trans (early.output silent)⟩

end World.Revised

namespace Confined

variable {α β : Type} {targets declared first rest : List String} {prints : Bool} {run : Run α}

theorem pure (value : α) : Confined targets [] prints (Pure.pure value : Run α) :=
  fun _ world => .ok value (.refl targets prints world)

theorem throw (failure : Failure) : Confined targets declared prints (throw failure : Run α) :=
  fun _ world => .error failure List.nil_prefix (.refl targets prints world)

theorem ofResult (result : Except RuntimeError α) :
    Confined targets [] prints (Run.ofResult result) := by
  cases result with
  | ok value => exact pure value
  | error error => exact throw (.runtime error)

theorem bind {next : α → Run β} (early : Confined targets first prints run)
    (late : ∀ value, Confined targets rest prints (next value)) :
    Confined targets (first ++ rest) prints (run >>= next) := by
  intro context world
  have start := early context world
  simp only [Bind.bind, ReaderT.bind, EStateM.bind]
  generalize run context world = result at start ⊢
  cases start with
  | error failure before revised =>
    exact .error failure (before.trans (List.prefix_append first rest)) revised
  | @ok middle value revised =>
    have further := late value context middle
    dsimp only
    generalize next value context middle = result at further ⊢
    cases further with
    | ok value again => exact .ok value (revised.trans again)
    | error failure before again =>
      exact .error failure ((List.prefix_append_right_inj first).mpr before) (revised.trans again)

theorem map {change : α → β} (each : Confined targets declared prints run) :
    Confined targets declared prints (change <$> run) := by
  rw [map_eq_pure_bind, ← List.append_nil declared]
  exact each.bind fun value => pure (change value)

theorem nested (cost : Nat) (each : Confined targets declared prints run) :
    Confined targets declared prints (Run.nested cost run) := by
  intro context world
  rw [Run.nested]
  split
  · exact each _ world
  · exact throw .tooDeep context world

theorem ite {condition : Prop} [Decidable condition] {other : Run α}
    (each : Confined targets declared prints run) (either : Confined targets declared prints other) :
    Confined targets declared prints (if condition then run else other) := by
  split
  · exact each
  · exact either

theorem report (activity label : String) :
    Confined targets [] prints (Run.report activity label) := by
  intro context world
  rw [Run.report_eq]
  exact .ok () ⟨.refl targets world.chain, fun _ => rfl⟩

theorem print (text : String) : Confined targets [] true (Run.print text) :=
  fun _ world => .ok () ⟨.refl targets world.chain, nofun⟩

theorem lookup (name : String) : Confined targets [] prints (Run.lookup name) :=
  fun context world => ofResult (world.chain.lookup name) context world

theorem define (name : String) (held : Option Value) :
    Confined targets [name] prints (Run.define name held) :=
  fun _ world => .ok () ⟨.defined targets name held world.chain, fun _ => rfl⟩

theorem assign {name : String} (targeted : name ∈ targets) (value : Value) :
    Confined targets [] prints (Run.assign name value) := by
  intro context world
  rw [Run.assign_eq]
  cases found : world.chain.assign? name value with
  | none => exact .error _ List.nil_prefix (.refl targets prints world)
  | some changed => exact .ok () ⟨.assigned targeted found, fun _ => rfl⟩

theorem inScope (each : Confined targets declared prints run) :
    Confined targets [] prints (Run.inScope run) := by
  intro context world
  have inner := each context (Run.enter world)
  rw [Run.inScope]
  generalize run context (Run.enter world) = result at inner ⊢
  cases inner with
  | ok value revised => exact .ok value ⟨revised.chain.left, revised.output⟩
  | error failure _ revised =>
    exact .error failure List.nil_prefix ⟨revised.chain.left, revised.output⟩

section
variable {condition : Run Bool} {body : Run Unit} (tests : Confined targets [] prints condition)
  (steps : Confined targets [] prints body)
include tests steps

theorem rounds (count : Nat) : Confined targets [] prints (Run.rounds condition body count) := by
  induction count with
  | zero => exact throw .outOfRounds
  | succ count ih =>
    exact bind tests fun _ => ite (bind steps fun _ => ih) (pure ())

theorem whileTrue : Confined targets [] prints (Run.whileTrue condition body) :=
  fun context => rounds tests steps context.limits.rounds context

end

theorem call (node : Node) : Confined targets [] prints (Run.call node) := by
  intro context world
  rw [Run.call]
  split
  · exact throw (.runtime (.call node)) context world
  · exact throw .tooDeep context world

end Confined

open Confined (report)

variable {targets : List String}

theorem evaluate_confined {node : Node} (within : node.targets ⊆ targets) (prints : Bool) :
    Confined targets [] prints node.evaluate := by
  have parts {part : Node} (member : part ∈ node.children) : part.targets ⊆ targets :=
    fun _ among => within (Node.part_subset member among)
  match node with
  | .literal value => exact .nested 1 (.bind (report _ _) fun _ => .pure value)
  | .identifier name => exact .nested 1 (.bind (report _ _) fun _ => .lookup name)
  | .assign name inner =>
    have targeted : name ∈ targets := within (Node.own_subset _ _ List.mem_cons_self)
    refine .nested 1 (.bind (report _ _) fun _ => ?_)
    exact .bind (.nested 1 (evaluate_confined (parts (by simp [Node.children])) prints))
      fun value => .bind (.assign targeted value) fun _ => .pure value
  | .unary operator right =>
    refine .nested 1 (.bind (report _ _) fun _ => ?_)
    exact .bind (.nested 1 (evaluate_confined (parts (by simp [Node.children])) prints))
      fun _ => .ofResult _
  | .binary left operator right =>
    refine .nested 1 (.bind (report _ _) fun _ => ?_)
    exact .bind (.nested 1 (evaluate_confined (parts (by simp [Node.children])) prints))
      fun _ => .bind (.nested 1 (evaluate_confined (parts (by simp [Node.children])) prints))
        fun _ => .ofResult _
  | .logical left operator right =>
    have later : Confined targets [] prints (Run.nested 1 right.evaluate) :=
      .nested 1 (evaluate_confined (parts (by simp [Node.children])) prints)
    refine .nested 1 (.bind (report _ _) fun _ => ?_)
    refine .bind (.nested 1 (evaluate_confined (parts (by simp [Node.children])) prints))
      fun value => ?_
    cases operator with
    | and => exact .ite later (.pure value)
    | or => exact .ite (.pure value) later
    | _ => exact .throw _
  | .grouping inner =>
    refine .nested 1 (.bind (report _ _) fun _ => ?_)
    exact evaluate_confined (parts (by simp [Node.children])) prints
  | .call callee arguments => exact .nested 1 (.bind (report _ _) fun _ => .call _)
  | .expression _ | .print _ | .declare _ _ | .block _ | .choice _ _ _ | .loop _ _ | .foreign =>
    exact .nested 1 (.bind (report _ _) fun _ => .throw _)

mutual

theorem execute_confined {node : Node} (placed : node.placed = true)
    (within : node.targets ⊆ targets) : Confined targets node.declared true node.execute := by
  have parts {part : Node} (member : part ∈ node.children) : part.targets ⊆ targets :=
    fun _ among => within (Node.part_subset member among)
  match node with
  | .expression inner =>
    refine .nested 1 (.bind (report _ _) fun _ => ?_)
    exact .bind (evaluate_confined (parts (by simp [Node.children])) true) fun _ => .pure ()
  | .print inner =>
    refine .nested 1 (.bind (report _ _) fun _ => ?_)
    exact .bind (.nested 1 (evaluate_confined (parts (by simp [Node.children])) true))
      fun _ => .print _
  | .declare name none => exact .nested 1 (.bind (report _ _) fun _ => .define name none)
  | .declare name (some initializer) =>
    refine .nested 1 (.bind (report _ _) fun _ => ?_)
    exact .bind (.nested 1 (evaluate_confined (parts (by simp [Node.children])) true))
      fun value => .define name (some value)
  | .block statements =>
    have inside : Node.allTargets statements ⊆ targets :=
      fun _ among => within (Node.gatheredAll_subset (List.Subset.refl _) among)
    refine .nested 1 (.bind (report _ _) fun _ => ?_)
    exact .inScope (.nested 2 (executeAll_confined placed inside))
  | .choice condition thenBranch none =>
    -- no branch is a declaration, so the branch that is taken declares nothing
    rw [Node.placed, Bool.and_eq_true, List.isEmpty_iff] at placed
    have branch : Confined targets thenBranch.declared true thenBranch.execute :=
      execute_confined placed.2 (parts (by simp [Node.children]))
    rw [placed.1] at branch
    refine .nested 1 (.bind (report _ _) fun _ => ?_)
    refine .bind (.nested 1 (evaluate_confined (parts (by simp [Node.children])) true)) fun _ => ?_
    exact .ite (.nested 1 branch) (.pure ())
  | .choice condition thenBranch (some elseBranch) =>
    rw [Node.placed, Bool.and_eq_true, Bool.and_eq_true, Bool.and_eq_true, List.isEmpty_iff,
      List.isEmpty_iff] at placed
    have branch : Confined targets thenBranch.declared true thenBranch.execute :=
      execute_confined placed.1.1.2 (parts (by simp [Node.children]))
    have other : Confined targets elseBranch.declared true elseBranch.execute :=
      execute_confined placed.2 (parts (by simp [Node.children]))
    rw [placed.1.1.1] at branch
    rw [placed.1.2] at other
    refine .nested 1 (.bind (report _ _) fun _ => ?_)
    refine .bind (.nested 1 (evaluate_confined (parts (by simp [Node.children])) true)) fun _ => ?_
    exact .ite (.nested 1 branch) (.nested 1 other)
  | .loop condition body =>
    rw [Node.placed, Bool.and_eq_true, List.isEmpty_iff] at placed
    have inside : Node.allTargets body ⊆ targets :=
      fun _ among => within (Node.gatheredAll_subset (List.subset_cons_self _ _) among)
    have round := executeAll_confined placed.2 inside
    rw [placed.1] at round
    refine .nested 1 (.bind (report _ _) fun _ => .nested 1 ?_)
    exact .whileTrue (.map (evaluate_confined (parts (by simp [Node.children])) true))
      (.nested 1 round)
  | .literal _ | .identifier _ | .assign _ _ | .unary _ _ | .binary _ _ _ | .logical _ _ _
  | .grouping _ | .call _ _ | .foreign =>
    exact .nested 1 (.bind (report _ _) fun _ => .throw _)

theorem executeAll_confined {nodes : List Node} (placed : Node.allPlaced nodes = true)
    (within : Node.allTargets nodes ⊆ targets) :
    Confined targets (Node.allDeclared nodes) true (Node.executeAll nodes) := by
  match nodes with
  | [] => exact .pure ()
  | node :: rest =>
    rw [Node.allPlaced, Bool.and_eq_true] at placed
    rw [Node.allTargets, Node.gatheredAll, List.append_subset] at within
    exact .bind (execute_confined placed.1 within.1)
      fun _ => executeAll_confined placed.2 within.2

end

section
variable {limit : Nat} {tokens : List Token} {statements : List Node}
  (read : Grammar.parseProgram limit tokens = .ok statements)
include read

theorem placed_of_read : ∀ node ∈ statements, node.placed = true :=
  (Grammar.parseProgram_sound (Grammar.ended_of_ok read) read).placed

/-- What a program that was read leaves of a world, whether it comes to its end or fails. -/
theorem executeAll_revised (context : Context) (world : World) :
    ∃ done, done <+: Node.allDeclared statements ∧
      world.Revised (Node.allTargets statements) done true
        (worldAfter (Node.executeAll statements context world)) := by
  have placed := Node.allPlaced_iff.mpr (placed_of_read read)
  exact (executeAll_confined placed (List.Subset.refl _) context world).revised

end

end Lox
