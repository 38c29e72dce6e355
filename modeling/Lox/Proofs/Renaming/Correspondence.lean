import Mathlib.Data.Option.Basic
import Lox.Proofs.Node.Occurrence
import Lox.Proofs.Piecewise.Steady
import Lox.Proofs.Renaming.Renamed
import Lox.Proofs.Value.Complaint

/-!
Two runs of one program, in two chains that correspond to each other and with other names in the
second run. Where names are read, assigned and declared alike in such chains, the two runs print the
same and come to the same end, up to the names in an error: `executeAll_follows`.
-/
namespace Lox

/-- How the chains of two runs belong together. -/
structure Correspondence where
  /-- the name of the second run for a name of the first one -/
  change : String → String
  /-- the trees that are run -/
  admits : Node → Prop
  chains : Chain → Chain → Prop
  part {node part : Node} : admits node → part ∈ node.children → admits part
  entered {chain twin : Chain} : chains chain twin → chains ([] :: chain) ([] :: twin)
  left {chain twin : Chain} : chains chain twin → chains chain.tail twin.tail
  looked {name : String} {chain twin : Chain} : admits (.identifier name) → chains chain twin →
    twin.lookup (change name) = (chain.lookup name).mapError (RuntimeError.rename change)
  assigned {name : String} {inner : Node} {chain twin : Chain} (value : Value) :
    admits (.assign name inner) → chains chain twin →
    Option.Rel chains (chain.assign? name value) (twin.assign? (change name) value)
  defined {name : String} {initializer : Option Node} {chain twin : Chain} (held : Option Value) :
    admits (.declare name initializer) → chains chain twin →
    chains (chain.define name held) (twin.define (change name) held)

theorem RuntimeError.Operational.rename {error : RuntimeError} (operational : error.Operational)
    (change : String → String) : error.rename change = error := by
  cases operational <;> rfl

theorem Node.label_rename (change : String → String) (node : Node) :
    (node.rename change).label = node.label := by
  cases node with
  | declare _ initializer => cases initializer <;> rfl
  | choice _ _ elseBranch => cases elseBranch <;> rfl
  | _ => rfl

namespace Correspondence

variable (c : Correspondence)

structure Alike (world twin : World) : Prop where
  chain : c.chains world.chain twin.chain
  output : twin.output = world.output
  trace : twin.trace = world.trace

def Shows (failure : Failure) : Prop :=
  ∀ node, failure = .runtime (.call node) →
    c.admits node ∧ ∃ callee arguments, node = .call callee arguments

inductive Matches {α : Type} :
    EStateM.Result Failure World α → EStateM.Result Failure World α → Prop where
  | ok {world twin : World} (value : α) :
    c.Alike world twin → Matches (.ok value world) (.ok value twin)
  | error {world twin : World} (failure : Failure) : c.Shows failure → c.Alike world twin →
    Matches (.error failure world) (.error (failure.rename c.change) twin)

/-- The second run does in a chain what the first one does in a chain that corresponds to it. -/
def Follows {α : Type} (run twin : Run α) : Prop :=
  ∀ context world other, c.Alike world other → c.Matches (run context world) (twin context other)

namespace Follows

variable {c} {α β : Type} {run twin : Run α}

theorem pure (value : α) : c.Follows (Pure.pure value) (Pure.pure value) :=
  fun _ _ _ alike => .ok value alike

theorem throw (failure : Failure) (shows : c.Shows failure) :
    c.Follows (throw failure : Run α) (throw (failure.rename c.change)) :=
  fun _ _ _ alike => .error failure shows alike

theorem ofResult {result : Except RuntimeError α}
    (operational : ∀ {error}, result = .error error → error.Operational) :
    c.Follows (Run.ofResult result) (Run.ofResult result) := by
  cases result with
  | ok value => exact pure value
  | error error =>
    have about := operational rfl
    have shows : c.Shows (.runtime error) := by
      rintro node ⟨⟩
      cases about
    have thrown := throw (α := α) (.runtime error) shows
    rw [Failure.rename, about.rename] at thrown
    exact thrown

theorem bind {next follow : α → Run β} (first : c.Follows run twin)
    (second : ∀ value, c.Follows (next value) (follow value)) :
    c.Follows (run >>= next) (twin >>= follow) := by
  intro context world other alike
  have start := first context world other alike
  simp only [Bind.bind, ReaderT.bind, EStateM.bind]
  generalize run context world = result at start ⊢
  generalize twin context other = ended at start ⊢
  cases start with
  | ok value after => exact second value context _ _ after
  | error failure shows after => exact .error failure shows after

theorem map {function : α → β} (inner : c.Follows run twin) :
    c.Follows (function <$> run) (function <$> twin) := by
  rw [map_eq_pure_bind, map_eq_pure_bind]
  exact inner.bind fun value => pure (function value)

theorem nested (cost : Nat) (inner : c.Follows run twin) :
    c.Follows (Run.nested cost run) (Run.nested cost twin) := by
  intro context world other alike
  simp only [Run.nested]
  split
  · exact inner _ world other alike
  · exact .error .tooDeep nofun alike

theorem ite {condition : Prop} [Decidable condition] {other otherTwin : Run α}
    (first : c.Follows run twin) (second : c.Follows other otherTwin) :
    c.Follows (if condition then run else other) (if condition then twin else otherTwin) := by
  split
  · exact first
  · exact second

theorem report (activity : String) (node : Node) :
    c.Follows (Run.report activity node.label) (Run.report activity (node.rename c.change).label) := by
  rw [Node.label_rename]
  intro context world other alike
  simp only [Run.report]
  split
  · have traced : other.trace ++ activity ++ ": " ++ node.label ++ "\n" =
        world.trace ++ activity ++ ": " ++ node.label ++ "\n" := by rw [alike.trace]
    exact .ok () ⟨alike.chain, alike.output, traced⟩
  · exact .ok () alike

theorem print (text : String) : c.Follows (Run.print text) (Run.print text) :=
  fun _ _ _ alike => .ok () ⟨alike.chain, congrArg (· ++ text ++ "\n") alike.output, alike.trace⟩

theorem lookup {name : String} (admitted : c.admits (.identifier name)) :
    c.Follows (Run.lookup name) (Run.lookup (c.change name)) := by
  intro context world other alike
  rw [Run.lookup_eq, Run.lookup_eq, c.looked admitted alike.chain]
  cases found : world.chain.lookup name with
  | ok value => exact .ok value alike
  | error error =>
    have shows : c.Shows (.runtime error) := by
      rintro node ⟨⟩
      rcases Chain.lookup_complaint found with unknown | empty
      · cases unknown
      · cases empty
    exact .error _ shows alike

theorem define {name : String} {initializer : Option Node}
    (admitted : c.admits (.declare name initializer)) (held : Option Value) :
    c.Follows (Run.define name held) (Run.define (c.change name) held) :=
  fun _ _ _ alike => .ok () ⟨c.defined held admitted alike.chain, alike.output, alike.trace⟩

theorem assign {name : String} {inner : Node} (admitted : c.admits (.assign name inner))
    (value : Value) : c.Follows (Run.assign name value) (Run.assign (c.change name) value) := by
  intro context world other alike
  have together := c.assigned value admitted alike.chain
  rw [Run.assign_eq, Run.assign_eq]
  generalize world.chain.assign? name value = found at together ⊢
  generalize other.chain.assign? (c.change name) value = ended at together ⊢
  cases together with
  | some changed => exact .ok () ⟨changed, alike.output, alike.trace⟩
  | none => exact .error (.runtime (.unknownTarget name)) nofun alike

theorem inScope (inner : c.Follows run twin) : c.Follows (Run.inScope run) (Run.inScope twin) := by
  intro context world other alike
  have start := inner context (Run.enter world) (Run.enter other)
    ⟨c.entered alike.chain, alike.output, alike.trace⟩
  simp only [Run.inScope]
  generalize run context (Run.enter world) = result at start ⊢
  generalize twin context (Run.enter other) = ended at start ⊢
  cases start with
  | ok value after => exact .ok value ⟨c.left after.chain, after.output, after.trace⟩
  | error failure shows after =>
    exact .error failure shows ⟨c.left after.chain, after.output, after.trace⟩

section
variable {condition test : Run Bool} {body step : Run Unit} (tests : c.Follows condition test)
  (steps : c.Follows body step)
include tests steps

theorem rounds (count : Nat) :
    c.Follows (Run.rounds condition body count) (Run.rounds test step count) := by
  -- both runs test the same and step alike, so they go round equally often
  induction count with
  | zero => exact throw .outOfRounds nofun
  | succ count ih => exact tests.bind fun _ => ite (steps.bind fun _ => ih) (pure ())

theorem whileTrue : c.Follows (Run.whileTrue condition body) (Run.whileTrue test step) :=
  fun context => rounds tests steps context.limits.rounds context

end

theorem call {callee : Node} {arguments : List Node}
    (admitted : c.admits (.call callee arguments)) :
    c.Follows (Run.call (.call callee arguments))
      (Run.call ((Node.call callee arguments).rename c.change)) := by
  intro context world other alike
  rw [Run.call, Run.call, Node.height_rename]
  split
  · have shows : c.Shows (.runtime (.call (.call callee arguments))) := by
      rintro _ ⟨⟩
      exact ⟨admitted, callee, arguments, rfl⟩
    exact .error _ shows alike
  · have deep : c.Shows .tooDeep := by rintro _ ⟨⟩
    exact .error .tooDeep deep alike

end Follows

open Follows (report)

variable {c}

theorem evaluate_follows {node : Node} (admitted : c.admits node) :
    c.Follows node.evaluate (node.rename c.change).evaluate := by
  have parts {part : Node} (member : part ∈ node.children) : c.admits part := c.part admitted member
  match node with
  | .literal value => exact .nested 1 (.bind (report _ (.literal value)) fun _ => .pure value)
  | .identifier name =>
    exact .nested 1 (.bind (report _ (.identifier name)) fun _ => .lookup admitted)
  | .assign name inner =>
    refine .nested 1 (.bind (report _ (.assign name inner)) fun _ => ?_)
    exact .bind (.nested 1 (evaluate_follows (parts (by simp [Node.children])))) fun value =>
      .bind (.assign admitted value) fun _ => .pure value
  | .unary operator right =>
    refine .nested 1 (.bind (report _ (.unary operator right)) fun _ => ?_)
    exact .bind (.nested 1 (evaluate_follows (parts (by simp [Node.children])))) fun _ =>
      .ofResult Value.unary_operational
  | .binary left operator right =>
    refine .nested 1 (.bind (report _ (.binary left operator right)) fun _ => ?_)
    exact .bind (.nested 1 (evaluate_follows (parts (by simp [Node.children])))) fun _ =>
      .bind (.nested 1 (evaluate_follows (parts (by simp [Node.children])))) fun _ =>
        .ofResult Value.binary_operational
  | .logical left operator right =>
    refine .nested 1 (.bind (report _ (.logical left operator right)) fun _ => ?_)
    refine .bind (.nested 1 (evaluate_follows (parts (by simp [Node.children])))) fun value => ?_
    have later : c.Follows (.nested 1 right.evaluate) (.nested 1 (right.rename c.change).evaluate) :=
      .nested 1 (evaluate_follows (parts (by simp [Node.children])))
    cases operator with
    | and => exact .ite later (.pure value)
    | or => exact .ite (.pure value) later
    | _ => exact .throw (.runtime (.logicalOperator _)) nofun
  | .grouping inner =>
    refine .nested 1 (.bind (report _ (.grouping inner)) fun _ => ?_)
    exact evaluate_follows (parts (by simp [Node.children]))
  | .call callee arguments =>
    exact .nested 1 (.bind (report _ (.call callee arguments)) fun _ => .call admitted)
  | .expression _ | .print _ | .declare _ none | .declare _ (some _) | .block _ | .choice _ _ none
  | .choice _ _ (some _) | .loop _ _ | .foreign =>
    exact .nested 1 (.bind (report _ _) fun _ => .throw (.misplaced "expression" _) nofun)

mutual

theorem execute_follows {node : Node} (admitted : c.admits node) :
    c.Follows node.execute (node.rename c.change).execute := by
  have parts {part : Node} (member : part ∈ node.children) : c.admits part := c.part admitted member
  match node with
  | .expression inner =>
    refine .nested 1 (.bind (report _ (.expression inner)) fun _ => ?_)
    exact .bind (evaluate_follows (parts (by simp [Node.children]))) fun _ => .pure ()
  | .print inner =>
    refine .nested 1 (.bind (report _ (.print inner)) fun _ => ?_)
    exact .bind (.nested 1 (evaluate_follows (parts (by simp [Node.children])))) fun _ => .print _
  | .declare name none =>
    exact .nested 1 (.bind (report _ (.declare name none)) fun _ => .define admitted none)
  | .declare name (some initializer) =>
    refine .nested 1 (.bind (report _ (.declare name (some initializer))) fun _ => ?_)
    exact .bind (.nested 1 (evaluate_follows (parts (by simp [Node.children])))) fun value =>
      .define admitted (some value)
  | .block statements =>
    refine .nested 1 (.bind (report _ (.block statements)) fun _ => ?_)
    exact .inScope (.nested 2 (executeAll_follows fun part member => parts member))
  | .choice condition thenBranch none =>
    refine .nested 1 (.bind (report _ (.choice condition thenBranch none)) fun _ => ?_)
    refine .bind (.nested 1 (evaluate_follows (parts (by simp [Node.children])))) fun _ => ?_
    exact .ite (.nested 1 (execute_follows (parts (by simp [Node.children])))) (.pure ())
  | .choice condition thenBranch (some elseBranch) =>
    refine .nested 1 (.bind (report _ (.choice condition thenBranch (some elseBranch))) fun _ => ?_)
    refine .bind (.nested 1 (evaluate_follows (parts (by simp [Node.children])))) fun _ => ?_
    exact .ite (.nested 1 (execute_follows (parts (by simp [Node.children]))))
      (.nested 1 (execute_follows (parts (by simp [Node.children]))))
  | .loop condition body =>
    refine .nested 1 (.bind (report _ (.loop condition body)) fun _ => .nested 1 ?_)
    exact .whileTrue (.map (evaluate_follows (parts (by simp [Node.children]))))
      (.nested 1 (executeAll_follows fun part member => parts (List.mem_cons_of_mem _ member)))
  | .literal _ | .identifier _ | .assign _ _ | .unary _ _ | .binary _ _ _ | .logical _ _ _
  | .grouping _ | .call _ _ | .foreign =>
    exact .nested 1 (.bind (report _ _) fun _ => .throw (.misplaced "statement" _) nofun)

theorem executeAll_follows {nodes : List Node} (admitted : ∀ node ∈ nodes, c.admits node) :
    c.Follows (Node.executeAll nodes) (Node.executeAll (Node.renameAll c.change nodes)) := by
  match nodes with
  | [] => exact .pure ()
  | node :: rest =>
    rw [List.forall_mem_cons] at admitted
    exact .bind (execute_follows admitted.1) fun _ => executeAll_follows admitted.2

end

end Correspondence
end Lox
