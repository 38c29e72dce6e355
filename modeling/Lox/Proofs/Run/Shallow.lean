import Lox.Proofs.Value.Complaint
import Lox.Session

/-!
How much depth a program needs. Of each node on the way down to a step, up to three steps are open
at a time (in a block, its own step and the two that run what is in it), so a tree does not come to
the nesting limit within three times its height: `shallow_evaluate` and `shallow_executeAll`.
-/
namespace Lox

def Failure.Deep (failure : Failure) : Prop := failure.settle = .runtime .tooDeep

theorem Failure.not_deep {error : RuntimeError} (other : error ≠ .tooDeep) :
    ¬ (Failure.runtime error).Deep :=
  fun deep => other (Failure.runtime.inj deep)

/-- A run that does not come to the nesting limit, if it has so much depth, and if trees of such a
height can be written. -/
def Shallow {α : Type} (depth height : Nat) (run : Run α) : Prop :=
  ∀ context world, depth ≤ context.depth → height ≤ context.limits.source →
    ∀ failure after, run context world = .error failure after → ¬ failure.Deep

namespace Shallow

variable {α β : Type} {depth height size : Nat} {run : Run α}

theorem pure (value : α) : Shallow depth height (Pure.pure value : Run α) := by
  intro context world _ _ failure after failed
  cases failed

theorem throw {failure : Failure} (shallow : ¬ failure.Deep) :
    Shallow depth height (throw failure : Run α) := by
  intro context world _ _ other after failed
  cases failed
  exact shallow

theorem misplaced (role label : String) :
    Shallow depth height (MonadExcept.throw (.misplaced role label) : Run α) := by
  apply throw
  intro deep
  cases deep

theorem fail {error : RuntimeError} (other : error ≠ .tooDeep) :
    Shallow depth height (Run.fail error : Run α) :=
  throw (Failure.not_deep other)

theorem ofResult {result : Except RuntimeError α}
    (shallow : ∀ error, result = .error error → error ≠ .tooDeep) :
    Shallow depth height (Run.ofResult result) := by
  cases result with
  | ok value => exact pure value
  | error error => exact fail (shallow error rfl)

theorem bind {next : α → Run β} (early : Shallow depth height run)
    (late : ∀ value, Shallow depth height (next value)) : Shallow depth height (run >>= next) := by
  intro context world room low failure after failed
  simp only [Bind.bind, ReaderT.bind, EStateM.bind] at failed
  cases result : run context world with
  | ok value middle =>
    rw [result] at failed
    exact late value context middle room low failure after failed
  | error earlier middle =>
    rw [result] at failed
    cases failed
    exact early context world room low failure after result

theorem nested (cost : Nat) (each : Shallow depth height run) :
    Shallow (depth + cost) height (Run.nested cost run) := by
  intro context world room low
  have affordable : cost ≤ context.depth := by omega
  have left : depth ≤ context.depth - cost := by omega
  rw [Run.nested, if_pos affordable]
  exact each { context with depth := context.depth - cost } world left low

theorem weaken {most highest : Nat} (each : Shallow depth height run) (below : depth ≤ most)
    (lower : height ≤ highest) : Shallow most highest run :=
  fun context world room low => each context world (Nat.le_trans below room) (Nat.le_trans lower low)

theorem report (activity label : String) : Shallow depth height (Run.report activity label) := by
  intro context world _ _ failure after failed
  rw [Run.report_eq] at failed
  cases failed

theorem print (text : String) : Shallow depth height (Run.print text) := by
  intro context world _ _ failure after failed
  cases failed

theorem lookup (name : String) : Shallow depth height (Run.lookup name) := by
  intro context world room low
  rw [Run.lookup_eq]
  refine ofResult (fun error missing => ?_) context world room low
  obtain rfl | rfl := Chain.lookup_complaint missing <;> exact RuntimeError.noConfusion

theorem assign (name : String) (value : Value) : Shallow depth height (Run.assign name value) := by
  intro context world _ _ failure after failed
  rw [Run.assign_eq] at failed
  split at failed <;> cases failed
  exact Failure.not_deep RuntimeError.noConfusion

theorem operation {result : Value.Result}
    (operational : ∀ error, result = .error error → error.Operational) :
    Shallow depth height (Run.ofResult result) := by
  apply ofResult
  intro error failed deep
  have listed := operational error failed
  rw [deep] at listed
  cases listed

theorem call (node : Node) : Shallow depth node.height (Run.call node) := by
  intro context world _ low failure after failed
  rw [Run.call, if_pos low] at failed
  cases failed
  exact Failure.not_deep RuntimeError.noConfusion

theorem define (name : String) (value : Option Value) :
    Shallow depth height (Run.define name value) := by
  intro context world _ _ failure after failed
  cases failed

theorem map {change : α → β} (each : Shallow depth height run) :
    Shallow depth height (change <$> run) := by
  rw [map_eq_pure_bind]
  exact each.bind fun value => pure (change value)

theorem ite {condition : Prop} [Decidable condition] {other : Run α}
    (first : Shallow depth height run) (second : Shallow depth height other) :
    Shallow depth height (if condition then run else other) := by
  split
  · exact first
  · exact second

theorem inScope (each : Shallow depth height run) : Shallow depth height (Run.inScope run) := by
  intro context world room low failure after failed
  rw [Run.inScope] at failed
  cases result : run context (Run.enter world) with
  | ok value left =>
    rw [result] at failed
    cases failed
  | error earlier left =>
    rw [result] at failed
    cases failed
    exact each context (Run.enter world) room low failure left result

section
variable {condition : Run Bool} {body : Run Unit} (tests : Shallow depth height condition)
  (steps : Shallow depth height body)
include tests steps

theorem rounds (count : Nat) : Shallow depth height (Run.rounds condition body count) := by
  induction count with
  | zero =>
    apply throw
    intro deep
    cases deep
  | succ count ih => exact tests.bind fun _ => ite (steps.bind fun _ => ih) (pure ())

theorem whileTrue : Shallow depth height (Run.whileTrue condition body) :=
  fun context => rounds tests steps context.limits.rounds context

end

theorem reported (activity label : String) (each : Shallow (3 * size + 2) (size + 1) run) :
    Shallow (3 * (size + 1)) (size + 1)
      (Run.nested 1 (Run.report activity label >>= fun _ => run)) :=
  nested 1 (bind (report activity label) fun _ => each)

theorem part (each : Shallow (3 * height) height run) (low : height ≤ size) :
    Shallow (3 * size + 2) (size + 1) (Run.nested 1 run) := by
  apply (nested 1 each).weaken
  · omega
  · omega

end Shallow

open Shallow (reported part)

theorem shallow_evaluate (node : Node) :
    Shallow (3 * node.height) node.height node.evaluate := by
  match node with
  | .literal value => exact reported _ _ (.pure value)
  | .identifier name => exact reported _ _ (.lookup name)
  | .assign name inner =>
    apply reported
    apply Shallow.bind (part (shallow_evaluate inner) (Nat.le_refl _))
    intro value
    exact .bind (.assign name value) fun _ => .pure value
  | .unary operator right =>
    apply reported
    apply Shallow.bind (part (shallow_evaluate right) (Nat.le_refl _))
    intro value
    exact .operation fun _ => Value.unary_operational
  | .binary left operator right =>
    apply reported
    apply Shallow.bind (part (shallow_evaluate left) (Nat.le_max_left _ _))
    intro value
    apply Shallow.bind (part (shallow_evaluate right) (Nat.le_max_right _ _))
    intro other
    exact .operation fun _ => Value.binary_operational
  | .logical left operator right =>
    have later := part (shallow_evaluate right) (Nat.le_max_right left.height right.height)
    apply reported
    apply Shallow.bind (part (shallow_evaluate left) (Nat.le_max_left _ _))
    intro value
    cases operator with
    | and => exact .ite later (.pure value)
    | or => exact .ite (.pure value) later
    | _ => exact .fail RuntimeError.noConfusion
  | .grouping inner =>
    apply reported
    exact (shallow_evaluate inner).weaken (by omega) (Nat.le_succ _)
  | .call callee arguments => exact reported _ _ (.call (.call callee arguments))
  | .foreign | .expression _ | .print _ | .declare _ none | .declare _ (some _) | .block _
  | .choice _ _ none | .choice _ _ (some _) | .loop _ _ =>
    exact reported _ _ (.misplaced _ _)

mutual

theorem shallow_execute (node : Node) : Shallow (3 * node.height) node.height node.execute := by
  match node with
  | .expression inner =>
    apply reported
    apply Shallow.bind ((shallow_evaluate inner).weaken (by omega) (Nat.le_succ _))
    intro value
    exact .pure ()
  | .print inner =>
    apply reported
    exact .bind (part (shallow_evaluate inner) (Nat.le_refl _)) fun value => .print value.display
  | .declare name none => exact reported _ _ (.define name none)
  | .declare name (some initializer) =>
    apply reported
    exact .bind (part (shallow_evaluate initializer) (Nat.le_refl _)) fun value =>
      .define name (some value)
  | .block statements =>
    have inside := (shallow_executeAll statements).weaken (Nat.le_refl _) (Nat.le_succ _)
    exact reported _ _ (.inScope (.nested 2 inside))
  | .choice condition thenBranch none =>
    have branch := part (shallow_execute thenBranch)
      (Nat.le_max_right condition.height thenBranch.height)
    apply reported
    apply Shallow.bind (part (shallow_evaluate condition) (Nat.le_max_left _ _))
    intro value
    exact .ite branch (.pure ())
  | .choice condition thenBranch (some elseBranch) =>
    have higher := Nat.le_max_right condition.height (max thenBranch.height elseBranch.height)
    have first := part (shallow_execute thenBranch) (Nat.le_trans (Nat.le_max_left _ _) higher)
    have second := part (shallow_execute elseBranch) (Nat.le_trans (Nat.le_max_right _ _) higher)
    apply reported
    apply Shallow.bind (part (shallow_evaluate condition) (Nat.le_max_left _ _))
    intro value
    exact .ite first second
  | .loop condition body =>
    have low := Nat.le_max_left condition.height (Node.heights body)
    have lower := Nat.le_max_right condition.height (Node.heights body)
    have tests : Shallow (3 * max condition.height (Node.heights body) + 1)
        (max condition.height (Node.heights body) + 1) condition.evaluate :=
      (shallow_evaluate condition).weaken (by omega) (by omega)
    have steps : Shallow (3 * max condition.height (Node.heights body))
        (max condition.height (Node.heights body) + 1) (Node.executeAll body) :=
      (shallow_executeAll body).weaken (by omega) (by omega)
    exact reported _ _ (.nested 1 (.whileTrue (.map tests) (.nested 1 steps)))
  | .literal _ | .identifier _ | .assign _ _ | .unary _ _ | .binary _ _ _ | .logical _ _ _
  | .grouping _ | .call _ _ | .foreign =>
    exact reported _ _ (.misplaced _ _)

theorem shallow_executeAll (nodes : List Node) :
    Shallow (3 * Node.heights nodes) (Node.heights nodes) (Node.executeAll nodes) := by
  match nodes with
  | [] => exact .pure ()
  | node :: rest =>
    have low := Nat.le_max_left node.height (Node.heights rest)
    have lower := Nat.le_max_right node.height (Node.heights rest)
    have first : Shallow (3 * max node.height (Node.heights rest))
        (max node.height (Node.heights rest)) node.execute :=
      (shallow_execute node).weaken (by omega) (by omega)
    have others : Shallow (3 * max node.height (Node.heights rest))
        (max node.height (Node.heights rest)) (Node.executeAll rest) :=
      (shallow_executeAll rest).weaken (by omega) (by omega)
    exact .bind first fun _ => others

end

end Lox
