import Lox.Proofs.Run.Recast
import Lox.Proofs.Scope.Padded

/-!
Runs that do the same in a chain and in the chain with empty scopes put in. The steps of the one
may be nested more deeply than those of the other, and one may be traced where the other is not.
-/
namespace Lox

structure World.Alike (mask : List Bool) (world wide : World) : Prop where
  chain : Chain.Padded mask world.chain wide.chain
  output : wide.output = world.output

/-- Two runs came to the same end, or one of them to the nesting limit. -/
inductive SameEnd {α : Type} (mask : List Bool) :
    EStateM.Result Failure World α → EStateM.Result Failure World α → Prop where
  | ok {world wide : World} (value : α) :
    World.Alike mask world wide → SameEnd mask (.ok value world) (.ok value wide)
  | error {world wide : World} (failure : Failure) :
    World.Alike mask world wide → SameEnd mask (.error failure world) (.error failure wide)
  | deep (world : World) (result : EStateM.Result Failure World α) :
    SameEnd mask (.error .tooDeep world) result
  | wideDeep (result : EStateM.Result Failure World α) (wide : World) :
    SameEnd mask result (.error .tooDeep wide)

theorem SameEnd.inWorld {α : Type} {mask after : List Bool} {change widen : World → World}
    {result other : EStateM.Result Failure World α} (ends : SameEnd mask result other)
    (keeps : ∀ {world wide}, World.Alike mask world wide →
      World.Alike after (change world) (widen wide)) :
    SameEnd after (inWorld change result) (inWorld widen other) := by
  cases ends with
  | ok value alike => exact .ok value (keeps alike)
  | error failure alike => exact .error failure (keeps alike)
  | deep world result => exact .deep (change world) _
  | wideDeep result wide => exact .wideDeep _ (widen wide)

/-- The second run does what the first does, in chains with empty scopes put in. -/
def Simulates {α : Type} (mask : List Bool) (run wide : Run α) : Prop :=
  ∀ (context wider : Context) (world widened : World), context.limits = wider.limits →
    World.Alike mask world widened → SameEnd mask (run context world) (wide wider widened)

namespace Simulates

variable {α β : Type} {mask : List Bool} {run wide : Run α}

theorem pure (value : α) : Simulates mask (Pure.pure value) (Pure.pure value) :=
  fun _ _ _ _ _ alike => .ok value alike

theorem throw (failure : Failure) : Simulates mask (throw failure : Run α) (throw failure) :=
  fun _ _ _ _ _ alike => .error failure alike

theorem ofResult (result : Except RuntimeError α) :
    Simulates mask (Run.ofResult result) (Run.ofResult result) := by
  cases result with
  | ok value => exact pure value
  | error error => exact throw (.runtime error)

theorem bind {next follow : α → Run β} (first : Simulates mask run wide)
    (second : ∀ value, Simulates mask (next value) (follow value)) :
    Simulates mask (run >>= next) (wide >>= follow) := by
  intro context wider world widened same alike
  have start := first context wider world widened same alike
  simp only [Bind.bind, ReaderT.bind, EStateM.bind]
  generalize run context world = result at start ⊢
  generalize wide wider widened = other at start ⊢
  cases start with
  | ok value after => exact second value context wider _ _ same after
  | error failure after => exact .error failure after
  | deep world result => exact .deep world _
  | wideDeep result world => exact .wideDeep _ world

theorem map {function : α → β} (inner : Simulates mask run wide) :
    Simulates mask (function <$> run) (function <$> wide) := by
  rw [map_eq_pure_bind, map_eq_pure_bind]
  exact inner.bind fun value => pure (function value)

theorem nested (cost : Nat) (inner : Simulates mask run wide) :
    Simulates mask (Run.nested cost run) (Run.nested cost wide) := by
  intro context wider world widened same alike
  simp only [Run.nested]
  split
  · split
    · exact inner _ _ world widened same alike
    · exact .wideDeep _ widened
  · exact .deep world _

theorem nested_wide (cost : Nat) (inner : Simulates mask run wide) :
    Simulates mask run (Run.nested cost wide) := by
  intro context wider world widened same alike
  simp only [Run.nested]
  split
  · exact inner _ _ world widened same alike
  · exact .wideDeep _ widened

theorem report (activity label : String) :
    Simulates mask (Run.report activity label) (Run.report activity label) := by
  intro context wider world widened _ alike
  rw [Run.report_eq, Run.report_eq]
  exact .ok () ⟨alike.chain, alike.output⟩

theorem report_wide (activity label : String) (inner : Simulates mask run wide) :
    Simulates mask run (Run.report activity label >>= fun _ => wide) := by
  intro context wider world widened same alike
  simp only [Bind.bind, ReaderT.bind, EStateM.bind, Run.report_eq]
  exact inner context wider world _ same ⟨alike.chain, alike.output⟩

theorem inScope (inner : Simulates (true :: mask) run wide) :
    Simulates mask (Run.inScope run) (Run.inScope wide) := by
  intro context wider world widened same alike
  have entered : World.Alike (true :: mask) (Run.enter world) (Run.enter widened) :=
    ⟨.shared [] alike.chain, alike.output⟩
  rw [Run.inScope_eq, Run.inScope_eq]
  refine (inner context wider _ _ same entered).inWorld fun left => ?_
  exact ⟨left.chain.tail, left.output⟩

/-- A scope that only the second run enters. Nothing is defined in it: it is marked as one put in. -/
theorem inScope_wide (inner : Simulates (false :: mask) run wide) :
    Simulates mask run (Run.inScope wide) := by
  intro context wider world widened same alike
  have entered : World.Alike (false :: mask) world (Run.enter widened) :=
    ⟨.extra alike.chain, alike.output⟩
  rw [Run.inScope_eq, ← inWorld_id (run context world)]
  refine (inner context wider _ _ same entered).inWorld fun left => ?_
  exact ⟨left.chain.tail_of_extra, left.output⟩

theorem ite {condition : Prop} [Decidable condition] {other alternative : Run α}
    (first : Simulates mask run wide) (second : Simulates mask other alternative) :
    Simulates mask (if condition then run else other)
      (if condition then wide else alternative) := by
  split
  · exact first
  · exact second

section
variable {condition test : Run Bool} {body step : Run Unit} (tests : Simulates mask condition test)
  (steps : Simulates mask body step)
include tests steps

theorem rounds (count : Nat) :
    Simulates mask (Run.rounds condition body count) (Run.rounds test step count) := by
  induction count with
  | zero => exact throw .outOfRounds
  | succ count ih => exact tests.bind fun _ => ite (steps.bind fun _ => ih) (pure ())

theorem whileTrue : Simulates mask (Run.whileTrue condition body) (Run.whileTrue test step) := by
  intro context wider world widened same alike
  rw [Run.whileTrue, Run.whileTrue, same]
  exact rounds tests steps wider.limits.rounds context wider world widened same alike

end

theorem lookup (name : String) : Simulates mask (Run.lookup name) (Run.lookup name) := by
  intro context wider world widened same alike
  rw [Run.lookup_eq, Run.lookup_eq, alike.chain.lookup name]
  exact ofResult _ context wider world widened same alike

theorem define (name : String) (value : Option Value) :
    Simulates (true :: mask) (Run.define name value) (Run.define name value) :=
  fun _ _ _ _ _ alike => .ok () ⟨alike.chain.define name value, alike.output⟩

theorem print (text : String) : Simulates mask (Run.print text) (Run.print text) := by
  intro context wider world widened _ alike
  exact .ok () ⟨alike.chain, congrArg (· ++ text ++ "\n") alike.output⟩

theorem assign (name : String) (value : Value) :
    Simulates mask (Run.assign name value) (Run.assign name value) := by
  intro context wider world widened same alike
  rw [Run.assign_eq, Run.assign_eq]
  rcases alike.chain.assign? name value with ⟨missing, absent⟩ | ⟨changed, wideChanged, found,
    wideFound, again⟩
  · rw [missing, absent]
    exact .error _ alike
  · rw [found, wideFound]
    exact .ok () ⟨again, alike.output⟩

theorem call (node : Node) : Simulates mask (Run.call node) (Run.call node) := by
  intro context wider world widened same alike
  rw [Run.call, Run.call, same]
  split
  · exact .error _ alike
  · exact .deep world _

end Simulates
end Lox
