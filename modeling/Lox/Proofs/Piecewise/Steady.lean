import Lox.Proofs.Run.Recast

/-!
Runs go on from what was printed before them: a run does the same behind any output, and it leaves
as many scopes as it came to. The statement is `steady_executeAll`.
-/
namespace Lox

def World.behind (output trace : String) (world : World) : World :=
  { world with output := output ++ world.output, trace := trace ++ world.trace }

structure Steady {α : Type} (run : Run α) : Prop where
  scopes : ∀ context world, (worldAfter (run context world)).chain.length = world.chain.length
  behind : ∀ output trace context world,
    run context (world.behind output trace) = inWorld (World.behind output trace) (run context world)

theorem length_assign? {name : String} {value : Value} {chain changed : Chain}
    (found : chain.assign? name value = some changed) : changed.length = chain.length := by
  induction chain generalizing changed with
  | nil => cases found
  | cons bindings outer ih =>
    rw [Chain.assign?] at found
    split at found
    · cases found
      rfl
    · rcases Option.map_eq_some_iff.mp found with ⟨rest, further, rfl⟩
      rw [List.length_cons, List.length_cons, ih further]

def Level {α : Type} (run : Run α) : Prop :=
  ∀ context world, (worldAfter (run context world)).chain.length = world.chain.length

namespace Level

theorem bind {α β : Type} {run : Run α} {next : α → Run β} (early : Level run)
    (late : ∀ value, Level (next value)) : Level (run >>= next) := by
  intro context world
  have start := early context world
  simp only [Bind.bind, ReaderT.bind, EStateM.bind]
  cases result : run context world with
  | ok value middle =>
    rw [result] at start
    exact (late value context middle).trans start
  | error failure after =>
    rw [result] at start
    exact start

theorem inScope {α : Type} {run : Run α} (each : Level run) : Level (Run.inScope run) := by
  intro context world
  have inner := each context (Run.enter world)
  rw [Run.inScope]
  cases result : run context (Run.enter world) with
  | ok value after =>
    rw [result] at inner
    exact (List.length_tail).trans (congrArg (· - 1) inner)
  | error failure after =>
    rw [result] at inner
    exact (List.length_tail).trans (congrArg (· - 1) inner)

theorem closed : Closed fun _ run => Level run where
  pure _ := fun _ _ => rfl
  throw _ := fun _ _ => rfl
  bind := bind
  nested cost each := by
    intro context world
    rw [Run.nested]
    split
    · exact each _ world
    · rfl
  limited each := fun context world => each context.limits context world
  inScope := inScope
  report _ _ := by
    intro context world
    rw [Run.report_eq]
    rfl
  print _ := fun _ _ => rfl
  lookup name := by
    intro context world
    rw [Run.lookup_eq]
    cases world.chain.lookup name <;> rfl
  define name value := by
    intro context world
    change (world.chain.define name value).length = world.chain.length
    cases world.chain <;> rfl
  assign name value := by
    intro context world
    rw [Run.assign_eq]
    cases found : world.chain.assign? name value with
    | none => rfl
    | some changed => exact length_assign? found

end Level

theorem steady_executeAll (nodes : List Node) : Steady (Node.executeAll nodes) where
  scopes := Level.closed.executeAll nodes
  behind output trace := (Recast.behind output trace).keeps_closed.executeAll nodes

end Lox
