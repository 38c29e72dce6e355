import Lox.Proofs.Run.Closed

/-!
Runs do not look at what was printed and traced before them, nor at whether they are traced. If the
texts before a run are changed, or tracing is switched off, the run does what it did: it comes to the
same end, with the same scopes, and the texts that it leaves are changed in the same way.
-/
namespace Lox

def worldAfter {α : Type} : EStateM.Result Failure World α → World
  | .ok _ world => world
  | .error _ world => world

def inWorld {α : Type} (change : World → World) :
    EStateM.Result Failure World α → EStateM.Result Failure World α
  | .ok value world => .ok value (change world)
  | .error failure world => .error failure (change world)

theorem inWorld_id {α : Type} (result : EStateM.Result Failure World α) :
    inWorld id result = result := by
  cases result <;> rfl

theorem Run.inScope_eq {α : Type} (run : Run α) (context : Context) (world : World) :
    Run.inScope run context world = inWorld Run.leave (run context (Run.enter world)) := by
  rw [Run.inScope]
  cases run context (Run.enter world) <;> rfl

/-- A change of the texts before a run, and of whether it is traced, that what is printed or reported
next does not undo. -/
structure Recast where
  traced : Bool → Bool
  output : String → String
  trace : String → String
  printed : ∀ before text, output (before ++ text) = output before ++ text
  reported : ∀ asked before text,
    trace (if asked then before ++ text else before) =
      if traced asked then trace before ++ text else trace before

namespace Recast

def context (recast : Recast) (context : Context) : Context :=
  { context with traced := recast.traced context.traced }

def world (recast : Recast) (world : World) : World :=
  ⟨world.chain, recast.output world.output, recast.trace world.trace⟩

def Keeps (recast : Recast) {α : Type} (run : Run α) : Prop :=
  ∀ context world, run (recast.context context) (recast.world world) =
    inWorld recast.world (run context world)

def behind (output trace : String) : Recast where
  traced asked := asked
  output text := output ++ text
  trace text := trace ++ text
  printed _ _ := String.append_assoc.symm
  reported asked before text := by
    split
    · exact String.append_assoc.symm
    · rfl

def untraced (trace : String) : Recast where
  traced _ := false
  output text := text
  trace _ := trace
  printed _ _ := rfl
  reported _ _ _ := rfl

variable (recast : Recast)

theorem keeps_report (activity label : String) : recast.Keeps (Run.report activity label) := by
  intro context world
  have added := recast.reported context.traced world.trace (activity ++ ": " ++ label ++ "\n")
  rw [Run.report_eq, Run.report_eq]
  exact congrArg (fun trace => EStateM.Result.ok ()
    (World.mk world.chain (recast.output world.output) trace)) added.symm

theorem keeps_print (text : String) : recast.Keeps (Run.print text) := by
  intro context world
  have added : recast.output (world.output ++ text ++ "\n") =
      recast.output world.output ++ text ++ "\n" := by
    rw [recast.printed, recast.printed]
  exact congrArg (fun output => EStateM.Result.ok ()
    (World.mk world.chain output (recast.trace world.trace))) added.symm

theorem keeps_bind {α β : Type} {run : Run α} {next : α → Run β} (early : recast.Keeps run)
    (late : ∀ value, recast.Keeps (next value)) : recast.Keeps (run >>= next) := by
  intro context world
  simp only [Bind.bind, ReaderT.bind, EStateM.bind, early context world]
  cases run context world with
  | ok value middle => exact late value context middle
  | error failure after => rfl

theorem keeps_nested {α : Type} {run : Run α} (cost : Nat) (each : recast.Keeps run) :
    recast.Keeps (Run.nested cost run) := by
  intro context world
  have same : (recast.context context).depth = context.depth := rfl
  rw [Run.nested, Run.nested, same]
  split
  · exact each { context with depth := context.depth - cost } world
  · rfl

theorem keeps_inScope {α : Type} {run : Run α} (each : recast.Keeps run) :
    recast.Keeps (Run.inScope run) := by
  intro context world
  have entered : Run.enter (recast.world world) = recast.world (Run.enter world) := rfl
  rw [Run.inScope_eq, Run.inScope_eq, entered, each context (Run.enter world)]
  cases run context (Run.enter world) <;> rfl

theorem keeps_closed : Closed fun _ run => recast.Keeps run where
  pure _ := fun _ _ => rfl
  throw _ := fun _ _ => rfl
  bind := recast.keeps_bind
  nested := recast.keeps_nested
  limited each := fun context world => each context.limits context world
  inScope := recast.keeps_inScope
  report := recast.keeps_report
  print := recast.keeps_print
  lookup name := by
    intro context world
    have same : (recast.world world).chain = world.chain := rfl
    rw [Run.lookup_eq, Run.lookup_eq, same]
    cases world.chain.lookup name <;> rfl
  define _ _ := fun _ _ => rfl
  assign name value := by
    intro context world
    have same : (recast.world world).chain = world.chain := rfl
    rw [Run.assign_eq, Run.assign_eq, same]
    cases world.chain.assign? name value <;> rfl

end Recast
end Lox
