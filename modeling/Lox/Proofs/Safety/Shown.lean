import Lox.Proofs.Safety.Observed

namespace Lox

def Sight.output : List Sight → String
  | [] => ""
  | .printed value :: sights => value.display ++ "\n" ++ output sights
  | .produced _ :: sights | .scopes _ :: sights => output sights

theorem Sight.output_append (sights others : List Sight) :
    Sight.output (sights ++ others) = Sight.output sights ++ Sight.output others := by
  induction sights with
  | nil => exact String.empty_append.symm
  | cons sight sights ih =>
    cases sight with
    | printed value =>
      rw [List.cons_append, Sight.output, Sight.output, ih, ← String.append_assoc]
    | produced _ => exact ih
    | scopes _ => exact ih

def Shown {α : Type} (observed : Observed α) : Prop :=
  ∀ context world, (worldAfter (observed.run context world)).output =
    world.output ++ Sight.output (observed.sights context world)

namespace Shown

variable {α β : Type} {observed : Observed α}

theorem silent {run : Run α}
    {still : ∀ context world, (worldAfter (run context world)).chain = world.chain}
    (same : ∀ context world, (worldAfter (run context world)).output = world.output) :
    Shown (Observed.ofRun run still) := by
  intro context world
  exact (same context world).trans String.append_empty.symm

theorem pure (value : α) : Shown (Pure.pure value : Observed α) := silent fun _ _ => rfl

theorem throw (failure : Failure) : Shown (Observed.throw failure : Observed α) :=
  silent fun _ _ => rfl

theorem bind {next : α → Observed β} (early : Shown observed)
    (late : ∀ value, Shown (next value)) : Shown (observed >>= next) := by
  intro context world
  have begun := early context world
  change (worldAfter ((observed.run >>= fun value => (next value).run) context world)).output =
    world.output ++ Sight.output (observed.sights context world ++
      Observed.later (fun value => (next value).sights) context (observed.run context world))
  rw [Sight.output_append, ← String.append_assoc, ← begun]
  simp only [Bind.bind, ReaderT.bind, EStateM.bind]
  cases observed.run context world with
  | ok value middle => exact late value context middle
  | error failure after => exact String.append_empty.symm

theorem producing {observed : Observed Value} (each : Shown observed) :
    Shown observed.producing := by
  intro context world
  have same := each context world
  have unprinted : Sight.output (Observed.later (fun value _ _ => [.produced value]) context
      (observed.run context world)) = "" := by
    cases observed.run context world <;> rfl
  change (worldAfter (observed.run context world)).output =
    world.output ++ Sight.output (observed.sights context world ++ _)
  rw [Sight.output_append, unprinted, String.append_empty]
  exact same

theorem nested (cost : Nat) (each : Shown observed) : Shown (observed.nested cost) := by
  intro context world
  simp only [Observed.nested, Run.nested]
  split
  · exact each { context with depth := context.depth - cost } world
  · exact String.append_empty.symm

theorem report (activity label : String) : Shown (Observed.report activity label) := by
  apply silent
  intro context world
  rw [Run.report_eq]
  rfl

theorem lookup (name : String) : Shown (Observed.lookup name) := by
  apply silent
  intro context world
  rw [Run.lookup_eq]
  cases world.chain.lookup name <;> rfl

theorem print (value : Value) : Shown (Observed.print value) := by
  intro context world
  change world.output ++ value.display ++ "\n" = world.output ++ (value.display ++ "\n" ++ "")
  rw [String.append_empty, String.append_assoc]

theorem define (name : String) (value : Option Value) : Shown (Observed.define name value) :=
  fun _ _ => String.append_empty.symm

theorem assign (name : String) (value : Value) : Shown (Observed.assign name value) := by
  intro context world
  change (worldAfter (Run.assign name value context world)).output = world.output ++
    Sight.output ((world.chain.assign? name value).map Sight.scopes).toList
  rw [Run.assign_eq]
  cases world.chain.assign? name value with
  | none => exact String.append_empty.symm
  | some changed => exact String.append_empty.symm

theorem inScope (each : Shown observed) : Shown observed.inScope := by
  intro context world
  have inner := each context (Run.enter world)
  have left : (worldAfter (Run.inScope observed.run context world)).output =
      (worldAfter (observed.run context (Run.enter world))).output := by
    rw [Run.inScope]
    cases observed.run context (Run.enter world) <;> rfl
  have unprinted : Sight.output (observed.sights context (Run.enter world) ++
      [.scopes (worldAfter (observed.run context (Run.enter world))).chain.tail]) =
      Sight.output (observed.sights context (Run.enter world)) := by
    rw [Sight.output_append]
    exact String.append_empty
  change (worldAfter (Run.inScope observed.run context world)).output =
    world.output ++ Sight.output (observed.sights context (Run.enter world) ++ _)
  rw [left, unprinted]
  exact inner

theorem limited {steps : Limits → Observed α} (each : ∀ limits, Shown (steps limits)) :
    Shown (Observed.limited steps) :=
  fun context => each context.limits context

theorem mirrors : Mirrors fun α (observed : Observed α) _ => Shown observed where
  pure := pure
  bind := bind
  throw := throw
  nested := nested
  inScope := inScope
  limited := limited
  within _ each := each
  producing := producing
  report := report
  lookup := lookup
  define := define
  assign := assign
  print := print

end Shown

theorem shown_observedEvaluate (node : Node) : Shown node.observedEvaluate :=
  Shown.mirrors.evaluate node

theorem shown_observedExecuteAll (nodes : List Node) : Shown (Node.observedExecuteAll nodes) :=
  Shown.mirrors.executeAll 0 nodes

end Lox
