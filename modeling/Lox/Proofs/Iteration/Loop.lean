import Lox.Proofs.Bracing.Session
import Lox.Proofs.Frame.Confined

/-!
What a `for` says: an initializer that is run once in a scope of its own, then rounds of condition,
body and increment in that scope. Whatever place of a round a run has come to, the scope holds the
name that the initializer declares and no other (`Reaches.names`), and a run that comes to its end
does so where the condition fails (`run_end`).
-/
namespace Lox

structure ForLoop where
  initializer : Option Node
  condition : Option Node
  increment : Option Node
  body : Node

namespace ForLoop

def begin (loop : ForLoop) : Run Unit :=
  match loop.initializer with
  | some initializer => initializer.execute
  | none => return ()

def goesOn (loop : ForLoop) : Run Bool :=
  match loop.condition with
  | some condition => return (← condition.evaluate).truthy
  | none => return true

def advance (loop : ForLoop) : Run Unit :=
  match loop.increment with
  | some increment => do
    let _ ← increment.evaluate
  | none => return ()

def rounds (loop : ForLoop) : Nat → Run Unit
  | 0 => throw .outOfRounds
  | more + 1 => do
    if ← loop.goesOn then
      loop.body.execute
      loop.advance
      loop.rounds more
    else return ()

def run (loop : ForLoop) : Run Unit := .inScope do
  loop.begin
  fun context => loop.rounds context.limits.rounds context

inductive Stage where
  | condition
  | body
  | increment

/-- The worlds in which the parts of a round are run. The steps may be nested however deeply. -/
inductive Reaches (loop : ForLoop) (start : World) : Stage → World → Prop where
  | began {context : Context} {world : World} :
    loop.begin context (Run.enter start) = .ok () world → Reaches loop start .condition world
  | tested {context : Context} {world after : World} :
    Reaches loop start .condition world → loop.goesOn context world = .ok true after →
    Reaches loop start .body after
  | ran {context : Context} {world after : World} :
    Reaches loop start .body world → loop.body.execute context world = .ok () after →
    Reaches loop start .increment after
  | advanced {context : Context} {world after : World} :
    Reaches loop start .increment world → loop.advance context world = .ok () after →
    Reaches loop start .condition after

def declared (loop : ForLoop) : List String := loop.initializer.elim [] Node.declared

/-- No declaration is the body of the loop, nor the branch or the body of a statement in it. -/
structure Placed (loop : ForLoop) : Prop where
  initializer : ∀ node ∈ loop.initializer, node.placed = true
  body : loop.body.placed = true
  undeclared : loop.body.declared = []

end ForLoop

theorem Run.bind_eq_ok {α β : Type} {run : Run α} {next : α → Run β} {context : Context}
    {world after : World} {value : β} :
    (run >>= next) context world = .ok value after ↔
      ∃ first middle, run context world = .ok first middle ∧
        next first context middle = .ok value after := by
  simp only [bind, ReaderT.bind, EStateM.bind]
  cases run context world <;> simp

namespace World.Revised

variable {targets declared : List String} {prints : Bool} {before after : World}

theorem names (revised : before.Revised targets [] prints after) :
    after.chain.map Bindings.names = before.chain.map Bindings.names :=
  revised.chain.map_names

theorem names_entered (revised : (Run.enter before).Revised targets declared prints after) :
    after.chain.map Bindings.names =
      declared.eraseDups :: before.chain.map Bindings.names := by
  obtain ⟨chain, -⟩ := revised
  rw [Run.enter] at chain
  generalize after.chain = scopes at chain ⊢
  cases chain with
  | @cons _ changed _ rest inner outer =>
    have others := (Chain.Revised.iff_forall₂.mpr outer).map_names
    rw [List.map_cons, others, inner.names, ← enlist_nil]
    rfl

end World.Revised

namespace Confined

variable {α : Type} {targets declared : List String} {prints : Bool} {run : Run α}
  {context : Context} {world after : World} {value : α}

theorem revised_of_ok (each : Confined targets declared prints run)
    (returned : run context world = .ok value after) :
    world.Revised targets declared prints after := by
  have leaves := each context world
  rw [returned] at leaves
  cases leaves with
  | ok _ revised => exact revised

end Confined

namespace ForLoop

variable {loop : ForLoop}

theorem begin_confined (placed : loop.Placed) :
    ∃ targets, Confined targets loop.declared true loop.begin := by
  rw [begin, declared]
  cases initial : loop.initializer with
  | none => exact ⟨[], .pure ()⟩
  | some node => exact ⟨_, execute_confined (placed.initializer node initial) (List.Subset.refl _)⟩

theorem goesOn_confined (loop : ForLoop) : ∃ targets, Confined targets [] true loop.goesOn := by
  rw [goesOn]
  cases loop.condition with
  | none => exact ⟨[], .pure true⟩
  | some node =>
    exact ⟨_, .bind (evaluate_confined (List.Subset.refl _) true) fun _ => .pure _⟩

theorem advance_confined (loop : ForLoop) : ∃ targets, Confined targets [] true loop.advance := by
  rw [advance]
  cases loop.increment with
  | none => exact ⟨[], .pure ()⟩
  | some node =>
    exact ⟨_, .bind (evaluate_confined (List.Subset.refl _) true) fun _ => .pure _⟩

theorem body_confined (placed : loop.Placed) :
    ∃ targets, Confined targets [] true loop.body.execute := by
  have each := execute_confined placed.body (List.Subset.refl loop.body.targets)
  rw [placed.undeclared] at each
  exact ⟨_, each⟩

theorem eraseDups_declared (loop : ForLoop) : loop.declared.eraseDups = loop.declared := by
  rw [declared]
  cases loop.initializer with
  | none => rfl
  | some node => cases node <;> rfl

/-- In every round, condition, body and increment see the name that the initializer declares in the
scope of the loop, no other name in that scope, and the names that there were around it. By
induction on the steps, of which only the first declares anything. -/
theorem Reaches.names {start world : World} {stage : Stage} (placed : loop.Placed)
    (reaches : loop.Reaches start stage world) :
    world.chain.map Bindings.names = loop.declared :: start.chain.map Bindings.names := by
  induction reaches with
  | began entered =>
    obtain ⟨targets, confined⟩ := begin_confined placed
    rw [(confined.revised_of_ok entered).names_entered, eraseDups_declared]
  | tested _ goesOn ih =>
    obtain ⟨targets, confined⟩ := loop.goesOn_confined
    rw [(confined.revised_of_ok goesOn).names, ih]
  | ran _ ran ih =>
    obtain ⟨targets, confined⟩ := body_confined placed
    rw [(confined.revised_of_ok ran).names, ih]
  | advanced _ advanced ih =>
    obtain ⟨targets, confined⟩ := loop.advance_confined
    rw [(confined.revised_of_ok advanced).names, ih]

theorem rounds_end {context : Context} {start world after : World} {count : Nat}
    (reaches : loop.Reaches start .condition world)
    (ended : loop.rounds count context world = .ok () after) :
    ∃ last, loop.Reaches start .condition last ∧ loop.goesOn context last = .ok false after := by
  induction count generalizing world with
  | zero => cases ended
  | succ count ih =>
    obtain ⟨more, tested, test, later⟩ := Run.bind_eq_ok.mp ended
    cases more with
    | false =>
      cases later
      exact ⟨world, reaches, test⟩
    | true =>
      obtain ⟨_, stepped, ran, later⟩ := Run.bind_eq_ok.mp later
      obtain ⟨_, advanced, advance, later⟩ := Run.bind_eq_ok.mp later
      exact ih (((reaches.tested test).ran ran).advanced advance) later

theorem run_end {context : Context} {start after : World}
    (ended : loop.run context start = .ok () after) :
    ∃ last left, loop.Reaches start .condition last ∧
      loop.goesOn context last = .ok false left ∧ after = Run.leave left := by
  rw [run, Run.inScope] at ended
  split at ended
  · next value left inner =>
    obtain ⟨_, entered, began, rounds⟩ := Run.bind_eq_ok.mp inner
    obtain ⟨last, reaches, stops⟩ := rounds_end (.began began) rounds
    cases ended
    exact ⟨last, left, reaches, stops, rfl⟩
  · cases ended

end ForLoop
end Lox
