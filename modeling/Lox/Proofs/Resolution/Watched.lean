import Lox.Proofs.Run.Machine
import Lox.Proofs.Scope.Settling

/-!
Runs that keep a record of the variables they come to. A watched run does what the run does, and
before each time a variable is read or assigned it writes down the place of the expression in the
program and the scope in which the name settles; the value is then read or put in that scope.
Without the record a watched run is the run: `Erases.mirrors`.
-/
namespace Lox

/-- A variable that a run came to. The place is the way to the expression from the whole program,
by the numbers of the parts on the way, and `settled` is how many scopes out the name settles. -/
structure Access where
  place : List Nat
  name : String
  writes : Bool
  settled : Option Nat
  deriving DecidableEq

structure Watch where
  world : World
  record : List Access

abbrev Watched := ReaderT (List Nat) (ReaderT Context (EStateM Failure Watch))

namespace Watched

variable {α : Type}

def ofRun (run : Run α) : Watched α := fun _ context watch =>
  match run context watch.world with
  | .ok value world => .ok value { watch with world := world }
  | .error failure world => .error failure { watch with world := world }

def nested (cost : Nat) (run : Watched α) : Watched α := fun place context =>
  if cost ≤ context.depth then run place { context with depth := context.depth - cost }
  else throw .tooDeep

def inScope (run : Watched α) : Watched α := fun place context watch =>
  match run place context { watch with world := Run.enter watch.world } with
  | .ok value after => .ok value { after with world := Run.leave after.world }
  | .error failure after => .error failure { after with world := Run.leave after.world }

def access (name : String) (writes : Bool) : Watched (Option Nat) := do
  let place ← read
  let settled := (← get).world.chain.settle name
  modify fun watch => { watch with record := watch.record ++ [⟨place, name, writes, settled⟩] }
  return settled

def lookup (name : String) : Watched Value := do
  let settled ← access name false
  ofRun (Run.ofResult ((← get).world.chain.valueAt name settled))

def assign (name : String) (value : Value) : Watched Unit := do
  let settled ← access name true
  let chain ← ofRun (Run.ofResult ((← get).world.chain.assignAt name value settled))
  ofRun (modify fun world => { world with chain := chain })

instance : Machine Watched where
  throw := MonadExcept.throw
  nested := nested
  inScope := inScope
  limited steps := fun place context => steps context.limits place context
  within number steps := fun place => steps (place ++ [number])
  producing steps := steps
  report activity label := ofRun (Run.report activity label)
  lookup := lookup
  define name value := ofRun (Run.define name value)
  assign := assign
  print value := ofRun (Run.print value.display)

def noted (watch : Watch) (place : List Nat) (name : String) (writes : Bool) : Watch :=
  { watch with record := watch.record ++ [⟨place, name, writes, watch.world.chain.settle name⟩] }

theorem lookup_eq (name : String) (place : List Nat) (context : Context) (watch : Watch) :
    lookup name place context watch =
      match watch.world.chain.lookup name with
      | .ok value => .ok value (noted watch place name false)
      | .error error => .error (.runtime error) (noted watch place name false) := by
  rw [← Chain.valueAt_settle]
  have unfolded : lookup name place context watch =
      ofRun (Run.ofResult (watch.world.chain.valueAt name (watch.world.chain.settle name)))
        place context (noted watch place name false) := rfl
  rw [unfolded]
  cases watch.world.chain.valueAt name (watch.world.chain.settle name) <;> rfl

theorem assign_eq (name : String) (value : Value) (place : List Nat) (context : Context)
    (watch : Watch) :
    assign name value place context watch =
      match watch.world.chain.assign name value with
      | .ok chain =>
        .ok () { noted watch place name true with world := { watch.world with chain := chain } }
      | .error error => .error (.runtime error) (noted watch place name true) := by
  rw [← Chain.assignAt_settle]
  have unfolded : assign name value place context watch =
      (ofRun (Run.ofResult (watch.world.chain.assignAt name value (watch.world.chain.settle name)))
        >>= fun chain => ofRun (modify fun world => { world with chain := chain }))
        place context (noted watch place name true) := rfl
  rw [unfolded]
  cases watch.world.chain.assignAt name value (watch.world.chain.settle name) <;> rfl

end Watched

def forget {α : Type} : EStateM.Result Failure Watch α → EStateM.Result Failure World α
  | .ok value watch => .ok value watch.world
  | .error failure watch => .error failure watch.world

def Erases {α : Type} (watched : Watched α) (run : Run α) : Prop :=
  ∀ place context watch, forget (watched place context watch) = run context watch.world

namespace Erases

variable {α β : Type} {watched : Watched α} {run : Run α}

theorem ofRun (run : Run α) : Erases (Watched.ofRun run) run := by
  intro place context watch
  rw [Watched.ofRun]
  cases run context watch.world <;> rfl

theorem bind {next : α → Watched β} {follow : α → Run β} (first : Erases watched run)
    (second : ∀ value, Erases (next value) (follow value)) :
    Erases (watched >>= next) (run >>= follow) := by
  intro place context watch
  have start := first place context watch
  simp only [Bind.bind, ReaderT.bind, EStateM.bind] at start ⊢
  rw [← start]
  cases watched place context watch with
  | ok value later => exact second value place context later
  | error failure later => rfl

theorem nested (cost : Nat) (inner : Erases watched run) :
    Erases (Watched.nested cost watched) (Run.nested cost run) := by
  intro place context watch
  simp only [Watched.nested, Run.nested]
  split
  · exact inner place _ watch
  · rfl

theorem inScope (inner : Erases watched run) :
    Erases (Watched.inScope watched) (Run.inScope run) := by
  intro place context watch
  have start := inner place context { watch with world := Run.enter watch.world }
  simp only [Watched.inScope, Run.inScope] at start ⊢
  rw [← start]
  cases watched place context { watch with world := Run.enter watch.world } <;> rfl

theorem lookup (name : String) : Erases (Watched.lookup name) (Run.lookup name) := by
  intro place context watch
  rw [Watched.lookup_eq, Run.lookup_eq]
  cases watch.world.chain.lookup name <;> rfl

theorem assign (name : String) (value : Value) :
    Erases (Watched.assign name value) (Run.assign name value) := by
  intro place context watch
  rw [Watched.assign_eq, Run.assign_eq, Chain.assign]
  cases watch.world.chain.assign? name value <;> rfl

/-- A watched program does what the program does. -/
theorem mirrors : Mirrors fun α (watched : Watched α) run => Erases watched run where
  pure _ := fun _ _ _ => rfl
  bind := bind
  throw _ := fun _ _ _ => rfl
  nested := nested
  inScope := inScope
  limited each := fun place context => each context.limits place context
  within number each := fun place => each (place ++ [number])
  producing each := each
  report _ _ := ofRun _
  lookup := lookup
  define _ _ := ofRun _
  assign := assign
  print _ := ofRun _

end Erases
end Lox
