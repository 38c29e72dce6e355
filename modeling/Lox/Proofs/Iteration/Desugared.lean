import Lox.Proofs.Grammar.Boundary
import Lox.Proofs.Grammar.Soundness
import Lox.Proofs.Iteration.Loop
import Lox.Proofs.Run.Closed

namespace Lox

open Simulates (report_wide)

theorem simulates_closed :
    Closed fun _ run => ∀ mask, Simulates (true :: mask) run run where
  pure value _ := .pure value
  throw failure _ := .throw failure
  bind early late mask := .bind (early mask) fun value => late value mask
  nested cost each mask := .nested cost (each mask)
  limited each mask := by
    intro context wider world widened same alike
    dsimp only
    rw [same]
    exact each wider.limits mask context wider world widened same alike
  inScope each mask := .inScope (each (true :: mask))
  report activity label _ := .report activity label
  print text _ := .print text
  lookup name _ := .lookup name
  define name value _ := .define name value
  assign name value _ := .assign name value

namespace ForLoop

variable {loop : ForLoop}

def desugared (loop : ForLoop) : Node :=
  Grammar.desugared loop.initializer loop.condition loop.increment loop.body

theorem rounds_eq (loop : ForLoop) (count : Nat) : loop.rounds count =
    Run.rounds loop.goesOn (loop.body.execute >>= fun _ => loop.advance) count := by
  induction count with
  | zero => rfl
  | succ count ih =>
    rw [rounds, Run.rounds]
    simp only [bind_assoc, ih]

theorem whileTrue_eq (loop : ForLoop) : (fun context => loop.rounds context.limits.rounds context) =
    Run.whileTrue loop.goesOn (loop.body.execute >>= fun _ => loop.advance) := by
  funext context
  rw [rounds_eq, Run.whileTrue]

theorem simulates_goesOn (loop : ForLoop) (mask : List Bool) : Simulates mask loop.goesOn
    (Value.truthy <$> (loop.condition.getD (.literal (.boolean true))).evaluate) := by
  rw [goesOn]
  cases loop.condition with
  | some condition => exact (simulates_evaluate condition).bind fun _ => .pure _
  | none =>
    have literal : Simulates mask (pure (.boolean true))
        (Node.literal (.boolean true)).evaluate :=
      .nested_wide 1 (report_wide _ _ (.pure _))
    have tested := @Simulates.map _ _ _ _ _ Value.truthy literal
    rwa [map_pure] at tested

theorem simulates_advance (loop : ForLoop) (mask : List Bool) : Simulates mask loop.advance
    (Node.executeAll (loop.increment.map Node.expression).toList) := by
  rw [advance]
  cases loop.increment with
  | some increment =>
    change Simulates mask _ (Node.executeAll [.expression increment])
    rw [executeAll_singleton, Node.execute]
    exact .nested_wide 1 (report_wide _ _ ((simulates_evaluate increment).bind fun _ => .pure ()))
  | none => exact .pure ()

theorem simulates_rounds (loop : ForLoop) (mask : List Bool) :
    Simulates (true :: mask) (fun context => loop.rounds context.limits.rounds context)
      (Node.executeAll [.loop (loop.condition.getD (.literal (.boolean true)))
        (loop.body :: (loop.increment.map Node.expression).toList)]) := by
  rw [executeAll_singleton, Node.execute]
  refine .nested_wide 1 (report_wide _ _ (.nested_wide 1 ?_))
  rw [whileTrue_eq]
  refine .whileTrue (loop.simulates_goesOn _) (.nested_wide 1 ?_)
  exact (simulates_closed.execute loop.body mask).bind fun _ => loop.simulates_advance _

/-- The block does what the loop does, in the scopes that the loop does it in. -/
theorem simulates_desugared (loop : ForLoop) (mask : List Bool) :
    Simulates mask loop.run loop.desugared.execute := by
  rw [desugared, Grammar.desugared, Node.execute, run]
  refine .nested_wide 1 (report_wide _ _ (.inScope (.nested_wide 2 ?_)))
  have rounds := loop.simulates_rounds mask
  rw [begin]
  cases loop.initializer with
  | some initializer => exact (simulates_closed.execute initializer mask).bind fun _ => rounds
  | none => exact rounds

theorem height_le_desugared (loop : ForLoop) :
    (∀ node ∈ loop.initializer, node.height ≤ loop.desugared.height) ∧
    (∀ node ∈ loop.condition, node.height ≤ loop.desugared.height) ∧
    (∀ node ∈ loop.increment, node.height ≤ loop.desugared.height) ∧
    loop.body.height ≤ loop.desugared.height := by
  obtain ⟨initializer, condition, increment, body⟩ := loop
  cases initializer <;> cases condition <;> cases increment <;>
    simp [desugared, Grammar.desugared, Node.height, Node.heights] <;> omega

theorem shallow_run (loop : ForLoop) :
    Shallow (3 * loop.desugared.height) loop.desugared.height loop.run := by
  obtain ⟨begins, tests, advances, low⟩ := loop.height_le_desugared
  have deep {node : Node} (low : node.height ≤ loop.desugared.height) :=
    Nat.mul_le_mul_left 3 low
  have begun : Shallow (3 * loop.desugared.height) loop.desugared.height loop.begin := by
    rw [begin]
    cases clause : loop.initializer with
    | some initializer =>
      have low := begins initializer clause
      exact (shallow_execute initializer).weaken (deep low) low
    | none => exact .pure ()
  have tested : Shallow (3 * loop.desugared.height) loop.desugared.height loop.goesOn := by
    rw [goesOn]
    cases clause : loop.condition with
    | some condition =>
      have low := tests condition clause
      exact ((shallow_evaluate condition).weaken (deep low) low).bind fun _ => .pure _
    | none => exact .pure true
  have advanced : Shallow (3 * loop.desugared.height) loop.desugared.height loop.advance := by
    rw [advance]
    cases clause : loop.increment with
    | some increment =>
      have low := advances increment clause
      exact ((shallow_evaluate increment).weaken (deep low) low).bind fun _ => .pure ()
    | none => exact .pure ()
  have ran := (shallow_execute loop.body).weaken (deep low) low
  rw [run, whileTrue_eq]
  exact .inScope (begun.bind fun _ => .whileTrue tested (ran.bind fun _ => advanced))

inductive Spells : List Token.Kind → ForLoop → Prop where
  | intro {dangling : Bool} {start test advance inner : List Token.Kind} {loop : ForLoop} :
    Grammar.Initializer start loop.initializer →
    Grammar.Clause test loop.condition →
    Grammar.Clause advance loop.increment →
    Grammar.Sentence (.statement dangling) inner loop.body →
    Spells (.leftParen :: (start ++ (test ++ .semicolon :: (advance ++ .rightParen :: inner)))) loop

theorem Spells.placed {kinds : List Token.Kind} (spells : Spells kinds loop) : loop.Placed := by
  cases spells with
  | intro start _ _ inner => exact ⟨start.placed, inner.placed.1, inner.placed.2⟩

theorem Placed.desugared (placed : loop.Placed) : loop.desugared.placed = true :=
  Grammar.desugared_placed placed.initializer placed.undeclared placed.body

theorem exists_spelled {dangling : Bool} {kinds : List Token.Kind} {node : Node}
    (sentence : Grammar.Sentence (.statement dangling) (.forWord :: kinds) node) :
    ∃ loop : ForLoop, Spells kinds loop ∧ node = loop.desugared := by
  cases sentence with
  | evaluation evaluated =>
    obtain ⟨kind, rest, same, opens⟩ := evaluated.starts
    obtain ⟨rfl, -⟩ := List.cons.inj same
    cases opens
  | @forLoop _ _ _ _ _ initializer condition increment body start test advance inner =>
    exact ⟨⟨initializer, condition, increment, body⟩, .intro start test advance inner, rfl⟩

def outcome : EStateM.Result Failure World Unit → Except Failure Unit × Chain × String
  | .ok value world => (.ok value, world.chain, world.output)
  | .error failure world => (.error failure, world.chain, world.output)

def TooDeep (result : EStateM.Result Failure World Unit) : Prop :=
  (outcome result).1 = .error .tooDeep

/-- The loop and the block come to the same end and leave the same scopes, or one of them comes to
the nesting limit. -/
theorem outcome_desugared (loop : ForLoop) {context wider : Context}
    (same : context.limits = wider.limits) (world : World) :
    TooDeep (loop.run context world) ∨ TooDeep (loop.desugared.execute wider world) ∨
      outcome (loop.desugared.execute wider world) = outcome (loop.run context world) := by
  have padded := Session.padded_self world.chain
  have shared : ∀ mark ∈ List.replicate world.chain.length true, mark = true :=
    fun _ member => List.eq_of_mem_replicate member
  have agrees := loop.simulates_desugared _ context wider world world same ⟨padded, rfl⟩
  generalize loop.run context world = result at agrees ⊢
  generalize loop.desugared.execute wider world = other at agrees ⊢
  cases agrees with
  | ok value alike =>
    refine .inr (.inr ?_)
    rw [outcome, outcome, alike.chain.eq_of_all_shared shared, alike.output]
  | error failure alike =>
    refine .inr (.inr ?_)
    rw [outcome, outcome, alike.chain.eq_of_all_shared shared, alike.output]
  | deep world result => exact .inl rfl
  | wideDeep result world => exact .inr (.inl rfl)

theorem not_tooDeep {run : Run Unit} {depth height : Nat} (shallow : Shallow depth height run)
    {context : Context} (room : depth ≤ context.depth) (low : height ≤ context.limits.source)
    (world : World) : ¬ TooDeep (run context world) := by
  intro deep
  cases ended : run context world with
  | ok value after =>
    rw [ended] at deep
    cases deep
  | error failure after =>
    rw [ended] at deep
    obtain rfl : failure = .tooDeep := Except.error.inj deep
    exact shallow context world room low .tooDeep after ended rfl

/-- The block declares nothing in the scopes around it, whether it comes to its end or fails. -/
theorem names_desugared (placed : loop.Placed) (context : Context) (world : World) :
    (worldAfter (loop.desugared.execute context world)).chain.map Bindings.names =
      world.chain.map Bindings.names := by
  have confined := execute_confined placed.desugared (List.Subset.refl loop.desugared.targets)
  obtain ⟨done, front, revised⟩ := (confined context world).revised
  obtain rfl : done = [] := List.prefix_nil.mp front
  exact revised.names

/-- A node does what a loop says. In every chain of scopes the two come to the same end, leave the
same bindings in all scopes and print the same, unless one of them comes to the nesting limit. The
loop ends where its condition fails. In each round condition, body and increment see in the scope of
the loop only what the initializer declares, and no name is left in the scopes around it. -/
structure Realized (loop : ForLoop) (node : Node) : Prop where
  outcome : ∀ (context wider : Context) (world : World), context.limits = wider.limits →
    TooDeep (loop.run context world) ∨ TooDeep (node.execute wider world) ∨
      outcome (node.execute wider world) = outcome (loop.run context world)
  /-- with room for the steps of the node neither of them does -/
  roomy : ∀ (context wider : Context) (world : World), context.limits = wider.limits →
    3 * node.height ≤ context.depth → 3 * node.height ≤ wider.depth →
    node.height ≤ wider.limits.source →
    ¬ TooDeep (loop.run context world) ∧ ¬ TooDeep (node.execute wider world)
  ends : ∀ context start after, loop.run context start = .ok () after →
    ∃ last left, loop.Reaches start .condition last ∧ loop.goesOn context last = .ok false left ∧
      after = Run.leave left
  rounds : ∀ start stage world, loop.Reaches start stage world →
    world.chain.map Bindings.names = loop.declared :: start.chain.map Bindings.names
  leaves : ∀ context world, (worldAfter (node.execute context world)).chain.map Bindings.names =
    world.chain.map Bindings.names

/-- Every `for` that is read is read as a node that does what the text behind the word says. -/
theorem realized_of_read {limit : Nat} {tokens rest : List Token} {node : Node}
    (read : Grammar.parse limit .forLoop tokens = .ok node rest) :
    ∃ (used : List Token) (loop : ForLoop), tokens = used ++ rest ∧
      Spells (used.map Token.kind) loop ∧ loop.Realized node := by
  obtain ⟨used, rfl, dangling, sentence, -⟩ := Grammar.parse_sound limit .forLoop _ _ _ read
  obtain ⟨loop, spells, rfl⟩ := exists_spelled sentence
  refine ⟨used, loop, rfl, spells, ?_⟩
  constructor
  · intro context wider world same
    exact loop.outcome_desugared same world
  · intro context wider world same room wide low
    exact ⟨not_tooDeep loop.shallow_run room (same ▸ low) world,
      not_tooDeep (shallow_execute loop.desugared) wide low world⟩
  · intro context start after ended
    exact run_end ended
  · intro start stage world reaches
    exact reaches.names spells.placed
  · intro context world
    exact names_desugared spells.placed context world

/-- A loop whose body declares the name that the loop counts with, and prints it before and after. -/
theorem shadowing_realized :
    let literal (rank : Fin Number.finiteCount) : Token.Kind := .number (.finite false rank)
    let kinds : List Token.Kind :=
      [.leftParen, .varWord, .identifier "i", .equal, literal 0, .semicolon, .identifier "i", .less,
        literal 0x4000000000000000, .semicolon, .identifier "i", .equal, .identifier "i", .plus,
        literal 0x3ff0000000000000, .rightParen, .leftBrace, .printWord, .identifier "i", .semicolon,
        .varWord, .identifier "i", .equal, .trueWord, .semicolon, .printWord, .identifier "i",
        .semicolon, .rightBrace]
    let tokens : List Token := kinds.map fun kind => ⟨kind, "", 1⟩
    let context : Context := ⟨false, .standard, 980⟩
    ∃ node, Grammar.parse 40 .forLoop (tokens ++ [.endOfInput 1]) = .ok node [.endOfInput 1] ∧
      ∃ loop : ForLoop, Spells kinds loop ∧ loop.Realized node ∧
        outcome (loop.run context ⟨[[]], "", ""⟩) =
          (.ok (), [[]], "0.0\ntrue\n1.0\ntrue\n") := by
  intro literal kinds tokens context
  refine ⟨_, rfl, ?_⟩
  obtain ⟨used, loop, split, spells, realized⟩ :=
    @realized_of_read 40 (tokens ++ [.endOfInput 1]) [.endOfInput 1] _ rfl
  obtain rfl : tokens = used := List.append_cancel_right split
  obtain ⟨shallow, shallowToo⟩ := realized.roomy context context ⟨[[]], "", ""⟩ rfl (by decide)
    (by decide) (by decide)
  have same := (realized.outcome context context ⟨[[]], "", ""⟩ rfl).resolve_left shallow
  refine ⟨loop, spells, realized, (same.resolve_left shallowToo).symm.trans ?_⟩
  have ended : ∀ result : EStateM.Result Failure World Unit, (match result with
      | .ok _ world => world.chain == [[]] && world.output == "0.0\ntrue\n1.0\ntrue\n"
      | .error _ _ => false) = true → outcome result = (.ok (), [[]], "0.0\ntrue\n1.0\ntrue\n") := by
    intro result seen
    cases result with
    | ok value world =>
      obtain ⟨left, printed⟩ := Bool.and_eq_true_iff.mp seen
      rw [outcome, eq_of_beq left, eq_of_beq printed]
    | error failure world => cases seen
  exact ended _ (by decide +kernel)

end ForLoop
end Lox
