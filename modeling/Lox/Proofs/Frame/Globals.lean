import Lox.Proofs.Frame.Confined
import Lox.Proofs.Session.Concluded

namespace Lox

section
variable {targets : List String} {context : Context} {world after : World} {failure : Failure}

theorem nested_failed {α : Type} {cost : Nat} {run : Run α}
    (failed : Run.nested cost run context world = .error failure after) :
    after = world ∨ ∃ context, run context world = .error failure after := by
  rw [Run.nested] at failed
  split at failed
  · exact .inr ⟨_, failed⟩
  · cases failed
    exact .inl rfl

/-- A run that declares a name as the last thing it does has not declared it if it fails. -/
theorem define_failed {α : Type} {run : Run α} {name : String} {held : α → Option Value}
    (each : Confined targets [] true run)
    (failed : (run >>= fun value => Run.define name (held value)) context world =
      .error failure after) :
    world.Revised targets [] true after := by
  simp only [Bind.bind, ReaderT.bind, EStateM.bind] at failed
  have start := each context world
  generalize run context world = result at start failed
  cases start with
  | ok value revised => cases failed
  | error cause before revised =>
    cases List.prefix_nil.mp before
    cases failed
    exact revised

theorem execute_failed {node : Node} (placed : node.placed = true) (within : node.targets ⊆ targets)
    (failed : node.execute context world = .error failure after) :
    world.Revised targets [] true after := by
  have start := execute_confined placed within context world
  rw [failed] at start
  match node with
  | .declare name none =>
    rcases nested_failed failed with rfl | ⟨deeper, failed⟩
    · exact .refl targets true _
    · exact define_failed (.report _ _) failed
  | .declare name (some initializer) =>
    rcases nested_failed failed with rfl | ⟨deeper, failed⟩
    · exact .refl targets true _
    · have inner : initializer.targets ⊆ targets :=
        fun _ among => within (Node.part_subset (by simp [Node.children]) among)
      have evaluated : Confined targets [] true (Run.report "Executing"
          (Node.declare name (some initializer)).label >>= fun _ => .nested 1 initializer.evaluate) :=
        .bind (.report _ _) fun _ => .nested 1 (evaluate_confined inner true)
      rw [← bind_assoc] at failed
      exact define_failed evaluated failed
  | .expression _ | .print _ | .block _ | .choice _ _ _ | .loop _ _ | .literal _ | .identifier _
  | .assign _ _ | .unary _ _ | .binary _ _ _ | .logical _ _ _ | .grouping _ | .call _ _
  | .foreign =>
    cases start with
    | error _ before revised =>
      cases List.prefix_nil.mp before
      exact revised

theorem executeAll_cons (node : Node) (rest : List Node) :
    Node.executeAll (node :: rest) context world =
      match node.execute context world with
      | .ok _ middle => Node.executeAll rest context middle
      | .error failure after => .error failure after := by
  rw [Node.executeAll]
  simp only [Bind.bind, ReaderT.bind, EStateM.bind]
  cases node.execute context world <;> rfl

/-- The program stops in its statement of that number, counted from zero: the ones before it come to
their end, and it fails in the world that they leave. -/
def StopsAt (statements : List Node) (context : Context) (world : World) (number : Nat)
    (failure : Failure) (after : World) : Prop :=
  ∃ node middle, statements[number]? = some node ∧
    Node.executeAll (statements.take number) context world = .ok () middle ∧
    node.execute context middle = .error failure after

/-- A program fails where one of its statements does. -/
theorem executeAll_error_iff {statements : List Node} :
    Node.executeAll statements context world = .error failure after ↔
      ∃ number, StopsAt statements context world number failure after := by
  -- the statement that fails is the first one, or it has one number less among the others
  induction statements generalizing world with
  | nil =>
    constructor
    · intro failed
      cases failed
    · rintro ⟨number, node, middle, found, -⟩
      cases found
  | cons node rest ih =>
    rw [executeAll_cons]
    cases first : node.execute context world with
    | error cause left =>
      constructor
      · intro failed
        cases failed
        exact ⟨0, node, world, rfl, rfl, first⟩
      · rintro ⟨number, other, middle, found, early, late⟩
        cases number with
        | zero =>
          cases found
          cases early
          rw [← late, first]
        | succ number =>
          rw [List.take_succ_cons, executeAll_cons, first] at early
          cases early
    | ok value next =>
      change Node.executeAll rest context next = _ ↔ _
      rw [ih]
      constructor
      · rintro ⟨number, other, middle, found, early, late⟩
        refine ⟨number + 1, other, middle, found, ?_, late⟩
        rw [List.take_succ_cons, executeAll_cons, first]
        exact early
      · rintro ⟨number, other, middle, found, early, late⟩
        cases number with
        | zero =>
          cases found
          cases early
          rw [first] at late
          cases late
        | succ number =>
          rw [List.take_succ_cons, executeAll_cons, first] at early
          exact ⟨number, other, middle, found, early, late⟩

theorem StopsAt.revised {statements : List Node} {number : Nat}
    (placed : ∀ node ∈ statements, node.placed = true)
    (stops : StopsAt statements context world number failure after) :
    world.Revised (Node.allTargets statements) (Node.allDeclared (statements.take number)) true after := by
  rcases stops with ⟨node, middle, found, early, late⟩
  have member := List.mem_of_getElem? found
  have begun : Confined (Node.allTargets statements) (Node.allDeclared (statements.take number)) true
      (Node.executeAll (statements.take number)) := by
    refine executeAll_confined (Node.allPlaced_iff.mpr fun other among => ?_) fun name among => ?_
    · exact placed other (List.mem_of_mem_take among)
    · rw [Node.allTargets, Node.gatheredAll_eq_flatMap, List.mem_flatMap] at among ⊢
      rcases among with ⟨part, listed, assigned⟩
      exact ⟨part, List.mem_of_mem_take listed, assigned⟩
  have start := begun context world
  rw [early] at start
  cases start with
  | ok _ revised =>
    have last := execute_failed (placed node member) (Node.member_subset member) late
    rw [← List.append_nil (Node.allDeclared _)]
    exact revised.trans last

end

namespace Session

theorem globals_of_revised {targets declared : List String} {chain : Chain}
    (revised : Chain.Revised targets declared (ScopeTree.initial.chain 0) chain) :
    ((ScopeTree.initial.update 0 chain).bindings 0).names = declared.eraseDups := by
  rw [(revised.update ScopeTree.rooted_initial Nat.zero_lt_one 0).names]
  exact enlist_nil declared

/-- The outermost names after a program that was read and run in a new session are those of the
declarations on its outermost level that were executed, in the order in which they occur first: all
of them if it comes to its end, and those before the statement that it stops in if it fails. No other
statement adds a name to any scope. -/
theorem globals_declared {limit : Nat} {tokens : List Token} {statements : List Node}
    (read : Grammar.parseProgram limit tokens = .ok statements) (options : Options) :
    let step := execute options 0 "" statements .initial
    let stops := StopsAt statements (opening options) (entrance .initial 0 "")
    (step.result = .ok () →
      (step.tree.bindings 0).names = (Node.allDeclared statements).eraseDups) ∧
    (∀ problem, step.result = .error problem →
      ∃ number failure after, stops number failure after ∧ problem = .failure failure.settle) ∧
    (∀ number failure after, stops number failure after →
      step.result = .error (.failure failure.settle) ∧
      (step.tree.bindings 0).names = (Node.allDeclared (statements.take number)).eraseDups) ∧
    ∀ node ∈ statements, node.declared = [] → ∀ context world,
      (worldAfter (node.execute context world)).chain.map Bindings.names =
        world.chain.map Bindings.names := by
  intro step stops
  have placed := placed_of_read read
  have confined := executeAll_confined (Node.allPlaced_iff.mpr placed)
    (List.Subset.refl (Node.allTargets statements)) (opening options) (entrance .initial 0 "")
  have concludes : step = concluded .initial 0 _ := execute_concluded statements
  refine ⟨fun finished => ?_, fun problem failed => ?_, fun number failure after stopped => ?_, ?_⟩
  · rw [concludes] at finished ⊢
    generalize Node.executeAll statements (opening options) (entrance .initial 0 "") = result
      at confined finished ⊢
    cases confined with
    | ok value revised => exact globals_of_revised revised.chain
    | error failure before revised => cases finished
  · rw [concludes] at failed
    cases ended : Node.executeAll statements (opening options) (entrance .initial 0 "") with
    | ok value after =>
      rw [ended] at failed
      cases failed
    | error failure after =>
      rw [ended] at failed
      rcases executeAll_error_iff.mp ended with ⟨number, stopped⟩
      exact ⟨number, failure, after, stopped, (Except.error.inj failed).symm⟩
  · rw [concludes, executeAll_error_iff.mpr ⟨number, stopped⟩]
    exact ⟨rfl, globals_of_revised (stopped.revised placed).chain⟩
  · intro node member undeclared context world
    have alone := execute_confined (placed node member) (List.Subset.refl node.targets) context world
    rw [undeclared] at alone
    rcases alone.revised with ⟨done, before, revised⟩
    cases List.prefix_nil.mp before
    exact revised.chain.map_names

/-- In `var a; { var c; } var b = a;` the last initializer fails, and of the three names only `a`
is declared on the outermost level before it. -/
theorem globals_before_uninitialized :
    let tokens : List Token := [⟨.varWord, "var", 1⟩, ⟨.identifier "a", "a", 1⟩, ⟨.semicolon, ";", 1⟩,
      ⟨.leftBrace, "\x7b", 1⟩, ⟨.varWord, "var", 1⟩, ⟨.identifier "c", "c", 1⟩, ⟨.semicolon, ";", 1⟩,
      ⟨.rightBrace, "\x7d", 1⟩, ⟨.varWord, "var", 1⟩, ⟨.identifier "b", "b", 1⟩, ⟨.equal, "=", 1⟩,
      ⟨.identifier "a", "a", 1⟩, ⟨.semicolon, ";", 1⟩, .endOfInput 1]
    let statements : List Node := [.declare "a" none, .block [.declare "c" none],
      .declare "b" (some (.identifier "a"))]
    let options : Options := ⟨false, .standard⟩
    let step := execute options 0 "" statements .initial
    Grammar.parseProgram 40 tokens = .ok statements ∧
      StopsAt statements (opening options) (entrance .initial 0 "") 2
        (.runtime (.uninitialized "a")) ⟨[[("a", none)]], "", ""⟩ ∧
      step.result = .error (.failure (.runtime (.uninitialized "a"))) ∧
      (step.tree.bindings 0).names = ["a"] := by
  intro tokens statements options step
  have read : Grammar.parseProgram 40 tokens = .ok statements := rfl
  have stops : StopsAt statements (opening options) (entrance .initial 0 "") 2
      (.runtime (.uninitialized "a")) ⟨[[("a", none)]], "", ""⟩ :=
    ⟨_, ⟨[[("a", none)]], "", ""⟩, rfl, rfl, rfl⟩
  exact ⟨read, stops, (globals_declared read options).2.2.1 _ _ _ stops⟩

end Session
end Lox
