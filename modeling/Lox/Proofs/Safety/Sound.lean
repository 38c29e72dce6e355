import Lox.Proofs.Grammar.Boundary
import Lox.Proofs.Safety.Known
import Lox.Proofs.Safety.Observed

/-!
What the grammar derives runs without internal errors. From scopes that hold known values only, each
step of a run comes to such scopes again, and all values that are seen on the way are known. The
main statements are `Phrase.safe` and `Sentence.safe`, by induction on the derivation.
-/
namespace Lox

def Sight.Known : Sight → Prop
  | produced value | printed value => value.known = true
  | scopes chain => chain.Known

/-- How a run may end: with a good value or with an error that is about the program, and in either
case with known values in all scopes. -/
inductive Proper {α : Type} (good : α → Prop) : EStateM.Result Failure World α → Prop where
  | ok {value : α} {world : World} : good value → world.chain.Known → Proper good (.ok value world)
  | error {failure : Failure} {world : World} : ¬ failure.Internal → world.chain.Known →
    Proper good (.error failure world)

/-- A run that comes to known values and scopes only, if it starts with such scopes. -/
structure Safe {α : Type} (good : α → Prop) (observed : Observed α) : Prop where
  seen : ∀ context world, world.chain.Known →
    ∀ sight ∈ observed.sights context world, sight.Known
  ends : ∀ context world, world.chain.Known → Proper good (observed.run context world)

abbrev Produces (observed : Observed Value) : Prop := Safe (fun value => value.known = true) observed

abbrev Acts (observed : Observed Unit) : Prop := Safe (fun _ => True) observed

namespace Safe

variable {α β : Type} {good : α → Prop} {fine : β → Prop} {observed : Observed α}

theorem ofRun {run : Run α}
    {still : ∀ context world, (worldAfter (run context world)).chain = world.chain}
    (ends : ∀ context world, world.chain.Known → Proper good (run context world)) :
    Safe good (Observed.ofRun run still) :=
  ⟨fun _ _ _ _ member => absurd member List.not_mem_nil, ends⟩

theorem pure {value : α} (holds : good value) : Safe good (Pure.pure value) :=
  ofRun fun _ _ known => .ok holds known

theorem throw {failure : Failure} (ordinary : ¬ failure.Internal) :
    Safe good (Observed.throw failure) :=
  ofRun fun _ _ known => .error ordinary known

theorem bind {next : α → Observed β} (first : Safe good observed)
    (second : ∀ value, good value → Safe fine (next value)) : Safe fine (observed >>= next) := by
  constructor
  · intro context world known sight member
    rcases List.mem_append.mp member with before | after
    · exact first.seen context world known sight before
    · have ended := first.ends context world known
      cases result : observed.run context world with
      | error failure middle =>
        rw [result] at after
        cases after
      | ok value middle =>
        rw [result] at after ended
        cases ended with
        | ok holds known => exact (second value holds).seen context middle known sight after
  · intro context world known
    have ended := first.ends context world known
    rw [Observed.bind_run]
    simp only [Bind.bind, ReaderT.bind, EStateM.bind]
    cases result : observed.run context world with
    | error failure middle =>
      rw [result] at ended
      cases ended with
      | error ordinary known => exact .error ordinary known
    | ok value middle =>
      rw [result] at ended
      cases ended with
      | ok holds known => exact (second value holds).ends context middle known

theorem nested (cost : Nat) (each : Safe good observed) : Safe good (observed.nested cost) := by
  constructor
  · intro context world known sight member
    simp only [Observed.nested] at member
    split at member
    · exact each.seen _ world known sight member
    · cases member
  · intro context world known
    rw [Observed.nested_run, Run.nested]
    split
    · exact each.ends _ world known
    · exact .error nofun known

theorem ite {condition : Prop} [Decidable condition] {other : Observed α} (first : Safe good observed)
    (second : Safe good other) : Safe good (if condition then observed else other) := by
  split
  · exact first
  · exact second

theorem report (activity label : String) : Acts (Observed.report activity label) := by
  refine ofRun fun context world known => ?_
  rw [Run.report_eq]
  exact .ok trivial known

theorem lookup (name : String) : Produces (Observed.lookup name) := by
  refine ofRun fun context world known => ?_
  change Proper _ (Run.ofResult (world.chain.lookup name) context world)
  cases found : world.chain.lookup name with
  | ok value => exact .ok (known.lookup found) known
  | error error =>
    refine .error (fun internal => ?_) known
    cases internal with
    | runtime internal => exact Chain.lookup_error found internal

theorem ofResult {result : Value.Result} (lawful : Value.Lawful result) :
    Produces (Machine.ofResult result) := by
  cases lawful with
  | ok good => exact pure good
  | error ordinary =>
    refine throw fun internal => ?_
    cases internal with
    | runtime internal => exact ordinary internal

theorem limited {steps : Limits → Observed α} (each : ∀ limits, Safe good (steps limits)) :
    Safe good (Observed.limited steps) :=
  ⟨fun context => (each context.limits).seen context,
    fun context => (each context.limits).ends context⟩

theorem call (node : Node) : Produces (Machine.call node) := by
  have called : ¬ (Failure.runtime (.call node)).Internal := by
    intro internal
    cases internal with
    | runtime internal => cases internal
  have deep : ¬ Failure.tooDeep.Internal := nofun
  have either (limits : Limits) : Produces (if node.height ≤ limits.source
      then Observed.throw (.runtime (.call node)) else Observed.throw .tooDeep) :=
    ite (throw called) (throw deep)
  exact limited either

theorem producing {observed : Observed Value} (each : Produces observed) :
    Produces observed.producing := by
  refine ⟨fun context world known sight member => ?_, each.ends⟩
  rcases List.mem_append.mp member with before | last
  · exact each.seen context world known sight before
  · have ended := each.ends context world known
    cases result : observed.run context world with
    | error failure after =>
      rw [result] at last
      cases last
    | ok value after =>
      rw [result] at last ended
      cases ended with
      | ok good _ =>
        rw [List.mem_singleton.mp last]
        exact good

theorem print {value : Value} (good : value.known = true) : Acts (Observed.print value) := by
  constructor
  · intro context world known sight member
    rw [List.mem_singleton.mp member]
    exact good
  · exact fun _ _ known => .ok trivial known

theorem define {name : String} {held : Option Value}
    (good : ∀ value, held = some value → value.known = true) : Acts (Observed.define name held) := by
  constructor
  · intro context world known sight member
    rw [List.mem_singleton.mp member]
    exact known.define good
  · exact fun _ _ known => .ok trivial (known.define good)

theorem assign {name : String} {value : Value} (good : value.known = true) :
    Acts (Observed.assign name value) := by
  constructor
  · intro context world known sight member
    obtain ⟨changed, found, rfl⟩ := Option.map_eq_some_iff.mp (Option.mem_toList.mp member)
    exact known.assign? good found
  · intro context world known
    change Proper _ ((Run.ofResult (world.chain.assign name value) >>= fun chain =>
      modify fun world => { world with chain := chain }) context world)
    rw [Chain.assign]
    cases found : world.chain.assign? name value with
    | none =>
      refine .error (fun internal => ?_) known
      cases internal with
      | runtime internal => cases internal
    | some changed => exact .ok trivial (known.assign? good found)

theorem inScope (each : Safe good observed) : Safe good observed.inScope := by
  have entered (world : World) (known : world.chain.Known) : (Run.enter world).chain.Known :=
    Chain.Known.enter known
  constructor
  · intro context world known sight member
    rcases List.mem_cons.mp member with rfl | later
    · exact entered world known
    · rcases List.mem_append.mp later with inner | last
      · exact each.seen context (Run.enter world) (entered world known) sight inner
      · rw [List.mem_singleton.mp last]
        have ended := each.ends context (Run.enter world) (entered world known)
        generalize observed.run context (Run.enter world) = result at ended
        cases ended with
        | ok _ left => exact left.tail
        | error _ left => exact left.tail
  · intro context world known
    have ended := each.ends context (Run.enter world) (entered world known)
    rw [Observed.inScope_run, Run.inScope]
    generalize observed.run context (Run.enter world) = result at ended
    cases ended with
    | ok holds left => exact .ok holds left.tail
    | error ordinary left => exact .error ordinary left.tail

section
variable {condition : Observed Bool} {body : Observed Unit}
  (tests : Safe (fun _ => True) condition) (steps : Acts body)
include tests steps

theorem rounds (count : Nat) : Acts (Machine.rounds condition body count) := by
  induction count with
  | zero => exact throw nofun
  | succ count ih =>
    exact tests.bind fun _ _ => ite (steps.bind fun _ _ => ih) (pure trivial)

theorem whileTrue : Acts (Machine.whileTrue condition body) :=
  limited fun limits => rounds tests steps limits.rounds

end
end Safe

open Safe (report)

namespace Grammar

open Token (Kind)

/-! Expressions. -/

theorem literal_known {kind : Kind} {value : Value} (found : literal? kind = some value) :
    value.known = true := by
  cases kind <;> cases found <;> rfl

theorem literal_safe {value : Value} (good : value.known = true) :
    Produces (Node.literal value).observedEvaluate :=
  .producing (.nested 1 (.bind (report _ _) fun _ _ => .pure good))

theorem Level.join_cases {level : Level} {kind : Kind} {operator : Operator}
    (found : level.operator? kind = some operator) :
    (level.join = Node.logical ∧ (operator = .and ∨ operator = .or)) ∨
      (level.join = Node.binary ∧ operator ∈ Value.operators) := by
  revert found
  fun_cases Level.operator? level kind <;> intro found <;> cases found <;>
    simp [Level.join, Value.operators]

section
variable {left right : Node} {operator : Operator}
  (first : Produces left.observedEvaluate) (second : Produces right.observedEvaluate)
include second

theorem unary_safe (listed : operator = .bang ∨ operator = .minus) :
    Produces (Node.unary operator right).observedEvaluate := by
  refine .producing (.nested 1 (.bind (report _ _) fun _ _ => ?_))
  exact .bind (.nested 1 second) fun value _ => .ofResult (Value.unary_lawful listed value)

include first

theorem binary_safe (listed : operator ∈ Value.operators) :
    Produces (Node.binary left operator right).observedEvaluate := by
  refine .producing (.nested 1 (.bind (report _ _) fun _ _ => ?_))
  refine .bind (.nested 1 first) fun x known => .bind (.nested 1 second) fun y good => ?_
  exact .ofResult (Value.binary_lawful listed known good)

theorem logical_safe (listed : operator = .and ∨ operator = .or) :
    Produces (Node.logical left operator right).observedEvaluate := by
  refine .producing (.nested 1 (.bind (report _ _) fun _ _ => ?_))
  refine .bind (.nested 1 first) fun value known => ?_
  rcases listed with rfl | rfl
  · exact .ite (.nested 1 second) (.pure known)
  · exact .ite (.pure known) (.nested 1 second)

theorem join_safe {level : Level} {kind : Kind} (found : level.operator? kind = some operator) :
    Produces (level.join left operator right).observedEvaluate := by
  rcases Level.join_cases found with ⟨logical, listed⟩ | ⟨binary, listed⟩
  · rw [logical]
    exact logical_safe first second listed
  · rw [binary]
    exact binary_safe first second listed

end

theorem prefixOperator?_listed {kind : Kind} {operator : Operator}
    (found : prefixOperator? kind = some operator) : operator = .bang ∨ operator = .minus := by
  cases kind <;> cases found <;> simp

theorem Phrase.safe {level : Level} {kinds : List Kind} {node : Node}
    (phrase : Phrase level kinds node) : Produces node.observedEvaluate := by
  induction phrase with
  | assign _ ih =>
    refine .producing (.nested 1 (.bind (report _ _) fun _ _ => ?_))
    exact .bind (.nested 1 ih) fun value known => .bind (.assign known) fun _ _ => .pure known
  | disjunction _ ih => exact ih
  | chain _ _ operators _ first operands =>
    exact Link.chain_induction (motive := fun node => Produces node.observedEvaluate) first operands
      fun link listed _ left right => join_safe left right (operators link listed)
  | signed found _ ih => exact unary_safe ih (prefixOperator?_listed found)
  | unsigned _ ih => exact ih
  | call _ _ _ callee _ =>
    -- A call stops before it comes to its callee.
    exact applied_induction (motive := fun node => Produces node.observedEvaluate) callee
      fun _ _ _ _ => .producing (.nested 1 (.bind (report _ _) fun _ _ => .call _))
  | literal found => exact literal_safe (literal_known found)
  | identifier => exact .producing (.nested 1 (.bind (report _ _) fun _ _ => .lookup _))
  | grouping _ ih => exact .producing (.nested 1 (.bind (report _ _) fun _ _ => ih))

/-! Declarations and statements. -/

theorem declared_safe {name : String} {value : Node} (each : Produces value.observedEvaluate) :
    Acts (Node.declare name (some value)).observedExecute := by
  refine .nested 1 (.bind (report _ _) fun _ _ => ?_)
  exact .bind (.nested 1 each) fun value known => .define (by simpa using known)

theorem Variable.safe {kinds : List Kind} {node : Node} (declaration : Variable kinds node) :
    Acts node.observedExecute := by
  cases declaration with
  | bare => exact .nested 1 (.bind (report _ _) fun _ _ => .define nofun)
  | initialized phrase => exact declared_safe phrase.safe

theorem expression_safe {inner : Node} (each : Produces inner.observedEvaluate) :
    Acts (Node.expression inner).observedExecute :=
  .nested 1 (.bind (report _ _) fun _ _ => .bind each fun _ _ => .pure trivial)

theorem Evaluation.safe {kinds : List Kind} {node : Node} (evaluated : Evaluation kinds node) :
    Acts node.observedExecute := by
  cases evaluated with
  | intro phrase => exact expression_safe phrase.safe

theorem executeAll_safe (number : Nat) (nodes : List Node)
    (each : ∀ node ∈ nodes, Acts node.observedExecute) :
    Acts (Node.executeAllIn number nodes : Observed Unit) := by
  induction nodes generalizing number with
  | nil => exact .pure trivial
  | cons node nodes ih =>
    rw [List.forall_mem_cons] at each
    exact .bind each.1 fun _ _ => ih (number + 1) each.2

theorem block_safe {statements : List Node} (each : ∀ node ∈ statements, Acts node.observedExecute) :
    Acts (Node.block statements).observedExecute :=
  .nested 1 (.bind (report _ _) fun _ _ => .inScope (.nested 2 (executeAll_safe 0 statements each)))

theorem loop_safe {condition : Node} {body : List Node} (tests : Produces condition.observedEvaluate)
    (each : ∀ node ∈ body, Acts node.observedExecute) :
    Acts (Node.loop condition body).observedExecute := by
  refine .nested 1 (.bind (report _ _) fun _ _ => .nested 1 ?_)
  exact .whileTrue (.bind tests fun _ _ => .pure trivial) (.nested 1 (executeAll_safe 1 body each))

theorem Initializer.safe {kinds : List Kind} {held : Option Node} (begun : Initializer kinds held) :
    ∀ node ∈ held.toList, Acts node.observedExecute := by
  cases begun with
  | absent => simp
  | declared declaration => simpa using declaration.safe
  | evaluation evaluated => simpa using evaluated.safe

theorem Clause.safe {kinds : List Kind} {held : Option Node} (clause : Clause kinds held) :
    ∀ node ∈ held, Produces node.observedEvaluate := by
  cases clause with
  | absent => simp
  | present phrase => simpa using phrase.safe

theorem Sentence.safe {form : Form} {kinds : List Kind} {node : Node}
    (sentence : Sentence form kinds node) : Acts node.observedExecute := by
  induction sentence with
  | declared declaration => exact declaration.safe
  | statement _ ih => exact ih
  | evaluation evaluated => exact evaluated.safe
  | output phrase =>
    refine .nested 1 (.bind (report _ _) fun _ _ => ?_)
    exact .bind (.nested 1 phrase.safe) fun value known => .print known
  | choice phrase _ ih =>
    refine .nested 1 (.bind (report _ _) fun _ _ => ?_)
    exact .bind (.nested 1 phrase.safe) fun _ _ => .ite (.nested 1 ih) (.pure trivial)
  | alternative phrase _ _ branch other =>
    refine .nested 1 (.bind (report _ _) fun _ _ => ?_)
    exact .bind (.nested 1 phrase.safe) fun _ _ => .ite (.nested 1 branch) (.nested 1 other)
  | whileLoop phrase _ ih => exact loop_safe phrase.safe (by simpa using ih)
  | forLoop begun tested advanced _ ih =>
    refine block_safe fun node member => ?_
    rcases List.mem_append.mp member with first | loop
    · exact begun.safe node first
    · rw [List.mem_singleton.mp loop]
      refine loop_safe ?_ fun step listed => ?_
      · cases tested with
        | absent => exact literal_safe rfl
        | present phrase => exact phrase.safe
      · rcases List.mem_cons.mp listed with rfl | last
        · exact ih
        · obtain ⟨inner, among, rfl⟩ := Option.map_eq_some_iff.mp (Option.mem_toList.mp last)
          exact expression_safe (advanced.safe inner among)
  | block _ ih =>
    refine block_safe fun node member => ?_
    obtain ⟨part, among, rfl⟩ := List.mem_map.mp member
    exact ih part among

/-- Every program runs to its end, or it stops with an error that is about the program. -/
theorem Program.safe {kinds : List Kind} {statements : List Node} (program : Program kinds statements) :
    Acts (Node.observedExecuteAll statements) := by
  obtain ⟨parts, sentences, -, rfl⟩ := program
  refine executeAll_safe 0 _ fun node member => ?_
  obtain ⟨part, among, rfl⟩ := List.mem_map.mp member
  exact (sentences part among).safe

end Grammar
end Lox
