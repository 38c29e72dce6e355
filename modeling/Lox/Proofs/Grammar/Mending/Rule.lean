import Lox.Proofs.Grammar.Completeness.Sentence
import Lox.Proofs.Grammar.Locality.Rule
import Lox.Proofs.Grammar.Mending.Parser

namespace Lox.Grammar

open Filter
open Token (Kind)

/-- The shortest tokens of a rule, behind the keyword or the brace that announces it. -/
def Rule.start : Rule → List Kind
  | .declaration | .statement | .output | .evaluation => [.nilWord, .semicolon]
  | .variable => [.identifier "", .semicolon]
  | .forLoop => [.leftParen, .semicolon, .semicolon, .rightParen, .nilWord, .semicolon]
  | .choice | .whileLoop => [.leftParen, .nilWord, .rightParen, .nilWord, .semicolon]
  | .block => [.rightBrace]
  | _ => [.nilWord]

/-! Each rule can be begun: what the grammar derives is read. -/

theorem nil_phrase (level : Level) : Phrase level [.nilWord] (.literal .nil) := by
  have primary : Phrase .primary [.nilWord] (.literal .nil) := .literal rfl
  have call : Phrase .call [.nilWord] (.literal .nil) :=
    @Phrase.call _ _ [] primary (by simp) (by simp)
  have chained {level : Level} (chained : level.chained)
      (operand : Phrase level.operand [.nilWord] (.literal .nil)) :
      Phrase level [.nilWord] (.literal .nil) :=
    @Phrase.chain level _ _ [] chained operand (by simp) (by simp)
  have factor := @chained .factor rfl (.unsigned call)
  have term := @chained .term rfl factor
  have comparison := @chained .comparison rfl term
  have equality := @chained .equality rfl comparison
  have conjunction := @chained .conjunction rfl equality
  have disjunction := @chained .disjunction rfl conjunction
  cases level with
  | assignment => exact .disjunction disjunction
  | disjunction => exact disjunction
  | conjunction => exact conjunction
  | equality => exact equality
  | comparison => exact comparison
  | term => exact term
  | factor => exact factor
  | unary => exact .unsigned call
  | call => exact call
  | primary => exact primary

theorem nil_evaluation : Evaluation [.nilWord, .semicolon] (.expression (.literal .nil)) :=
  .intro (nil_phrase .assignment)

theorem level_fresh (level : Level) :
    Completes (fun limit => parse limit level.rule) level.rule.stops [] [.nilWord] := by
  rw [Level.stops_rule]
  exact (nil_phrase level).reads.completes

theorem rule_fresh (rule : Rule) :
    Completes (fun limit => parse limit rule) rule.stops [] rule.start := by
  have phrase := nil_phrase .assignment
  have sentence : Sentence (.statement false) _ _ := .evaluation nil_evaluation
  have statement : Reads (fun limit => parse limit .statement) _ _ (false = true → · ≠ .elseWord) :=
    sentence.reads
  have declaration : Reads (fun limit => parse limit .declaration) _ _ (· ≠ .elseWord) :=
    (Sentence.statement sentence).reads
  have loop := forLoop_reads .absent .absent .absent sentence.reads
  have undangling (kind : Kind) (_ : kind ≠ .elseWord) : false = true → kind ≠ .elseWord := by simp
  cases rule with
  | declaration => exact declaration.completes
  | «variable» => exact (variable_reads .bare).completes
  | statement => exact statement.completes.narrow undangling
  | forLoop => exact loop.completes.narrow undangling
  | choice => exact (choice_reads phrase sentence.reads).completes
  | whileLoop => exact (whileLoop_reads phrase sentence.reads).completes.narrow undangling
  | output => exact (output_reads phrase).completes
  | evaluation => exact (evaluation_reads nil_evaluation).completes
  | block => exact (@block_reads [] (by simp) (by simp)).completes
  | expression => exact phrase.reads.expression.completes
  | assignment => exact level_fresh .assignment
  | disjunction => exact level_fresh .disjunction
  | conjunction => exact level_fresh .conjunction
  | equality => exact level_fresh .equality
  | comparison => exact level_fresh .comparison
  | term => exact level_fresh .term
  | factor => exact level_fresh .factor
  | unary => exact level_fresh .unary
  | call => exact level_fresh .call
  | primary => exact level_fresh .primary

/-! The parsers that rules are made of. -/

theorem parse_settles (rule : Rule) : Settles rule.stops fun limit => parse limit rule where
  near limit := (parse_local limit rule).weaken
  grows _ _ below := parse_within below rule

section
variable {α β : Type} {parser : Nat → Parser α} {stops wider : Kind → Prop} {kind : Kind}
  {what : String} {limit : Nat} {start first : List Kind}

theorem Settles.map (settles : Settles stops parser) (change : α → β) :
    Settles stops fun limit => parser limit >>= fun value => pure (change value) where
  near limit := (settles.near limit).map change
  grows lower higher below := (settles.grows lower higher below).bind fun _ => .refl _

theorem require_settles (inside : kind ≠ .endOfInput) : Settles stops fun _ => require kind what where
  near _ := (Local.require inside).weaken
  grows _ _ _ := .refl _

theorem Joins.any : Joins (fun _ => True) stops start := by
  cases start with
  | nil => exact fun _ _ => trivial
  | cons kind start => trivial

namespace Resumes

theorem require (inside : kind ≠ .endOfInput) :
    Resumes limit stops [kind] fun _ => require kind what := by
  constructor
  · intro more rest spelled _
    obtain ⟨token, rfl, found⟩ := List.map_eq_singleton_iff.mp spelled
    exact .returned () (Eventually.of_forall fun _ => require_cons inside found)
  · intro tokens
    by_cases found : (front tokens).kind = kind
    · obtain ⟨token, after, rfl, same⟩ := cons_of_front_kind found inside
      exact .returns (require_cons inside same)
    · exact .refuses ((require_dispatches inside).other tokens (if_neg found))

theorem require_then {next : Nat → Parser α} (inside : kind ≠ .endOfInput)
    (follows : Resumes limit stops start next) :
    Resumes limit stops (kind :: start) fun limit => Grammar.require kind what >>= fun _ => next limit :=
  (require inside).bind (require_settles inside) (fun _ => follows) .any

theorem then_require {next : α → Nat → Parser β} (begins : Resumes limit wider first parser)
    (settles : Settles wider parser) (inside : kind ≠ .endOfInput) (stop : wider kind)
    (follows : ∀ value, Resumes limit stops start (next value)) :
    Resumes limit stops (first ++ kind :: start) fun limit =>
      parser limit >>= fun value => Grammar.require kind what >>= fun _ => next value limit :=
  begins.bind settles (fun value => require_then inside (follows value)) stop

theorem requireName {name : String} :
    Resumes limit stops [.identifier name] fun _ => requireName what := by
  constructor
  · intro more rest spelled _
    obtain ⟨token, rfl, named⟩ := List.map_eq_singleton_iff.mp spelled
    have read : Grammar.requireName what (token :: rest) = .ok name rest :=
      requireName_eq_ok.mpr ⟨token, rfl, named⟩
    exact .returned name (Eventually.of_forall fun _ => read)
  · intro tokens
    have dispatches (limit : Nat) : Dispatches (Grammar.requireName what)
        (fun kind => ((named? kind).map fun name (_ : Nat) => (Pure.pure name : Parser String)).map
          (· limit))
        (Grammar.reject (.expected what)) := by
      simpa only [Option.map_map, Function.comp_def] using requireName_dispatches
    refine .dispatch dispatches (fun token after run _ found => ?_) (.refuses rfl)
    obtain ⟨name, -, rfl⟩ := Option.map_eq_some_iff.mp found
    exact .returns rfl

theorem accept {yes no : Nat → Parser α} (inside : kind ≠ .endOfInput)
    (accepted : ∀ tokens, Mends true limit stops yes tokens)
    (otherwise : Resumes limit stops start no) (joins : Joins (· ≠ kind) stops start) :
    Resumes limit stops start fun limit =>
      accept kind >>= fun found => if found = true then yes limit else no limit := by
  constructor
  · intro more rest spelled stop
    have other := joins.front spelled stop
    exact .congr (fun _ => accept_bind_other other) (otherwise.fresh more rest spelled stop)
  · intro tokens
    have dispatches (limit : Nat) : Dispatches
        (Grammar.accept kind >>= fun found => if found = true then yes limit else no limit)
        (fun other => (if other = kind then some yes else none).map (· limit)) (no limit) := by
      simpa only [apply_ite (Option.map _), Option.map_some, Option.map_none]
        using accept_dispatches inside
    refine .dispatch dispatches (fun token after run _ found => ?_) (otherwise.mends tokens)
    split at found
    · cases found
      exact accepted after
    · cases found

end Resumes
end

/-! The parts of rules that may be left out, and those that come several times. -/

section
variable {parser : Nat → Parser Node} {stops : Kind → Prop} {limit : Nat} {start : List Kind}
  (each : Resumes limit stops start parser)

theorem announced_settles {kind : Kind} (settles : Settles stops parser) (inside : kind ≠ .endOfInput)
    (unstopped : ¬ stops kind) : Settles stops fun limit => announced kind (parser limit) where
  near limit := .announced inside (settles.near limit) unstopped
  grows lower higher below := .announced (settles.grows lower higher below)

theorem clause_settles {ends : Kind} (near : ∀ limit, Local true stops (parser limit))
    (settles : Settles stops parser) (stop : stops ends) :
    Settles (fun kind => decide (kind = ends) = true) fun limit => clause ends (parser limit) where
  near limit := .clause (near limit) stop
  grows lower higher below := .clause (settles.grows lower higher below)

include each

theorem Resumes.announced {kind : Kind} (settles : Settles stops parser)
    (inside : kind ≠ .endOfInput) (unstopped : ¬ stops kind) :
    Resumes limit stops [] fun limit => announced kind (parser limit) := by
  refine .accept inside (each.map settles some).anew (.pure none) fun other stop same => ?_
  exact unstopped (same ▸ stop)

theorem Resumes.clause {ends : Kind} (settles : Settles stops parser) (stop : stops ends) :
    Resumes limit (fun kind => decide (kind = ends) = true) [] fun limit => clause ends (parser limit)
    where
  fresh more rest spelled stopped := by
    obtain rfl : more = [] := List.map_eq_nil_iff.mp spelled
    have absent (limit : Nat) : Grammar.clause ends (parser limit) rest = .ok none rest :=
      (clause_shape rest).trans (if_pos stopped)
    exact .returned none (Eventually.of_forall absent)
  mends tokens := by
    refine .guarded (fun kind => decide (kind = ends)) (fun limit => clause_shape) fun _ => ?_
    refine ((each.map settles some).narrow fun kind same => ?_).mends tokens
    rw [of_decide_eq_true same]
    exact stop

end

section
variable {limit : Nat} (each : ∀ r, Resumes limit r.stops r.start fun limit => parse limit r)

theorem initializer_settles :
    Settles (fun _ => True) fun limit => initializer (parse limit .variable) (parse limit .evaluation)
    where
  near limit := (Local.initializer (parse_local limit .variable) (parse_local limit .evaluation)).weaken
  grows _ _ below := .initializer (parse_within below _) (parse_within below _)

theorem furtherArguments_settles (room : Nat) :
    Settles Local.Closes fun limit => furtherArguments (parse limit .expression) room where
  near limit := .furtherArguments (parse_local limit .expression) room
  grows _ _ below := (parse_within below _).furtherArguments room

theorem listedArguments_settles :
    Settles Local.Closes fun limit => listedArguments (parse limit .expression) where
  near limit := .listedArguments (parse_local limit .expression)
  grows _ _ below := (parse_within below _).listedArguments

theorem arguments_settles {stops : Kind → Prop} :
    Settles stops fun limit => arguments (parse limit .expression) where
  near limit := .arguments (parse_local limit .expression)
  grows _ _ below := (parse_within below _).arguments

include each

theorem initializer_resumes : Resumes limit (fun _ => True) [.nilWord, .semicolon] fun limit =>
    initializer (parse limit .variable) (parse limit .evaluation) := by
  have declared := (each .variable).map (parse_settles _) some
  have evaluated := (each .evaluation).map (parse_settles _) some
  refine .accept (by simp) (Resumes.pure none).anew ?_ (by simp [Joins])
  exact .accept (by simp) declared.anew evaluated (by simp [Joins])

/-- The arguments that were begun are completed; those that are too many are left out. -/
theorem furtherArguments_resumes (room : Nat) :
    Resumes limit Local.Closes [] fun limit => furtherArguments (parse limit .expression) room := by
  have noComma : Joins (· ≠ Kind.comma) Local.Closes [] := by simp [Joins, Local.Closes]
  induction room with
  | zero =>
    refine .accept (by simp) ?_ (.pure []) noComma
    intro tokens complaint rest ends ordinary
    cases ends
    exact absurd rfl ordinary
  | succ room ih =>
    have others (argument : Node) := ih.map (furtherArguments_settles room) (argument :: ·)
    have more := (each .expression).bind (parse_settles _) others Local.apart_of_closes
    exact .accept (by simp) more.anew (.pure []) noComma

theorem listedArguments_resumes :
    Resumes limit Local.Closes [] fun limit => listedArguments (parse limit .expression) where
  fresh more rest spelled closes := by
    obtain rfl : more = [] := List.map_eq_nil_iff.mp spelled
    have none (limit : Nat) : listedArguments (parse limit .expression) rest = .ok [] rest :=
      (listedArguments_shape rest).trans (if_pos closes)
    exact .returned [] (Eventually.of_forall none)
  mends tokens := by
    have others (first : Node) :=
      (furtherArguments_resumes each 254).map (furtherArguments_settles 254) (first :: ·)
    have some := (each .expression).bind (parse_settles _) others Local.apart_of_closes
    exact .guarded (fun kind => decide (kind = .rightParen)) (fun limit => listedArguments_shape)
      fun _ => some.mends tokens

theorem arguments_resumes {stops : Kind → Prop} :
    Resumes limit stops [.rightParen] fun limit => arguments (parse limit .expression) :=
  (listedArguments_resumes each).then_require listedArguments_settles (by simp) rfl
    fun listed => .pure listed

/-! The rules, one after the other. -/

theorem ended_expression_resumes {stops : Kind → Prop} {what : String} {build : Node → Node} :
    Resumes limit stops [.nilWord, .semicolon] (fun limit => do
      let value ← parse limit .expression
      require .semicolon what
      return build value) :=
  (each .expression).then_require (parse_settles _) (by simp) (by simp [Rule.stops, Level.continuing])
    fun _ => .pure _

theorem condition_resumes {stops : Kind → Prop} {what ended : String} {start : List Kind}
    {next : Node → Nat → Parser Node} (follows : ∀ condition, Resumes limit stops start (next condition)) :
    Resumes limit stops (.leftParen :: .nilWord :: .rightParen :: start) (fun limit => do
      require .leftParen what
      let condition ← parse limit .expression
      require .rightParen ended
      next condition limit) :=
  .require_then (by simp) <| (each .expression).then_require (parse_settles _) (by simp)
    (by simp [Rule.stops, Level.continuing]) follows

theorem ended_resumes {inner : Rule} {stops : Kind → Prop} (finished : ∀ kind, inner.stops kind) :
    Resumes limit stops inner.start fun limit => parse limit inner :=
  (each inner).narrow fun kind _ => finished kind

theorem declaration_resumes :
    Resumes limit Rule.declaration.stops Rule.declaration.start fun limit =>
      step (parse limit) .declaration := by
  have declared := @ended_resumes _ each .variable Rule.declaration.stops fun _ => trivial
  exact .accept (by simp) declared.anew (each .statement) (by simp [Joins, Rule.start])

theorem variable_resumes :
    Resumes limit Rule.variable.stops Rule.variable.start fun limit => step (parse limit) .variable := by
  have apart {kind : Kind} (same : kind ∈ [Kind.equal]) : ¬ Rule.expression.stops kind := by
    simp_all [Rule.stops, Level.continuing]
  have initialized : Resumes limit Rule.expression.stops [] fun limit =>
      announced .equal (parse limit .expression) :=
    (each .expression).announced (parse_settles _) (by simp) (apart (by simp))
  have settles := @announced_settles _ _ .equal (parse_settles .expression) (by simp) (apart (by simp))
  have named : Settles (fun _ => True) fun _ => requireName "identifier after 'var'" :=
    ⟨fun _ => Local.requireName.weaken, fun _ _ _ => .refl _⟩
  apply Resumes.requireName.bind named _ .any
  intro name
  exact initialized.then_require settles (by simp) (by simp [Rule.stops, Level.continuing])
    fun _ => .pure _

theorem statement_resumes :
    Resumes limit Rule.statement.stops Rule.statement.start fun limit =>
      step (parse limit) .statement := by
  have output := @ended_resumes _ each .output Rule.statement.stops fun _ => trivial
  have block := @ended_resumes _ each .block Rule.statement.stops fun _ => trivial
  have evaluation := @ended_resumes _ each .evaluation Rule.statement.stops fun _ => trivial
  refine .accept (by simp) (each .forLoop).anew ?_ (by simp [Joins, Rule.start])
  refine .accept (by simp) (each .choice).anew ?_ (by simp [Joins, Rule.start])
  refine .accept (by simp) output.anew ?_ (by simp [Joins, Rule.start])
  refine .accept (by simp) (each .whileLoop).anew ?_ (by simp [Joins, Rule.start])
  exact .accept (by simp) block.anew evaluation (by simp [Joins, Rule.start])

theorem forLoop_resumes : Resumes limit Rule.forLoop.stops
    [.leftParen, .nilWord, .semicolon, .semicolon, .rightParen, .nilWord, .semicolon] fun limit =>
      step (parse limit) .forLoop := by
  have near (limit : Nat) := parse_local limit .expression
  have settles := parse_settles .expression
  have semicolon : Rule.expression.stops .semicolon := by simp [Rule.stops, Level.continuing]
  have closing : Rule.expression.stops .rightParen := by simp [Rule.stops, Level.continuing]
  have test := (each .expression).clause settles semicolon
  have advance := (each .expression).clause settles closing
  apply Resumes.require_then (by simp)
  refine (initializer_resumes each).bind initializer_settles (fun start => ?_) .any
  refine test.then_require (clause_settles near settles semicolon) (by simp) rfl fun condition => ?_
  refine advance.then_require (clause_settles near settles closing) (by simp) rfl fun increment => ?_
  exact (each .statement).map (parse_settles _) _

theorem choice_resumes :
    Resumes limit Rule.choice.stops Rule.choice.start fun limit => step (parse limit) .choice := by
  have alternative := (each .statement).announced (parse_settles _) (by simp : Kind.elseWord ≠ _)
    (not_not_intro rfl)
  have settles := announced_settles (parse_settles .statement) (by simp : Kind.elseWord ≠ _)
    (not_not_intro rfl)
  apply condition_resumes each
  intro condition
  exact (each .statement).bind (parse_settles _) (fun branch => alternative.map settles _) fun _ => id

theorem whileLoop_resumes :
    Resumes limit Rule.whileLoop.stops Rule.whileLoop.start fun limit =>
      step (parse limit) .whileLoop :=
  condition_resumes each fun _ => (each .statement).map (parse_settles _) _

theorem block_resumes :
    Resumes limit Rule.block.stops Rule.block.start fun limit => step (parse limit) .block := by
  have near (limit : Nat) := parse_local limit .declaration
  have grows (lower higher : Nat) (below : lower ≤ higher) := parse_within below .declaration
  have apart (kind : Kind) (ends : endsBlock kind = true) : Rule.declaration.stops kind := by
    intro same
    subst same
    cases ends
  have declarations := Resumes.items near grows (each .declaration) rfl apart
  have settles : Settles (fun kind => endsBlock kind = true) fun limit =>
      items endsBlock (parse limit .declaration) :=
    ⟨fun limit => .items (near limit) rfl apart, fun lower higher below => .items (grows lower higher below)⟩
  exact declarations.then_require settles (by simp) rfl fun _ => .pure _

theorem chained_mends {level : Level} (chained : level.chained) (tokens : List Token) :
    Mends false limit level.rule.stops (fun limit => step (parse limit) level.rule) tokens := by
  have operand := each level.operand.rule
  have settles := parse_settles level.operand.rule
  rw [Level.stops_rule] at operand settles
  rw [Level.stops_rule]
  have shape (limit : Nat) := @step_chained (parse limit) level chained
  simp only [shape]
  have right (left : Node) (operator : Operator) := operand.map settles (level.join left operator)
  have loops (limit : Nat) : Loops
      (furtherOperand level.operator? level.join (parse limit level.operand.rule))
      fun left kind => ((level.operator? kind).map fun operator limit =>
        parse limit level.operand.rule >>= fun right => pure (level.join left operator right)).map
          (· limit) := by
    have noEnd : level.operator? .endOfInput = none := by cases level <;> rfl
    simpa only [Option.map_map, Function.comp_def] using furtherOperand_loops noEnd
  have others (first : Node) : Resumes limit (· ∉ level.continuing) [] fun limit =>
      repeated (furtherOperand level.operator? level.join (parse limit level.operand.rule)) first := by
    refine .repeated loops ?_ ?_ ?_ (fun _ => Level.stops_operand) first
    · intro left kind stops
      rw [Level.operator?_of_stops stops]
      rfl
    · intro left kind run found
      obtain ⟨operator, -, rfl⟩ := Option.map_eq_some_iff.mp found
      exact settles.map _
    · intro left kind run found
      obtain ⟨operator, -, rfl⟩ := Option.map_eq_some_iff.mp found
      exact (right left operator).anew
  exact (operand.bind settles others fun _ => Level.stops_operand).mends tokens

theorem call_mends (tokens : List Token) :
    Mends false limit Rule.call.stops (fun limit => step (parse limit) .call) tokens := by
  have loops (limit : Nat) : Loops (furtherCall (parse limit .expression)) fun callee kind =>
      ((callRun? callee kind).map fun run limit => run (parse limit .expression)).map (· limit) := by
    simpa only [Option.map_map, Function.comp_def] using furtherCall_loops
  have apart (kind : Kind) (stops : Rule.call.stops kind) : Rule.primary.stops kind := by
    simp [Rule.stops, Level.continuing]
  have others (callee : Node) : Resumes limit Rule.call.stops [] fun limit =>
      repeated (furtherCall (parse limit .expression)) callee := by
    refine .repeated loops ?_ ?_ ?_ (fun _ => id) callee
    · intro callee kind stops
      rw [Option.map_eq_none_iff]
      refine if_neg fun same => ?_
      simp [same, Rule.stops, Level.continuing] at stops
    · intro callee kind run found
      obtain ⟨called, listed, rfl⟩ := Option.map_eq_some_iff.mp found
      obtain ⟨-, rfl⟩ := callRun?_eq_some listed
      exact arguments_settles.map _
    · intro callee kind run found
      obtain ⟨called, listed, rfl⟩ := Option.map_eq_some_iff.mp found
      obtain ⟨-, rfl⟩ := callRun?_eq_some listed
      exact ((arguments_resumes each).map arguments_settles _).anew
  exact ((each .primary).bind (parse_settles _) others apart).mends tokens

theorem unary_mends (tokens : List Token) :
    Mends false limit Rule.unary.stops (fun limit => step (parse limit) .unary) tokens := by
  have dispatches (limit : Nat) : Dispatches (step (parse limit) .unary)
      (fun kind => ((unaryOperator kind).map fun operator limit =>
        parse limit .unary >>= fun right => pure (Node.unary operator right)).map (· limit))
      (parse limit .call) := by
    simpa only [Option.map_map, Function.comp_def] using unary_dispatches
  refine .dispatch dispatches (fun token after run _ found => ?_) ((each .call).mends tokens)
  obtain ⟨operator, -, rfl⟩ := Option.map_eq_some_iff.mp found
  exact ((each .unary).map (parse_settles _) _).anew after

theorem primary_mends (tokens : List Token) :
    Mends false limit Rule.primary.stops (fun limit => step (parse limit) .primary) tokens := by
  have dispatches (limit : Nat) : Dispatches (step (parse limit) .primary)
      (fun kind => ((primaryRun? kind).map fun run limit => run (parse limit .expression)).map
        (· limit)) refusal := by
    simpa only [Option.map_map, Function.comp_def] using primary_dispatches
  obtain ⟨left, refused⟩ := primary_refuses tokens
  refine .dispatch dispatches (fun token after run _ found => ?_) (.refuses refused)
  obtain ⟨begun, listed, rfl⟩ := Option.map_eq_some_iff.mp found
  have grouped : Resumes limit Rule.primary.stops [.nilWord, .rightParen] (fun limit => do
      let inner ← parse limit .expression
      require .rightParen "')' after expression"
      return Node.grouping inner) :=
    (each .expression).then_require (parse_settles _) (by simp)
      (by simp [Rule.stops, Level.continuing]) fun _ => .pure _
  revert listed
  cases token.kind <;> intro listed <;> cases listed <;>
    first | exact .returns rfl | exact grouped.anew after

omit each in
theorem assignTo_finishes (target value : Node) (place rest : List Token) :
    Finishes (fun _ => assignTo target place value) rest rest := by
  cases target with
  | identifier name =>
    exact .returned (.assign name value) (Eventually.of_forall fun _ => rfl)
  | _ => exact .misassigned place rest (Eventually.of_forall fun _ => rfl)

theorem assigned_resumes (target : Node) :
    Resumes limit Rule.assignment.stops [] fun limit => assigned (parse limit .assignment) target where
  fresh more rest spelled stop := by
    obtain rfl : more = [] := List.map_eq_nil_iff.mp spelled
    have unassigned : (front rest).kind ≠ .equal := by
      intro equals
      simp [equals, Rule.stops, Level.continuing] at stop
    exact .returned target (Eventually.of_forall fun _ => assigned_other unassigned)
  mends tokens := by
    by_cases found : (front tokens).kind = .equal
    · obtain ⟨token, after, rfl, equals⟩ := cons_of_front_kind found (by simp)
      intro complaint rest ends ordinary
      change Ends (assigned (parse limit .assignment) target (token :: after)) _ _ at ends
      rw [assigned_equal equals] at ends
      rcases ends_bind.mp ends with ⟨value, middle, -, followed⟩ | ⟨_, same, refused⟩
      · cases target <;> cases followed
        all_goals contradiction
      · cases same
        obtain ⟨used, rfl, mended⟩ := (each .assignment).anew after complaint rest refused ordinary
        refine ⟨token :: used, rfl, fun _ => ?_⟩
        obtain ⟨kinds, completes⟩ := mended (.inl rfl)
        refine ⟨kinds, fun more rest spelled stop => ?_⟩
        refine .congr (fun _ => assigned_equal equals) ?_
        exact (completes more rest spelled stop).bind fun value => assignTo_finishes target value _ rest
    · exact .returns (assigned_other found)

theorem assignment_resumes :
    Resumes limit Rule.assignment.stops [.nilWord] fun limit => step (parse limit) .assignment := by
  simp only [step_assignment]
  exact (each .disjunction).bind (parse_settles _) (assigned_resumes each) fun _ => Level.stops_operand

theorem step_mends (rule : Rule) (tokens : List Token) :
    Mends false limit rule.stops (fun limit => step (parse limit) rule) tokens := by
  match rule with
  | .declaration => exact (declaration_resumes each).mends tokens
  | .variable => exact (variable_resumes each).mends tokens
  | .statement => exact (statement_resumes each).mends tokens
  | .forLoop => exact (forLoop_resumes each).mends tokens
  | .choice => exact (choice_resumes each).mends tokens
  | .whileLoop => exact (whileLoop_resumes each).mends tokens
  | .output => exact (ended_expression_resumes each).mends tokens
  | .evaluation => exact (ended_expression_resumes each).mends tokens
  | .block => exact (block_resumes each).mends tokens
  | .expression => exact (each .assignment).mends tokens
  | .assignment => exact (assignment_resumes each).mends tokens
  | .disjunction => exact @chained_mends _ each .disjunction rfl tokens
  | .conjunction => exact @chained_mends _ each .conjunction rfl tokens
  | .equality => exact @chained_mends _ each .equality rfl tokens
  | .comparison => exact @chained_mends _ each .comparison rfl tokens
  | .term => exact @chained_mends _ each .term rfl tokens
  | .factor => exact @chained_mends _ each .factor rfl tokens
  | .unary => exact unary_mends each tokens
  | .call => exact call_mends each tokens
  | .primary => exact primary_mends each tokens

end

theorem Completes.parse {rule : Rule} {used : List Token} {kinds : List Kind} {stops : Kind → Prop}
    (completes : Completes (fun limit => step (parse limit) rule) stops used kinds) :
    Completes (fun limit => Grammar.parse limit rule) stops used kinds := by
  intro more rest spelled stop
  cases completes more rest spelled stop with
  | returned value read => exact .returned value (eventually_parse read)
  | misassigned target left read => exact .misassigned target left (eventually_parse read)

/-- Whatever a rule has passed before it refuses a token can be completed. -/
theorem parse_resumes (limit : Nat) (rule : Rule) :
    Resumes limit rule.stops rule.start fun limit => parse limit rule := by
  induction limit generalizing rule with
  | zero =>
    refine ⟨rule_fresh rule, fun tokens complaint rest ends => ?_⟩
    cases ends
  | succ limit ih =>
    refine ⟨rule_fresh rule, fun tokens complaint rest ends ordinary => ?_⟩
    obtain ⟨used, split, mended⟩ := step_mends ih rule tokens complaint rest ends ordinary
    refine ⟨used, split, fun begun => ?_⟩
    obtain ⟨kinds, completes⟩ := mended begun
    exact ⟨kinds, completes.parse⟩

end Lox.Grammar
