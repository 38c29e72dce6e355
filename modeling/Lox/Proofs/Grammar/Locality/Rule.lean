import Lox.Proofs.Grammar.Boundary
import Lox.Proofs.Grammar.Locality.Parser
import Lox.Proofs.Grammar.Soundness

namespace Lox.Grammar

open Token (Kind)

def Rule.stops : Rule → Kind → Prop
  | .declaration | .statement | .forLoop | .choice | .whileLoop => (· ≠ .elseWord)
  | .variable | .output | .evaluation | .block => fun _ => True
  | .expression | .assignment => (· ∉ Level.assignment.continuing)
  | .disjunction => (· ∉ Level.disjunction.continuing)
  | .conjunction => (· ∉ Level.conjunction.continuing)
  | .equality => (· ∉ Level.equality.continuing)
  | .comparison => (· ∉ Level.comparison.continuing)
  | .term => (· ∉ Level.term.continuing)
  | .factor => (· ∉ Level.factor.continuing)
  | .unary => (· ∉ Level.unary.continuing)
  | .call => (· ∉ Level.call.continuing)
  | .primary => (· ∉ Level.primary.continuing)

theorem Level.stops_rule (level : Level) : level.rule.stops = (· ∉ level.continuing) := by
  cases level <;> rfl

section
variable {parser : Parser Node}

theorem clause_shape {ends : Kind} (tokens : List Token) : clause ends parser tokens =
    if decide ((front tokens).kind = ends) = true then .ok none tokens
    else (parser >>= fun node => pure (some node)) tokens := by
  simp only [clause, peek_bind, decide_eq_true_eq]
  split <;> rfl

theorem listedArguments_shape (tokens : List Token) : listedArguments parser tokens =
    if decide ((front tokens).kind = .rightParen) = true then .ok [] tokens
    else (parser >>= fun first => furtherArguments parser 254 >>= fun others =>
      pure (first :: others)) tokens := by
  simp only [listedArguments, peek_bind, decide_eq_true_eq]
  split <;> rfl

end

namespace Local

section
variable {α : Type} {passing first : Bool} {stops : Kind → Prop} {kind : Kind} {what : String}

theorem accept {yes no : Parser α} (inside : kind ≠ .endOfInput) (accepted : Local first stops yes)
    (otherwise : Local passing stops no) (closed : passing = true ∨ ¬ stops kind) :
    Local passing stops (accept kind >>= fun found => if found = true then yes else no) := by
  apply dispatch (accept_dispatches inside) _ otherwise
  · refine closed.imp_right fun unstopped other stop => if_neg fun same => ?_
    exact unstopped (same ▸ stop)
  · intro other run found
    by_cases same : other = kind
    · rw [if_pos same] at found
      cases found
      exact accepted.weaken
    · simp [same] at found

theorem require (inside : kind ≠ .endOfInput) : Local true stops (require kind what) := by
  apply dispatch (require_dispatches inside) _ (reject _) (.inl rfl)
  intro other run found
  by_cases same : other = kind
  · rw [if_pos same] at found
    cases found
    exact pure ()
  · simp [same] at found

theorem andThen {wider : Kind → Prop} {β : Type} {parser : Parser α} {next : α → Parser β}
    (begins : Local true wider parser) (follows : ∀ value, Local false stops (next value))
    (weaker : ∀ kind, stops kind → wider kind) : Local passing stops (parser >>= next) :=
  begins.bind follows (.inr weaker) fun _ => .inl rfl

theorem require_then {next : Parser α} (inside : kind ≠ .endOfInput)
    (follows : Local false stops next) :
    Local passing stops (Grammar.require kind what >>= fun _ => next) :=
  (require inside).andThen (fun _ => follows) fun _ => id

theorem then_require {wider : Kind → Prop} {β : Type} {parser : Parser α} {next : α → Parser β}
    (begins : Local first wider parser) (inside : kind ≠ .endOfInput)
    (follows : ∀ value, Local false stops (next value)) :
    Local passing stops
      (parser >>= fun value => Grammar.require kind what >>= fun _ => next value) :=
  begins.bind (fun value => require_then inside (follows value)) (.inl rfl) fun _ => .inr rfl

theorem requireName : Local true stops (requireName what) := by
  apply dispatch requireName_dispatches _ (reject _) (.inl rfl)
  intro other run found
  rcases Option.map_eq_some_iff.mp found with ⟨name, -, rfl⟩
  exact pure name

variable {parser : Parser Node}

theorem announced (inside : kind ≠ .endOfInput) (each : Local first stops parser)
    (unstopped : ¬ stops kind) : Local false stops (announced kind parser) :=
  accept inside (each.map some) (pure none) (.inr unstopped)

theorem clause {ends : Kind} (each : Local true stops parser) (stop : stops ends) :
    Local false (fun kind => decide (kind = ends) = true) (clause ends parser) := by
  apply guarded clause_shape (each.map some)
  intro kind same
  rw [of_decide_eq_true same]
  exact stop

theorem initializer {declaration evaluation : Parser Node}
    (declared : Local true stops declaration) (evaluated : Local true stops evaluation) :
    Local true stops (initializer declaration evaluation) := by
  have otherwise := accept (by simp : Kind.varWord ≠ .endOfInput) (declared.map some)
    (evaluated.map some) (.inl rfl)
  exact accept (by simp) (pure none) otherwise (.inl rfl)

def Closes (kind : Kind) : Prop := decide (kind = .rightParen) = true

theorem apart_of_closes (kind : Kind) (closes : Closes kind) :
    kind ∉ Level.assignment.continuing := by
  rw [of_decide_eq_true closes]
  simp [Level.continuing]

theorem furtherArguments (each : Local true (· ∉ Level.assignment.continuing) parser) (room : Nat) :
    Local false Closes (furtherArguments parser room) := by
  have inside : Kind.comma ≠ .endOfInput := by simp
  have noComma : ¬ Closes .comma := by simp [Closes]
  induction room with
  | zero =>
    have refused : Local true Closes (Grammar.reject .tooManyArguments : Parser (List Node)) :=
      reject _
    exact accept inside refused (pure []) (.inr noComma)
  | succ room ih =>
    have one : Local true Closes (parser >>= fun argument =>
        Grammar.furtherArguments parser room >>= fun others => Pure.pure (argument :: others)) :=
      each.andThen (fun argument => ih.map (argument :: ·)) apart_of_closes
    exact accept inside one (pure []) (.inr noComma)

theorem listedArguments (each : Local true (· ∉ Level.assignment.continuing) parser) :
    Local false Closes (listedArguments parser) := by
  have some : Local true Closes (parser >>= fun first =>
      Grammar.furtherArguments parser 254 >>= fun others => Pure.pure (first :: others)) :=
    each.andThen (fun first => (furtherArguments each 254).map (first :: ·)) apart_of_closes
  exact guarded listedArguments_shape some fun _ => id

theorem arguments (each : Local true (· ∉ Level.assignment.continuing) parser) :
    Local passing stops (arguments parser) :=
  (listedArguments each).then_require (by simp) fun listed => pure listed

end
end Local

/-! How the rules of expressions go on, by the kind of the token in front of them. -/

section
variable {rule : Rule → Parser Node}

theorem furtherOperand_loops {operator? : Kind → Option Operator}
    {build : Node → Operator → Node → Node} {operand : Parser Node}
    (noEnd : operator? .endOfInput = none) :
    Loops (furtherOperand operator? build operand) fun left kind =>
      (operator? kind).map fun operator => operand >>= fun right =>
        pure (build left operator right) := by
  intro left
  constructor
  · simp only [noEnd, Option.map_none]
  · intro token after run found
    rw [Option.map_map] at found
    rcases Option.map_eq_some_iff.mp found with ⟨operator, listed, rfl⟩
    have inside : token.kind ≠ .endOfInput := by
      intro atEnd
      rw [atEnd, noEnd] at listed
      cases listed
    simp only [furtherOperand, peek_bind, front_cons, listed, bind_of_ok (advance_cons inside)]
    simp
  · intro tokens missing
    rw [Option.map_map, Option.map_eq_none_iff] at missing
    simp only [furtherOperand, peek_bind, missing]

def callRun? (callee : Node) (kind : Kind) : Option (Parser Node → Parser Node) :=
  if kind = .leftParen then some fun expression => do
    let listed ← arguments expression
    return .call callee listed
  else none

theorem callRun?_eq_some {callee : Node} {kind : Kind} {run : Parser Node → Parser Node}
    (found : callRun? callee kind = some run) : kind = .leftParen ∧
      run = fun expression => arguments expression >>= fun listed => pure (.call callee listed) := by
  rw [callRun?] at found
  split at found
  · next opened =>
    cases found
    exact ⟨opened, rfl⟩
  · cases found

theorem furtherCall_loops {expression : Parser Node} :
    Loops (furtherCall expression) fun callee kind => (callRun? callee kind).map (· expression) := by
  intro callee
  constructor
  · rfl
  · intro token after run found
    rw [Option.map_map] at found
    rcases Option.map_eq_some_iff.mp found with ⟨inner, called, rfl⟩
    rcases callRun?_eq_some called with ⟨opened, rfl⟩
    refine (accept_bind_cons (by simp) opened).trans ?_
    simp
  · intro tokens missing
    apply accept_bind_other
    intro opened
    simp [callRun?, opened] at missing

theorem unary_dispatches : Dispatches (step rule .unary) (fun kind => (unaryOperator kind).map
    fun operator => rule .unary >>= fun right => pure (.unary operator right)) (rule .call) where
  noEnd := rfl
  passes token after run found := by
    rcases Option.map_eq_some_iff.mp found with ⟨operator, listed, rfl⟩
    have inside : token.kind ≠ .endOfInput := by
      intro atEnd
      rw [atEnd] at listed
      cases listed
    simp only [step, peek_bind, front_cons, listed, bind_of_ok (advance_cons inside)]
  other tokens missing := by
    rw [Option.map_eq_none_iff] at missing
    simp only [step, peek_bind, missing]

def primaryRun? : Kind → Option (Parser Node → Parser Node)
  | .identifier name => some fun _ => pure (.identifier name)
  | .leftParen => some fun expression => do
    let inner ← expression
    require .rightParen "')' after expression"
    return .grouping inner
  | kind => (literal? kind).map fun value _ => pure (.literal value)

def refusal : Parser Node := do
  let rest ← get
  let _ ← advance
  throw (.rejected (.expected "expression") rest)

theorem exists_advance (tokens : List Token) : ∃ left, advance tokens = .ok (front tokens) left := by
  by_cases atEnd : (front tokens).isEnd = true
  · refine ⟨tokens, ?_⟩
    rw [advance, peek_bind, if_pos atEnd]
    rfl
  · refine ⟨tokens.tail, ?_⟩
    rw [advance, peek_bind, if_neg atEnd]
    rfl

theorem primary_dispatches :
    Dispatches (step rule .primary) (fun kind => (primaryRun? kind).map (· (rule .expression)))
      refusal where
  noEnd := rfl
  passes token after run found := by
    have inside : token.kind ≠ .endOfInput := by
      intro atEnd
      rw [atEnd] at found
      cases found
    refine (bind_of_ok (advance_cons inside)).trans ?_
    revert found
    cases token.kind <;> intro found <;> cases found <;> rfl
  other tokens missing := by
    rcases exists_advance tokens with ⟨left, passed⟩
    refine (bind_of_ok passed).trans (Eq.trans ?_ (bind_of_ok passed).symm)
    revert missing
    cases (front tokens).kind <;> intro missing <;> first | rfl | cases missing

theorem primary_refuses (tokens : List Token) : ∃ left,
    refusal tokens = .error (.rejected (.expected "expression") tokens) left := by
  rcases exists_advance tokens with ⟨left, passed⟩
  exact ⟨left, bind_of_ok passed⟩

def assignTo (target : Node) (rest : List Token) (value : Node) : Parser Node :=
  match target with
  | .identifier name => return .assign name value
  | _ => throw (.rejected .invalidTarget rest)

def assigned (expression : Parser Node) (target : Node) : Parser Node := do
  let rest ← get
  if ← accept .equal then expression >>= assignTo target rest else return target

theorem step_assignment :
    step rule .assignment = (rule .disjunction >>= assigned (rule .assignment)) := rfl

section
variable {expression : Parser Node} {target : Node}

theorem assigned_equal {token : Token} {after : List Token} (equals : token.kind = .equal) :
    assigned expression target (token :: after) =
      (expression >>= assignTo target (token :: after)) after :=
  accept_bind_cons (by simp) equals

theorem assigned_other {tokens : List Token} (other : (front tokens).kind ≠ .equal) :
    assigned expression target tokens = .ok target tokens :=
  accept_bind_other other

theorem assignTo_local (target : Node) (rest : List Token) (value : Node) :
    Local false Rule.assignment.stops (assignTo target rest value) := by
  cases target with
  | identifier name => exact .pure _
  | _ =>
    intro tokens ending left ends
    cases ends with
    | refused ordinary => exact absurd rfl ordinary

theorem ends_assignTo {rest other tokens left : List Token} {ending : Ending Node}
    (ends : Ends ((expression >>= assignTo target rest) tokens) ending left) :
    Ends ((expression >>= assignTo target other) tokens) ending left := by
  rcases ends_bind.mp ends with ⟨value, middle, read, ends⟩ | refused
  · refine ends_bind.mpr (.inl ⟨value, middle, read, ?_⟩)
    cases target with
    | identifier name => exact ends
    | _ =>
      cases ends with
      | refused ordinary => exact absurd rfl ordinary
  · exact ends_bind.mpr (.inr refused)

end
end

section
variable {rule : Rule → Parser Node} (each : ∀ r, Local true r.stops (rule r))
include each

theorem ended_expression_local {stops : Kind → Prop} {what : String} {build : Node → Node} :
    Local true stops (do
      let value ← rule .expression
      require .semicolon what
      return build value) :=
  (each .expression).then_require (by simp) fun _ => .pure _

theorem condition_local {stops : Kind → Prop} {what ended : String} {next : Node → Parser Node}
    (follows : ∀ condition, Local true stops (next condition)) :
    Local true stops (do
      require .leftParen what
      let condition ← rule .expression
      require .rightParen ended
      next condition) :=
  .require_then (by simp)
    ((each .expression).then_require (by simp) fun condition => (follows condition).weaken)

theorem ended_local {inner : Rule} {stops : Kind → Prop} (finished : ∀ kind, inner.stops kind) :
    Local true stops (rule inner) :=
  (each inner).narrow fun kind _ => finished kind

theorem declaration_local : Local true Rule.declaration.stops (step rule .declaration) :=
  Local.accept (by simp) (ended_local each fun _ => trivial) (each .statement) (.inl rfl)

theorem variable_local : Local true Rule.variable.stops (step rule .variable) := by
  have initialized : Local false (· ∉ Level.assignment.continuing)
      (announced .equal (rule .expression)) :=
    .announced (by simp) (each .expression) (by simp [Level.continuing])
  exact Local.requireName.andThen
    (fun _ => initialized.then_require (by simp) fun _ => .pure _) fun _ => id

theorem statement_local : Local true Rule.statement.stops (step rule .statement) := by
  refine Local.accept (by simp) (each .forLoop) ?_ (.inl rfl)
  refine Local.accept (by simp) (each .choice) ?_ (.inl rfl)
  refine Local.accept (by simp) (@ended_local _ each .output _ fun _ => trivial) ?_ (.inl rfl)
  refine Local.accept (by simp) (each .whileLoop) ?_ (.inl rfl)
  exact Local.accept (by simp) (ended_local each fun _ => trivial)
    (ended_local each fun _ => trivial) (.inl rfl)

theorem forLoop_local : Local true Rule.forLoop.stops (step rule .forLoop) := by
  have begun : Local true (fun _ => True) (initializer (rule .variable) (rule .evaluation)) :=
    .initializer (each .variable) (each .evaluation)
  have clause {ends : Kind} (closes : ends ∉ Level.assignment.continuing) :=
    Local.clause (each .expression) closes
  refine .require_then (by simp) ?_
  refine begun.andThen (fun start => ?_) fun _ _ => trivial
  refine (clause (by simp [Level.continuing])).then_require (by simp) fun test => ?_
  refine (clause (by simp [Level.continuing])).then_require (by simp) fun advance => ?_
  exact ((each .statement).map _).weaken

theorem choice_local : Local true Rule.choice.stops (step rule .choice) := by
  refine condition_local each fun _ => ?_
  refine (each .statement).andThen (fun branch => ?_) fun _ => id
  have alternative : Local false Rule.statement.stops (announced .elseWord (rule .statement)) :=
    .announced (by simp) (each .statement) (not_not_intro rfl)
  exact alternative.map _

theorem whileLoop_local : Local true Rule.whileLoop.stops (step rule .whileLoop) :=
  condition_local each fun _ => (each .statement).map _

theorem block_local : Local true Rule.block.stops (step rule .block) := by
  have declarations : Local false (fun kind => endsBlock kind = true)
      (items endsBlock (rule .declaration)) := by
    refine Local.items (each .declaration) rfl fun kind ends same => ?_
    subst same
    cases ends
  exact declarations.then_require (by simp) fun _ => .pure _

theorem chained_local {level : Level} (chained : level.chained) :
    Local true level.rule.stops (step rule level.rule) := by
  have operand := each level.operand.rule
  rw [Level.stops_rule] at operand
  rw [step_chained chained, Level.stops_rule]
  refine operand.andThen (fun first => ?_) fun _ => Level.stops_operand
  refine Local.repeated (furtherOperand_loops ?_) ?_ ?_ (fun _ => Level.stops_operand) first
  · cases level <;> rfl
  · intro left kind stops
    rw [Level.operator?_of_stops stops]
    rfl
  · intro left kind run found
    rcases Option.map_eq_some_iff.mp found with ⟨operator, -, rfl⟩
    exact (operand.map _).weaken

theorem call_local : Local true Rule.call.stops (step rule .call) := by
  refine (each .primary).andThen (fun callee => ?_) fun _ _ => by simp [Rule.stops, Level.continuing]
  refine Local.repeated furtherCall_loops ?_ ?_ (fun _ => id) callee
  · intro callee kind stops
    rw [Option.map_eq_none_iff]
    refine if_neg fun same => ?_
    simp [same, Rule.stops, Level.continuing] at stops
  · intro callee kind run found
    rcases Option.map_eq_some_iff.mp found with ⟨called, listed, rfl⟩
    rcases callRun?_eq_some listed with ⟨-, rfl⟩
    exact (Local.arguments (each .expression)).map _

theorem unary_local : Local true Rule.unary.stops (step rule .unary) := by
  refine Local.dispatch unary_dispatches ?_ (each .call) (.inl rfl)
  intro kind run found
  rcases Option.map_eq_some_iff.mp found with ⟨operator, -, rfl⟩
  exact ((each .unary).map _).weaken

theorem primary_local : Local true Rule.primary.stops (step rule .primary) := by
  refine Local.dispatch primary_dispatches ?_ (.refuses primary_refuses) (.inl rfl)
  intro kind run found
  cases kind <;> cases found <;>
    first | exact .pure _ | exact (each .expression).then_require (by simp) fun _ => .pure _

theorem assignment_local : Local true Rule.assignment.stops (step rule .assignment) := by
  rw [step_assignment]
  refine (each .disjunction).andThen (fun target => ?_) fun _ => Level.stops_operand
  intro tokens ending rest ends
  by_cases assigned : (front tokens).kind = .equal
  · rcases cons_of_front_kind assigned (by simp) with ⟨token, after, rfl, equals⟩
    rw [assigned_equal equals] at ends
    have inner : Local true Rule.assignment.stops
        (rule .assignment >>= assignTo target (token :: after)) :=
      (each .assignment).andThen (assignTo_local target _) fun _ => id
    rcases inner _ _ _ ends with ⟨used, rfl, inside, -, reread⟩
    refine ⟨token :: used, rfl, by simp [equals, inside], by simp, fun again other alike agrees => ?_⟩
    rcases List.map_eq_cons_iff.mp alike with ⟨passed, left, rfl, same, leftAlike⟩
    rw [List.cons_append, assigned_equal (same.trans equals)]
    exact ends_assignTo (reread left other leftAlike agrees)
  · rw [assigned_other assigned] at ends
    cases ends
    refine ⟨[], rfl, by simp, by simp, fun again other alike agrees => ?_⟩
    have unassigned : (front other).kind ≠ .equal := by
      rcases agrees with same | stops
      · rw [same]
        exact assigned
      · intro equals
        simp [equals, Ending.allows, Rule.stops, Level.continuing] at stops
    rw [List.map_eq_nil_iff.mp alike, List.nil_append, assigned_other unassigned]
    exact .returned

theorem step_local (outer : Rule) : Local true outer.stops (step rule outer) := by
  match outer with
  | .declaration => exact declaration_local each
  | .variable => exact variable_local each
  | .statement => exact statement_local each
  | .forLoop => exact forLoop_local each
  | .choice => exact choice_local each
  | .whileLoop => exact whileLoop_local each
  | .output => exact ended_expression_local each
  | .evaluation => exact ended_expression_local each
  | .block => exact block_local each
  | .expression => exact each .assignment
  | .assignment => exact assignment_local each
  | .disjunction => exact @chained_local _ each .disjunction rfl
  | .conjunction => exact @chained_local _ each .conjunction rfl
  | .equality => exact @chained_local _ each .equality rfl
  | .comparison => exact @chained_local _ each .comparison rfl
  | .term => exact @chained_local _ each .term rfl
  | .factor => exact @chained_local _ each .factor rfl
  | .unary => exact unary_local each
  | .call => exact call_local each
  | .primary => exact primary_local each

end

/-- No rule looks further than to the token that it ends at. -/
theorem parse_local (limit : Nat) (rule : Rule) : Local true rule.stops (parse limit rule) := by
  induction limit generalizing rule with
  | zero =>
    intro tokens ending rest ends
    cases ends
  | succ limit ih => exact step_local ih rule

end Lox.Grammar
