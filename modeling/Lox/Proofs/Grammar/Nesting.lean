import Lox.Grammar.Program

namespace Lox.Grammar

open Token (Kind)

def Within {α : Type} (parser other : Parser α) : Prop :=
  ∀ tokens, (∃ left, parser tokens = .error .tooDeep left) ∨ other tokens = parser tokens

namespace Within

variable {α β : Type}

theorem refl (parser : Parser α) : Within parser parser := fun _ => .inr rfl

theorem trans {first second third : Parser α} (lower : Within first second)
    (upper : Within second third) : Within first third := by
  intro tokens
  rcases lower tokens with deep | same
  · exact .inl deep
  · rcases upper tokens with deep | again
    · rw [same] at deep
      exact .inl deep
    · exact .inr (again.trans same)

theorem bind {parser other : Parser α} {next follow : α → Parser β} (first : Within parser other)
    (second : ∀ value, Within (next value) (follow value)) :
    Within (parser >>= next) (other >>= follow) := by
  intro tokens
  simp only [Bind.bind, EStateM.bind]
  rcases first tokens with ⟨left, deep⟩ | same
  · rw [deep]
    exact .inl ⟨left, rfl⟩
  · rw [same]
    cases parser tokens with
    | ok value middle => exact second value middle
    | error fault left => exact .inr rfl

theorem ite {condition : Prop} [Decidable condition] {yes yes' no no' : Parser α}
    (first : Within yes yes') (second : Within no no') :
    Within (if condition then yes else no) (if condition then yes' else no') := by
  split
  · exact first
  · exact second

theorem after {parser : Parser α} {next follow : α → Parser β}
    (second : ∀ value, Within (next value) (follow value)) :
    Within (parser >>= next) (parser >>= follow) :=
  (refl parser).bind second

theorem iterate {more others : α → Parser (Option α)}
    (each : ∀ value, Within (more value) (others value)) (bound : List Token) (value : α) :
    Within (iterate more bound value) (Grammar.iterate others bound value) := by
  induction bound generalizing value with
  | nil => exact refl _
  | cons _ bound ih =>
    refine (each value).bind fun next => ?_
    cases next with
    | none => exact refl _
    | some next => exact ih next

theorem repeated {more others : α → Parser (Option α)}
    (each : ∀ value, Within (more value) (others value)) (value : α) :
    Within (repeated more value) (Grammar.repeated others value) :=
  after fun tokens => iterate each tokens value

theorem items {ends : Kind → Bool} {item other : Parser α} (each : Within item other) :
    Within (items ends item) (Grammar.items ends other) := by
  refine after fun tokens => ?_
  induction tokens with
  | nil => exact refl _
  | cons _ bound ih =>
    exact after fun _ => (refl _).ite (each.bind fun _ => ih.bind fun _ => refl _)

theorem chain {operator? : Kind → Option Operator} {build : Node → Operator → Node → Node}
    {operand other : Parser Node} (each : Within operand other) :
    Within (chain operator? build operand) (Grammar.chain operator? build other) := by
  refine each.bind fun first => repeated (fun left => after fun token => ?_) first
  cases operator? token.kind with
  | none => exact refl _
  | some operator => exact after fun _ => each.bind fun _ => refl _

theorem furtherArguments {expression other : Parser Node} (each : Within expression other)
    (room : Nat) :
    Within (furtherArguments expression room) (Grammar.furtherArguments other room) := by
  induction room with
  | zero => exact refl _
  | succ room ih =>
    exact after fun _ => (each.bind fun _ => ih.bind fun _ => refl _).ite (refl _)

theorem listedArguments {expression other : Parser Node} (each : Within expression other) :
    Within (listedArguments expression) (Grammar.listedArguments other) :=
  after fun _ => (refl _).ite (each.bind fun _ => (each.furtherArguments 254).bind fun _ => refl _)

theorem arguments {expression other : Parser Node} (each : Within expression other) :
    Within (arguments expression) (Grammar.arguments other) :=
  each.listedArguments.bind fun _ => refl _

theorem calls {expression other : Parser Node} (each : Within expression other) (callee : Node) :
    Within (calls expression callee) (Grammar.calls other callee) :=
  repeated (fun _ => after fun _ => ite (each.arguments.bind fun _ => refl _) (refl _)) callee

theorem announced {kind : Kind} {parser other : Parser Node} (each : Within parser other) :
    Within (announced kind parser) (Grammar.announced kind other) :=
  after fun _ => (each.bind fun _ => refl _).ite (refl _)

theorem clause {ends : Kind} {parser other : Parser Node} (each : Within parser other) :
    Within (clause ends parser) (Grammar.clause ends other) :=
  after fun _ => (refl _).ite (each.bind fun _ => refl _)

theorem initializer {declaration evaluation declaration' evaluation' : Parser Node}
    (first : Within declaration declaration') (second : Within evaluation evaluation') :
    Within (initializer declaration evaluation) (Grammar.initializer declaration' evaluation') :=
  after fun _ => (refl _).ite
    (after fun _ => (first.bind fun _ => refl _).ite (second.bind fun _ => refl _))

end Within

open Within in
theorem step_within {lower upper : Rule → Parser Node}
    (each : ∀ rule, Within (lower rule) (upper rule)) (rule : Rule) :
    Within (step lower rule) (step upper rule) := by
  match rule with
  | .declaration => exact after fun _ => (each _).ite (each _)
  | .variable =>
    exact after fun _ => (Within.announced (each _)).bind fun _ => after fun _ => refl _
  | .statement =>
    refine after fun _ => (each _).ite <| after fun _ => (each _).ite <| after fun _ =>
      (each _).ite <| after fun _ => (each _).ite <| after fun _ => (each _).ite (each _)
  | .forLoop =>
    refine after fun _ => (Within.initializer (each _) (each _)).bind fun _ => ?_
    refine (Within.clause (each _)).bind fun _ => after fun _ => ?_
    exact (Within.clause (each _)).bind fun _ => after fun _ => (each _).bind fun _ => refl _
  | .choice =>
    refine after fun _ => (each _).bind fun _ => after fun _ => (each _).bind fun _ => ?_
    exact (Within.announced (each _)).bind fun _ => refl _
  | .whileLoop =>
    exact after fun _ => (each _).bind fun _ => after fun _ => (each _).bind fun _ => refl _
  | .output => exact (each _).bind fun _ => refl _
  | .evaluation => exact (each _).bind fun _ => refl _
  | .block => exact (Within.items (each _)).bind fun _ => refl _
  | .expression => exact each _
  | .assignment =>
    refine (each _).bind fun target => after fun rest => after fun found => ite ?_ (refl _)
    refine (each _).bind fun value => ?_
    cases target <;> exact refl _
  | .disjunction => exact Within.chain (each _)
  | .conjunction => exact Within.chain (each _)
  | .equality => exact Within.chain (each _)
  | .comparison => exact Within.chain (each _)
  | .term => exact Within.chain (each _)
  | .factor => exact Within.chain (each _)
  | .unary =>
    refine after fun token => ?_
    cases unaryOperator token.kind with
    | none => exact each _
    | some operator => exact after fun _ => (each _).bind fun _ => refl _
  | .call => exact (each _).bind fun callee => Within.calls (each _) callee
  | .primary =>
    refine after fun rest => after fun token => ?_
    cases token.kind with
    | leftParen => exact (each _).bind fun _ => refl _
    | _ => exact refl _

theorem parse_within_succ (limit : Nat) (rule : Rule) :
    Within (parse limit rule) (parse (limit + 1) rule) := by
  induction limit generalizing rule with
  | zero => exact fun tokens => .inl ⟨tokens, rfl⟩
  | succ limit ih => exact step_within ih rule

/-- A higher limit changes nothing about what was read within a lower one. -/
theorem parse_within {limit higher : Nat} (below : limit ≤ higher) (rule : Rule) :
    Within (parse limit rule) (parse higher rule) := by
  induction below with
  | refl => exact .refl _
  | step _ ih => exact ih.trans (parse_within_succ _ rule)

end Lox.Grammar
