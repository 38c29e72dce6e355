import Lox.Proofs.Grammar.Enclosed.Parser
import Lox.Proofs.Grammar.Locality.Program

namespace Lox.Grammar

open Token (Kind)

section
variable {rule : Rule → Parser Node} (near : ∀ r, Local true r.stops (rule r))
  (each : ∀ r tokens, Enclosed (rule r) tokens)
include each

theorem ended_expression_enclosed {what : String} {build : Node → Node} (tokens : List Token) :
    Enclosed (do
      let value ← rule .expression
      require .semicolon what
      return build value) tokens :=
  (each .expression tokens).then_require (by simp) fun _ _ => .pure _

theorem condition_enclosed {what ended : String} {next : Node → Parser Node}
    (follows : ∀ condition middle, Enclosed (next condition) middle) (tokens : List Token) :
    Enclosed (do
      require .leftParen what
      let condition ← rule .expression
      require .rightParen ended
      next condition) tokens :=
  .require_then (by simp) fun middle => (each .expression middle).then_require (by simp) follows

theorem variable_enclosed (tokens : List Token) : Enclosed (step rule .variable) tokens := by
  refine Enclosed.requireName.bind fun name middle _ => ?_
  exact (Enclosed.announced (each .expression) (by simp)).then_require (by simp) fun _ _ => .pure _

theorem statement_enclosed (tokens : List Token) : Enclosed (step rule .statement) tokens := by
  refine .accept (by simp) (each .forLoop) ?_
  refine .accept (by simp) (each .choice) ?_
  refine .accept (by simp) (each .output) ?_
  refine .accept (by simp) (each .whileLoop) ?_
  exact .accept (by simp) (each .block) (each .evaluation tokens)

theorem forLoop_enclosed (tokens : List Token) : Enclosed (step rule .forLoop) tokens := by
  refine .require_then (by simp) fun middle => ?_
  refine (Enclosed.initializer (each .evaluation) (each .variable)).bind fun start _ _ => ?_
  refine (Enclosed.clause (each .expression)).then_require (by simp) fun test _ => ?_
  refine (Enclosed.clause (each .expression)).then_require (by simp) fun advance _ => ?_
  exact (each .statement _).map _

theorem choice_enclosed (tokens : List Token) : Enclosed (step rule .choice) tokens := by
  refine condition_enclosed each (fun condition middle => ?_) tokens
  refine (each .statement middle).bind fun branch _ _ => ?_
  exact (Enclosed.announced (each .statement) (by simp)).map _

theorem unary_enclosed (tokens : List Token) : Enclosed (step rule .unary) tokens := by
  refine .dispatch unary_dispatches (fun token after run _ found => ?_) (each .call tokens)
  obtain ⟨operator, -, rfl⟩ := Option.map_eq_some_iff.mp found
  exact (each .unary after).map _

omit each in
/-- A token that starts no expression may be passed before it is refused. -/
theorem refusal_enclosed (tokens : List Token) : Enclosed refusal tokens := by
  obtain ⟨passed, cut⟩ := @Enclosed.advance tokens
  obtain ⟨rest, read⟩ := exists_advance tokens
  have refused {tokens rest : List Token} {token : Token} (read : advance tokens = .ok token rest) :
      refusal tokens = .error (.rejected (.expected "expression") tokens) rest := bind_of_ok read
  rw [read] at passed cut
  constructor
  · rw [refused read]
    exact passed
  · rw [refused read, refused cut]
    rfl
  · intro complaint others after refusal
    cases (refused read).symm.trans refusal
    exact .refl tokens

theorem primary_enclosed (tokens : List Token) : Enclosed (step rule .primary) tokens := by
  refine .dispatch primary_dispatches (fun token after run _ found => ?_) (refusal_enclosed tokens)
  cases named : token.kind <;> rw [named] at found <;> cases found <;>
    first
    | exact .pure _
    | exact (each .expression after).then_require (by simp) fun _ _ => .pure _

/-- The place of a bad target is told by its tokens up to the first end as well. -/
theorem assigned_enclosed (target : Node) (tokens : List Token) :
    Enclosed (assigned (rule .assignment) target) tokens := by
  by_cases found : (front tokens).kind = .equal
  · obtain ⟨token, after, rfl, equals⟩ := cons_of_front_kind found (by simp)
    have inside : token.kind ≠ .endOfInput := by simp [equals]
    obtain ⟨passed, cut, blamed⟩ := each .assignment after
    cases read : rule .assignment after with
    | error fault rest =>
      rw [read] at passed cut
      constructor
      · rw [assigned_equal equals]
        simp only [bind, EStateM.bind, read]
        exact passed.cons inside
      · rw [upToEnd_cons inside, assigned_equal equals, assigned_equal equals]
        simp only [bind, EStateM.bind, read, cut, cutOff]
      · intro complaint others last refused
        rw [assigned_equal equals] at refused
        simp only [bind, EStateM.bind, read] at refused
        cases refused
        exact (blamed complaint others _ read).cons inside
    | ok value rest =>
      rw [read] at passed cut
      constructor
      · rw [assigned_equal equals, bind_of_ok read]
        cases target <;> exact passed.cons inside
      · rw [upToEnd_cons inside, assigned_equal equals, assigned_equal equals, bind_of_ok read,
          bind_of_ok cut, ← upToEnd_cons inside]
        cases target <;> rfl
      · intro complaint others last refused
        rw [assigned_equal equals, bind_of_ok read] at refused
        cases target <;> cases refused <;> exact .refl _
  · have other : (front (upToEnd tokens)).kind ≠ .equal := by rwa [front_upToEnd]
    constructor
    · rw [assigned_other found]
      exact .refl tokens
    · rw [assigned_other found, assigned_other other]
      rfl
    · intro complaint others last refused
      rw [assigned_other found] at refused
      cases refused

include near

theorem chained_enclosed {level : Level} (chained : level.chained) (tokens : List Token) :
    Enclosed (step rule level.rule) tokens := by
  rw [step_chained chained]
  refine (each level.operand.rule tokens).bind fun first middle _ => ?_
  have noEnd : level.operator? .endOfInput = none := by cases level <;> rfl
  refine @Enclosed.repeated _ _ _ level.operand.rule.stops (furtherOperand_loops noEnd) ?_ ?_ first
    middle
  · intro left kind run found
    obtain ⟨operator, -, rfl⟩ := Option.map_eq_some_iff.mp found
    exact ((near level.operand.rule).map _).weaken
  · intro left kind run tokens found
    obtain ⟨operator, -, rfl⟩ := Option.map_eq_some_iff.mp found
    exact (each level.operand.rule tokens).map _

theorem call_enclosed (tokens : List Token) : Enclosed (step rule .call) tokens := by
  refine (each .primary tokens).bind fun callee middle _ => ?_
  refine @Enclosed.repeated _ _ _ Rule.call.stops furtherCall_loops ?_ ?_ callee middle
  · intro callee kind run found
    obtain ⟨called, listed, rfl⟩ := Option.map_eq_some_iff.mp found
    obtain ⟨-, rfl⟩ := callRun?_eq_some listed
    exact (Local.arguments (near .expression)).map _
  · intro callee kind run tokens found
    obtain ⟨called, listed, rfl⟩ := Option.map_eq_some_iff.mp found
    obtain ⟨-, rfl⟩ := callRun?_eq_some listed
    exact (Enclosed.arguments (each .expression)).map _

theorem step_enclosed (outer : Rule) (tokens : List Token) : Enclosed (step rule outer) tokens := by
  match outer with
  | .declaration => exact .accept (by simp) (each .variable) (each .statement tokens)
  | .variable => exact variable_enclosed each tokens
  | .statement => exact statement_enclosed each tokens
  | .forLoop => exact forLoop_enclosed each tokens
  | .choice => exact choice_enclosed each tokens
  | .whileLoop => exact condition_enclosed each (fun _ middle => (each .statement middle).map _) tokens
  | .output => exact ended_expression_enclosed each tokens
  | .evaluation => exact ended_expression_enclosed each tokens
  | .block =>
    exact (Enclosed.items (near .declaration) rfl (each .declaration) tokens).then_require (by simp)
      fun _ _ => .pure _
  | .expression => exact each .assignment tokens
  | .assignment =>
    rw [step_assignment]
    exact (each .disjunction tokens).bind fun target middle _ => assigned_enclosed each target middle
  | .disjunction => exact @chained_enclosed _ near each .disjunction rfl tokens
  | .conjunction => exact @chained_enclosed _ near each .conjunction rfl tokens
  | .equality => exact @chained_enclosed _ near each .equality rfl tokens
  | .comparison => exact @chained_enclosed _ near each .comparison rfl tokens
  | .term => exact @chained_enclosed _ near each .term rfl tokens
  | .factor => exact @chained_enclosed _ near each .factor rfl tokens
  | .unary => exact unary_enclosed each tokens
  | .call => exact call_enclosed near each tokens
  | .primary => exact primary_enclosed each tokens

end

section
variable {limit : Nat} {plain : Node → Bool}

/-- However deeply rules may be nested, and whatever comes of them, they stay in front of the first
end. -/
theorem parse_enclosed (limit : Nat) (rule : Rule) (tokens : List Token) :
    Enclosed (parse limit rule) tokens := by
  induction limit generalizing rule tokens with
  | zero => exact ⟨.refl tokens, rfl, fun _ _ _ refused => by cases refused⟩
  | succ limit ih => exact step_enclosed (parse_local limit) ih rule tokens

theorem singleExpression_enclosed (tokens : List Token) :
    Enclosed (singleExpression limit) tokens := by
  refine (parse_enclosed limit .expression tokens).settled.bind fun node middle _ => ?_
  refine (Enclosed.peek.map Token.isEnd).bind fun ended rest _ => ?_
  split
  · exact .pure node
  · exact .reject _

theorem settled_eq_ok {α : Type} {parser : Parser α} {tokens rest : List Token} {value : α}
    (read : settled parser tokens = .ok value rest) : parser tokens = .ok value rest := by
  rw [settled] at read
  cases found : parser tokens with
  | ok first middle => simpa only [found] using read
  | error fault middle =>
    rw [found] at read
    cases read

def plainDeclaration (limit : Nat) (plain : Node → Bool) : Parser Node := do
  let statement ← settled (parse limit .declaration)
  if plain statement then return statement else reject .tooDeep

theorem plainDeclaration_enclosed (tokens : List Token) :
    Enclosed (plainDeclaration limit plain) tokens := by
  refine (parse_enclosed limit .declaration tokens).settled.bind fun statement middle _ => ?_
  split
  · exact .pure _
  · exact .reject _

theorem plainDeclaration_shorter {statement : Node} {tokens rest : List Token}
    (read : plainDeclaration limit plain tokens = .ok statement rest) :
    rest.length < tokens.length := by
  obtain ⟨found, middle, first, accepted⟩ := bind_eq_ok.mp read
  split at accepted
  · obtain ⟨-, rfl⟩ := pure_eq_ok.mp accepted
    exact declaration_shorter (settled_eq_ok first)
  · cases accepted

theorem plainProgram_shape (tokens : List Token) : plainProgram limit plain tokens =
    if decide ((front tokens).kind = .endOfInput) = true then .ok [] tokens
    else (do
      let statement ← plainDeclaration limit plain
      let others ← plainProgram limit plain
      return statement :: others) tokens := by
  simp only [decide_eq_true_eq]
  split
  · next ended => rw [plainProgram, readProgram_end (isEnd_iff.mpr ended)]
  · next further =>
    have inside := (not_congr isEnd_iff).mpr further
    cases read : parse limit .declaration tokens with
    | error fault rest =>
      rw [plainProgram, readProgram_error inside read]
      simp only [plainDeclaration, settled, bind, EStateM.bind, read]
    | ok statement rest =>
      have first : settled (parse limit .declaration) tokens = .ok statement rest := by
        rw [settled, read]
      by_cases accepted : plain statement = true
      · have declared : plainDeclaration limit plain tokens = .ok statement rest := by
          rw [plainDeclaration, bind_of_ok first, if_pos accepted]
          rfl
        rw [bind_of_ok declared]
        simp only [bind, EStateM.bind, plainProgram, readProgram_ok inside read accepted,
          Reading.behind]
        cases (readProgram limit plain rest).fault <;> rfl
      · rw [plainProgram, readProgram_ornate inside read accepted]
        simp only [plainDeclaration, bind, EStateM.bind, first, if_neg accepted]
        rfl

theorem plainProgram_enclosed (tokens : List Token) :
    Enclosed (plainProgram limit plain) tokens := by
  induction size : tokens.length using Nat.strongRecOn generalizing tokens with
  | ind size ih =>
    refine .guarded (fun kind => decide (kind = .endOfInput)) plainProgram_shape fun _ => ?_
    refine (plainDeclaration_enclosed tokens).bind fun statement middle read => ?_
    have shorter := plainDeclaration_shorter read
    exact (ih middle.length (by omega) middle rfl).map _

end
end Lox.Grammar
