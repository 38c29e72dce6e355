import Lox.Proofs.Grammar.Acceptance
import Lox.Proofs.Grammar.Locality.Program

/-!
An expression, and the statement that it is with a semicolon behind it. What begins as an expression
does is a declaration only as an expression up to a semicolon: `declaration_eq_ok`. So no list of
tokens is both an expression and a program, and an expression up to the end is the same as that
statement up to the end.
-/
namespace Lox.Grammar

open Token (Kind)

theorem Sentence.evaluation_of_expression {form : Form} {kinds : List Kind} {inner : Node}
    (sentence : Sentence form kinds (.expression inner)) : Evaluation kinds (.expression inner) := by
  generalize shape : Node.expression inner = node at sentence
  induction sentence with
  | declared declaration => cases declaration <;> cases shape
  | statement _ ih => exact ih shape
  | evaluation evaluated =>
    subst shape
    exact evaluated
  | output | choice | alternative | whileLoop | forLoop | block => cases shape

section
variable {limit : Nat} {tokens rest : List Token} {node : Node}

theorem parse_higher {higher : Nat} {rule : Rule} (below : limit ≤ higher)
    (read : parse limit rule tokens = .ok node rest) : parse higher rule tokens = .ok node rest := by
  rcases parse_within below rule tokens with ⟨left, deep⟩ | same
  · cases read.symm.trans deep
  · rw [same, read]

/-- A rule reads one thing only, whatever the limits. -/
theorem parse_unique {other : Nat} {rule : Rule} {again : Node} {left : List Token}
    (read : parse limit rule tokens = .ok node rest)
    (reread : parse other rule tokens = .ok again left) : node = again ∧ rest = left := by
  have first := parse_higher (Nat.le_max_left limit other) read
  have second := parse_higher (Nat.le_max_right limit other) reread
  cases first.symm.trans second
  exact ⟨rfl, rfl⟩

theorem opens_of_expression (read : parse limit .expression tokens = .ok node rest) :
    opensPhrase (front tokens).kind = true := by
  rcases parse_sound limit .expression tokens node rest read with ⟨used, rfl, phrase⟩
  exact (Phrase.starts_phrase phrase).front_kind rfl rest

theorem inside_of_opens (opens : opensPhrase (front tokens).kind = true) :
    ¬ (front tokens).isEnd = true := by
  intro ends
  exact ne_of_property opens rfl (of_decide_eq_true ends)

theorem declaration_eq_ok {statement : Node} (opens : opensPhrase (front tokens).kind = true) :
    parse (limit + 3) .declaration tokens = .ok statement rest ↔
      ∃ node semicolon, parse limit .expression tokens = .ok node (semicolon :: rest) ∧
        semicolon.kind = .semicolon ∧ statement = .expression node := by
  have leads : parse (limit + 3) .declaration tokens = parse (limit + 1) .evaluation tokens := by
    calc
      parse (limit + 3) .declaration tokens = parse (limit + 2) .statement tokens :=
        accept_bind_other (ne_of_property opens rfl)
      _ = parse (limit + 1) .evaluation tokens := statement_evaluation _ opens
  rw [leads]
  simp only [parse, step, bind_eq_ok, pure_eq_ok, require_eq_ok (by simp : Kind.semicolon ≠ _)]
  constructor
  · intro read
    rcases read with ⟨node, _, inner, _, _, ⟨semicolon, rfl, closed⟩, rfl, rfl⟩
    exact ⟨node, semicolon, inner, closed, rfl⟩
  · intro read
    rcases read with ⟨node, semicolon, inner, closed, rfl⟩
    exact ⟨node, _, inner, (), rest, ⟨semicolon, rfl, closed⟩, rfl, rfl⟩

theorem readProgram_first {plain : Node → Bool} {statements : List Node}
    (inside : ¬ (front tokens).isEnd = true)
    (finished : readProgram limit plain tokens = ⟨statements, rest, none⟩) :
    ∃ statement others left, parse limit .declaration tokens = .ok statement left ∧
      statements = statement :: others ∧ readProgram limit plain left = ⟨others, rest, none⟩ := by
  cases read : parse limit .declaration tokens with
  | error fault left =>
    rw [readProgram_error inside read] at finished
    cases finished
  | ok statement left =>
    by_cases accepted : plain statement = true
    · rw [readProgram_ok inside read accepted] at finished
      rcases Reading.behind_eq finished with ⟨others, rfl, later⟩
      exact ⟨statement, others, left, rfl, rfl, later⟩
    · rw [readProgram_ornate inside read accepted] at finished
      cases finished

theorem passed_to_end {used before : List Token} {last : Token} (ended : last.kind = .endOfInput)
    (inside : Kind.endOfInput ∉ before.map Token.kind)
    (passed : Kind.endOfInput ∉ used.map Token.kind) (atEnd : (front rest).isEnd = true)
    (split : before ++ [last] = used ++ rest) : before = used ∧ [last] = rest := by
  have lastEnds : (front [last]).isEnd = true := by simp [Token.isEnd, ended]
  have spells : before.map Token.kind = used.map Token.kind := by
    calc
      before.map Token.kind = spelled (before ++ [last]) := (spelled_append inside lastEnds).symm
      _ = spelled (used ++ rest) := by rw [split]
      _ = used.map Token.kind := spelled_append passed atEnd
  have length : before.length = used.length := by simpa using congrArg List.length spells
  exact List.append_inj split length

end

section
variable {limit : Nat} {tokens : List Token} {node : Node} {statements : List Node}

theorem parseExpression_eq_ok : parseExpression limit tokens = .ok node ↔
    (tokens.getLast?.any Token.isEnd) ∧ ∃ rest,
      parse limit .expression tokens = .ok node rest ∧ (front rest).isEnd = true := by
  constructor
  · intro returned
    have ended := ended_of_ok returned
    rcases (read_eq_ok ended).mp returned with ⟨rest, read⟩
    exact ⟨ended, rest, singleExpression_eq_ok.mp read⟩
  · intro read
    rcases read with ⟨ended, rest, read⟩
    exact (read_eq_ok ended).mpr ⟨rest, singleExpression_eq_ok.mpr read⟩

theorem parseProgram_eq_ok : parseProgram limit tokens = .ok statements ↔
    (tokens.getLast?.any Token.isEnd) ∧ ∃ rest,
      readProgram limit (fun _ => true) tokens = ⟨statements, rest, none⟩ := by
  constructor
  · intro returned
    have ended := ended_of_ok returned
    rcases (read_eq_ok ended).mp returned with ⟨rest, read⟩
    exact ⟨ended, rest, program_eq_ok.mp read⟩
  · intro read
    rcases read with ⟨ended, rest, read⟩
    exact (read_eq_ok ended).mpr ⟨rest, program_eq_ok.mpr read⟩

theorem parseProgram_higher {higher : Nat} (below : limit ≤ higher)
    (returned : parseProgram limit tokens = .ok statements) :
    parseProgram higher tokens = .ok statements := by
  rcases @parseProgram_within tokens limit higher below with ⟨error, refused, -⟩ | same
  · cases returned.symm.trans refused
  · rw [same, returned]

/-- An expression up to the end is no program, whatever the limits: as a program it would have to
come to a semicolon where it came to the end. -/
theorem expression_no_program {other : Nat} (expressed : parseExpression limit tokens = .ok node) :
    parseProgram other tokens ≠ .ok statements := by
  intro programmed
  rcases parseExpression_eq_ok.mp expressed with ⟨-, rest, read, atEnd⟩
  have opens := opens_of_expression read
  have further := parseProgram_higher (Nat.le_add_right other 3) programmed
  rcases parseProgram_eq_ok.mp further with ⟨-, left, finished⟩
  rcases readProgram_first (inside_of_opens opens) finished with
    ⟨statement, _, behind, declared, -, -⟩
  rcases (declaration_eq_ok opens).mp declared with ⟨inner, semicolon, reread, closed, -⟩
  obtain ⟨-, rfl⟩ := parse_unique read reread
  simp [Token.isEnd, closed] at atEnd

theorem expression_before {rest other : List Token}
    (stops : (front other).kind ∉ Level.assignment.continuing)
    (read : parse limit .expression (tokens ++ rest) = .ok node rest) :
    parse limit .expression (tokens ++ other) = .ok node other := by
  rcases parse_local limit .expression _ _ _ (ends_returned.mpr read) with ⟨used, split, -, -, reread⟩
  obtain rfl := List.append_cancel_right split
  exact ends_returned.mp (reread tokens other rfl (.inr stops))

section
variable {semicolon last : Token} (inside : Kind.endOfInput ∉ tokens.map Token.kind)
  (closed : semicolon.kind = .semicolon) (ended : last.kind = .endOfInput)
include inside closed ended

theorem statement_of_expression (expressed : parseExpression limit (tokens ++ [last]) = .ok node) :
    parseProgram (limit + 3) (tokens ++ [semicolon, last]) = .ok [.expression node] := by
  rcases parseExpression_eq_ok.mp expressed with ⟨-, rest, read, atEnd⟩
  rcases parse_local limit .expression _ _ _ (ends_returned.mpr read) with ⟨used, split, passed, -⟩
  obtain ⟨-, rfl⟩ := passed_to_end ended inside passed atEnd split
  have reread : parse limit .expression (tokens ++ [semicolon, last]) = .ok node [semicolon, last] :=
    expression_before (by simp [closed, Level.continuing]) read
  have opens := opens_of_expression reread
  have declared : parse (limit + 3) .declaration (tokens ++ [semicolon, last]) =
      .ok (.expression node) [last] :=
    (declaration_eq_ok opens).mpr ⟨node, semicolon, reread, closed, rfl⟩
  refine parseProgram_eq_ok.mpr ⟨by simp [Token.isEnd, ended], [last], ?_⟩
  rw [readProgram_ok (inside_of_opens opens) declared rfl,
    readProgram_end (by simp [Token.isEnd, ended])]
  rfl

theorem expression_of_statement
    (programmed : parseProgram (limit + 3) (tokens ++ [semicolon, last]) = .ok [.expression node]) :
    parseExpression limit (tokens ++ [last]) = .ok node := by
  rcases parseProgram_eq_ok.mp programmed with ⟨-, rest, finished⟩
  have begun : ¬ (front (tokens ++ [semicolon, last])).isEnd = true := by
    intro ends
    rw [readProgram_end ends] at finished
    cases finished
  rcases readProgram_first begun finished with ⟨_, _, left, declared, same, others⟩
  cases same
  have exhausted : (front left).isEnd = true := by
    by_contra further
    rcases readProgram_first further others with ⟨_, _, _, -, same, -⟩
    cases same
  rcases parse_sound _ _ _ _ _ declared with ⟨used, split, sentence⟩
  have opens := (Sentence.evaluation_of_expression sentence).starts.front_kind rfl left
  rw [← split] at opens
  rcases (declaration_eq_ok opens).mp declared with ⟨inner, mark, read, marked, same⟩
  cases same
  rcases parse_local limit .expression _ _ _ (ends_returned.mpr read) with ⟨passed, cut, unended, -⟩
  -- the semicolon is the one before the end, for only the end comes behind it
  have whole : (tokens ++ [semicolon]) ++ [last] = (passed ++ [mark]) ++ left := by simpa using cut
  obtain ⟨before, rfl⟩ := passed_to_end ended (by simp [inside, closed]) (by simp [unended, marked])
    exhausted whole
  obtain ⟨rfl, mark⟩ := List.append_inj' before rfl
  cases mark
  have reread : parse limit .expression (tokens ++ [last]) = .ok node [last] :=
    expression_before (by simp [ended, Level.continuing]) read
  exact parseExpression_eq_ok.mpr
    ⟨by simp [Token.isEnd, ended], [last], reread, by simp [Token.isEnd, ended]⟩

/-- The statement is read three rules deeper than the expression, so it may be the one that comes to
the limit. -/
theorem statement_within :
    parseProgram limit (tokens ++ [semicolon, last]) = .ok [.expression node] ↔
      parseExpression limit (tokens ++ [last]) = .ok node ∧
        ¬ Exhausted (parseProgram limit (tokens ++ [semicolon, last])) := by
  constructor
  · intro programmed
    have deeper := parseProgram_higher (Nat.le_add_right limit 3) programmed
    refine ⟨expression_of_statement inside closed ended deeper, ?_⟩
    rintro ⟨error, refused, -⟩
    cases programmed.symm.trans refused
  · rintro ⟨expressed, finished⟩
    have deeper := statement_of_expression inside closed ended expressed
    rcases @parseProgram_within (tokens ++ [semicolon, last]) limit (limit + 3)
      (Nat.le_add_right limit 3) with deep | same
    · exact absurd deep finished
    · rw [← same]
      exact deeper

end
end

/-- No list of tokens is read both as an expression and as a program, whatever the limits. And tokens
without an end among them are read as an expression when the end comes behind them if and only if
they are read, three rules deeper, as the program of just the statement that the expression is when
a semicolon and the end come behind them; within one limit, unless the program comes to the limit. -/
theorem readings_exclude_and_agree :
    (∀ tokens limit other node statements,
      ¬ (parseExpression limit tokens = .ok node ∧ parseProgram other tokens = .ok statements)) ∧
    ∀ (tokens : List Token) (semicolon last : Token),
      (∀ token ∈ tokens, token.kind ≠ .endOfInput) →
      semicolon.kind = .semicolon → last.kind = .endOfInput →
      ∀ limit node,
        (parseExpression limit (tokens ++ [last]) = .ok node ↔
          parseProgram (limit + 3) (tokens ++ [semicolon, last]) = .ok [.expression node]) ∧
        (parseProgram limit (tokens ++ [semicolon, last]) = .ok [.expression node] ↔
          parseExpression limit (tokens ++ [last]) = .ok node ∧
            ¬ Exhausted (parseProgram limit (tokens ++ [semicolon, last]))) := by
  constructor
  · rintro tokens limit other node statements ⟨expressed, programmed⟩
    exact expression_no_program expressed programmed
  · intro tokens semicolon last unended closed ended limit node
    have inside : Kind.endOfInput ∉ tokens.map Token.kind := by
      simpa using unended
    exact ⟨⟨statement_of_expression inside closed ended, expression_of_statement inside closed ended⟩,
      statement_within inside closed ended⟩

/-- `a = -b == c(d)` is an expression and no program, and with a semicolon it is a statement. -/
theorem assigned_comparison_agrees :
    let tokens : List Token := [⟨.identifier "a", "a", 1⟩, ⟨.equal, "=", 1⟩, ⟨.minus, "-", 1⟩,
      ⟨.identifier "b", "b", 1⟩, ⟨.equalEqual, "==", 1⟩, ⟨.identifier "c", "c", 1⟩,
      ⟨.leftParen, "(", 1⟩, ⟨.identifier "d", "d", 1⟩, ⟨.rightParen, ")", 1⟩]
    let last := Token.endOfInput 1
    let node : Node := .assign "a" (.binary (.unary .minus (.identifier "b")) .equalEqual
      (.call (.identifier "c") [.identifier "d"]))
    parseExpression 40 (tokens ++ [last]) = .ok node ∧
    (∀ limit statements, parseProgram limit (tokens ++ [last]) ≠ .ok statements) ∧
    parseProgram 43 (tokens ++ [⟨.semicolon, ";", 1⟩, last]) = .ok [.expression node] := by
  intro tokens last node
  have expressed : parseExpression 40 (tokens ++ [last]) = .ok node := rfl
  have unended : ∀ token ∈ tokens, token.kind ≠ .endOfInput := by decide
  have agree := readings_exclude_and_agree.2 tokens ⟨.semicolon, ";", 1⟩ last unended rfl rfl 40 node
  refine ⟨expressed, fun limit statements programmed => ?_, agree.1.mp expressed⟩
  exact readings_exclude_and_agree.1 (tokens ++ [last]) 40 limit node statements
    ⟨expressed, programmed⟩

end Lox.Grammar
