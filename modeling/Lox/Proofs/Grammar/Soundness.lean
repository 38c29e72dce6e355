import Lox.Proofs.Grammar.Derivation
import Lox.Proofs.Grammar.Reading

/-!
What the rules return is derived by the grammar from the tokens they passed. The main statement is
`parse_sound`, by induction on the nesting limit; what one level of nesting keeps is `step_sound`,
with a lemma for each kind of rule.
-/
namespace Lox.Grammar

open Token (Kind)

def Ended (kinds : List Kind) (node : Node) (next : Kind) : Prop :=
  ∃ dangling, Sentence (.statement dangling) kinds node ∧ (dangling = true → next ≠ .elseWord)

/-- What the tree that a rule returns has to do with the kinds of the tokens it passed and with
the kind that comes next. A rule that starts behind a keyword or a brace is told without it. -/
def Rule.Denotes : Rule → List Kind → Node → Kind → Prop
  | .declaration, kinds, node, _ => Sentence .declaration kinds node
  | .variable, kinds, node, _ => Variable (.varWord :: kinds) node
  | .statement, kinds, node, next => Ended kinds node next
  | .forLoop, kinds, node, next => Ended (.forWord :: kinds) node next
  | .choice, kinds, node, next => Ended (.ifWord :: kinds) node next
  | .whileLoop, kinds, node, next => Ended (.whileWord :: kinds) node next
  | .output, kinds, node, _ => Sentence (.statement false) (.printWord :: kinds) node
  | .evaluation, kinds, node, _ => Evaluation kinds node
  | .block, kinds, node, _ => Sentence (.statement false) (.leftBrace :: kinds) node
  | .expression, kinds, node, _ | .assignment, kinds, node, _ => Phrase .assignment kinds node
  | .disjunction, kinds, node, _ => Phrase .disjunction kinds node
  | .conjunction, kinds, node, _ => Phrase .conjunction kinds node
  | .equality, kinds, node, _ => Phrase .equality kinds node
  | .comparison, kinds, node, _ => Phrase .comparison kinds node
  | .term, kinds, node, _ => Phrase .term kinds node
  | .factor, kinds, node, _ => Phrase .factor kinds node
  | .unary, kinds, node, _ => Phrase .unary kinds node
  | .call, kinds, node, _ => Phrase .call kinds node
  | .primary, kinds, node, _ => Phrase .primary kinds node

def Sound {α : Type} (parser : Parser α) (meaning : List Kind → α → Kind → Prop) : Prop :=
  ∀ tokens value rest, parser tokens = .ok value rest →
    ∃ used, tokens = used ++ rest ∧ meaning (used.map Token.kind) value (front rest).kind

def Level.rule : Level → Rule
  | assignment => .assignment
  | disjunction => .disjunction
  | conjunction => .conjunction
  | equality => .equality
  | comparison => .comparison
  | term => .term
  | factor => .factor
  | unary => .unary
  | call => .call
  | primary => .primary

theorem Level.denotes_rule (level : Level) :
    level.rule.Denotes = fun kinds node _ => Phrase level kinds node := by
  cases level <;> rfl

theorem step_chained {rule : Rule → Parser Node} {level : Level} (chained : level.chained) :
    step rule level.rule = chain level.operator? level.join (rule level.operand.rule) := by
  have tables : orOperator = Level.disjunction.operator? ∧
      andOperator = Level.conjunction.operator? ∧ equalityOperator = Level.equality.operator? ∧
      comparisonOperator = Level.comparison.operator? ∧ termOperator = Level.term.operator? ∧
      factorOperator = Level.factor.operator? := by
    refine ⟨?_, ?_, ?_, ?_, ?_, ?_⟩ <;> funext kind <;> cases kind <;> rfl
  rcases tables with ⟨atOr, atAnd, atEquality, atComparison, atTerm, atFactor⟩
  cases level with
  | disjunction => simp only [Level.rule, step, atOr]; rfl
  | conjunction => simp only [Level.rule, step, atAnd]; rfl
  | equality => simp only [Level.rule, step, atEquality]; rfl
  | comparison => simp only [Level.rule, step, atComparison]; rfl
  | term => simp only [Level.rule, step, atTerm]; rfl
  | factor => simp only [Level.rule, step, atFactor]; rfl
  | assignment | unary | call | primary => simp [Level.chained] at chained

theorem unaryOperator_eq : unaryOperator = prefixOperator? := by
  funext kind
  cases kind <;> rfl

theorem Link.chain_eq_identifier {level : Level} {first : Node} {links : List Link} {name : String}
    (same : chain level first links = .identifier name) :
    links = [] ∧ first = .identifier name := by
  rcases List.eq_nil_or_concat links with rfl | ⟨before, last, rfl⟩
  · exact ⟨rfl, same⟩
  · cases level <;> simp [chain, Level.join] at same

theorem applied_eq_identifier {callee : Node} {calls : List (List Part)} {name : String}
    (same : applied callee calls = .identifier name) :
    calls = [] ∧ callee = .identifier name := by
  rcases List.eq_nil_or_concat calls with rfl | ⟨before, last, rfl⟩
  · exact ⟨rfl, same⟩
  · simp [applied] at same

theorem Phrase.kinds_of_identifier {level : Level} {kinds : List Kind} {name : String}
    (phrase : Phrase level kinds (.identifier name)) : kinds = [.identifier name] := by
  generalize shape : Node.identifier name = node at phrase
  induction phrase with
  | assign | signed | literal | grouping => cases shape
  | disjunction _ ih | unsigned _ ih => exact ih shape
  | chain _ _ _ _ ih =>
    rcases Link.chain_eq_identifier shape.symm with ⟨rfl, first⟩
    simpa using ih first.symm
  | call _ _ _ ih =>
    rcases applied_eq_identifier shape.symm with ⟨rfl, callee⟩
    simpa using ih callee.symm
  | identifier =>
    cases shape
    rfl

theorem Sentence.ended {kinds : List Kind} {node : Node} {next : Kind}
    (sentence : Sentence (.statement false) kinds node) : Ended kinds node next :=
  ⟨false, sentence, by simp⟩

section
variable {operand expression : Parser Node} {level : Level}

theorem further_operands_sound
    (sound : Sound operand fun kinds node _ => Phrase level.operand kinds node)
    (bound : List Token) (left : Node) :
    Sound (iterate (furtherOperand level.operator? level.join operand) bound left)
      fun kinds node _ => ∃ links : List Link, kinds = links.flatMap Link.kinds ∧
        (∀ link ∈ links, level.operator? link.kind = some link.operator) ∧
        (∀ link ∈ links, Phrase level.operand link.operand.kinds link.operand.node) ∧
        node = Link.chain level left links := by
  induction bound generalizing left with
  | nil =>
    intro tokens node rest read
    obtain ⟨rfl, rfl⟩ := pure_eq_ok.mp read
    exact ⟨[], rfl, [], by simp [Link.chain]⟩
  | cons _ bound ih =>
    intro tokens node rest read
    have noEnd : level.operator? .endOfInput = none := by cases level <;> rfl
    simp only [iterate, bind_eq_ok] at read
    rcases read with ⟨result, middle, one, others⟩
    rcases (furtherOperand_eq_ok noEnd).mp one with
      ⟨token, after, operator, right, rfl, listed, operandRead, rfl⟩ | ⟨-, rfl, rfl⟩
    · rcases sound _ _ _ operandRead with ⟨inner, rfl, phrase⟩
      rcases ih _ _ _ _ others with ⟨more, rfl, links, kinds, operators, operands, rfl⟩
      refine ⟨token :: (inner ++ more), by simp, ⟨token.kind, operator, inner.map Token.kind, right⟩ ::
        links, by simp [Link.kinds, kinds], ?_, ?_, rfl⟩
      · simpa [listed] using operators
      · simpa [phrase] using operands
    · obtain ⟨rfl, rfl⟩ := pure_eq_ok.mp others
      exact ⟨[], rfl, [], by simp [Link.chain]⟩

theorem chain_sound (chained : level.chained)
    (sound : Sound operand fun kinds node _ => Phrase level.operand kinds node) :
    Sound (chain level.operator? level.join operand) fun kinds node _ => Phrase level kinds node := by
  intro tokens node rest read
  simp only [chain, repeated, bind_eq_ok, get_eq_ok] at read
  rcases read with ⟨first, _, firstRead, _, _, ⟨rfl, rfl⟩, othersRead⟩
  rcases sound _ _ _ firstRead with ⟨used, rfl, phrase⟩
  rcases further_operands_sound sound _ _ _ _ _ othersRead with
    ⟨more, rfl, links, kinds, operators, operands, rfl⟩
  refine ⟨used ++ more, by simp, ?_⟩
  rw [List.map_append, kinds]
  exact .chain chained phrase operators operands

theorem further_arguments_sound
    (sound : Sound expression fun kinds node _ => Phrase .assignment kinds node) (room : Nat) :
    Sound (furtherArguments expression room) fun kinds listed _ => ∃ parts : List Part,
      kinds = (parts.flatMap fun part => .comma :: part.kinds) ∧ parts.length ≤ room ∧
        (∀ part ∈ parts, Phrase .assignment part.kinds part.node) ∧
        listed = parts.map Part.node := by
  induction room with
  | zero =>
    intro tokens listed rest read
    rcases (accept_bind_eq_ok (by simp)).mp read with ⟨_, _, rfl, -, refused⟩ | ⟨-, done⟩
    · simp only [reject, bind_eq_ok] at refused
      rcases refused with ⟨_, _, -, thrown⟩
      exact absurd thrown throw_ne_ok
    · obtain ⟨rfl, rfl⟩ := pure_eq_ok.mp done
      exact ⟨[], rfl, [], by simp⟩
  | succ room ih =>
    intro tokens listed rest read
    rcases (accept_bind_eq_ok (by simp)).mp read with ⟨token, _, rfl, comma, more⟩ | ⟨-, done⟩
    · simp only [bind_eq_ok, pure_eq_ok] at more
      rcases more with ⟨argument, _, argumentRead, others, _, othersRead, rfl, rfl⟩
      rcases sound _ _ _ argumentRead with ⟨used, rfl, phrase⟩
      rcases ih _ _ _ othersRead with ⟨left, rfl, parts, kinds, short, phrases, rfl⟩
      refine ⟨token :: (used ++ left), by simp, ⟨used.map Token.kind, argument⟩ :: parts, ?_, ?_,
        ?_, rfl⟩
      · simp [comma, kinds]
      · rw [List.length_cons]
        omega
      · simpa [phrase] using phrases
    · obtain ⟨rfl, rfl⟩ := pure_eq_ok.mp done
      exact ⟨[], rfl, [], by simp⟩

theorem listed_arguments_sound
    (sound : Sound expression fun kinds node _ => Phrase .assignment kinds node) :
    Sound (listedArguments expression) fun kinds listed _ => ∃ parts : List Part,
      kinds = separated parts ∧ parts.length ≤ 255 ∧
        (∀ part ∈ parts, Phrase .assignment part.kinds part.node) ∧
        listed = parts.map Part.node := by
  intro tokens listed rest read
  simp only [listedArguments, peek_bind_eq_ok] at read
  split at read
  · obtain ⟨rfl, rfl⟩ := pure_eq_ok.mp read
    exact ⟨[], rfl, [], by simp [separated]⟩
  · simp only [bind_eq_ok, pure_eq_ok] at read
    rcases read with ⟨first, _, firstRead, others, _, othersRead, rfl, rfl⟩
    rcases sound _ _ _ firstRead with ⟨used, rfl, phrase⟩
    rcases further_arguments_sound sound _ _ _ _ othersRead with
      ⟨left, rfl, parts, kinds, short, phrases, rfl⟩
    refine ⟨used ++ left, by simp, ⟨used.map Token.kind, first⟩ :: parts, ?_, ?_, ?_, rfl⟩
    · simp [separated, kinds]
    · rw [List.length_cons]
      omega
    · simpa [phrase] using phrases

theorem further_calls_sound
    (sound : Sound expression fun kinds node _ => Phrase .assignment kinds node)
    (bound : List Token) (callee : Node) :
    Sound (iterate (furtherCall expression) bound callee) fun kinds node _ =>
      ∃ calls : List (List Part), kinds = calls.flatMap enclosed ∧
        (∀ arguments ∈ calls, arguments.length ≤ 255) ∧
        (∀ arguments ∈ calls, ∀ part ∈ arguments, Phrase .assignment part.kinds part.node) ∧
        node = applied callee calls := by
  induction bound generalizing callee with
  | nil =>
    intro tokens node rest read
    obtain ⟨rfl, rfl⟩ := pure_eq_ok.mp read
    exact ⟨[], rfl, [], by simp [applied]⟩
  | cons _ bound ih =>
    intro tokens node rest read
    simp only [iterate, bind_eq_ok] at read
    rcases read with ⟨result, middle, one, others⟩
    rcases furtherCall_eq_ok.mp one with
      ⟨token, after, listed, rfl, opened, argumentsRead, rfl⟩ | ⟨-, rfl, rfl⟩
    · simp only [arguments, bind_eq_ok, pure_eq_ok, require_eq_ok (by simp : Kind.rightParen ≠ _)]
        at argumentsRead
      rcases argumentsRead with ⟨_, _, listedRead, _, _, ⟨last, rfl, closed⟩, rfl, rfl⟩
      rcases listed_arguments_sound sound _ _ _ listedRead with
        ⟨inner, rfl, parts, kinds, short, phrases, rfl⟩
      rcases ih _ _ _ _ others with ⟨more, rfl, calls, callKinds, shorts, allPhrases, rfl⟩
      refine ⟨token :: (inner ++ last :: more), by simp, parts :: calls, ?_, ?_, ?_, rfl⟩
      · simp [enclosed, opened, closed, kinds, callKinds]
      · simpa [short] using shorts
      · intro arguments member
        rcases List.mem_cons.mp member with rfl | later
        · exact phrases
        · exact allPhrases arguments later
    · obtain ⟨rfl, rfl⟩ := pure_eq_ok.mp others
      exact ⟨[], rfl, [], by simp [applied]⟩

end

section
variable {rule : Rule → Parser Node} (sound : ∀ r, Sound (rule r) r.Denotes)
include sound

theorem declaration_sound : Sound (step rule .declaration) Rule.declaration.Denotes := by
  intro tokens node rest read
  rcases (accept_bind_eq_ok (by simp)).mp read with
    ⟨token, after, rfl, word, variableRead⟩ | ⟨-, statementRead⟩
  · rcases sound _ _ _ _ variableRead with ⟨used, rfl, declared⟩
    refine ⟨token :: used, rfl, .declared ?_⟩
    simpa [word, Rule.Denotes] using declared
  · rcases sound _ _ _ _ statementRead with ⟨used, rfl, dangling, sentence, -⟩
    exact ⟨used, rfl, .statement sentence⟩

theorem variable_sound : Sound (step rule .variable) Rule.variable.Denotes := by
  intro tokens node rest read
  simp only [step, bind_eq_ok, pure_eq_ok, requireName_eq_ok,
    announced_eq_ok (by simp : Kind.equal ≠ _), require_eq_ok (by simp : Kind.semicolon ≠ _)] at read
  rcases read with ⟨name, _, ⟨first, rfl, named⟩, _, _, initialized, _, _,
    ⟨last, rfl, closed⟩, rfl, rfl⟩
  rcases initialized with ⟨equals, _, value, rfl, assigned, valueRead, rfl⟩ | ⟨-, rfl, rfl⟩
  · rcases sound _ _ _ _ valueRead with ⟨used, rfl, phrase⟩
    refine ⟨first :: equals :: (used ++ [last]), by simp, ?_⟩
    simpa [named, assigned, closed, Rule.Denotes] using Variable.initialized phrase
  · refine ⟨[first, last], rfl, ?_⟩
    simpa [named, closed, Rule.Denotes] using Variable.bare

theorem statement_sound : Sound (step rule .statement) Rule.statement.Denotes := by
  intro tokens node rest read
  simp only [step, accept_bind_eq_ok (by simp : Kind.forWord ≠ _),
    accept_bind_eq_ok (by simp : Kind.ifWord ≠ _), accept_bind_eq_ok (by simp : Kind.printWord ≠ _),
    accept_bind_eq_ok (by simp : Kind.whileWord ≠ _),
    accept_bind_eq_ok (by simp : Kind.leftBrace ≠ _)] at read
  -- the five keywords and the brace are passed, and what follows them is read by a rule of its own
  rcases read with ⟨token, _, rfl, word, inner⟩ | ⟨-, ⟨token, _, rfl, word, inner⟩ |
    ⟨-, ⟨token, _, rfl, word, inner⟩ | ⟨-, ⟨token, _, rfl, word, inner⟩ |
    ⟨-, ⟨token, _, rfl, word, inner⟩ | ⟨-, inner⟩⟩⟩⟩⟩ <;>
    rcases sound _ _ _ _ inner with ⟨used, rfl, denoted⟩
  · exact ⟨token :: used, rfl, by simpa [word, Rule.Denotes] using denoted⟩
  · exact ⟨token :: used, rfl, by simpa [word, Rule.Denotes] using denoted⟩
  · exact ⟨token :: used, rfl, by simpa [word, Rule.Denotes] using Sentence.ended denoted⟩
  · exact ⟨token :: used, rfl, by simpa [word, Rule.Denotes] using denoted⟩
  · exact ⟨token :: used, rfl, by simpa [word, Rule.Denotes] using Sentence.ended denoted⟩
  · exact ⟨used, rfl, (Sentence.evaluation denoted).ended⟩

theorem initializer_sound :
    Sound (initializer (rule .variable) (rule .evaluation)) fun kinds node _ =>
      Initializer kinds node := by
  intro tokens node rest read
  rcases initializer_eq_ok.mp read with ⟨token, rfl, semicolon, rfl⟩ |
    ⟨token, _, node, rfl, word, inner, rfl⟩ | ⟨-, -, node, inner, rfl⟩
  · exact ⟨[token], rfl, by simpa [semicolon] using Initializer.absent⟩
  · rcases sound _ _ _ _ inner with ⟨used, rfl, declared⟩
    refine ⟨token :: used, rfl, .declared ?_⟩
    simpa [word, Rule.Denotes] using declared
  · rcases sound _ _ _ _ inner with ⟨used, rfl, evaluated⟩
    exact ⟨used, rfl, .evaluation evaluated⟩

theorem clause_sound (ends : Kind) :
    Sound (clause ends (rule .expression)) fun kinds node _ => Clause kinds node := by
  intro tokens node rest read
  rcases clause_eq_ok.mp read with ⟨-, rfl, rfl⟩ | ⟨-, node, inner, rfl⟩
  · exact ⟨[], rfl, .absent⟩
  · rcases sound _ _ _ _ inner with ⟨used, rfl, phrase⟩
    exact ⟨used, rfl, .present phrase⟩

theorem forLoop_sound : Sound (step rule .forLoop) Rule.forLoop.Denotes := by
  intro tokens node rest read
  simp only [step, bind_eq_ok, pure_eq_ok, require_eq_ok (by simp : Kind.leftParen ≠ _),
    require_eq_ok (by simp : Kind.semicolon ≠ _),
    require_eq_ok (by simp : Kind.rightParen ≠ _)] at read
  rcases read with ⟨_, _, ⟨opening, rfl, opened⟩, start, _, startRead, test, _, testRead, _, _,
    ⟨middle, rfl, parted⟩, increment, _, incrementRead, _, _, ⟨closing, rfl, closed⟩,
    body, _, bodyRead, rfl, rfl⟩
  rcases initializer_sound sound _ _ _ startRead with ⟨first, rfl, started⟩
  rcases clause_sound sound _ _ _ _ testRead with ⟨second, rfl, tested⟩
  rcases clause_sound sound _ _ _ _ incrementRead with ⟨third, rfl, advanced⟩
  rcases sound _ _ _ _ bodyRead with ⟨inner, rfl, dangling, sentence, stops⟩
  refine ⟨opening :: (first ++ (second ++ middle :: (third ++ closing :: inner))), by simp,
    dangling, ?_, stops⟩
  simpa [opened, parted, closed, forNode, desugared] using Sentence.forLoop started tested advanced sentence

theorem choice_sound : Sound (step rule .choice) Rule.choice.Denotes := by
  intro tokens node rest read
  simp only [step, bind_eq_ok, pure_eq_ok, require_eq_ok (by simp : Kind.leftParen ≠ _),
    require_eq_ok (by simp : Kind.rightParen ≠ _),
    announced_eq_ok (by simp : Kind.elseWord ≠ _)] at read
  rcases read with ⟨_, _, ⟨opening, rfl, opened⟩, condition, _, conditionRead, _, _,
    ⟨closing, rfl, closed⟩, thenBranch, _, thenRead, _, _, elseRead, rfl, rfl⟩
  rcases sound _ _ _ _ conditionRead with ⟨test, rfl, phrase⟩
  rcases sound _ _ _ _ thenRead with ⟨branch, rfl, dangling, sentence, stops⟩
  rcases elseRead with ⟨word, _, elseBranch, rfl, spelled, otherRead, rfl⟩ | ⟨other, rfl, rfl⟩
  · rcases sound _ _ _ _ otherRead with ⟨more, rfl, outer, alternative, outerStops⟩
    -- the branch was left at an `else`, so it does not dangle
    obtain rfl : dangling = false := by simpa [spelled] using stops
    refine ⟨opening :: (test ++ closing :: (branch ++ word :: more)), by simp, outer, ?_,
      outerStops⟩
    simpa [opened, closed, spelled] using Sentence.alternative phrase sentence alternative
  · refine ⟨opening :: (test ++ closing :: branch), by simp, true, ?_, fun _ => other⟩
    simpa [opened, closed] using Sentence.choice phrase sentence

theorem whileLoop_sound : Sound (step rule .whileLoop) Rule.whileLoop.Denotes := by
  intro tokens node rest read
  simp only [step, bind_eq_ok, pure_eq_ok, require_eq_ok (by simp : Kind.leftParen ≠ _),
    require_eq_ok (by simp : Kind.rightParen ≠ _)] at read
  rcases read with ⟨_, _, ⟨opening, rfl, opened⟩, condition, _, conditionRead, _, _,
    ⟨closing, rfl, closed⟩, body, _, bodyRead, rfl, rfl⟩
  rcases sound _ _ _ _ conditionRead with ⟨test, rfl, phrase⟩
  rcases sound _ _ _ _ bodyRead with ⟨inner, rfl, dangling, sentence, stops⟩
  refine ⟨opening :: (test ++ closing :: inner), by simp, dangling, ?_, stops⟩
  simpa [opened, closed] using Sentence.whileLoop phrase sentence

theorem ended_expression_sound {what : String} {build : Node → Node} :
    Sound (do
        let value ← rule .expression
        require .semicolon what
        return build value)
      fun kinds node _ => ∃ inner value, Phrase .assignment inner value ∧
        kinds = inner ++ [.semicolon] ∧ node = build value := by
  intro tokens node rest read
  simp only [bind_eq_ok, pure_eq_ok, require_eq_ok (by simp : Kind.semicolon ≠ _)] at read
  rcases read with ⟨value, _, valueRead, _, _, ⟨last, rfl, closed⟩, rfl, rfl⟩
  rcases sound _ _ _ _ valueRead with ⟨used, rfl, phrase⟩
  exact ⟨used ++ [last], by simp, used.map Token.kind, value, phrase, by simp [closed], rfl⟩

theorem output_sound : Sound (step rule .output) Rule.output.Denotes := by
  intro tokens node rest read
  rcases ended_expression_sound sound _ _ _ read with ⟨used, rfl, inner, value, phrase, kinds, rfl⟩
  refine ⟨used, rfl, ?_⟩
  simpa [Rule.Denotes, kinds] using Sentence.output phrase

theorem evaluation_sound : Sound (step rule .evaluation) Rule.evaluation.Denotes := by
  intro tokens node rest read
  rcases ended_expression_sound sound _ _ _ read with ⟨used, rfl, inner, value, phrase, kinds, rfl⟩
  refine ⟨used, rfl, ?_⟩
  simpa [Rule.Denotes, kinds] using Evaluation.intro phrase

theorem items_sound (bound : List Token) :
    Sound (itemsUntil endsBlock (rule .declaration) bound) fun kinds nodes _ =>
      ∃ parts : List Part, (∀ part ∈ parts, Sentence .declaration part.kinds part.node) ∧
        kinds = parts.flatMap Part.kinds ∧ nodes = parts.map Part.node := by
  induction bound with
  | nil =>
    intro tokens nodes rest read
    obtain ⟨rfl, rfl⟩ := pure_eq_ok.mp read
    exact ⟨[], rfl, [], by simp⟩
  | cons _ bound ih =>
    intro tokens nodes rest read
    simp only [itemsUntil, peek_bind_eq_ok] at read
    split at read
    · obtain ⟨rfl, rfl⟩ := pure_eq_ok.mp read
      exact ⟨[], rfl, [], by simp⟩
    · simp only [bind_eq_ok, pure_eq_ok] at read
      rcases read with ⟨first, _, firstRead, others, _, othersRead, rfl, rfl⟩
      rcases sound _ _ _ _ firstRead with ⟨used, rfl, sentence⟩
      rcases ih _ _ _ othersRead with ⟨more, rfl, parts, sentences, kinds, rfl⟩
      refine ⟨used ++ more, by simp, ⟨used.map Token.kind, first⟩ :: parts, ?_, ?_, rfl⟩
      · simpa using ⟨sentence, sentences⟩
      · simp [kinds]

theorem block_sound : Sound (step rule .block) Rule.block.Denotes := by
  intro tokens node rest read
  simp only [step, items, bind_eq_ok, get_eq_ok, pure_eq_ok,
    require_eq_ok (by simp : Kind.rightBrace ≠ _)] at read
  rcases read with ⟨statements, _, ⟨_, _, ⟨rfl, rfl⟩, itemsRead⟩, _, _, ⟨last, rfl, closed⟩,
    rfl, rfl⟩
  rcases items_sound sound _ _ _ _ itemsRead with ⟨used, rfl, parts, sentences, kinds, rfl⟩
  refine ⟨used ++ [last], by simp, ?_⟩
  simpa [Rule.Denotes, kinds, closed] using Sentence.block sentences

theorem chained_sound {level : Level} (chained : level.chained) :
    Sound (step rule level.rule) level.rule.Denotes := by
  rw [step_chained chained, Level.denotes_rule]
  apply chain_sound chained
  have operand := sound level.operand.rule
  rw [Level.denotes_rule] at operand
  exact operand

theorem assignment_sound : Sound (step rule .assignment) Rule.assignment.Denotes := by
  intro tokens node rest read
  simp only [step, bind_eq_ok, get_eq_ok] at read
  rcases read with ⟨target, _, targetRead, _, _, ⟨rfl, rfl⟩, read⟩
  rcases sound _ _ _ _ targetRead with ⟨used, rfl, phrase⟩
  rw [← bind_eq_ok, accept_bind_eq_ok (by simp)] at read
  rcases read with ⟨equals, _, rfl, assigned, read⟩ | ⟨-, read⟩
  · simp only [bind_eq_ok] at read
    rcases read with ⟨value, _, valueRead, read⟩
    rcases sound _ _ _ _ valueRead with ⟨more, rfl, inner⟩
    split at read
    · rename_i name
      obtain ⟨rfl, rfl⟩ := pure_eq_ok.mp read
      refine ⟨used ++ equals :: more, by simp, ?_⟩
      simpa [phrase.kinds_of_identifier, assigned, Rule.Denotes] using Phrase.assign inner
    · exact absurd read throw_ne_ok
  · obtain ⟨rfl, rfl⟩ := pure_eq_ok.mp read
    exact ⟨used, rfl, .disjunction phrase⟩

theorem unary_sound : Sound (step rule .unary) Rule.unary.Denotes := by
  intro tokens node rest read
  simp only [step, peek_bind_eq_ok] at read
  cases found : unaryOperator (front tokens).kind with
  | none =>
    simp only [found] at read
    rcases sound _ _ _ _ read with ⟨used, rfl, phrase⟩
    exact ⟨used, rfl, .unsigned phrase⟩
  | some operator =>
    simp only [found, bind_eq_ok, pure_eq_ok] at read
    rcases read with ⟨token, _, passed, right, _, rightRead, rfl, rfl⟩
    rcases advance_eq_ok passed with ⟨rfl, atEnd | same⟩
    · simp [atEnd, unaryOperator] at found
    · rw [same]
      rcases sound _ _ _ _ rightRead with ⟨used, rfl, phrase⟩
      refine ⟨front tokens :: used, rfl, .signed ?_ phrase⟩
      rw [← unaryOperator_eq]
      exact found

theorem call_sound : Sound (step rule .call) Rule.call.Denotes := by
  intro tokens node rest read
  simp only [step, calls, repeated, bind_eq_ok, get_eq_ok] at read
  rcases read with ⟨callee, _, calleeRead, _, _, ⟨rfl, rfl⟩, callsRead⟩
  rcases sound _ _ _ _ calleeRead with ⟨used, rfl, phrase⟩
  rcases further_calls_sound (sound .expression) _ _ _ _ _ callsRead with
    ⟨more, rfl, calls, kinds, shorts, phrases, rfl⟩
  refine ⟨used ++ more, by simp, ?_⟩
  rw [List.map_append, kinds]
  exact .call phrase shorts phrases

theorem primary_sound : Sound (step rule .primary) Rule.primary.Denotes := by
  intro tokens node rest read
  simp only [step, bind_eq_ok, get_eq_ok] at read
  rcases read with ⟨_, _, ⟨rfl, rfl⟩, token, _, passed, read⟩
  rcases advance_eq_ok passed with ⟨-, atEnd | rfl⟩
  · simp only [atEnd] at read
    exact absurd read throw_ne_ok
  · cases shape : token.kind with
    | leftParen =>
      simp only [shape, bind_eq_ok, pure_eq_ok, require_eq_ok (by simp : Kind.rightParen ≠ _)]
        at read
      rcases read with ⟨inner, _, innerRead, _, _, ⟨last, rfl, closed⟩, rfl, rfl⟩
      rcases sound _ _ _ _ innerRead with ⟨used, rfl, phrase⟩
      refine ⟨token :: (used ++ [last]), by simp, ?_⟩
      simpa [shape, closed, Rule.Denotes] using Phrase.grouping phrase
    | identifier name =>
      simp only [shape, pure_eq_ok] at read
      rcases read with ⟨rfl, rfl⟩
      exact ⟨[token], rfl, by simpa [shape, Rule.Denotes] using Phrase.identifier⟩
    | falseWord | trueWord | nilWord | number value | string text =>
      simp only [shape, pure_eq_ok] at read
      rcases read with ⟨rfl, rfl⟩
      exact ⟨[token], rfl, .literal (by simp [shape, literal?])⟩
    | _ =>
      simp only [shape] at read
      exact absurd read throw_ne_ok

theorem step_sound (outer : Rule) : Sound (step rule outer) outer.Denotes := by
  match outer with
  | .declaration => exact declaration_sound sound
  | .variable => exact variable_sound sound
  | .statement => exact statement_sound sound
  | .forLoop => exact forLoop_sound sound
  | .choice => exact choice_sound sound
  | .whileLoop => exact whileLoop_sound sound
  | .output => exact output_sound sound
  | .evaluation => exact evaluation_sound sound
  | .block => exact block_sound sound
  | .expression => exact sound .assignment
  | .assignment => exact assignment_sound sound
  | .disjunction => exact @chained_sound _ sound .disjunction rfl
  | .conjunction => exact @chained_sound _ sound .conjunction rfl
  | .equality => exact @chained_sound _ sound .equality rfl
  | .comparison => exact @chained_sound _ sound .comparison rfl
  | .term => exact @chained_sound _ sound .term rfl
  | .factor => exact @chained_sound _ sound .factor rfl
  | .unary => exact unary_sound sound
  | .call => exact call_sound sound
  | .primary => exact primary_sound sound

end

/-- What a rule returns stands for the tokens it passed. -/
theorem parse_sound (limit : Nat) (rule : Rule) : Sound (parse limit rule) rule.Denotes := by
  induction limit generalizing rule with
  | zero =>
    intro tokens node rest read
    exact absurd read throw_ne_ok
  | succ limit ih => exact step_sound ih rule

end Lox.Grammar
