import Lox.Proofs.Grammar.Rendering.Phrase
import Lox.Proofs.Source.Reading

namespace Lox.Source

open Grammar

section
variable {limits : Limits} {source : List Char} {node : Node}

theorem expression_eq_ok : expression limits source = .ok node ↔
    ∃ tokens, Source.tokens source = .ok tokens ∧
      parseExpression limits.parsing tokens = .ok node := by
  rw [expression]
  cases Source.tokens source with
  | error error => simp [bind, Except.bind]
  | ok tokens =>
    cases result : parseExpression limits.parsing tokens <;>
      simp [bind, Except.bind, result, Except.mapError]

theorem expression_phrase (read : expression limits source = .ok node) :
    ∃ kinds, Phrase .assignment kinds node ∧ ∀ kind ∈ kinds, kind.Scanned := by
  rcases expression_eq_ok.mp read with ⟨tokens, scanned, returned⟩
  exact ⟨spelled tokens, parseExpression_sound (ended_of_ok returned) returned,
    spelled_scanned scanned⟩

theorem expression_of_scans {kinds : List Token.Kind} (scans : Token.Scans source kinds)
    (phrase : Phrase .assignment kinds node) :
    (∀ limits, expression limits source = .ok node ∨ TooDeep (expression limits source)) ∧
    ∃ enough, ∀ limits : Limits, enough ≤ limits.parsing → expression limits source = .ok node := by
  rcases exists_tokens scans phrase.inside with ⟨tokens, scanned, ended, same⟩
  have derived : Phrase .assignment (spelled tokens) node := by
    rw [same]
    exact phrase
  have read (limits : Limits) : expression limits source =
      (parseExpression limits.parsing tokens).mapError fun error => .grammar error := by
    rw [expression, scanned]
    rfl
  exact settles_of_complete (fun _ => rfl) read (parseExpression_complete ended derived)
    fun _ _ => parseExpression_within

theorem expression_of_spells {text : String} {kinds : List Token.Kind} (spells : Spells text kinds)
    (phrase : Phrase .assignment kinds node) :
    (∀ limits, expression limits text.toList = .ok node ∨ TooDeep (expression limits text.toList)) ∧
    ∃ enough, ∀ limits : Limits, enough ≤ limits.parsing →
      expression limits text.toList = .ok node := by
  have scans := spells.scans [] [] Token.Apart.nil Token.Scans.nil
  rw [List.append_nil, List.append_nil] at scans
  exact expression_of_scans scans phrase

/-- The source text of an expression is read as the expression with the name `inf` in place of
each infinite number, so as an equal one if and only if all of its numbers are finite. -/
theorem expression_reads_back (read : expression limits source = .ok node) :
    (∀ others, expression others node.source.toList = .ok node.readBack ∨
      TooDeep (expression others node.source.toList)) ∧
    (∃ enough, ∀ others : Limits, enough ≤ others.parsing →
      expression others node.source.toList = .ok node.readBack) ∧
    node.agrees node.readBack = node.finite ∧ (node.finite = true → node.readBack = node) := by
  rcases expression_phrase read with ⟨kinds, phrase, scanned⟩
  rcases expression_of_spells (phrase.spells scanned) phrase.readBack with ⟨within, enough⟩
  exact ⟨within, enough, node.agrees_readBack, Node.readBack_of_finite⟩

end

/-- In `-0.1 * x` the number is written so that it is read as the nearest number to a tenth. -/
theorem tenth_reads_back : ∃ node,
    expression .standard "-0.1 * x".toList = .ok node ∧
    node = .binary (.unary .minus (.literal (.number (.finite false 0x3fb999999999999a)))) .star
      (.identifier "x") ∧
    ∃ enough, ∀ others : Limits, enough ≤ others.parsing →
      expression others node.source.toList = .ok node := by
  have scanned : Source.tokens "-0.1 * x".toList = .ok
      [⟨.minus, "-", 1⟩, ⟨.number (.finite false 0x3fb999999999999a), "0.1", 1⟩, ⟨.star, "*", 1⟩,
        ⟨.identifier "x", "x", 1⟩, .endOfInput 1] := by decide +kernel
  have read : expression .standard "-0.1 * x".toList =
      .ok (.binary (.unary .minus (.literal (.number (.finite false 0x3fb999999999999a)))) .star
        (.identifier "x")) := expression_eq_ok.mpr ⟨_, scanned, rfl⟩
  rcases expression_reads_back read with ⟨-, enough, -, same⟩
  rw [same rfl] at enough
  exact ⟨_, read, rfl, enough⟩

/-- A one and 309 zeros denote infinity, whose text reads back as a name. -/
theorem infinite_reads_back_unequal :
    ¬ ∀ (limits : Limits) (source : List Char) (node : Node), expression limits source = .ok node →
      ∀ others : Limits, node.height ≤ others.source →
        ¬ TooDeep (expression others node.source.toList) →
        ∃ again, expression others node.source.toList = .ok again ∧ node.agrees again = true := by
  intro claimed
  have scanned : Source.tokens ('1' :: List.replicate 309 '0') = .ok
      [⟨.number (.infinite false), String.ofList ('1' :: List.replicate 309 '0'), 1⟩,
        .endOfInput 1] := by decide +kernel
  have named : Source.tokens "inf".toList = .ok [⟨.identifier "inf", "inf", 1⟩, .endOfInput 1] := by
    decide +kernel
  have read : expression .standard ('1' :: List.replicate 309 '0') =
      .ok (.literal (.number (.infinite false))) := expression_eq_ok.mpr ⟨_, scanned, rfl⟩
  have reread : expression .standard "inf".toList = .ok (.identifier "inf") :=
    expression_eq_ok.mpr ⟨_, named, rfl⟩
  have bounded : ¬ TooDeep (expression .standard "inf".toList) := by
    intro deep
    rcases deep with ⟨error, refused, -⟩
    rw [reread] at refused
    cases refused
  rcases claimed _ _ _ read .standard (by decide) bounded with ⟨again, found, equal⟩
  have same : again = .identifier "inf" := Except.ok.inj (found.symm.trans reread)
  rw [same] at equal
  cases equal

end Lox.Source
