import Lox.Proofs.Piecewise.Source
import Lox.Proofs.Source.Expression

/-!
An expression is read the same at the end of its text as between `print` and a semicolon: the text
with these around it is a program of one statement, and no expression.
-/
namespace Lox.Source

open Grammar

/-- A statement that prints the expression that a text is. The semicolon stands on a line of its
own, as the text may end in a comment. -/
def printed (source : List Char) : List Char := "print ".toList ++ source ++ "\n;".toList

variable {limits : Limits} {source : List Char} {tokens : List Token} {node : Node}

theorem printed_scans (scanned : Source.tokens source = .ok tokens) :
    Token.Scans (printed source) (.printWord :: (spelled tokens ++ [.semicolon])) := by
  have last : Token.Scans (";".toList ++ []) [.semicolon] :=
    .symbol (by decide) Token.Apart.nil.calm Token.Scans.nil
  have joined : Token.Scans (source ++ "\n;".toList) (spelled tokens ++ [.semicolon]) :=
    (scans_of_tokens scanned).2.2 _ _ last
  have apart : Token.Apart (' ' :: (source ++ "\n;".toList)) := by
    intro c front
    obtain rfl := Option.mem_some.mp front
    decide
  have whole : Token.Scans ("print".toList ++ ' ' :: (source ++ "\n;".toList))
      (.printWord :: (spelled tokens ++ [.semicolon])) :=
    .keyword (by decide) apart (joined.blank rfl)
  have same : printed source = "print".toList ++ ' ' :: (source ++ "\n;".toList) :=
    List.append_assoc _ source _
  rwa [same]

theorem printed_derived (phrase : Phrase .assignment (spelled tokens) node) :
    Grammar.Program (.printWord :: (spelled tokens ++ [.semicolon])) [.print node] := by
  let part : Part := ⟨.printWord :: (spelled tokens ++ [.semicolon]), .print node⟩
  have sentence : Sentence .declaration part.kinds part.node := .statement (.output phrase)
  refine ⟨[part], ?_, (List.append_nil _).symm, rfl⟩
  intro each member
  obtain rfl := List.mem_singleton.mp member
  exact sentence

/-- With enough room a text is read as an expression if it is read as one with any, and its printed
form is read as the statement that prints that expression, unless the reading comes to the limit. -/
theorem printed_reads (read : expression limits source = .ok node) :
    (∀ others, program others (printed source) = .ok [.print node] ∨
      TooDeep (program others (printed source))) ∧
    ∃ enough, ∀ others : Limits, enough ≤ others.parsing →
      expression others source = .ok node ∧ program others (printed source) = .ok [.print node] := by
  obtain ⟨tokens, scanned, returned⟩ := expression_eq_ok.mp read
  have phrase := parseExpression_sound (ended_of_ok returned) returned
  obtain ⟨within, enough, reads⟩ := program_of_scans (printed_derived phrase) (printed_scans scanned)
  obtain ⟨-, more, rereads⟩ := expression_of_scans (scans_of_tokens scanned).1 phrase
  refine ⟨within, max enough more, fun others room => ?_⟩
  exact ⟨rereads others (le_of_max_le_right room), reads others (le_of_max_le_left room)⟩

theorem printed_unphrased (scanned : Source.tokens source = .ok tokens) :
    ∃ others, Source.tokens (printed source) = .ok others ∧
      ∀ limit node, parseExpression limit others ≠ .ok node := by
  obtain ⟨others, rescanned, -, spells⟩ := exists_tokens (printed_scans scanned)
    (by simp [(scans_of_tokens scanned).2.1])
  refine ⟨others, rescanned, fun limit node returned => ?_⟩
  have phrase := parseExpression_sound (ended_of_ok returned) returned
  rw [spells] at phrase
  obtain ⟨kind, rest, same, opens⟩ := phrase.starts_phrase
  obtain ⟨rfl, -⟩ := List.cons.inj same
  cases opens

end Lox.Source
