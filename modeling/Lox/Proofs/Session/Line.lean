import Lox.Proofs.Source.Expression
import Lox.Proofs.Source.Program
import Lox.Proofs.Source.Tracing
import Lox.Session

namespace Lox.Session

section
variable {options : Options} {source : List Char} {tree : ScopeTree}

theorem line_echo {node : Node} (read : Source.expression options.limits source = .ok node) :
    line options source tree = echo (evaluate options node tree) := by
  obtain ⟨tokens, scanned, returned⟩ := Source.expression_eq_ok.mp read
  rw [line, scanned]
  simp only [returned]

theorem line_statements {tokens : List Token} (scanned : Source.tokens source = .ok tokens)
    (unphrased : ∀ node, Grammar.parseExpression options.limits.parsing tokens ≠ .ok node) :
    line options source tree =
      match (Source.statements options.limits options.traced source tokens).2 with
      | .error error =>
        failed error (Source.statements options.limits options.traced source tokens).1 tree
      | .ok statements =>
        execute options 0 (Source.statements options.limits options.traced source tokens).1
          statements tree := by
  rw [line, scanned]
  dsimp only
  split
  · next node returned => exact absurd returned (unphrased node)
  · rfl

end

/-- What a line is taken for, and the step that it is then. -/
inductive Taken (options : Options) (source : List Char) (tree : ScopeTree) : Step Unit → Prop where
  | expression {node : Node} :
    Source.expression options.limits source = .ok node →
    Taken options source tree (echo (evaluate options node tree))
  | program {statements : List Node} (trace : String) :
    (∀ node, Source.expression options.limits source ≠ .ok node) →
    Source.program options.limits source = .ok statements →
    Taken options source tree (execute options 0 trace statements tree)
  | refused (error : SourceError) (trace : String) :
    (∀ node, Source.expression options.limits source ≠ .ok node) →
    Taken options source tree (failed error trace tree)

theorem line_taken (options : Options) (source : List Char) (tree : ScopeTree) :
    Taken options source tree (line options source tree) := by
  cases scanned : Source.tokens source with
  | error error =>
    have unread (node : Node) : Source.expression options.limits source ≠ .ok node := by
      intro read
      obtain ⟨tokens, found, -⟩ := Source.expression_eq_ok.mp read
      cases scanned.symm.trans found
    rw [line, scanned]
    exact .refused error "" unread
  | ok tokens =>
    by_cases single : ∃ node, Source.expression options.limits source = .ok node
    · obtain ⟨node, read⟩ := single
      rw [line_echo read]
      exact .expression read
    · have unread (node : Node) : Source.expression options.limits source ≠ .ok node :=
        fun read => single ⟨node, read⟩
      have unphrased (node : Node) :
          Grammar.parseExpression options.limits.parsing tokens ≠ .ok node :=
        fun returned => unread node (Source.expression_eq_ok.mpr ⟨tokens, scanned, returned⟩)
      rw [line_statements scanned unphrased]
      cases read : (Source.statements options.limits options.traced source tokens).2 with
      | error error => exact .refused error _ unread
      | ok statements =>
        have parsed := Source.parsed_of_statements scanned read
        exact .program _ unread (Source.program_eq_ok.mpr ⟨tokens, scanned, parsed⟩)

end Lox.Session
