import Lox.Proofs.Bracing.Session
import Lox.Proofs.Frame.Confined
import Lox.Proofs.Session.Line
import Lox.Proofs.Source.Printed

namespace Lox.Session

def Limited {α : Type} (step : Step α) : Prop :=
  Deep step ∨
    ∃ error, step.result = .error (.source (.grammar error)) ∧ error.complaint = .tooDeep

/-- The one step shows a value and the other prints it, or both fail in the same way before that.
They leave the same bindings. -/
structure Prints (echoed printed : Step Unit) : Prop where
  result : printed.result = echoed.result
  tree : printed.tree = echoed.tree
  output :
    (echoed.result = .ok () ∧
      ∃ text, echoed.output = "=> " ++ text ++ "\n" ∧ printed.output = text ++ "\n") ∨
    ∃ failure, echoed.result = .error (.failure failure) ∧
      echoed.output = "" ∧ printed.output = ""

theorem Deep.of_echo {step : Step Value} (deep : Deep (echo step)) : Deep step := by
  rw [Deep, echo] at deep
  cases result : step.result with
  | ok value =>
    rw [result] at deep
    cases deep
  | error problem =>
    rw [result] at deep
    exact result.trans (congrArg Except.error (Except.error.inj deep))

theorem Prints.same {echoed printed other : Step Unit} (prints : Prints echoed printed)
    (same : Same printed other) : Prints echoed other where
  result := same.result.trans prints.result
  tree := same.tree.trans prints.tree
  output := by
    rw [same.output]
    exact prints.output

def showing (node : Node) : Run Unit := node.evaluate >>= fun value => Run.print value.display

theorem simulates_showing (node : Node) (mask : List Bool) :
    Simulates mask (showing node) (Node.executeAll [.print node]) := by
  rw [executeAll_singleton, Node.execute]
  apply Simulates.nested_wide 1
  apply Simulates.report_wide
  apply Simulates.bind (.nested_wide 1 (simulates_evaluate node))
  intro value
  exact .print value.display

section
variable {options : Options} {source : List Char} {tree : ScopeTree} {node : Node}

/-- An expression that is shown and one that is printed: evaluating it prints nothing else. -/
theorem echo_showing (options : Options) (node : Node) (tree : ScopeTree) :
    Prints (echo (evaluate options node tree))
      (settled (perform options 0 "" (showing node) tree)) := by
  have confined := evaluate_confined (List.Subset.refl node.targets) false
  obtain ⟨done, -, revised⟩ := (confined (opening options) (entrance tree 0 "")).revised
  have silent := revised.output rfl
  have evaluated : evaluate options node tree = concluded tree 0
      (node.evaluate (opening options) (entrance tree 0 "")) := settled_perform _
  rw [evaluated, settled_perform, showing]
  simp only [Bind.bind, ReaderT.bind, EStateM.bind]
  cases result : node.evaluate (opening options) (entrance tree 0 "") with
  | ok value world =>
    rw [result] at silent
    have empty : world.output = "" := silent
    refine ⟨rfl, rfl, .inl ⟨rfl, value.display, ?_, ?_⟩⟩
    · change world.output ++ "=> " ++ value.display ++ "\n" = _
      rw [empty, String.empty_append]
    · change world.output ++ value.display ++ "\n" = _
      rw [empty, String.empty_append]
  | error failure world =>
    rw [result] at silent
    exact ⟨rfl, rfl, .inr ⟨failure.settle, rfl, silent, silent⟩⟩

theorem echo_execute (options : Options) (node : Node) (trace : String) (tree : ScopeTree) :
    Deep (echo (evaluate options node tree)) ∨ Deep (execute options 0 trace [.print node] tree) ∨
      Prints (echo (evaluate options node tree)) (execute options 0 trace [.print node] tree) := by
  have prints := echo_showing options node tree
  have either := perform_same (fun mask => simulates_showing node (true :: mask)) options 0 "" trace
    tree
  rcases either with deep | deep | same
  · exact .inl (prints.result.symm.trans deep)
  · exact .inr (.inl deep)
  · exact .inr (.inr (prints.same same))

theorem echo_execute_of_room (room : 3 * (node.height + 1) ≤ options.limits.evaluating)
    (low : node.height + 1 ≤ options.limits.source) (trace : String) (tree : ScopeTree) :
    Prints (echo (evaluate options node tree)) (execute options 0 trace [.print node] tree) := by
  have printed : Shallow (3 * (node.height + 1)) (node.height + 1)
      (Node.executeAll [.print node]) := by
    rw [executeAll_singleton]
    exact shallow_execute (.print node)
  have evaluated := (shallow_evaluate node).weaken (Nat.mul_le_mul_left 3 (Nat.le_succ _))
    (Nat.le_succ _)
  rcases echo_execute options node trace tree with deep | deep | prints
  · exact absurd deep.of_echo (perform_shallow evaluated room low 0 "" tree)
  · exact absurd deep (perform_shallow printed room low 0 trace tree)
  · exact prints

section
variable {tokens : List Token} (scanned : Source.tokens source = .ok tokens)
  (unphrased : ∀ limit node, Grammar.parseExpression limit tokens ≠ .ok node)
include scanned unphrased

theorem line_executes {statements : List Node}
    (read : (Source.statements options.limits options.traced source tokens).2 = .ok statements) :
    ∃ trace, line options source tree = execute options 0 trace statements tree := by
  refine ⟨(Source.statements options.limits options.traced source tokens).1, ?_⟩
  rw [line_statements scanned (unphrased _), read]

theorem line_limited
    (deep : Source.TooDeep (Source.statements options.limits options.traced source tokens).2) :
    Limited (line options source tree) := by
  obtain ⟨error, refused, deep⟩ := deep
  refine .inr ⟨error, ?_, deep⟩
  rw [line_statements scanned (unphrased _), refused]
  rfl

end

/-- The printed form of an expression is run as the statement that prints it, or reading it comes to
the limit. With a trace, the statement has to be one that can be rendered. -/
theorem line_printed {limits : Limits} (read : Source.expression limits source = .ok node)
    (options : Options) (tree : ScopeTree) :
    let ran := ∃ trace, line options (Source.printed source) tree =
      execute options 0 trace [.print node] tree
    (Limited (line options (Source.printed source) tree) ∨ ran) ∧
    (Source.program options.limits (Source.printed source) = .ok [.print node] →
      Source.traceable options.limits (.print node) = true → ran) := by
  obtain ⟨_, scanned, -⟩ := Source.expression_eq_ok.mp read
  obtain ⟨tokens, rescanned, unphrased⟩ := Source.printed_unphrased scanned
  have plain := Source.program_eq_statements options.limits rescanned
  constructor
  · rcases Source.statements_or_deep rescanned options.traced with same | deep
    · rw [← plain] at same
      rcases (Source.printed_reads read).1 options.limits with reads | deep
      · exact .inr (line_executes rescanned unphrased (same.trans reads))
      · exact .inl (line_limited rescanned unphrased (same ▸ deep))
    · exact .inl (line_limited rescanned unphrased deep)
  · intro reads rendered
    apply line_executes rescanned unphrased
    apply Source.statements_of_traceable rescanned (plain.symm.trans reads)
    intro statement member
    obtain rfl := List.mem_singleton.mp member
    exact rendered

end

/-- A text that is read as an expression is read as a statement that prints the expression, when
`print` is put in front of it and a semicolon on a line of its own behind it, unless the reading
comes to the nesting limit. In every state of a session the statement prints, and nothing besides,
the value that the expression shows as a line; it fails with the same error if that fails; and in
both cases it leaves the same bindings. This is said of lines that do not come to the limit, and
with large enough limits neither line does, in any state. -/
theorem echo_agrees_with_print {options : Options} {source : List Char} {node : Node}
    (read : Source.expression options.limits source = .ok node) :
    (∀ limits, Source.program limits (Source.printed source) = .ok [.print node] ∨
      Source.TooDeep (Source.program limits (Source.printed source))) ∧
    (∀ tree, Limited (line options source tree) ∨
      Limited (line options (Source.printed source) tree) ∨
      Prints (line options source tree) (line options (Source.printed source) tree)) ∧
    ∃ enough, ∀ others : Options, enough ≤ others.limits.parsing →
      enough ≤ others.limits.evaluating → enough ≤ others.limits.source →
      enough ≤ others.limits.outline →
      Source.program others.limits (Source.printed source) = .ok [.print node] ∧
      ∀ tree, Prints (line others source tree) (line others (Source.printed source) tree) := by
  obtain ⟨within, enough, reads⟩ := Source.printed_reads read
  refine ⟨within, fun tree => ?_, max enough (3 * (node.height + 1)), ?_⟩
  · rw [line_echo read]
    rcases (line_printed read options tree).1 with limited | ⟨trace, same⟩
    · exact .inr (.inl limited)
    · rw [same]
      apply (echo_execute options node trace tree).imp .inl
      exact Or.imp_left .inl
  · intro others parses evaluates writes outlines
    obtain ⟨rereads, prints⟩ := reads others.limits (le_of_max_le_left parses)
    have rendered : Source.traceable others.limits (.print node) = true := by
      have tall : (Node.print node).height = node.height + 1 := rfl
      rw [Source.traceable, tall, Bool.and_eq_true, decide_eq_true_iff, decide_eq_true_iff]
      omega
    refine ⟨prints, fun tree => ?_⟩
    obtain ⟨trace, same⟩ := (line_printed read others tree).2 prints rendered
    rw [line_echo rereads, same]
    exact echo_execute_of_room (le_of_max_le_right evaluates) (by omega) trace tree

/-- Two texts are joined, and a comment stands behind them. -/
theorem commented_sum_printed :
    let options : Options := ⟨false, .standard⟩
    let source := "a + a // twice".toList
    let tree : ScopeTree := [⟨[("a", some (.string "x"))], []⟩]
    ∃ node, Source.expression .standard source = .ok node ∧
      (line options source tree).output = "=> xx\n" ∧
      (line options (Source.printed source) tree).output = "xx\n" ∧
      Prints (line options source tree) (line options (Source.printed source) tree) := by
  intro options source tree
  have unlimited {step : Step Unit} (ended : step.result.toBool = true) : ¬ Limited step := by
    rintro (deep | ⟨error, refused, -⟩)
    · rw [deep] at ended
      cases ended
    · rw [refused] at ended
      cases ended
  have read : (Source.expression .standard source).toBool = true := by decide +kernel
  cases single : Source.expression .standard source with
  | error error =>
    rw [single] at read
    cases read
  | ok node =>
    have agree := (@echo_agrees_with_print options source node single).2.1 tree
    refine ⟨node, rfl, by decide +kernel, by decide +kernel, ?_⟩
    exact (agree.resolve_left (unlimited (by decide +kernel))).resolve_left
      (unlimited (by decide +kernel))

end Lox.Session
