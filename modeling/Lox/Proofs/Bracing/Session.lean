import Lox.Proofs.Bracing.Execution
import Lox.Proofs.Run.Shallow
import Lox.Proofs.Session.Concluded
import Lox.Proofs.Source.Program

namespace Lox.Session

def Deep {α : Type} (step : Step α) : Prop := step.result = .error (.failure (.runtime .tooDeep))

/-- Two steps had the same result and left the same behind. What they traced may differ. -/
structure Same {α : Type} (step other : Step α) : Prop where
  result : other.result = step.result
  output : other.output = step.output
  tree : other.tree = step.tree

theorem padded_self (chain : Chain) :
    Chain.Padded (List.replicate chain.length true) chain chain := by
  induction chain with
  | nil => exact .nil
  | cons bindings chain ih => exact .shared bindings ih

variable {statements others : List Node}

theorem perform_same {α : Type} {run other : Run α}
    (simulates : ∀ mask, Simulates (true :: mask) run other) (options : Options) (scope : Nat)
    (trace before : String) (tree : ScopeTree) :
    Deep (settled (perform options scope trace run tree)) ∨
      Deep (settled (perform options scope before other tree)) ∨
      Same (settled (perform options scope trace run tree))
        (settled (perform options scope before other tree)) := by
  have padded := padded_self (tree.chain scope)
  have shared : ∀ mark ∈ List.replicate (tree.chain scope).length true, mark = true :=
    fun _ member => List.eq_of_mem_replicate member
  let context : Context := ⟨options.traced, options.limits, options.limits.evaluating⟩
  have agrees := simulates _ context context ⟨tree.chain scope, "", trace⟩
    ⟨tree.chain scope, "", before⟩ rfl ⟨padded, rfl⟩
  simp only [perform]
  generalize run context ⟨tree.chain scope, "", trace⟩ = result at agrees ⊢
  generalize other context ⟨tree.chain scope, "", before⟩ = another at agrees ⊢
  cases agrees with
  | ok value alike =>
    refine .inr (.inr ⟨rfl, alike.output, ?_⟩)
    exact congrArg (tree.update scope) (alike.chain.eq_of_all_shared shared)
  | error failure alike =>
    refine .inr (.inr ⟨rfl, alike.output, ?_⟩)
    exact congrArg (tree.update scope) (alike.chain.eq_of_all_shared shared)
  | deep world result => exact .inl rfl
  | wideDeep result world => exact .inr (.inl rfl)

theorem perform_shallow {α : Type} {run : Run α} {depth height : Nat} {options : Options}
    (shallow : Shallow depth height run) (room : depth ≤ options.limits.evaluating)
    (low : height ≤ options.limits.source) (scope : Nat) (trace : String) (tree : ScopeTree) :
    ¬ Deep (settled (perform options scope trace run tree)) := by
  intro deep
  rw [settled_perform] at deep
  cases ended : run (opening options) (entrance tree scope trace) with
  | ok value world =>
    rw [ended] at deep
    cases deep
  | error failure world =>
    rw [ended] at deep
    apply shallow _ _ room low failure world ended
    exact Problem.failure.inj (Except.error.inj deep)

/-- A program that is written out with a statement on each line is read again, unless the reading
comes to the nesting limit. What is read does the same as the program in every scope of a session:
it prints the same, comes to the same end or the same error, and leaves the same bindings in the
same order. This is said of runs that do not come to the limit, and with large enough limits the
reading does not, and neither run does in any scope. -/
theorem written_executes_same {limits : Limits} {source : List Char} {statements : List Node}
    (read : Source.program limits source = .ok statements)
    (finite : ∀ statement ∈ statements, statement.finite = true) :
    (∀ others, (∃ reread, Source.program others (Source.written statements).toList = .ok reread) ∨
      Source.TooDeep (Source.program others (Source.written statements).toList)) ∧
    (∃ enough, ∀ others : Limits, enough ≤ others.parsing →
      ∃ reread, Source.program others (Source.written statements).toList = .ok reread ∧
        ∀ (options : Options) (scope : Nat) (tree : ScopeTree),
          enough ≤ options.limits.evaluating → enough ≤ options.limits.source →
          Same (execute options scope "" statements tree) (execute options scope "" reread tree)) ∧
    ∀ others reread, Source.program others (Source.written statements).toList = .ok reread →
      ∀ (options : Options) (scope : Nat) (tree : ScopeTree),
        Deep (execute options scope "" statements tree) ∨
        Deep (execute options scope "" reread tree) ∨
        Same (execute options scope "" statements tree) (execute options scope "" reread tree) := by
  rcases Source.written_reads_back read finite with ⟨within, enough, above⟩
  have placed : ∀ node ∈ statements, node.placed = true := by
    rcases Source.program_derived read with ⟨kinds, derived, -⟩
    exact derived.placed
  have simulates (mask : List Bool) : Simulates (true :: mask) (Node.executeAll statements)
      (Node.executeAll (statements.map Node.braced)) := by
    rw [← Node.allBraced_eq_map]
    exact simulates_executeAll _ statements (Node.allPlaced_iff.mpr placed) (.inr rfl)
  have same (options : Options) (scope : Nat) (tree : ScopeTree) :=
    perform_same simulates options scope "" "" tree
  refine ⟨fun others => (within others).imp_left fun reads => ⟨_, reads⟩, ?_, ?_⟩
  · let height := Node.heights statements
    let wider := Node.heights (statements.map Node.braced)
    refine ⟨max enough (max (3 * height) (3 * wider)), fun others room => ?_⟩
    refine ⟨_, above others (le_of_max_le_left room), fun options scope tree deep low => ?_⟩
    rcases same options scope tree with limited | limited | same
    · exact absurd limited (perform_shallow (shallow_executeAll statements) (by omega) (by omega)
        scope "" tree)
    · exact absurd limited (perform_shallow (shallow_executeAll _) (by omega) (by omega)
        scope "" tree)
    · exact same
  · intro others reread reads
    rcases within others with back | ⟨error, refused, -⟩
    · rw [Except.ok.inj (reads.symm.trans back)]
      exact same
    · rw [refused] at reads
      cases reads

/-- A loop whose body is one statement is written with that statement in braces. -/
theorem counting_executes_same :
    let options : Options := ⟨false, .standard⟩
    let source := "var n; for (n = 0; n < 2; n = n + 1) print n;".toList
    ∃ statements reread,
      Source.program .standard source = .ok statements ∧
      (∀ statement ∈ statements, statement.finite = true) ∧
      Source.written statements =
        "var n;\n\x7b n = 0.0; while (n < 2.0) \x7b print n; n = n + 1.0; \x7d \x7d" ∧
      Source.program .standard (Source.written statements).toList = .ok reread ∧
      (execute options 0 "" statements .initial).output = "0.0\n1.0\n" ∧
      Same (execute options 0 "" statements .initial) (execute options 0 "" reread .initial) := by
  intro options source
  have seen : (match Source.program .standard source with
      | .ok statements =>
        match Source.program .standard (Source.written statements).toList with
        | .ok reread => statements.all Node.finite &&
          (Source.written statements ==
            "var n;\n\x7b n = 0.0; while (n < 2.0) \x7b print n; n = n + 1.0; \x7d \x7d" &&
          ((execute options 0 "" statements .initial).output == "0.0\n1.0\n" &&
          ((execute options 0 "" statements .initial).result.toBool &&
          (execute options 0 "" reread .initial).result.toBool)))
        | .error _ => false
      | .error _ => false) = true := by decide +kernel
  have shallow {step : Step Unit} (ended : step.result.toBool = true) : ¬ Deep step := by
    intro deep
    rw [deep] at ended
    cases ended
  split at seen
  · next statements read =>
    split at seen
    · next reread reads =>
      simp only [Bool.and_eq_true, List.all_eq_true, beq_iff_eq] at seen
      obtain ⟨finite, written, printed, ended, again⟩ := seen
      refine ⟨statements, reread, read, finite, written, reads, printed, ?_⟩
      have agree := (written_executes_same read finite).2.2 .standard reread reads options 0 .initial
      exact (agree.resolve_left (shallow ended)).resolve_left (shallow again)
    · cases seen
  · cases seen

end Lox.Session
