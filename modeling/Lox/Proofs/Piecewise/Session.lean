import Lox.Proofs.Piecewise.Source
import Lox.Proofs.Piecewise.Steady
import Lox.Session

namespace Lox.Session

def followed (step : Step Unit) (next : ScopeTree → Step Unit) : Step Unit :=
  match step.result with
  | .ok () =>
    let later := next step.tree
    ⟨later.result, step.output ++ later.output, step.trace ++ later.trace, later.tree⟩
  | .error _ => step

def executeEach (options : Options) : List (List Char) → ScopeTree → Step Unit
  | [], tree => ⟨.ok (), "", "", tree⟩
  | source :: rest, tree => followed (executeSource options 0 source tree) (executeEach options rest)

theorem executeAll_append (first rest : List Node) :
    Node.executeAll (first ++ rest) = Node.executeAll first >>= fun _ => Node.executeAll rest := by
  induction first with
  | nil => rfl
  | cons node first ih => rw [List.cons_append, Node.executeAll, ih, Node.executeAll, bind_assoc]

def reached (tree : ScopeTree) : EStateM.Result Failure World Unit → Step Unit
  | .ok value world => ⟨.ok value, world.output, world.trace, tree.update 0 world.chain⟩
  | .error failure world =>
    ⟨.error (.failure failure.settle), world.output, world.trace, tree.update 0 world.chain⟩

section
variable {options : Options} {bindings : Bindings}

theorem execute_eq (statements : List Node) (tree : ScopeTree) :
    execute options 0 "" statements tree = reached tree (Node.executeAll statements
      ⟨options.traced, options.limits, options.limits.evaluating⟩ ⟨tree.chain 0, "", ""⟩) := by
  rw [execute, perform]
  cases Node.executeAll statements ⟨options.traced, options.limits, options.limits.evaluating⟩
    ⟨tree.chain 0, "", ""⟩ <;> rfl

theorem alone_after (statements : List Node) (context : Context) :
    ∃ changed, (worldAfter (Node.executeAll statements context ⟨[bindings], "", ""⟩)).chain =
      [changed] :=
  List.length_eq_one_iff.mp ((steady_executeAll statements).scopes context ⟨[bindings], "", ""⟩)

theorem execute_tree (statements : List Node) :
    ∃ changed, (execute options 0 "" statements [⟨bindings, []⟩]).tree = [⟨changed, []⟩] := by
  let context : Context := ⟨options.traced, options.limits, options.limits.evaluating⟩
  rcases @alone_after bindings statements context with ⟨changed, left⟩
  refine ⟨changed, ?_⟩
  rw [execute_eq]
  change (reached [⟨bindings, []⟩] (Node.executeAll statements context ⟨[bindings], "", ""⟩)).tree = _
  cases result : Node.executeAll statements context ⟨[bindings], "", ""⟩ with
  | ok value world =>
    rw [result] at left
    exact congrArg (ScopeTree.update [⟨bindings, []⟩] 0) left
  | error failure world =>
    rw [result] at left
    exact congrArg (ScopeTree.update [⟨bindings, []⟩] 0) left

theorem reached_behind {result : EStateM.Result Failure World Unit} {before changed last : Bindings}
    (left : (worldAfter result).chain = [last]) (output trace : String) :
    reached [⟨before, []⟩] (inWorld (World.behind output trace) result) =
      ⟨(reached [⟨changed, []⟩] result).result, output ++ (reached [⟨changed, []⟩] result).output,
        trace ++ (reached [⟨changed, []⟩] result).trace, (reached [⟨changed, []⟩] result).tree⟩ := by
  have tree {world : World} (same : world.chain = [last]) :
      ScopeTree.update [⟨before, []⟩] 0 (World.behind output trace world).chain =
        ScopeTree.update [⟨changed, []⟩] 0 world.chain := by
    rw [World.behind, same]
    rfl
  cases result with
  | ok value world => exact congrArg (Step.mk _ _ _) (tree left)
  | error failure world => exact congrArg (Step.mk _ _ _) (tree left)

theorem execute_append (first rest : List Node) :
    execute options 0 "" (first ++ rest) [⟨bindings, []⟩] =
      followed (execute options 0 "" first [⟨bindings, []⟩]) (execute options 0 "" rest) := by
  let context : Context := ⟨options.traced, options.limits, options.limits.evaluating⟩
  rcases @alone_after bindings first context with ⟨changed, left⟩
  rw [execute_eq, execute_eq, executeAll_append]
  change reached [⟨bindings, []⟩] ((Node.executeAll first >>= fun _ => Node.executeAll rest) context
      ⟨[bindings], "", ""⟩) =
    followed (reached [⟨bindings, []⟩] (Node.executeAll first context ⟨[bindings], "", ""⟩)) _
  simp only [Bind.bind, ReaderT.bind, EStateM.bind]
  cases result : Node.executeAll first context ⟨[bindings], "", ""⟩ with
  | error failure world => rfl
  | ok value world =>
    rw [result] at left
    obtain ⟨output, trace, rfl⟩ : ∃ output trace, world = ⟨[changed], output, trace⟩ :=
      ⟨world.output, world.trace, congrArg (World.mk · world.output world.trace) left⟩
    have goesOn : Node.executeAll rest context ⟨[changed], output, trace⟩ =
        inWorld (World.behind output trace) (Node.executeAll rest context ⟨[changed], "", ""⟩) := by
      have start : (⟨[changed], output, trace⟩ : World) =
          World.behind output trace ⟨[changed], "", ""⟩ := by
        simp [World.behind]
      rw [start]
      exact (steady_executeAll rest).behind output trace context _
    rcases @alone_after changed rest context with ⟨last, lastLeft⟩
    rw [followed, reached, execute_eq]
    change reached [⟨bindings, []⟩] (Node.executeAll rest context ⟨[changed], output, trace⟩) = _
    rw [goesOn]
    exact reached_behind lastLeft output trace

theorem executeEach_eq {sources : List (List Char)} {programs : List (List Node)}
    (reads : List.Forall₂ (fun source statements =>
      Source.program options.limits source = .ok statements) sources programs) :
    executeEach options sources [⟨bindings, []⟩] =
      execute options 0 "" programs.flatten [⟨bindings, []⟩] := by
  induction reads generalizing bindings with
  | nil => rfl
  | @cons source statements sources programs read _ ih =>
    rcases @execute_tree options bindings statements with ⟨changed, left⟩
    have first : executeSource options 0 source [⟨bindings, []⟩] =
        execute options 0 "" statements [⟨bindings, []⟩] := by
      rw [executeSource, read]
    rw [executeEach, first, List.flatten_cons, execute_append, followed, followed, left, ih]

end

/-- Two programs with a line feed between them are read as the statements of the one and then those
of the other. Programs that are run one after the other in a new session, up to the first that
fails, do what is done by the one program that they make with a line feed between each two of them:
they print and trace the same, come to the same end or the same error, and leave the same bindings
in the same order. -/
theorem executes_piecewise :
    (∀ limits first second statements others,
      Source.program limits first = .ok statements → Source.program limits second = .ok others →
      Source.program limits (first ++ '\n' :: second) = .ok (statements ++ others)) ∧
    ∀ (options : Options) (sources : List (List Char)) (programs : List (List Node)),
      List.Forall₂ (fun source statements => Source.program options.limits source = .ok statements)
        sources programs →
      Source.program options.limits (['\n'].intercalate sources) = .ok programs.flatten ∧
      executeSource options 0 (['\n'].intercalate sources) .initial =
        executeEach options sources .initial := by
  refine ⟨fun _ _ _ _ _ => Source.program_joined, fun options sources programs reads => ?_⟩
  have joined := Source.program_intercalate reads
  refine ⟨joined, ?_⟩
  rw [executeSource, joined]
  exact (executeEach_eq reads).symm

/-- The second of three programs fails, and the third one is not run. -/
theorem unknown_name_piecewise :
    let sources := ["var a = 1; print a;".toList, "if (a == 1) print b;".toList, "print 3;".toList]
    ∃ first second third,
      Source.program .standard "var a = 1; print a;".toList = .ok first ∧
      Source.program .standard "if (a == 1) print b;".toList = .ok second ∧
      Source.program .standard "print 3;".toList = .ok third ∧
      Source.program .standard
        ("var a = 1; print a;".toList ++ '\n' :: "if (a == 1) print b;".toList) =
          .ok (first ++ second) ∧
      executeSource ⟨false, .standard⟩ 0 (['\n'].intercalate sources) .initial =
        executeEach ⟨false, .standard⟩ sources .initial ∧
      (executeEach ⟨false, .standard⟩ sources .initial).output = "1.0\n" ∧
      (executeEach ⟨false, .standard⟩ sources .initial).result.toBool = false := by
  have read {source : List Char} (reads : (Source.program .standard source).toBool = true) :
      ∃ statements, Source.program .standard source = .ok statements := by
    cases result : Source.program .standard source with
    | error error => simp [result, Except.toBool] at reads
    | ok statements => exact ⟨statements, rfl⟩
  rcases @read "var a = 1; print a;".toList (by decide +kernel) with ⟨first, firstRead⟩
  rcases @read "if (a == 1) print b;".toList (by decide +kernel) with ⟨second, secondRead⟩
  rcases @read "print 3;".toList (by decide +kernel) with ⟨third, thirdRead⟩
  refine ⟨first, second, third, firstRead, secondRead, thirdRead,
    executes_piecewise.1 _ _ _ _ _ firstRead secondRead,
    (executes_piecewise.2 ⟨false, .standard⟩ _ [first, second, third] ?_).2,
    by decide +kernel, by decide +kernel⟩
  exact .cons firstRead (.cons secondRead (.cons thirdRead .nil))

end Lox.Session
