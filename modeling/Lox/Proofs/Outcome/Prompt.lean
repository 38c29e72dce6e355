import Lox.Proofs.Outcome.Script
import Lox.Proofs.Session.Line
import Lox.Prompt

namespace Lox

namespace Session

def Contained {α : Type} (step : Step α) : Prop :=
  ∀ failure, step.result = .error (.failure failure) →
    (∃ error, failure = .runtime error) ∨ failure = .outOfRounds

section
variable {options : Options} {tree : ScopeTree}

theorem contained_echo {step : Step Value} (contained : Contained step) : Contained (echo step) := by
  intro failure failed
  cases result : step.result with
  | ok value =>
    simp only [echo, result] at failed
    cases failed
  | error problem =>
    simp only [echo, result] at failed
    cases failed
    exact contained failure result

theorem echo_tree (step : Step Value) : (echo step).tree = step.tree := by
  rw [echo]
  split <;> rfl

theorem contained_failed {α : Type} (error : SourceError) (trace : String) :
    Contained (failed error trace tree : Step α) := by
  intro failure same
  cases same

theorem line_contained (reachable : Reachable tree) (source : List Char) :
    Contained (line options source tree) ∧ Reachable (line options source tree).tree := by
  have taken := line_taken options source tree
  generalize line options source tree = step at taken
  cases taken with
  | expression read =>
    obtain ⟨tokens, -, single⟩ := Source.expression_eq_ok.mp read
    have clean := evaluated_clean reachable.known single options
    rw [echo_tree]
    refine ⟨contained_echo fun failure failed => ?_, .evaluated options reachable single⟩
    exact settled_failure failed (clean.failure failure failed)
  | program trace _ read =>
    obtain ⟨tokens, -, parsed⟩ := Source.program_eq_ok.mp read
    have clean := executed_clean reachable.known parsed options 0 trace
    refine ⟨fun failure failed => ?_, .executed options 0 trace reachable parsed⟩
    exact settled_failure failed (clean.failure failure failed)
  | refused error trace _ => exact ⟨contained_failed error trace, reachable⟩

end
end Session

namespace Prompt

section
variable {options : Options} {line source : List Char} {tree : ScopeTree}

def ShowsUnshowable (options : Options) (line : List Char) : Prop :=
  ∃ source, operand? ":ast" line = some source ∧
    Source.HasUnshowable options.limits options.traced source

theorem ofStep_next {step : Step Unit} (contained : Session.Contained step) :
    (ofStep step).next = .goOn ∨ (ofStep step).next = .escape .outOfRounds := by
  cases result : step.result with
  | ok _ => simp [ofStep, result]
  | error problem =>
    cases problem with
    | source error => simp [ofStep, result]
    | failure failure =>
      rcases contained failure result with ⟨error, rfl⟩ | rfl <;> simp [ofStep, result]

theorem ofStep_tree (step : Step Unit) : (ofStep step).tree = step.tree := by
  rw [ofStep]
  split <;> rfl

theorem treeLines_tree : (treeLines options source tree).tree = tree := by
  rw [treeLines]
  cases Source.tokens source with
  | error error => rfl
  | ok tokens =>
    dsimp only
    cases (Source.statements options.limits options.traced source tokens).2 <;> rfl

theorem treeLines_next :
    Source.HasUnshowable options.limits options.traced source ∧
        (treeLines options source tree).next = .escape .tooDeep ∨
      ¬ Source.HasUnshowable options.limits options.traced source ∧
        (treeLines options source tree).next = .goOn := by
  rw [treeLines]
  cases scanned : Source.tokens source with
  | error error => exact .inr ⟨Source.hasUnshowable_of_unscanned scanned, rfl⟩
  | ok tokens =>
    dsimp only
    cases read : (Source.statements options.limits options.traced source tokens).2 with
    | error error => exact .inr ⟨Source.hasUnshowable_of_unread scanned read, rfl⟩
    | ok statements =>
      have native := Grammar.parsed_native (Source.parsed_of_statements scanned read)
      rw [Source.hasUnshowable_of_ok scanned read]
      dsimp only
      rcases @prefixLines_failure options.limits statements native "  " with
        ⟨deep, failed⟩ | ⟨shallow, shown⟩
      · exact .inl ⟨deep, by rw [failed]; rfl⟩
      · exact .inr ⟨shallow, by rw [shown]; rfl⟩

theorem operand?_eq_some {word : String} : operand? word line = some source ↔
    line = word.toList ++ ' ' :: source := by
  have split : line = word.toList ++ ' ' :: source ↔ line = (word.toList ++ [' ']) ++ source := by
    rw [List.append_assoc, List.singleton_append]
  rw [split, operand?]
  constructor
  · intro found
    split at found
    · next begins =>
      obtain ⟨rest, rfl⟩ := List.isPrefixOf_iff_prefix.mp begins
      rw [List.drop_left] at found
      cases found
      rfl
    · cases found
  · rintro rfl
    rw [if_pos (List.isPrefixOf_iff_prefix.mpr (List.prefix_append _ _)), List.drop_left]

theorem trimmed_colon (rest : List Char) :
    ∃ others, Text.trimmed (':' :: rest) = ':' :: others := by
  have mark : ¬ Text.isSpace ':' = true := by decide
  have alone : [':'].dropWhile Text.isSpace = [':'] := List.dropWhile_cons_of_neg mark
  rw [Text.trimmed, List.dropWhile_cons_of_neg mark, List.reverse_cons, List.dropWhile_append, alone]
  split
  · exact ⟨[], rfl⟩
  · rw [List.reverse_append, List.reverse_singleton, List.singleton_append]
    exact ⟨_, rfl⟩

theorem turn_colon (rest : List Char) :
    turn options (':' :: rest) tree = command options (':' :: rest) tree := by
  obtain ⟨others, trimmed⟩ := trimmed_colon rest
  rw [turn, trimmed]
  rfl

theorem command_next : (command options line tree).tree = tree ∧
    (ShowsUnshowable options line ∧ (command options line tree).next = .escape .tooDeep ∨
      ¬ ShowsUnshowable options line ∧ (command options line tree).next = .goOn) := by
  rw [command]
  cases asked : operand? ":tokens" line with
  | some source =>
    have other : ¬ ShowsUnshowable options line := by
      rintro ⟨again, found, -⟩
      rw [operand?_eq_some.mp asked] at found
      cases operand?_eq_some.mp found
    exact ⟨rfl, .inr ⟨other, rfl⟩⟩
  | none =>
    cases found : operand? ":ast" line with
    | some source =>
      have same : ShowsUnshowable options line ↔
          Source.HasUnshowable options.limits options.traced source := by
        simp [ShowsUnshowable, found]
      rw [same]
      exact ⟨treeLines_tree, treeLines_next⟩
    | none =>
      have other : ¬ ShowsUnshowable options line := by
        rintro ⟨source, again, -⟩
        cases found.symm.trans again
      dsimp only
      split
      · exact ⟨rfl, .inr ⟨other, rfl⟩⟩
      · split <;> exact ⟨rfl, .inr ⟨other, rfl⟩⟩

/-- What a line does: an `exit` leaves, a tree that is too deep to be shown gets out, and with every
other line the session goes on from where it is left, unless the line runs out of rounds. -/
theorem turn_next (reachable : Session.Reachable tree) (line : List Char) :
    Session.Reachable (turn options line tree).tree ∧
      (Text.trimmed line = "exit".toList ∧ (turn options line tree).next = .leave ∨
        ShowsUnshowable options line ∧ (turn options line tree).next = .escape .tooDeep ∨
        (turn options line tree).next = .escape .outOfRounds ∨
        (Text.trimmed line ≠ "exit".toList ∧ ¬ ShowsUnshowable options line) ∧
          (turn options line tree).next = .goOn) := by
  by_cases colon : line.head? = some ':'
  · obtain ⟨rest, rfl⟩ := List.head?_eq_some_iff.mp colon
    obtain ⟨same, next⟩ := @command_next options (':' :: rest) tree
    obtain ⟨others, trimmed⟩ := trimmed_colon rest
    rw [turn_colon, same]
    refine ⟨reachable, .inr ?_⟩
    rcases next with ⟨deep, escapes⟩ | ⟨shallow, goesOn⟩
    · exact .inl ⟨deep, escapes⟩
    · exact .inr (.inr ⟨⟨by simp [trimmed], shallow⟩, goesOn⟩)
  · have shallow : ¬ ShowsUnshowable options line := by
      rintro ⟨source, found, -⟩
      rw [operand?_eq_some.mp found] at colon
      exact colon (by simp)
    rw [turn]
    by_cases exits : Text.trimmed line = "exit".toList
    · rw [if_pos exits]
      exact ⟨reachable, .inl ⟨exits, rfl⟩⟩
    · rw [if_neg exits, if_neg colon]
      split
      · exact ⟨reachable, .inr (.inr (.inr ⟨⟨exits, shallow⟩, rfl⟩))⟩
      · obtain ⟨contained, later⟩ := @Session.line_contained options tree reachable line
        rw [ofStep_tree]
        refine ⟨later, .inr (.inr ?_)⟩
        rcases ofStep_next contained with goesOn | endless
        · exact .inr ⟨⟨exits, shallow⟩, goesOn⟩
        · exact .inl endless

end

inductive Ends (options : Options) : List (Option (List Char)) → Option Failure → Prop where
  | spent : Ends options [] none
  | interrupted {rest : List (Option (List Char))} : Ends options (none :: rest) none
  | left {line : List Char} {rest : List (Option (List Char))} :
    Text.trimmed line = "exit".toList → Ends options (some line :: rest) none
  | unshowable {line : List Char} {rest : List (Option (List Char))} :
    ShowsUnshowable options line → Ends options (some line :: rest) (some .tooDeep)
  | endless {line : List Char} {rest : List (Option (List Char))} :
    Ends options (some line :: rest) (some .outOfRounds)

theorem converse_ends {options : Options} {tree : ScopeTree} (reachable : Session.Reachable tree)
    (lines : List (Option (List Char))) :
    ∃ before after, lines = before ++ after ∧
      (∀ entry ∈ before, ∃ line, entry = some line ∧ Text.trimmed line ≠ "exit".toList ∧
        ¬ ShowsUnshowable options line) ∧
      (converse options lines tree).chunks.length = before.length + 1 ∧
      Ends options after (converse options lines tree).escaped := by
  induction lines generalizing tree with
  | nil => exact ⟨[], [], rfl, by simp, rfl, .spent⟩
  | cons entry rest ih =>
    cases entry with
    | none => exact ⟨[], none :: rest, rfl, by simp, rfl, .interrupted⟩
    | some line =>
      obtain ⟨later, next⟩ := @turn_next options tree reachable line
      rw [converse]
      rcases next with ⟨exits, next⟩ | ⟨deep, next⟩ | next | ⟨ordinary, next⟩ <;> simp only [next]
      · exact ⟨[], some line :: rest, rfl, by simp, rfl, .left exits⟩
      · exact ⟨[], some line :: rest, rfl, by simp, rfl, .unshowable deep⟩
      · exact ⟨[], some line :: rest, rfl, by simp, rfl, .endless⟩
      · obtain ⟨before, after, rfl, each, size, ends⟩ := ih later
        refine ⟨some line :: before, after, rfl, ?_, by simp [size], ends⟩
        rw [List.forall_mem_cons]
        exact ⟨⟨line, rfl, ordinary⟩, each⟩

end Prompt

/-- Nothing gets out of the program but the failure to show a tree that is too deep for that, and
loops that do not come to an end within their rounds. A script whose tree is not to be shown, or can
be, exits with one of three statuses; a conversation goes on with every line up to an `exit`, an
interruption or the end of the lines, or up to a line that asks for such a tree. -/
theorem only_unshowable_trees_escape (limits : Limits) :
    (∀ path flags source,
      let ending := (Script.run limits path flags source).ending
      (ending = .escaped .tooDeep ↔
        flags.showTree = true ∧ Source.HasUnshowable limits flags.traced source) ∧
      (ending = .escaped .tooDeep ∨ ending = .escaped .outOfRounds ∨
        ∃ status ∈ [0, Script.statusOfSource, Script.statusOfProgram], ending = .exited status)) ∧
    ∀ traced lines,
      let options : Options := ⟨traced, limits⟩
      ∃ before after, lines = before ++ after ∧
        (∀ entry ∈ before, ∃ line, entry = some line ∧ Text.trimmed line ≠ "exit".toList ∧
          ¬ Prompt.ShowsUnshowable options line) ∧
        (Prompt.run options lines).chunks.length = before.length + 2 ∧
        Prompt.Ends options after (Prompt.run options lines).escaped := by
  refine ⟨Script.run_ends limits, fun traced lines => ?_⟩
  obtain ⟨before, after, split, each, size, ends⟩ :=
    @Prompt.converse_ends ⟨traced, limits⟩ .initial .fresh lines
  exact ⟨before, after, split, each, by simp [Prompt.run, size], ends⟩

end Lox
