import Lox.Proofs.Grammar.Foreign
import Lox.Proofs.Safety.Session
import Lox.Proofs.Source.Tracing
import Lox.Script

namespace Lox

/-- Some statement has more nodes on a way down than there is room for in a dump. -/
def Unshowable (limits : Limits) (statements : List Node) : Prop :=
  ∃ statement ∈ statements, limits.outline < statement.height

section
variable {limits : Limits} {statements : List Node}

theorem unshowable_cons {statement : Node} :
    Unshowable limits (statement :: statements) ↔
      limits.outline < statement.height ∨ Unshowable limits statements := by
  simp [Unshowable]

theorem Prompt.prefixLines_failure (native : ∀ statement ∈ statements, statement.hasForeign = false)
    (indent : String) :
    Unshowable limits statements ∧ (prefixLines limits indent statements).2 = some .tooDeep ∨
      ¬ Unshowable limits statements ∧ (prefixLines limits indent statements).2 = none := by
  induction statements with
  | nil => exact .inr ⟨by simp [Unshowable], rfl⟩
  | cons statement statements ih =>
    rw [List.forall_mem_cons] at native
    rw [unshowable_cons, prefixLines, Node.prefixForm?, native.1]
    by_cases deep : limits.outline < statement.height
    · exact .inl ⟨.inl deep, by simp [deep]⟩
    · simpa [deep] using ih native.2

end

namespace Source

def HasUnshowable (limits : Limits) (traced : Bool) (source : List Char) : Prop :=
  ∃ tokens statements, Source.tokens source = .ok tokens ∧
    (Source.statements limits traced source tokens).2 = .ok statements ∧
    Unshowable limits statements

section
variable {limits : Limits} {traced : Bool} {source : List Char} {tokens : List Token}
  {statements : List Node} {error : SourceError}

theorem hasUnshowable_of_ok (scanned : Source.tokens source = .ok tokens)
    (read : (Source.statements limits traced source tokens).2 = .ok statements) :
    HasUnshowable limits traced source ↔ Unshowable limits statements := by
  constructor
  · rintro ⟨_, _, again, reread, deep⟩
    cases scanned.symm.trans again
    cases read.symm.trans reread
    exact deep
  · exact fun deep => ⟨tokens, statements, scanned, read, deep⟩

theorem hasUnshowable_of_unread (scanned : Source.tokens source = .ok tokens)
    (unread : (Source.statements limits traced source tokens).2 = .error error) :
    ¬ HasUnshowable limits traced source := by
  rintro ⟨_, _, again, read, -⟩
  cases scanned.symm.trans again
  cases unread.symm.trans read

theorem hasUnshowable_of_unscanned (unscanned : Source.tokens source = .error error) :
    ¬ HasUnshowable limits traced source := by
  rintro ⟨_, _, scanned, -⟩
  cases unscanned.symm.trans scanned

end
end Source

namespace Session

theorem settled_failure {α : Type} {step : Step α} {failure : Failure}
    (failed : (settled step).result = .error (.failure failure)) (ordinary : ¬ failure.Internal) :
    (∃ error, failure = .runtime error) ∨ failure = .outOfRounds := by
  cases failure with
  | runtime error => exact .inl ⟨error, rfl⟩
  | misplaced role label => exact absurd (.misplaced role label) ordinary
  | outOfRounds => exact .inr rfl
  | tooDeep =>
    simp only [settled] at failed
    cases result : step.result with
    | ok value =>
      rw [result] at failed
      cases failed
    | error problem =>
      rw [result] at failed
      cases problem with
      | source error => cases failed
      | failure inner => cases inner <;> cases failed

end Session

namespace Script

variable {limits : Limits} {flags : Flags} {path output errors : String} {source : List Char}
  {tokens : List Token} {statements : List Node}

theorem execute_ends {limit : Nat} (read : Grammar.parseProgram limit tokens = .ok statements) :
    (execute limits path flags statements output errors).ending = .escaped .outOfRounds ∨
      ∃ status ∈ [0, statusOfSource, statusOfProgram],
        (execute limits path flags statements output errors).ending = .exited status := by
  have clean := Session.executed_clean ScopeTree.known_initial read ⟨flags.traced, limits⟩ 0 errors
  simp only [execute]
  cases result : (Session.execute ⟨flags.traced, limits⟩ 0 errors statements .initial).result with
  | ok _ => exact .inr ⟨0, by simp, rfl⟩
  | error problem =>
    cases problem with
    | source error => exact .inr ⟨statusOfSource, by simp, rfl⟩
    | failure failure =>
      rcases Session.settled_failure result (clean.failure failure result) with ⟨error, rfl⟩ | rfl
      · exact .inr ⟨statusOfProgram, by simp, rfl⟩
      · exact .inl rfl

theorem dump_failure (native : ∀ statement ∈ statements, statement.hasForeign = false)
    (shown : Bool) :
    let dump := if shown then treeDump limits statements else ("", none)
    (shown = true ∧ Unshowable limits statements) ∧ dump.2 = some .tooDeep ∨
      ¬ (shown = true ∧ Unshowable limits statements) ∧ dump.2 = none := by
  cases shown with
  | false => exact .inr ⟨by simp, rfl⟩
  | true => simpa [treeDump] using Prompt.prefixLines_failure native "\t"

theorem run_ending (scanned : Source.tokens source = .ok tokens)
    (read : (Source.statements limits flags.traced source tokens).2 = .ok statements) :
    let ending := (run limits path flags source).ending
    (flags.showTree = true ∧ Unshowable limits statements) ∧ ending = .escaped .tooDeep ∨
      ¬ (flags.showTree = true ∧ Unshowable limits statements) ∧
        (ending = .escaped .outOfRounds ∨
          ∃ status ∈ [0, statusOfSource, statusOfProgram], ending = .exited status) := by
  have parsed := Source.parsed_of_statements scanned read
  have dumped := @dump_failure limits statements (Grammar.parsed_native parsed) flags.showTree
  simp only [run, scanned, read]
  revert dumped
  generalize (if flags.showTree = true then treeDump limits statements else ("", none)) = dump
  obtain ⟨text, failure⟩ := dump
  rintro (⟨deep, rfl⟩ | ⟨shallow, rfl⟩)
  · exact .inl ⟨deep, rfl⟩
  · refine .inr ⟨shallow, ?_⟩
    by_cases evaluated : flags.evaluate = true
    · simp only [evaluated, if_true]
      exact execute_ends parsed
    · simp only [evaluated]
      exact .inr ⟨0, by simp, rfl⟩

/-- Whatever the source and the flags, a script exits with one of three statuses, or its loops do not
come to an end, unless its tree is to be shown and has a statement that is too deep for that; then
the failure gets out. -/
theorem run_ends (limits : Limits) (path : String) (flags : Flags) (source : List Char) :
    let ending := (run limits path flags source).ending
    (ending = .escaped .tooDeep ↔
      flags.showTree = true ∧ Source.HasUnshowable limits flags.traced source) ∧
    (ending = .escaped .tooDeep ∨ ending = .escaped .outOfRounds ∨
      ∃ status ∈ [0, statusOfSource, statusOfProgram], ending = .exited status) := by
  intro ending
  cases scanned : Source.tokens source with
  | error error =>
    have rejected : ending = .exited statusOfSource := by simp only [ending, run, scanned]
    simp [rejected, Source.hasUnshowable_of_unscanned scanned]
  | ok tokens =>
    cases read : (Source.statements limits flags.traced source tokens).2 with
    | error error =>
      have rejected : ending = .exited statusOfSource := by simp only [ending, run, scanned, read]
      simp [rejected, Source.hasUnshowable_of_unread scanned read]
    | ok statements =>
      rw [Source.hasUnshowable_of_ok scanned read]
      rcases @run_ending limits flags path source tokens statements scanned read with
        ⟨deep, escaped⟩ | ⟨shallow, endless | ⟨status, listed, exited⟩⟩
      · exact ⟨⟨fun _ => deep, fun _ => escaped⟩, .inl escaped⟩
      · have inside : ending ≠ .escaped .tooDeep := fun same => nomatch endless.symm.trans same
        exact ⟨⟨(absurd · inside), (absurd · shallow)⟩, .inr (.inl endless)⟩
      · have inside : ending ≠ .escaped .tooDeep := fun same => nomatch exited.symm.trans same
        exact ⟨⟨(absurd · inside), (absurd · shallow)⟩, .inr (.inr ⟨status, listed, exited⟩)⟩

end Script
end Lox
