import Lox.Proofs.Outcome.Script
import Lox.Proofs.Session.Concluded
import Lox.Proofs.Source.Program

/-!
A script goes through its stages one after the other: a text that is no program is told with none of
its statements executed, and what is shown of a program stands before what its run prints and
disturbs nothing else.
-/
namespace Lox

def Outcome.behind (shown : String) (outcome : Outcome) : Outcome :=
  { outcome with output := shown ++ outcome.output }

@[simp]
theorem Outcome.behind_nothing (outcome : Outcome) : outcome.behind "" = outcome := by
  simp [behind]

namespace Source

def Malformed (limits : Limits) (source : List Char) : Prop :=
  (∃ error, Source.tokens source = .error error) ∨
    ∃ tokens error, Source.tokens source = .ok tokens ∧
      Grammar.parseProgram limits.parsing tokens = .error error

theorem malformed_iff {limits : Limits} {source : List Char} :
    Malformed limits source ↔ ∃ error, program limits source = .error error := by
  cases scanned : Source.tokens source with
  | error error => simp [Malformed, program, scanned, bind, Except.bind]
  | ok tokens =>
    rw [program_eq limits scanned]
    cases parsed : Grammar.parseProgram limits.parsing tokens <;>
      simp [Malformed, scanned, parsed, Except.mapError]

end Source

theorem Session.execute_failure {options : Options} {scope : Nat} {trace : String}
    {statements : List Node} {tree : ScopeTree} {problem : Problem}
    (stopped : (execute options scope trace statements tree).result = .error problem) :
    ∃ failure, problem = .failure failure := by
  rw [execute_concluded] at stopped
  generalize Node.executeAll statements _ _ = result at stopped
  cases result with
  | ok value world => cases stopped
  | error failure world =>
    cases stopped
    exact ⟨failure.settle, rfl⟩

namespace Script

def Flags.plain (flags : Flags) : Flags :=
  { flags with showTokens := false, showTree := false }

def shownTokens (flags : Flags) (source : List Char) : String :=
  match Source.tokens source with
  | .ok tokens => if flags.showTokens then tokenDump tokens else ""
  | .error _ => ""

def shownTree (limits : Limits) (flags : Flags) (source : List Char) : String :=
  match Source.program limits source with
  | .ok statements => if flags.showTree then (treeDump limits statements).1 else ""
  | .error _ => ""

def fresh (limits : Limits) (source : List Char) : Step Unit :=
  Session.executeSource ⟨false, limits⟩ 0 source .initial

inductive Ends : Except Problem Unit → Ending → Prop where
  | done : Ends (.ok ()) (.exited 0)
  | failed (error : RuntimeError) :
    Ends (.error (.failure (.runtime error))) (.exited statusOfProgram)
  | endless : Ends (.error (.failure .outOfRounds)) (.escaped .outOfRounds)

variable {limits : Limits} {flags : Flags} {path output errors : String} {source : List Char}
  {tokens : List Token} {statements : List Node} {error : SourceError}

theorem execute_behind (shown : String) :
    execute limits path flags statements (shown ++ output) errors =
      (execute limits path flags statements output errors).behind shown := by
  simp only [execute]
  split <;> simp [Outcome.behind, String.append_assoc]

theorem fresh_read (read : Source.program limits source = .ok statements) :
    fresh limits source = Session.execute ⟨false, limits⟩ 0 "" statements .initial := by
  simp only [fresh, Session.executeSource, read]

theorem fresh_unread (unread : Source.program limits source = .error error) :
    fresh limits source = Session.failed error "" .initial := by
  simp only [fresh, Session.executeSource, unread]

/-- A program that is executed prints what it prints in a fresh interpreter, and how the script ends
depends on what it comes to there. -/
theorem execute_fresh (path : String) (untraced : flags.traced = false)
    (read : Source.program limits source = .ok statements) :
    (execute limits path flags statements "" "").output = (fresh limits source).output ∧
      Ends (fresh limits source).result (execute limits path flags statements "" "").ending := by
  obtain ⟨tokens, -, parsed⟩ := Source.program_eq_ok.mp read
  have clean := Session.executed_clean ScopeTree.known_initial parsed ⟨false, limits⟩ 0 ""
  simp only [fresh_read read, execute, untraced]
  cases result : (Session.execute ⟨false, limits⟩ 0 "" statements .initial).result with
  | ok _ => exact ⟨String.empty_append, .done⟩
  | error problem =>
    obtain ⟨failure, rfl⟩ := Session.execute_failure result
    rcases Session.settled_failure result (clean.failure failure result) with ⟨error, rfl⟩ | rfl
    · exact ⟨String.empty_append, .failed error⟩
    · exact ⟨String.empty_append, .endless⟩

theorem run_unread (limits : Limits) (path : String) (flags : Flags) (untraced : flags.traced = false)
    (unread : Source.program limits source = .error error) :
    run limits path flags source =
      ⟨shownTokens flags source, sourceReport path error, .exited statusOfSource⟩ := by
  cases scanned : Source.tokens source with
  | error problem =>
    simp only [Source.program, scanned, bind, Except.bind] at unread
    cases unread
    simp only [run, shownTokens, scanned]
  | ok tokens =>
    rw [Source.program_eq_statements limits scanned] at unread
    simp only [run, shownTokens, scanned, untraced, unread]
    rfl

theorem run_read (path : String) (flags : Flags) (untraced : flags.traced = false)
    (showable : flags.showTree = true → ¬ Source.HasUnshowable limits false source)
    (read : Source.program limits source = .ok statements) :
    run limits path flags source =
      (if flags.evaluate then execute limits path flags statements "" ""
        else ⟨"", "", .exited 0⟩).behind
          (shownTokens flags source ++ shownTree limits flags source) := by
  obtain ⟨tokens, scanned, parsed⟩ := Source.program_eq_ok.mp read
  have again : (Source.statements limits false source tokens).2 = .ok statements := by
    rw [← Source.program_eq_statements limits scanned, read]
  rw [Source.hasUnshowable_of_ok scanned again] at showable
  have shown : (if flags.showTree then treeDump limits statements else ("", none)) =
      (shownTree limits flags source, none) := by
    obtain ⟨⟨asked, deep⟩, -⟩ | ⟨-, intact⟩ :=
      dump_failure (Grammar.parsed_native parsed) flags.showTree
    · exact absurd deep (showable asked)
    · refine Prod.ext ?_ intact
      simp only [shownTree, read]
      split <;> rfl
  have silent : (Source.statements limits false source tokens).1 = "" := rfl
  simp only [run, scanned, untraced, again, silent, shown, shownTokens]
  split
  · rw [← execute_behind, String.append_empty]
  · simp only [Outcome.behind, String.append_empty]

@[simp]
theorem shownTokens_plain : shownTokens flags.plain source = "" := by
  rw [shownTokens]
  split <;> rfl

@[simp]
theorem shownTree_plain : shownTree limits flags.plain source = "" := by
  rw [shownTree]
  split <;> rfl

theorem run_plain (path : String) (untraced : flags.traced = false)
    (read : Source.program limits source = .ok statements) :
    run limits path flags.plain source =
      if flags.evaluate then execute limits path flags statements "" ""
      else ⟨"", "", .exited 0⟩ := by
  have hidden : flags.plain.showTree = true → ¬ Source.HasUnshowable limits false source :=
    fun asked => nomatch asked
  rw [run_read path flags.plain untraced hidden read, shownTokens_plain, shownTree_plain,
    String.append_empty, Outcome.behind_nothing]
  rfl

theorem runEntry_decoded {entry : Entry} (decoded : entry.text path = .ok source) :
    runEntry limits path flags entry = run limits path flags source := by
  rw [runEntry, decoded]

theorem run_behind (path : String) (untraced : flags.traced = false)
    (showable : flags.showTree = true → ¬ Source.HasUnshowable limits false source) :
    run limits path flags source = (run limits path flags.plain source).behind
      (shownTokens flags source ++ shownTree limits flags source) := by
  cases read : Source.program limits source with
  | error error =>
    have hidden : shownTree limits flags source = "" := by rw [shownTree, read]
    rw [run_unread limits path flags untraced read, run_unread limits path flags.plain untraced read,
      shownTokens_plain, hidden, String.append_empty, Outcome.behind, String.append_empty]
  | ok statements => rw [run_read path flags untraced showable read, run_plain path untraced read]

theorem run_read_ends (path : String) (untraced : flags.traced = false)
    (showable : flags.showTree = true → ¬ Source.HasUnshowable limits false source)
    (read : Source.program limits source = .ok statements) :
    let ending := (run limits path flags source).ending
    let plain := run limits path flags.plain source
    flags.evaluate = false ∧ plain.output = "" ∧ ending = .exited 0 ∨
      flags.evaluate = true ∧ plain.output = (fresh limits source).output ∧
        Ends (fresh limits source).result ending := by
  have executed := execute_fresh path untraced read
  rw [run_read path flags untraced showable read, run_plain path untraced read]
  cases flags.evaluate with
  | false => exact .inl ⟨rfl, rfl, rfl⟩
  | true => exact .inr ⟨rfl, executed⟩

/-- A script is all or nothing on the text of its source, and what it shows does not disturb its run.
It exits with the status of a bad source exactly if its text cannot be scanned or its tokens cannot be
parsed; then it writes what it shows of the tokens and reports the error, the fresh interpreter is
left as it was, and whether statements are to be executed, and how far they may get, makes no
difference. Otherwise it exits with the status of a failed program exactly if it is to be executed and
its program fails in a fresh interpreter; otherwise with zero, unless its loops run out of rounds. The
plain run with nothing shown differs in the output only: the tokens, if they are shown, and the tree,
if it is shown, stand before the text that the plain run prints. -/
theorem all_or_nothing {entry : Entry} (decoded : entry.text path = .ok source)
    (untraced : flags.traced = false)
    (showable : flags.showTree = true → ¬ Source.HasUnshowable limits false source) :
    let outcome := runEntry limits path flags entry
    let plain := runEntry limits path flags.plain entry
    let program := fresh limits source
    outcome = plain.behind (shownTokens flags source ++ shownTree limits flags source) ∧
    plain.output = (if flags.evaluate then program.output else "") ∧
    (outcome.ending = .exited statusOfSource ↔ Source.Malformed limits source) ∧
    (outcome.ending = .exited statusOfProgram ↔
      flags.evaluate = true ∧ ∃ error, program.result = .error (.failure (.runtime error))) ∧
    (outcome.ending = .escaped .outOfRounds ↔
      flags.evaluate = true ∧ program.result = .error (.failure .outOfRounds)) ∧
    (outcome.ending = .exited statusOfSource ∨ outcome.ending = .exited statusOfProgram ∨
      outcome.ending = .escaped .outOfRounds ∨ outcome.ending = .exited 0) ∧
    ∀ error, Source.program limits source = .error error →
      program = Session.failed error "" .initial ∧
      outcome = ⟨shownTokens flags source, sourceReport path error, .exited statusOfSource⟩ ∧
      ∀ evaluate depth rounds, outcome =
        runEntry { limits with evaluating := depth, rounds := rounds } path
          { flags with evaluate := evaluate } entry := by
  intro outcome plain program
  simp only [outcome, plain, program, runEntry_decoded decoded, Source.malformed_iff]
  refine ⟨run_behind path untraced showable, ?_⟩
  cases read : Source.program limits source with
  | error error =>
    rw [fresh_unread read, run_unread limits path flags untraced read,
      run_unread limits path flags.plain untraced read, shownTokens_plain]
    refine ⟨(ite_self _).symm, ⟨fun _ => ⟨error, rfl⟩, fun _ => rfl⟩, ?_, ?_, .inl rfl, ?_⟩
    · simp [Session.failed, statusOfSource, statusOfProgram]
    · simp [Session.failed]
    · rintro _ ⟨⟩
      refine ⟨rfl, rfl, fun evaluate depth rounds => ?_⟩
      -- reading the text knows nothing of how far statements may get
      exact (run_unread { limits with evaluating := depth, rounds := rounds } path
        { flags with evaluate := evaluate } untraced read).symm
  | ok statements =>
    obtain ⟨off, silent, ends⟩ | ⟨on, printed, ends⟩ :=
      run_read_ends path untraced showable read
    · simp [off, silent, ends, statusOfSource, statusOfProgram]
    · rw [on, printed]
      generalize (fresh limits source).result = result at ends
      generalize (run limits path flags source).ending = ending at ends
      cases ends <;> simp [statusOfSource, statusOfProgram]

/-- A script with everything shown, whose second statement fails after the first one printed. -/
theorem unknown_name_after_dumps :
    let text := "print true;print x;".toList
    let entry := Entry.file (text.map fun character => UInt8.ofNat character.toNat)
    let flags : Flags := ⟨true, true, true, false⟩
    let outcome := runEntry .standard "x.lox" flags entry
    let dumps := "Tokens:\n\tPRINT print null\n\tTRUE true null\n\tSEMICOLON ; null\n" ++
      "\tPRINT print null\n\tIDENTIFIER x null\n\tSEMICOLON ; null\n\tEOF  null\n" ++
      "\nParsed AST:\n\n\t(print true);\n\t(print x);\n"
    outcome.output = dumps ++ "true\n" ∧ outcome.ending = .exited 70 := by
  intro text entry flags outcome dumps
  let tokens : List Token := [⟨.printWord, "print", 1⟩, ⟨.trueWord, "true", 1⟩, ⟨.semicolon, ";", 1⟩,
    ⟨.printWord, "print", 1⟩, ⟨.identifier "x", "x", 1⟩, ⟨.semicolon, ";", 1⟩, .endOfInput 1]
  let statements : List Node := [.print (.literal (.boolean true)), .print (.identifier "x")]
  have decoded : entry.text "x.lox" = .ok text := by
    have bytes : Text.decode (text.map fun character => UInt8.ofNat character.toNat) = .ok text := by
      decide +kernel
    have lines : Text.unifyLines text = text := by decide +kernel
    simp only [entry, Entry.text, bytes, lines]
  have scanned : Source.tokens text = .ok tokens := Source.tokens_eq_ok.mpr (by decide +kernel)
  have read : (Source.statements .standard false text tokens).2 = .ok statements := rfl
  have program : Source.program .standard text = .ok statements := by
    rw [Source.program_eq_statements .standard scanned, read]
  have showable : ¬ Source.HasUnshowable .standard false text := by
    rw [Source.hasUnshowable_of_ok scanned read]
    simp [Unshowable, statements, Node.height, Limits.standard]
  have failed : (fresh .standard text).result = .error (.failure (.runtime (.unknownName "x"))) := by
    rw [fresh_read program]
    rfl
  have printed : (fresh .standard text).output = "true\n" := by decide +kernel
  have shown : shownTokens flags text ++ shownTree .standard flags text = dumps := by decide +kernel
  obtain ⟨behind, plain, -, status, -⟩ :=
    @all_or_nothing .standard flags "x.lox" text entry decoded rfl fun _ => showable
  refine ⟨?_, status.mpr ⟨rfl, _, failed⟩⟩
  calc outcome.output
    _ = shownTokens flags text ++ shownTree .standard flags text ++
        (runEntry .standard "x.lox" flags.plain entry).output := congrArg Outcome.output behind
    _ = dumps ++ "true\n" := by
      rw [shown, plain, printed]
      rfl

end Script
end Lox
