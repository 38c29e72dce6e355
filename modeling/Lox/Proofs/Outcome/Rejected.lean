import Lox.Proofs.Outcome.Prompt
import Lox.Proofs.Session.Seen

namespace Lox.Prompt

def turns (options : Options) :
    List (Option (List Char)) → ScopeTree → List (List Char × Turn)
  | [], _ | none :: _, _ => []
  | some line :: rest, tree =>
    let turn := turn options line tree
    match turn.next with
    | .goOn => (line, turn) :: turns options rest turn.tree
    | .leave | .escape _ => [(line, turn)]

def transcript : List Turn → Transcript
  | [] => ⟨[farewell], "", none⟩
  | turn :: rest =>
    match turn.next with
    | .leave => ⟨[turn.output], turn.trace, none⟩
    | .escape failure => ⟨[turn.output], turn.trace, some failure⟩
    | .goOn =>
      let others := transcript rest
      { others with
        chunks := turn.output :: others.chunks
        trace := turn.trace ++ others.trace }

/-- Whether a line is not run, and does not leave either: it is blank, it is a command, or its text
is neither an expression nor a program. -/
def rejected (limits : Limits) (line : List Char) : Bool :=
  Text.trimmed line != "exit".toList &&
    ((Text.trimmed line).isEmpty || line.head? == some ':' ||
      !((Source.expression limits line).toBool || (Source.program limits line).toBool))

section
variable {options : Options} {line : List Char} {tree : ScopeTree}

theorem converse_eq_transcript (lines : List (Option (List Char))) (tree : ScopeTree) :
    converse options lines tree = transcript ((turns options lines tree).map Prod.snd) := by
  induction lines generalizing tree with
  | nil => rfl
  | cons entry rest ih =>
    cases entry with
    | none => rfl
    | some line =>
      rw [converse, turns]
      cases next : (turn options line tree).next with
      | leave => simp [transcript, next]
      | escape failure => simp [transcript, next]
      | goOn => simp [transcript, next, ih]

theorem line_unread (unread : ((Source.expression options.limits line).toBool ||
      (Source.program options.limits line).toBool) = false) :
    ∃ error trace, Session.line options line tree = Session.failed error trace tree := by
  rw [Bool.or_eq_false_iff] at unread
  have taken := Session.line_taken options line tree
  generalize Session.line options line tree = step at taken ⊢
  cases taken with
  | expression read =>
    rw [read] at unread
    cases unread.1
  | program trace _ read =>
    rw [read] at unread
    cases unread.2
  | refused error trace _ => exact ⟨error, trace, rfl⟩

/-- A line that is not run leaves the scopes as they were, and the mode goes on, unless the line asks
for a tree that is too deep to be shown. -/
theorem turn_rejected (without : rejected options.limits line = true) (tree : ScopeTree) :
    (turn options line tree).tree = tree ∧
      ((turn options line tree).next = .goOn ∨
        (turn options line tree).next = .escape .tooDeep) := by
  simp only [rejected, Bool.and_eq_true, bne_iff_ne, Bool.or_eq_true, beq_iff_eq,
    Bool.not_eq_true'] at without
  obtain ⟨stays, idle⟩ := without
  by_cases colon : line.head? = some ':'
  · obtain ⟨rest, rfl⟩ := List.head?_eq_some_iff.mp colon
    obtain ⟨same, next⟩ := @command_next options (':' :: rest) tree
    rw [turn_colon]
    refine ⟨same, ?_⟩
    rcases next with ⟨-, escapes⟩ | ⟨-, goesOn⟩
    · exact .inr escapes
    · exact .inl goesOn
  · rw [turn, if_neg stays, if_neg colon]
    split
    · exact ⟨rfl, .inl rfl⟩
    · next full =>
      obtain ⟨error, trace, refused⟩ := @line_unread options line tree
        ((idle.resolve_left fun either => either.elim full colon))
      rw [refused]
      exact ⟨rfl, .inl rfl⟩

theorem turn_run (accepted : rejected options.limits line = false)
    (stays : Text.trimmed line ≠ "exit".toList) :
    turn options line tree = ofStep (Session.line options line tree) := by
  simp only [rejected, Bool.and_eq_false_iff, bne_eq_false_iff_eq, Bool.or_eq_false_iff,
    beq_eq_false_iff_ne] at accepted
  obtain ⟨⟨full, colon⟩, -⟩ := accepted.resolve_left stays
  rw [turn, if_neg stays, if_neg (by simp [full]), if_neg colon]

theorem turn_failed {error : RuntimeError} (accepted : rejected options.limits line = false)
    (stays : Text.trimmed line ≠ "exit".toList)
    (failed : (Session.line options line tree).result = .error (.failure (.runtime error))) :
    ∃ seen left, Session.Seen options line tree seen ∧ Trail (tree.chain 0) seen left ∧
      (turn options line tree).output =
        Sight.output seen ++ "Runtime Error: " ++ error.message ++ "\n" ∧
      (turn options line tree).tree = tree.update 0 left ∧
      (turn options line tree).next = .goOn := by
  obtain ⟨seen, watched, output, left, trail, leaves⟩ := Session.line_leaving failed
  refine ⟨seen, left, watched, trail, ?_⟩
  rw [turn_run accepted stays, ofStep, failed]
  exact ⟨by rw [output], leaves, rfl⟩

end

def accepted (limits : Limits) (lines : List (Option (List Char))) : List (Option (List Char)) :=
  lines.filter fun entry => entry.all fun line => !rejected limits line

/-- Without the rejected lines the others do what they did, by induction on the lines: a rejected one
leaves the scopes to the next line as it found them. -/
theorem turns_accepted {options : Options} {lines : List (Option (List Char))} {tree : ScopeTree}
    (shallow : (converse options lines tree).escaped ≠ some .tooDeep) :
    turns options (accepted options.limits lines) tree =
      (turns options lines tree).filter fun entry => !rejected options.limits entry.1 := by
  induction lines generalizing tree with
  | nil => rfl
  | cons entry rest ih =>
    cases entry with
    | none => rfl
    | some line =>
      rw [converse] at shallow
      cases without : rejected options.limits line with
      | true =>
        have skipped : accepted options.limits (some line :: rest) =
            accepted options.limits rest := by
          simp [accepted, without]
        obtain ⟨same, goesOn | deep⟩ := turn_rejected without tree
        · simp only [goesOn] at shallow
          have later := ih shallow
          rw [same] at later
          simp only [skipped, turns, goesOn, same, later]
          simp [without]
        · simp [deep] at shallow
      | false =>
        have kept : accepted options.limits (some line :: rest) =
            some line :: accepted options.limits rest := by
          simp [accepted, without]
        rw [kept, turns, turns]
        cases next : (turn options line tree).next with
        | goOn =>
          simp only [next] at shallow
          simp [without, ih shallow]
        | leave => simp [without]
        | escape failure => simp [without]

/-- Lines that are rejected leave no trace: they are blank, they are commands, or their texts are
neither expressions nor programs. If they are taken away from the lines of a conversation, each of
the others prints what it printed and leaves the scopes that it left, and the conversation ends as it
did, unless it was broken off at a tree that is too deep to be shown. A line that fails in its run
keeps what it did before: it prints what was seen to be printed up to the error, and then the error,
and it leaves the scopes as they were after the last change of them that was seen. -/
theorem rejected_lines_leave_no_trace {options : Options} {lines : List (Option (List Char))}
    {tree : ScopeTree} (shallow : (converse options lines tree).escaped ≠ some .tooDeep) :
    let all := turns options lines tree
    let others := all.filter fun entry => !rejected options.limits entry.1
    turns options (accepted options.limits lines) tree = others ∧
    converse options lines tree = transcript (all.map Prod.snd) ∧
    converse options (accepted options.limits lines) tree = transcript (others.map Prod.snd) ∧
    ∀ (line : List Char) (before : ScopeTree) (error : RuntimeError),
      rejected options.limits line = false → Text.trimmed line ≠ "exit".toList →
      (Session.line options line before).result = .error (.failure (.runtime error)) →
      ∃ seen left, Session.Seen options line before seen ∧ Trail (before.chain 0) seen left ∧
        (turn options line before).output =
          Sight.output seen ++ "Runtime Error: " ++ error.message ++ "\n" ∧
        (turn options line before).tree = before.update 0 left ∧
        (turn options line before).next = .goOn := by
  intro all others
  have same := turns_accepted shallow
  refine ⟨same, converse_eq_transcript lines tree, ?_, ?_⟩
  · rw [converse_eq_transcript, same]
  · intro line before error run stays failed
    exact turn_failed run stays failed

/-- A blank, a command and a text that is no program are taken away; the line that fails keeps its
assignment and the line that it printed, and the last line shows that. -/
theorem blank_and_broken_lines_leave_no_trace :
    let options : Options := ⟨false, .standard⟩
    let failing := "a = \x22y\x22; print a; print b; a = nil;".toList
    let lines := [some "var a = \x22x\x22;".toList, some " ".toList, some ":env".toList,
      some "a = ;".toList, some failing, some "a".toList, none]
    let others := [some "var a = \x22x\x22;".toList, some failing, some "a".toList, none]
    accepted .standard lines = others ∧
    turns options others .initial = (turns options lines .initial).filter (fun entry =>
      !rejected .standard entry.1) ∧
    (converse options others .initial).chunks =
      ["", "y\nRuntime Error: Unknown variable access: b\n", "=> y\n", farewell] := by
  intro options failing lines others
  have left : accepted options.limits lines = others := by decide +kernel
  have finished : (converse options lines .initial).escaped.isNone = true := by decide +kernel
  have shallow : (converse options lines .initial).escaped ≠ some .tooDeep := by
    rw [Option.isNone_iff_eq_none.mp finished]
    exact (Option.some_ne_none _).symm
  have same := (rejected_lines_leave_no_trace shallow).1
  rw [left] at same
  exact ⟨left, same, by decide +kernel⟩

end Lox.Prompt
