import Lox.Proofs.Grammar.Acceptance
import Lox.Proofs.Grammar.Locality.Program
import Lox.Proofs.Grammar.Mending.Rule

/-!
A program is refused at the first token that it cannot go on with: the tokens before it can be
completed, and with it they cannot.
-/
namespace Lox.Grammar

open Filter
open Token (Kind)

/-- A program was read, or no more is wrong with it than a target that cannot be assigned to. -/
def Reading.Passable (reading : Reading) : Prop :=
  reading.fault = none ∨ ∃ rest, reading.fault = some (.rejected .invalidTarget rest)

section
variable {limit : Nat} {tokens used rest : List Token}

theorem Finishes.readProgram (further : ¬ (front tokens).isEnd = true)
    (finishes : Finishes (fun limit => parse limit .declaration) tokens rest)
    (atEnd : (front rest).isEnd = true) :
    ∀ᶠ limit in atTop, (readProgram limit (fun _ => true) tokens).Passable := by
  cases finishes with
  | returned statement read =>
    filter_upwards [read] with limit read
    rw [readProgram_ok further read rfl, readProgram_end atEnd]
    exact .inl rfl
  | misassigned target left read =>
    filter_upwards [read] with limit read
    rw [readProgram_error further read]
    exact .inr ⟨target, rfl⟩

theorem declaration_mends {complaint : Complaint} (inside : ¬ (front tokens).isEnd = true)
    (ends : Ends (parse limit .declaration tokens) (.refused complaint) rest)
    (short : complaint ≠ .tooManyArguments) :
    ∃ used kinds, tokens = used ++ rest ∧ (used = [] → kinds = []) ∧
      ∀ more other, more.map Token.kind = kinds → (front other).kind = .endOfInput →
        ∀ᶠ higher in atTop, (readProgram higher (fun _ => true) (used ++ (more ++ other))).Passable := by
  obtain ⟨used, rfl, mended⟩ := (parse_resumes limit .declaration).mends _ _ _ ends short
  by_cases begun : used = []
  · subst begun
    refine ⟨[], [], rfl, fun _ => rfl, fun more other spelled finished => ?_⟩
    obtain rfl : more = [] := List.map_eq_nil_iff.mp spelled
    apply Eventually.of_forall
    intro higher
    rw [List.nil_append, List.nil_append, readProgram_end (by simp [Token.isEnd, finished])]
    exact .inl rfl
  · obtain ⟨kinds, completes⟩ := mended (.inr begun)
    refine ⟨used, kinds, rfl, fun none => absurd none begun, fun more other spelled finished => ?_⟩
    obtain ⟨token, left, rfl⟩ := List.exists_cons_of_ne_nil begun
    have finishes := completes more other spelled (by simp [Rule.stops, finished])
    exact finishes.readProgram inside (by simp [Token.isEnd, finished])

/-- The declarations that were read stay as they are, and the one that was begun can be completed.
If none was begun, the program can end there. -/
theorem readProgram_mends {complaint : Complaint} (refused : Refused limit complaint rest tokens)
    (short : complaint ≠ .tooManyArguments) :
    ∃ used kinds, tokens = used ++ rest ∧ (used = [] → kinds = []) ∧
      ∀ more other, more.map Token.kind = kinds → (front other).kind = .endOfInput →
        ∀ᶠ higher in atTop, (readProgram higher (fun _ => true) (used ++ (more ++ other))).Passable := by
  induction refused with
  | here inside ends => exact declaration_mends inside ends short
  | behind inside read _ ih =>
    obtain ⟨first, rfl, -, passed, -⟩ :=
      parse_local limit .declaration _ _ _ (ends_returned.mpr read)
    obtain ⟨used, kinds, rfl, none, mended⟩ := ih
    have nonempty := passed rfl _ rfl
    refine ⟨first ++ used, kinds, by simp, by simp [nonempty],
      fun more other spelled finished => ?_⟩
    have agrees : Agrees (· ≠ .elseWord) (used ++ (more ++ other)) (used ++ rest) := by
      -- no `else` comes next: with nothing begun the program ends here
      cases used with
      | nil =>
        obtain rfl : more = [] := List.map_eq_nil_iff.mp (spelled.trans (none rfl))
        exact .inr (by simp [finished])
      | cons token used => exact .inl rfl
    have further : ¬ (front (first ++ (used ++ (more ++ other)))).isEnd = true := by
      obtain ⟨token, after, rfl⟩ := List.exists_cons_of_ne_nil nonempty
      exact inside
    have reread := (parse_settles .declaration).reread read agrees
    filter_upwards [reread, mended more other spelled finished] with higher again passable
    rw [List.append_assoc, readProgram_ok further again rfl]
    exact passable

end

/-- A token is the first one that a program cannot go on with behind such tokens. -/
structure FirstOffence (limit : Nat) (before : List Token) (token : Token) (error : SyntaxError) :
    Prop where
  /-- the program has not come to its end -/
  inside : Kind.endOfInput ∉ before.map Token.kind
  /-- with the token, there is the same error whatever follows -/
  refused : ∀ others higher, (before ++ token :: others).getLast?.any Token.isEnd → limit ≤ higher →
    parseProgram higher (before ++ token :: others) = .error error
  /-- without it, some other tokens are all that is missing -/
  mended : ∃ others, (before ++ others).getLast?.any Token.isEnd ∧ ∃ enough, ∀ higher, enough ≤ higher →
    (∃ statements, parseProgram higher (before ++ others) = .ok statements) ∨
      ∃ other, parseProgram higher (before ++ others) = .error other ∧ other.complaint = .invalidTarget

section
variable {limit : Nat} {tokens before : List Token} {error : SyntaxError}

theorem parseProgram_eq_error (ended : tokens.getLast?.any Token.isEnd) :
    parseProgram limit tokens = .error error ↔
      ∃ fault, (readProgram limit (fun _ => true) tokens).fault = some fault ∧ fault.error = error := by
  simp only [parseProgram, read, if_pos ended, program]
  cases (readProgram limit (fun _ => true) tokens).fault with
  | none => simp
  | some fault => simp

theorem Reading.Passable.parsed (ended : tokens.getLast?.any Token.isEnd)
    (passable : (readProgram limit (fun _ => true) tokens).Passable) :
    (∃ statements, parseProgram limit tokens = .ok statements) ∨
      ∃ error, parseProgram limit tokens = .error error ∧ error.complaint = .invalidTarget := by
  rcases passable with finished | ⟨rest, refused⟩
  · left
    have returned : program limit tokens =
        .ok (readProgram limit (fun _ => true) tokens).statements
          (readProgram limit (fun _ => true) tokens).rest := by
      simp only [program, finished]
    exact ⟨_, (read_eq_ok ended).mpr ⟨_, returned⟩⟩
  · right
    exact ⟨_, (parseProgram_eq_error ended).mpr ⟨_, refused, rfl⟩, rfl⟩

theorem error_within {higher : Nat} (refused : parseProgram limit tokens = .error error)
    (shallow : error.complaint ≠ .tooDeep) (below : limit ≤ higher) :
    parseProgram higher tokens = .error error := by
  rcases @parseProgram_within tokens limit higher below with ⟨deep, same, exhausted⟩ | same
  · rw [refused] at same
    cases same
    exact absurd exhausted shallow
  · rw [same, refused]

/-- The error of a program is at the first token that the program cannot go on with. Targets that
cannot be assigned to and arguments that are too many are complained about at other tokens. -/
theorem error_at_first_offence (ended : tokens.getLast?.any Token.isEnd)
    (refused : parseProgram limit tokens = .error error)
    (target : error.complaint ≠ .invalidTarget) (short : error.complaint ≠ .tooManyArguments)
    (shallow : error.complaint ≠ .tooDeep) :
    ∃ before token after, tokens = before ++ token :: after ∧
      (readProgram limit (fun _ => true) tokens).fault =
        some (.rejected error.complaint (token :: after)) ∧
      error = .atToken error.complaint token ∧ FirstOffence limit before token error := by
  obtain ⟨fault, faulty, rfl⟩ := (parseProgram_eq_error ended).mp refused
  cases fault with
  | tooDeep => exact absurd rfl shallow
  | rejected complaint rest =>
    have place := refused_of_fault faulty target shallow
    obtain ⟨before, rfl, inside, reread⟩ := readProgram_refuses place
    cases rest with
    | nil =>
      -- the end would be among the tokens that were passed
      obtain ⟨last, found, isEnd⟩ := (Option.any_eq_true _ _).mp ended
      have member : last ∈ before := by simpa using List.mem_of_getLast? found
      have same : last.kind = .endOfInput := by simpa [Token.isEnd] using isEnd
      exact absurd (same ▸ List.mem_map_of_mem member) inside
    | cons token after =>
      obtain ⟨begun, kinds, split, -, mended⟩ := readProgram_mends place short
      obtain rfl := List.append_cancel_right split
      refine ⟨before, token, after, rfl, faulty, rfl, inside, ?_, ?_⟩
      · intro others higher ended below
        apply error_within _ shallow below
        have again := reread before (token :: others) rfl rfl
        exact (parseProgram_eq_error ended).mpr ⟨_, again, rfl⟩
      · let more : List Token := kinds.map fun kind => ⟨kind, kind.name, 1⟩
        have spelled : more.map Token.kind = kinds := by
          simp [more, Function.comp_def]
        have closed : (before ++ (more ++ [Token.endOfInput 1])).getLast?.any Token.isEnd := by
          rw [← List.append_assoc, List.getLast?_append]
          rfl
        refine ⟨more ++ [Token.endOfInput 1], closed, ?_⟩
        obtain ⟨enough, passable⟩ :=
          eventually_atTop.mp (mended more [Token.endOfInput 1] spelled rfl)
        exact ⟨enough, fun higher above => (passable higher above).parsed closed⟩

end

/-- In `if (a;` the semicolon stands where the parenthesis should be closed. -/
theorem first_offence_of_unclosed_condition :
    FirstOffence 40 [⟨.ifWord, "if", 1⟩, ⟨.leftParen, "(", 1⟩, ⟨.identifier "a", "a", 1⟩]
      ⟨.semicolon, ";", 1⟩ (.atToken (.expected "')' after if condition") ⟨.semicolon, ";", 1⟩) := by
  let tokens : List Token := [⟨.ifWord, "if", 1⟩, ⟨.leftParen, "(", 1⟩, ⟨.identifier "a", "a", 1⟩,
    ⟨.semicolon, ";", 1⟩, .endOfInput 1]
  have refused : parseProgram 40 tokens =
    .error (.atToken (.expected "')' after if condition") ⟨.semicolon, ";", 1⟩) := rfl
  obtain ⟨before, token, after, split, faulty, -, offence⟩ :=
    error_at_first_offence (by decide) refused (by decide) (by decide) (by decide)
  have found : (readProgram 40 (fun _ => true) tokens).fault = some (.rejected
    (.expected "')' after if condition") [⟨.semicolon, ";", 1⟩, .endOfInput 1]) := rfl
  rw [found] at faulty
  cases faulty
  have same : tokens = [⟨.ifWord, "if", 1⟩, ⟨.leftParen, "(", 1⟩, ⟨.identifier "a", "a", 1⟩] ++
    [⟨.semicolon, ";", 1⟩, .endOfInput 1] := rfl
  rw [← List.append_cancel_right (same.symm.trans split)] at offence
  exact offence

end Lox.Grammar
