import Lox.Grammar.Cursor
import Lox.Proofs.Grammar.Locality.Rule

/-!
Parsers that stay in front of the first end: however they come out, they have passed no end, and
what stands behind the first one makes no difference. Each way to put parsers together keeps this.
-/
namespace Lox.Grammar

open Token (Kind)

variable {α β : Type}

def Passed (tokens rest : List Token) : Prop :=
  ∃ used, tokens = used ++ rest ∧ Kind.endOfInput ∉ used.map Token.kind

def upToEnd : List Token → List Token
  | [] => []
  | token :: after => if token.isEnd then [token] else token :: upToEnd after

def Fault.upToEnd : Fault → Fault
  | rejected complaint rest => rejected complaint (Grammar.upToEnd rest)
  | tooDeep => tooDeep

def left : EStateM.Result Fault (List Token) α → List Token
  | .ok _ rest => rest
  | .error _ rest => rest

def cutOff : EStateM.Result Fault (List Token) α → EStateM.Result Fault (List Token) α
  | .ok value rest => .ok value (upToEnd rest)
  | .error fault rest => .error fault.upToEnd (upToEnd rest)

/-- What a parser makes of some tokens, it makes of those up to the first end. The token that it
complains about is one of those that it has come to. -/
structure Enclosed (parser : Parser α) (tokens : List Token) : Prop where
  passed : Passed tokens (left (parser tokens))
  cut : parser (upToEnd tokens) = cutOff (parser tokens)
  blamed : ∀ complaint rest after, parser tokens = .error (.rejected complaint rest) after →
    Passed tokens rest

section
variable {tokens middle rest used : List Token} {token : Token}

namespace Passed

theorem refl (tokens : List Token) : Passed tokens tokens := ⟨[], rfl, by simp⟩

theorem trans (first : Passed tokens middle) (second : Passed middle rest) : Passed tokens rest := by
  obtain ⟨used, rfl, inside⟩ := first
  obtain ⟨more, rfl, moreInside⟩ := second
  exact ⟨used ++ more, by simp, by simp [inside, moreInside]⟩

theorem cons (inside : token.kind ≠ .endOfInput) (passed : Passed tokens rest) :
    Passed (token :: tokens) rest := by
  obtain ⟨used, rfl, others⟩ := passed
  exact ⟨token :: used, rfl, inside_cons inside others⟩

end Passed

theorem isEnd_iff : token.isEnd = true ↔ token.kind = .endOfInput := decide_eq_true_iff

theorem upToEnd_cons (inside : token.kind ≠ .endOfInput) :
    upToEnd (token :: tokens) = token :: upToEnd tokens :=
  if_neg ((not_congr isEnd_iff).mpr inside)

theorem upToEnd_append (inside : Kind.endOfInput ∉ used.map Token.kind) (rest : List Token) :
    upToEnd (used ++ rest) = used ++ upToEnd rest := by
  induction used with
  | nil => rfl
  | cons token used ih =>
    rw [List.map_cons, List.mem_cons, not_or] at inside
    rw [List.cons_append, upToEnd_cons (Ne.symm inside.1), ih inside.2, List.cons_append]

@[simp] theorem front_upToEnd (tokens : List Token) : front (upToEnd tokens) = front tokens := by
  cases tokens with
  | nil => rfl
  | cons token after =>
    rw [upToEnd]
    split <;> rfl

theorem Fault.settle_upToEnd (fault : Fault) (rest : List Token) :
    fault.upToEnd.settle (Grammar.upToEnd rest) = (fault.settle rest).upToEnd := by
  cases fault <;> rfl

end

namespace Enclosed

section
variable {parser : Parser α} {tokens rest : List Token} {asked : Kind → Bool}

theorem pure (value : α) : Enclosed (pure value : Parser α) tokens where
  passed := .refl tokens
  cut := rfl
  blamed _ _ _ refused := by cases refused

theorem peek : Enclosed peek tokens where
  passed := .refl tokens
  cut := by
    change EStateM.Result.ok (front (upToEnd tokens)) _ = _
    rw [front_upToEnd]
    rfl
  blamed _ _ _ refused := by cases refused

theorem reject (complaint : Complaint) : Enclosed (reject complaint : Parser α) tokens where
  passed := .refl tokens
  cut := rfl
  blamed _ _ _ refused := by
    cases refused
    exact .refl tokens

/-- One parser after the other: the second has to stay there only where the first one ends. -/
theorem bind {next : α → Parser β} (begins : Enclosed parser tokens)
    (follows : ∀ value middle, parser tokens = .ok value middle → Enclosed (next value) middle) :
    Enclosed (parser >>= next) tokens := by
  obtain ⟨passed, cut, blamed⟩ := begins
  cases read : parser tokens with
  | error fault middle =>
    rw [read] at passed cut
    constructor <;> simp only [Bind.bind, EStateM.bind, read, cut, cutOff, left]
    · exact passed
    · intro complaint rest after refused
      cases refused
      exact blamed complaint rest _ read
  | ok value middle =>
    rw [read] at passed cut
    obtain ⟨further, same, later⟩ := follows value middle read
    constructor
    · rw [bind_of_ok read]
      exact passed.trans further
    · rw [bind_of_ok read, bind_of_ok cut, same]
    · intro complaint rest after refused
      rw [bind_of_ok read] at refused
      exact passed.trans (later complaint rest after refused)

theorem map (each : Enclosed parser tokens) (change : α → β) :
    Enclosed (parser >>= fun value => Pure.pure (change value)) tokens :=
  each.bind fun value _ _ => pure (change value)

theorem advance : Enclosed advance tokens := by
  by_cases ended : (front tokens).isEnd = true
  · have stays {tokens : List Token} (ended : (front tokens).isEnd = true) :
        Grammar.advance tokens = .ok (front tokens) tokens := by
      rw [Grammar.advance, peek_bind, if_pos ended]
      rfl
    constructor
    · rw [stays ended]
      exact .refl tokens
    · rw [stays ended, stays (by rwa [front_upToEnd]), front_upToEnd]
      rfl
    · intro complaint rest after refused
      cases (stays ended).symm.trans refused
  · have inside := (not_congr isEnd_iff).mp ended
    obtain ⟨token, after, rfl, -⟩ := cons_of_front_kind rfl inside
    rw [front_cons] at inside
    constructor
    · rw [advance_cons inside]
      exact (Passed.refl after).cons inside
    · rw [upToEnd_cons inside, advance_cons inside, advance_cons inside]
      rfl
    · intro complaint rest last refused
      cases (advance_cons inside).symm.trans refused

theorem acceptIf : Enclosed (acceptIf asked) tokens := by
  refine peek.bind fun token rest _ => ?_
  split
  · exact advance.map some
  · exact pure none

theorem requireIf {complaint : Complaint} : Enclosed (requireIf asked complaint) tokens := by
  refine acceptIf.bind fun found rest _ => ?_
  cases found with
  | some token => exact pure token
  | none => exact reject complaint

theorem dispatch {on? : Kind → Option (Parser α)} {no : Parser α}
    (dispatches : Dispatches parser on? no)
    (yes : ∀ token after run, tokens = token :: after → on? token.kind = some run →
      Enclosed run after)
    (otherwise : Enclosed no tokens) : Enclosed parser tokens := by
  cases found : on? (front tokens).kind with
  | some run =>
    obtain ⟨token, after, rfl, inside⟩ := dispatches.cons_of_some found
    obtain ⟨passed, cut, blamed⟩ := yes token after run rfl found
    constructor
    · rw [dispatches.passes token after run found]
      exact passed.cons inside
    · rw [upToEnd_cons inside, dispatches.passes token _ run found,
        dispatches.passes token _ run found, cut]
    · intro complaint rest last refused
      rw [dispatches.passes token after run found] at refused
      exact (blamed complaint rest last refused).cons inside
  | none =>
    obtain ⟨passed, cut, blamed⟩ := otherwise
    constructor
    · rwa [dispatches.other tokens found]
    · rw [dispatches.other tokens found, dispatches.other _ (by rwa [front_upToEnd]), cut]
    · rwa [dispatches.other tokens found]

theorem guarded (ends : Kind → Bool) {value : α} {choice : Parser α}
    (shape : ∀ tokens, choice tokens =
      if ends (front tokens).kind = true then .ok value tokens else parser tokens)
    (each : ends (front tokens).kind = false → Enclosed parser tokens) :
    Enclosed choice tokens := by
  cases closed : ends (front tokens).kind with
  | true =>
    constructor
    · rw [shape, if_pos closed]
      exact .refl tokens
    · rw [shape, shape, front_upToEnd, if_pos closed, if_pos closed]
      rfl
    · intro complaint rest after refused
      rw [shape, if_pos closed] at refused
      cases refused
  | false =>
    obtain ⟨passed, cut, blamed⟩ := each closed
    constructor
    · rwa [shape, if_neg (by simp [closed])]
    · rw [shape, shape, front_upToEnd, if_neg (by simp [closed]), if_neg (by simp [closed]), cut]
    · rwa [shape, if_neg (by simp [closed])]

theorem settled (each : Enclosed parser tokens) : Enclosed (settled parser) tokens := by
  obtain ⟨passed, cut, blamed⟩ := each
  cases read : parser tokens with
  | ok value rest =>
    rw [read] at passed cut
    constructor <;> simp only [Grammar.settled, read, cut, cutOff, left]
    · exact passed
    · intro complaint rest after refused
      cases refused
  | error fault rest =>
    rw [read] at passed cut
    constructor <;> simp only [Grammar.settled, read, cut, cutOff, left]
    · exact passed
    · rw [Fault.settle_upToEnd]
    · intro complaint others after refused
      cases fault with
      | tooDeep =>
        cases refused
        exact passed
      | rejected other found =>
        cases refused
        exact blamed complaint others _ read

end

theorem repeated {more : α → Parser (Option α)} {on? : α → Kind → Option (Parser α)}
    {wider : Kind → Prop} (loops : Loops more on?)
    (near : ∀ value kind run, on? value kind = some run → Local false wider run)
    (each : ∀ value kind run tokens, on? value kind = some run → Enclosed run tokens)
    (value : α) (tokens : List Token) : Enclosed (repeated more value) tokens := by
  -- each round has passed a token, so fewer are left for the others
  induction size : tokens.length using Nat.strongRecOn generalizing tokens value with
  | ind size ih =>
    refine .dispatch (loops.dispatches near value) (fun token after run split found => ?_) (pure value)
    obtain ⟨round, listed, rfl⟩ := Option.map_eq_some_iff.mp found
    refine (each _ _ _ after listed).bind fun next middle read => ?_
    have shorter := (near _ _ _ listed).length_le read
    rw [split, List.length_cons] at size
    exact ih middle.length (by omega) next middle rfl

section
variable {wider : Kind → Prop} {ends : Kind → Bool} {item : Parser α}

theorem items (near : Local true wider item) (atEnd : ends .endOfInput = true)
    (each : ∀ tokens, Enclosed item tokens) (tokens : List Token) :
    Enclosed (items ends item) tokens := by
  induction size : tokens.length using Nat.strongRecOn generalizing tokens with
  | ind size ih =>
    refine .guarded ends (items_shape near atEnd) fun _ => ?_
    refine (each tokens).bind fun value middle read => ?_
    have shorter := near.length_lt read
    exact (ih middle.length (by omega) middle rfl).map _

end

/-! The parsers that rules are made of. -/

section
variable {parser : Parser Node} {tokens : List Token} {kind : Kind} {what : String}

theorem require (inside : kind ≠ .endOfInput) : Enclosed (require kind what) tokens := by
  refine dispatch (require_dispatches inside) (fun token after run _ found => ?_) (reject _)
  split at found <;> cases found
  exact pure ()

theorem requireName : Enclosed (requireName what) tokens := by
  refine dispatch requireName_dispatches (fun token after run _ found => ?_) (reject _)
  obtain ⟨name, -, rfl⟩ := Option.map_eq_some_iff.mp found
  exact pure name

theorem accept {yes no : Parser α} (inside : kind ≠ .endOfInput)
    (accepted : ∀ after, Enclosed yes after) (otherwise : Enclosed no tokens) :
    Enclosed (accept kind >>= fun found => if found = true then yes else no) tokens := by
  refine dispatch (accept_dispatches inside) (fun token after run _ found => ?_) otherwise
  split at found <;> cases found
  exact accepted after

theorem require_then {next : Parser α} (inside : kind ≠ .endOfInput)
    (follows : ∀ middle, Enclosed next middle) :
    Enclosed (Grammar.require kind what >>= fun _ => next) tokens :=
  (require inside).bind fun _ middle _ => follows middle

theorem then_require {parser : Parser α} {next : α → Parser β} (begins : Enclosed parser tokens)
    (inside : kind ≠ .endOfInput) (follows : ∀ value middle, Enclosed (next value) middle) :
    Enclosed (parser >>= fun value => Grammar.require kind what >>= fun _ => next value) tokens :=
  begins.bind fun value _ _ => require_then inside (follows value)

variable (each : ∀ tokens, Enclosed parser tokens)
include each

theorem announced (inside : kind ≠ .endOfInput) : Enclosed (announced kind parser) tokens :=
  accept inside (fun after => (each after).map some) (pure none)

theorem clause {ends : Kind} : Enclosed (clause ends parser) tokens :=
  guarded (fun kind => decide (kind = ends)) clause_shape fun _ => (each tokens).map some

theorem initializer {declaration : Parser Node} (declared : ∀ tokens, Enclosed declaration tokens) :
    Enclosed (initializer declaration parser) tokens := by
  refine accept (by simp) (fun _ => pure none) ?_
  exact accept (by simp) (fun after => (declared after).map some) ((each tokens).map some)

theorem furtherArguments (room : Nat) (tokens : List Token) :
    Enclosed (furtherArguments parser room) tokens := by
  induction room generalizing tokens with
  | zero => exact accept (by simp) (fun _ => reject .tooManyArguments) (pure [])
  | succ room ih =>
    refine accept (by simp) (fun after => (each after).bind fun argument middle _ => ?_) (pure [])
    exact (ih middle).map (argument :: ·)

theorem listedArguments : Enclosed (listedArguments parser) tokens := by
  refine guarded (fun kind => decide (kind = .rightParen)) listedArguments_shape fun _ => ?_
  refine (each tokens).bind fun first middle _ => ?_
  exact (furtherArguments each 254 middle).map (first :: ·)

theorem arguments : Enclosed (arguments parser) tokens :=
  (listedArguments each).then_require (by simp) fun listed _ => pure listed

end
end Enclosed
end Lox.Grammar
