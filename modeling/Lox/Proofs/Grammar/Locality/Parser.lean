import Lox.Proofs.Grammar.Reading

/-!
Parsers that look no further than to the token that they come to an end at: they return the same
before every token that ends what they read, and they refuse a token of the same kind in the same
way. Each way to put parsers together keeps this.
-/
namespace Lox.Grammar

open Token (Kind)

variable {α β : Type}

inductive Ending (α : Type) where
  | returned (value : α)
  | refused (complaint : Complaint)

def Ending.allows (stops : Kind → Prop) : Ending α → Kind → Prop
  | returned _, kind => stops kind
  | refused _, _ => False

/-- The end that a parser came to, and the tokens from there on. Targets that cannot be assigned to
are left out: they are complained about when the value has been read. -/
inductive Ends : EStateM.Result Fault (List Token) α → Ending α → List Token → Prop where
  | returned {value : α} {rest : List Token} : Ends (.ok value rest) (.returned value) rest
  | refused {complaint : Complaint} {rest left : List Token} :
    complaint ≠ .invalidTarget →
    Ends (.error (.rejected complaint rest) left) (.refused complaint) rest

def Agrees (allowed : Kind → Prop) (other rest : List Token) : Prop :=
  (front other).kind = (front rest).kind ∨ allowed (front other).kind

/-- What a parser makes of a list of tokens: it looks at the kinds of tokens only, and no further than
to the token that it ends at. One that is `passing` passes a token before it returns. -/
def Near (passing : Bool) (stops : Kind → Prop) (parser : Parser α) (tokens : List Token) : Prop :=
  ∀ ending rest, Ends (parser tokens) ending rest →
    ∃ used, tokens = used ++ rest ∧ Kind.endOfInput ∉ used.map Token.kind ∧
      (passing = true → ∀ value, ending = .returned value → used ≠ []) ∧
      ∀ again other, again.map Token.kind = used.map Token.kind →
        Agrees (ending.allows stops) other rest → Ends (parser (again ++ other)) ending other

def Local (passing : Bool) (stops : Kind → Prop) (parser : Parser α) : Prop :=
  ∀ tokens, Near passing stops parser tokens

structure Dispatches (parser : Parser α) (on? : Kind → Option (Parser α)) (no : Parser α) :
    Prop where
  noEnd : on? .endOfInput = none
  passes : ∀ token after run, on? token.kind = some run → parser (token :: after) = run after
  other : ∀ tokens, on? (front tokens).kind = none → parser tokens = no tokens

theorem Dispatches.cons_of_some {parser no run : Parser α} {on? : Kind → Option (Parser α)}
    {tokens : List Token} (dispatches : Dispatches parser on? no)
    (found : on? (front tokens).kind = some run) :
    ∃ token after, tokens = token :: after ∧ token.kind ≠ .endOfInput := by
  have inside : (front tokens).kind ≠ .endOfInput := by
    intro atEnd
    rw [atEnd, dispatches.noEnd] at found
    cases found
  rcases cons_of_front_kind rfl inside with ⟨token, after, rfl, -⟩
  exact ⟨token, after, rfl, inside⟩

section
variable {stops wider : Kind → Prop} {other rest tokens : List Token} {parser : Parser α}

theorem ends_returned {result : EStateM.Result Fault (List Token) α} {value : α} :
    Ends result (.returned value) rest ↔ result = .ok value rest := by
  constructor
  · intro ends
    cases ends
    rfl
  · intro same
    rw [same]
    exact .returned

theorem ends_refused {result : EStateM.Result Fault (List Token) α} {complaint : Complaint}
    (ends : Ends result (.refused complaint) rest) :
    ∃ left, result = .error (.rejected complaint rest) left := by
  cases ends
  exact ⟨_, rfl⟩

theorem ends_bind {next : α → Parser β} {ending : Ending β} :
    Ends ((parser >>= next) tokens) ending rest ↔
      (∃ value middle, parser tokens = .ok value middle ∧ Ends (next value middle) ending rest) ∨
      ∃ complaint, ending = .refused complaint ∧ Ends (parser tokens) (.refused complaint) rest := by
  simp only [bind, EStateM.bind]
  cases parser tokens with
  | ok value middle =>
    constructor
    · intro ends
      exact .inl ⟨value, middle, rfl, ends⟩
    · intro ends
      rcases ends with ⟨_, _, same, ends⟩ | ⟨_, -, ends⟩
      · cases same
        exact ends
      · cases ends
  | error fault left =>
    constructor
    · intro ends
      cases ends with
      | refused ordinary => exact .inr ⟨_, rfl, .refused ordinary⟩
    · intro ends
      rcases ends with ⟨_, _, same, -⟩ | ⟨_, rfl, ends⟩
      · cases same
      · cases ends with
        | refused ordinary => exact .refused ordinary

theorem inside_cons {token : Token} {used : List Token} (inside : token.kind ≠ .endOfInput)
    (others : Kind.endOfInput ∉ used.map Token.kind) :
    Kind.endOfInput ∉ (token :: used).map Token.kind := by
  rw [List.map_cons, List.mem_cons, not_or]
  exact ⟨inside.symm, others⟩

theorem Agrees.append {used again : List Token} (agrees : Agrees stops other rest)
    (alike : again.map Token.kind = used.map Token.kind)
    (weaker : used = [] → ∀ kind, stops kind → wider kind) :
    Agrees wider (again ++ other) (used ++ rest) := by
  cases used with
  | nil =>
    obtain rfl : again = [] := by simpa using alike
    exact agrees.imp_right (weaker rfl _)
  | cons token used =>
    rcases List.map_eq_cons_iff.mp alike with ⟨first, left, rfl, same, -⟩
    exact .inl same

end

section
variable {passing first second : Bool} {stops wider : Kind → Prop} {parser : Parser α}
  {tokens : List Token}

namespace Near

theorem weaken (each : Near passing stops parser tokens) : Near false stops parser tokens := by
  intro ending rest ends
  rcases each ending rest ends with ⟨used, split, inside, -, reread⟩
  exact ⟨used, split, inside, by simp, reread⟩

theorem narrow (each : Near passing wider parser tokens)
    (weaker : ∀ kind, stops kind → wider kind) : Near passing stops parser tokens := by
  intro ending rest ends
  rcases each ending rest ends with ⟨used, split, inside, passed, reread⟩
  refine ⟨used, split, inside, passed, fun again other alike agrees => reread again other alike ?_⟩
  cases ending with
  | refused complaint => exact agrees
  | returned value => exact agrees.imp_right (weaker _)

theorem pure (value : α) : Near false stops (pure value : Parser α) tokens := by
  intro ending rest ends
  cases ends
  refine ⟨[], rfl, by simp, by simp, fun again other alike _ => ?_⟩
  rw [List.map_eq_nil_iff.mp alike]
  exact .returned

theorem bind {next : α → Parser β} (begins : Near first wider parser tokens)
    (follows : ∀ value middle, parser tokens = .ok value middle →
      Near second stops (next value) middle)
    (weaker : second = true ∨ ∀ kind, stops kind → wider kind)
    (passes : passing = true → first = true ∨ second = true) :
    Near passing stops (parser >>= next) tokens := by
  intro ending rest ended
  rcases ends_bind.mp ended with ⟨value, middle, read, ends⟩ | ⟨complaint, rfl, ends⟩
  · rcases begins _ _ (ends_returned.mpr read) with ⟨used, rfl, inside, begun, reread⟩
    rcases follows value _ read _ _ ends with ⟨more, rfl, moreInside, passed, rereadMore⟩
    refine ⟨used ++ more, by simp, by simp [inside, moreInside], ?_, fun again other alike agrees => ?_⟩
    · intro asked result same
      rcases passes asked with yes | yes
      · simp [begun yes value rfl]
      · simp [passed yes result same]
    · rw [List.map_append] at alike
      rcases List.map_eq_append_iff.mp alike with ⟨once, twice, rfl, onceAlike, twiceAlike⟩
      have before : Agrees wider (twice ++ other) (more ++ rest) := by
        cases ending with
        | refused complaint => exact agrees.append twiceAlike fun _ _ => False.elim
        | returned result =>
          refine agrees.append twiceAlike fun none => ?_
          rcases weaker with yes | weaker
          · exact absurd none (passed yes result rfl)
          · exact weaker
      rw [List.append_assoc]
      exact ends_bind.mpr (.inl ⟨value, twice ++ other,
        ends_returned.mp (reread once _ onceAlike before), rereadMore twice other twiceAlike agrees⟩)
  · rcases begins _ _ ends with ⟨used, split, inside, -, reread⟩
    refine ⟨used, split, inside, by simp, fun again other alike agrees => ?_⟩
    exact ends_bind.mpr (.inr ⟨complaint, rfl, reread again other alike agrees⟩)

theorem map (each : Near passing stops parser tokens) (change : α → β) :
    Near passing stops (parser >>= fun value => Pure.pure (change value)) tokens :=
  each.bind (fun value _ _ => pure (change value)) (.inr fun _ => id) .inl

theorem dispatch {on? : Kind → Option (Parser α)} {no : Parser α}
    (dispatches : Dispatches parser on? no)
    (yes : ∀ token after run, tokens = token :: after → on? token.kind = some run →
      Near false stops run after)
    (otherwise : Near passing stops no tokens)
    (closed : passing = true ∨ ∀ kind, stops kind → on? kind = none) :
    Near passing stops parser tokens := by
  intro ending rest ends
  cases found : on? (front tokens).kind with
  | some run =>
    rcases dispatches.cons_of_some found with ⟨token, after, rfl, inside⟩
    rw [front_cons] at found
    rw [dispatches.passes token after run found] at ends
    rcases yes token after run rfl found _ _ ends with ⟨used, rfl, usedInside, -, reread⟩
    refine ⟨token :: used, rfl, inside_cons inside usedInside, by simp,
      fun again other alike agrees => ?_⟩
    rcases List.map_eq_cons_iff.mp alike with ⟨passed, left, rfl, same, leftAlike⟩
    rw [← same] at found
    rw [List.cons_append, dispatches.passes passed _ run found]
    exact reread left other leftAlike agrees
  | none =>
    rw [dispatches.other tokens found] at ends
    rcases otherwise _ _ ends with ⟨used, rfl, inside, passed, reread⟩
    refine ⟨used, rfl, inside, passed, fun again other alike agrees => ?_⟩
    have before : Agrees (fun kind => on? kind = none) (again ++ other) (used ++ rest) := by
      refine agrees.append alike fun none kind allowed => ?_
      cases ending with
      | refused complaint => exact allowed.elim
      | returned value =>
        rcases closed with yes | closed
        · exact absurd none (passed yes value rfl)
        · exact closed kind allowed
    have still : on? (front (again ++ other)).kind = none := by
      rcases before with same | unlisted
      · rw [same]
        exact found
      · exact unlisted
    rw [dispatches.other _ still]
    exact reread again other alike agrees

theorem guarded {ends : Kind → Bool} {value : α} {choice : Parser α}
    (shape : ∀ tokens, choice tokens =
      if ends (front tokens).kind = true then .ok value tokens else parser tokens)
    (each : ends (front tokens).kind = false → Near true wider parser tokens)
    (stop : ∀ kind, ends kind = true → wider kind) :
    Near false (fun kind => ends kind = true) choice tokens := by
  intro ending rest ended
  rw [shape] at ended
  split at ended
  · next closed =>
    cases ended
    refine ⟨[], rfl, by simp, by simp, fun again other alike agrees => ?_⟩
    have still : ends (front other).kind = true := by
      rcases agrees with same | allowed
      · rw [same]
        exact closed
      · exact allowed
    rw [List.map_eq_nil_iff.mp alike, List.nil_append, shape, if_pos still]
    exact .returned
  · next further =>
    rcases each (by simpa using further) _ _ ended with ⟨used, rfl, inside, passed, reread⟩
    refine ⟨used, rfl, inside, by simp, fun again other alike agrees => ?_⟩
    have before : Agrees (fun _ => False) (again ++ other) (used ++ rest) := by
      refine agrees.append alike fun none kind allowed => ?_
      cases ending with
      | refused complaint => exact allowed
      | returned value => exact absurd none (passed rfl value rfl)
    rw [shape, if_neg (before.resolve_right id ▸ further)]
    apply reread again other alike
    cases ending with
    | refused complaint => exact agrees
    | returned value => exact agrees.imp_right (stop _)

end Near

namespace Local

theorem weaken (each : Local passing stops parser) : Local false stops parser :=
  fun tokens => (each tokens).weaken

theorem narrow (each : Local passing wider parser) (weaker : ∀ kind, stops kind → wider kind) :
    Local passing stops parser :=
  fun tokens => (each tokens).narrow weaker

theorem pure (value : α) : Local false stops (pure value : Parser α) := fun _ => .pure value

theorem refuses {complaint : Complaint}
    (refused : ∀ tokens, ∃ left, parser tokens = .error (.rejected complaint tokens) left) :
    Local passing stops parser := by
  intro tokens ending rest ends
  rcases refused tokens with ⟨left, same⟩
  rw [same] at ends
  cases ends with
  | refused ordinary =>
    refine ⟨[], rfl, by simp, by simp, fun again other alike _ => ?_⟩
    rcases refused other with ⟨left, same⟩
    rw [List.map_eq_nil_iff.mp alike, List.nil_append, same]
    exact .refused ordinary

theorem reject (complaint : Complaint) : Local passing stops (reject complaint : Parser α) :=
  refuses fun tokens => ⟨tokens, rfl⟩

theorem bind {next : α → Parser β} (begins : Local first wider parser)
    (follows : ∀ value, Local second stops (next value))
    (weaker : second = true ∨ ∀ kind, stops kind → wider kind)
    (passes : passing = true → first = true ∨ second = true) :
    Local passing stops (parser >>= next) :=
  fun tokens => (begins tokens).bind (fun value middle _ => follows value middle) weaker passes

theorem map (each : Local passing stops parser) (change : α → β) :
    Local passing stops (parser >>= fun value => Pure.pure (change value)) :=
  fun tokens => (each tokens).map change

theorem dispatch {on? : Kind → Option (Parser α)} {no : Parser α}
    (dispatches : Dispatches parser on? no)
    (yes : ∀ kind run, on? kind = some run → Local false stops run)
    (otherwise : Local passing stops no)
    (closed : passing = true ∨ ∀ kind, stops kind → on? kind = none) :
    Local passing stops parser :=
  fun tokens => .dispatch dispatches (fun _ after run _ found => yes _ run found after)
    (otherwise tokens) closed

theorem guarded {ends : Kind → Bool} {value : α} {choice : Parser α}
    (shape : ∀ tokens, choice tokens =
      if ends (front tokens).kind = true then .ok value tokens else parser tokens)
    (each : Local true wider parser) (stop : ∀ kind, ends kind = true → wider kind) :
    Local false (fun kind => ends kind = true) choice :=
  fun tokens => .guarded shape (fun _ => each tokens) stop

theorem length_le {value : α} {rest : List Token} (each : Local passing stops parser)
    (read : parser tokens = .ok value rest) : rest.length ≤ tokens.length := by
  rcases each _ _ _ (ends_returned.mpr read) with ⟨used, rfl, -⟩
  rw [List.length_append]
  omega

theorem length_lt {value : α} {rest : List Token} (each : Local true stops parser)
    (read : parser tokens = .ok value rest) : rest.length < tokens.length := by
  rcases each _ _ _ (ends_returned.mpr read) with ⟨used, rfl, -, passed, -⟩
  have longer := List.length_pos_iff.mpr (passed rfl value rfl)
  rw [List.length_append]
  omega

end Local
end

def Loops (more : α → Parser (Option α)) (on? : α → Kind → Option (Parser α)) : Prop :=
  ∀ value, Dispatches (more value) (fun kind => (on? value kind).map (some <$> ·)) (pure none)

namespace Loops

section
variable {more : α → Parser (Option α)} {on? : α → Kind → Option (Parser α)} {value : α}
  {bound room tokens after : List Token} {token : Token} {wider : Kind → Prop}
  (loops : Loops more on?)
include loops

theorem noEnd (value : α) : on? value .endOfInput = none :=
  Option.map_eq_none_iff.mp (loops value).noEnd

theorem stays (finished : on? value (front tokens).kind = none) :
    iterate more bound value tokens = .ok value tokens := by
  cases bound with
  | nil => rfl
  | cons _ bound =>
    have declined : more value tokens = .ok none tokens :=
      (loops value).other tokens (by rw [finished]; rfl)
    exact bind_of_ok declined

theorem passes {run : Parser α} (found : on? value token.kind = some run) (first : Token) :
    iterate more (first :: bound) value (token :: after) =
      (run >>= fun next => iterate more bound next) after := by
  have read : more value (token :: after) = (some <$> run) after :=
    (loops value).passes token after _ (by rw [found]; rfl)
  simp only [iterate, bind, EStateM.bind, read, Functor.map, EStateM.map]
  cases run after <;> rfl

variable (each : ∀ value kind run, on? value kind = some run → Local false wider run)
include each

/-- How often a loop may go round makes no difference, if it is often enough. -/
theorem iterate_room (enough : tokens.length ≤ bound.length) (larger : tokens.length ≤ room.length) :
    iterate more bound value tokens = iterate more room value tokens := by
  induction bound generalizing value tokens room with
  | nil =>
    obtain rfl : tokens = [] := by simpa using enough
    exact (loops.stays (loops.noEnd value)).symm
  | cons _ bound ih =>
    cases found : on? value (front tokens).kind with
    | none => rw [loops.stays found, loops.stays found]
    | some run =>
      have further : ((on? value (front tokens).kind).map (some <$> ·)) = some (some <$> run) := by
        rw [found]
        rfl
      rcases (loops value).cons_of_some further with ⟨token, after, rfl, -⟩
      cases room with
      | nil => simp at larger
      | cons _ room =>
        rw [front_cons] at found
        rw [loops.passes found, loops.passes found]
        simp only [bind, EStateM.bind]
        cases read : run after with
        | error fault left => rfl
        | ok next middle =>
          have shorter := (each _ _ _ found).length_le read
          rw [List.length_cons, List.length_cons] at enough larger
          exact ih (by omega) (by omega)

theorem dispatches (value : α) : Dispatches (repeated more value)
    (fun kind => (on? value kind).map fun run => run >>= fun next => repeated more next)
    (pure value) where
  noEnd := by rw [loops.noEnd]; rfl
  passes token after run found := by
    rcases Option.map_eq_some_iff.mp found with ⟨round, listed, rfl⟩
    refine (loops.passes listed token).trans ?_
    simp only [bind, EStateM.bind]
    cases read : round after with
    | error fault left => rfl
    | ok next middle =>
      exact loops.iterate_room each ((each _ _ _ listed).length_le read) (Nat.le_refl _)
  other tokens missing := loops.stays (Option.map_eq_none_iff.mp missing)

end
end Loops

theorem Local.repeated {more : α → Parser (Option α)} {on? : α → Kind → Option (Parser α)}
    {stops wider : Kind → Prop} (loops : Loops more on?)
    (closed : ∀ value kind, stops kind → on? value kind = none)
    (each : ∀ value kind run, on? value kind = some run → Local false wider run)
    (weaker : ∀ kind, stops kind → wider kind) (value : α) :
    Local false stops (repeated more value) := by
  intro tokens
  induction size : tokens.length using Nat.strongRecOn generalizing tokens value with
  | ind size ih =>
    refine .dispatch (loops.dispatches each value) ?_ (.pure value) (.inr fun kind stop => ?_)
    · intro token after run split found
      rcases Option.map_eq_some_iff.mp found with ⟨round, listed, rfl⟩
      have others (next : α) (middle : List Token) (read : round after = .ok next middle) :
          Near false stops (Grammar.repeated more next) middle := by
        have shorter := (each _ _ _ listed).length_le read
        rw [split, List.length_cons] at size
        exact ih middle.length (by omega) next middle rfl
      exact (each _ _ _ listed after).bind others (.inr weaker) .inl
    · rw [closed value kind stop]
      rfl

section
variable {wider : Kind → Prop} {ends : Kind → Bool} {item : Parser α} {bound room tokens : List Token}

theorem itemsUntil_stays (finished : ends (front tokens).kind = true) :
    itemsUntil ends item bound tokens = .ok [] tokens := by
  cases bound with
  | nil => rfl
  | cons _ bound =>
    rw [itemsUntil, peek_bind, if_pos finished]
    rfl

theorem itemsUntil_passes (further : ends (front tokens).kind = false) (first : Token) :
    itemsUntil ends item (first :: bound) tokens = (do
      let value ← item
      let others ← itemsUntil ends item bound
      return value :: others) tokens := by
  rw [itemsUntil, peek_bind, further]
  rfl

variable (each : Local true wider item) (atEnd : ends .endOfInput = true)
include each atEnd

theorem itemsUntil_room (enough : tokens.length ≤ bound.length) (larger : tokens.length ≤ room.length) :
    itemsUntil ends item bound tokens = itemsUntil ends item room tokens := by
  induction bound generalizing tokens room with
  | nil =>
    obtain rfl : tokens = [] := by simpa using enough
    exact (itemsUntil_stays atEnd).symm
  | cons _ bound ih =>
    cases finished : ends (front tokens).kind with
    | true => rw [itemsUntil_stays finished, itemsUntil_stays finished]
    | false =>
      cases room with
      | nil =>
        obtain rfl : tokens = [] := by simpa using larger
        rw [front_nil, atEnd] at finished
        cases finished
      | cons _ room =>
        rw [itemsUntil_passes finished, itemsUntil_passes finished]
        simp only [bind, EStateM.bind]
        cases read : item tokens with
        | error fault left => rfl
        | ok value middle =>
          have shorter := each.length_lt read
          rw [List.length_cons] at enough larger
          simp only [@ih room middle (by omega) (by omega)]

theorem items_shape (tokens : List Token) : items ends item tokens =
    if ends (front tokens).kind = true then .ok [] tokens
    else (do
      let value ← item
      let others ← items ends item
      return value :: others) tokens := by
  split
  · next finished => exact itemsUntil_stays finished
  · next further =>
    cases tokens with
    | nil => exact absurd atEnd further
    | cons token after =>
      refine (itemsUntil_passes (by simpa using further) token).trans ?_
      simp only [bind, EStateM.bind]
      cases read : item (token :: after) with
      | error fault left => rfl
      | ok value middle =>
        have shorter := each.length_lt read
        rw [List.length_cons] at shorter
        have same : itemsUntil ends item after middle = items ends item middle :=
          itemsUntil_room each atEnd (by omega) (Nat.le_refl _)
        simp only [same]

theorem Local.items (weaker : ∀ kind, ends kind = true → wider kind) :
    Local false (fun kind => ends kind = true) (items ends item) := by
  intro tokens
  induction size : tokens.length using Nat.strongRecOn generalizing tokens with
  | ind size ih =>
    refine .guarded (items_shape each atEnd) (fun _ => ?_) fun _ => id
    have followed (value : α) (middle : List Token) (read : item tokens = .ok value middle) :
        Near false (fun kind => ends kind = true)
          (Grammar.items ends item >>= fun others => Pure.pure (value :: others)) middle := by
      have shorter := each.length_lt read
      exact (ih middle.length (by omega) middle rfl).map _
    exact (each tokens).bind followed (.inr weaker) fun _ => .inl rfl

end

/-! The parsers that rules are made of. -/

section
variable {kind : Kind} {what : String}

theorem accept_dispatches {yes no : Parser α} (inside : kind ≠ .endOfInput) :
    Dispatches (accept kind >>= fun found => if found = true then yes else no)
      (fun other => if other = kind then some yes else none) no where
  noEnd := if_neg inside.symm
  passes token after run found := by
    by_cases same : token.kind = kind
    · rw [if_pos same] at found
      cases found
      exact accept_bind_cons inside same
    · simp [same] at found
  other tokens missing := by
    apply accept_bind_other
    intro same
    simp [same] at missing

theorem require_dispatches (inside : kind ≠ .endOfInput) :
    Dispatches (require kind what) (fun other => if other = kind then some (pure ()) else none)
      (reject (.expected what)) where
  noEnd := if_neg inside.symm
  passes token after run found := by
    by_cases same : token.kind = kind
    · rw [if_pos same] at found
      cases found
      exact require_cons inside same
    · simp [same] at found
  other tokens missing := by
    have declined : acceptIf (· = kind) tokens = .ok none tokens := by
      apply acceptIf_other
      refine decide_eq_false fun same => ?_
      simp [same] at missing
    simp only [require, requireIf, bind, EStateM.bind, declined]
    rfl

def named? : Kind → Option String
  | .identifier name => some name
  | _ => none

theorem requireName_dispatches : Dispatches (requireName what)
    (fun kind => (named? kind).map fun name => pure name) (reject (.expected what)) where
  noEnd := rfl
  passes token after run found := by
    rcases Option.map_eq_some_iff.mp found with ⟨name, named, rfl⟩
    have is : token.kind = .identifier name := by
      revert named
      cases token.kind <;> simp [named?]
    exact requireName_eq_ok.mpr ⟨token, rfl, is⟩
  other tokens missing := by
    rw [requireName, peek_bind]
    revert missing
    cases (front tokens).kind <;> simp [named?]

end
end Lox.Grammar
