import Lox.Proofs.Grammar.Completeness.Phrase
import Lox.Proofs.Grammar.Locality.Parser
import Lox.Proofs.Grammar.Nesting

/-!
What was passed before a token was refused can be completed, by tokens of certain kinds that take
the place of the refused one and of those after it. Each way to put parsers together keeps this.
-/
namespace Lox.Grammar

open Filter
open Token (Kind)

variable {α β : Type}

inductive Finishes (parser : Nat → Parser α) (tokens rest : List Token) : Prop where
  | returned (value : α) : (∀ᶠ limit in atTop, parser limit tokens = .ok value rest) →
    Finishes parser tokens rest
  | misassigned (target left : List Token) :
    (∀ᶠ limit in atTop, parser limit tokens = .error (.rejected .invalidTarget target) left) →
    Finishes parser tokens rest

def Completes (parser : Nat → Parser α) (stops : Kind → Prop) (used : List Token)
    (kinds : List Kind) : Prop :=
  ∀ more rest, more.map Token.kind = kinds → stops (front rest).kind →
    Finishes parser (used ++ (more ++ rest)) rest

def Joins (wider stops : Kind → Prop) : List Kind → Prop
  | [] => ∀ kind, stops kind → wider kind
  | kind :: _ => wider kind

/-- If a parser refuses a token, what it passed before can be completed. One that passed nothing has
to be completed only if it is to begin `anew`. Too many arguments are left out: the token is refused
although the grammar could go on with it. -/
def Mends (anew : Bool) (limit : Nat) (stops : Kind → Prop) (parser : Nat → Parser α)
    (tokens : List Token) : Prop :=
  ∀ complaint rest, Ends (parser limit tokens) (.refused complaint) rest →
    complaint ≠ .tooManyArguments →
    ∃ used, tokens = used ++ rest ∧
      (anew = true ∨ used ≠ [] → ∃ kinds, Completes parser stops used kinds)

/-- A parser can be completed wherever it stands: tokens of the kinds `start` are enough if it has
passed nothing yet. -/
structure Resumes (limit : Nat) (stops : Kind → Prop) (start : List Kind)
    (parser : Nat → Parser α) : Prop where
  fresh : Completes parser stops [] start
  mends : ∀ tokens, Mends false limit stops parser tokens

/-- What was read stays the same with other tokens after it and with a higher limit. -/
structure Settles (stops : Kind → Prop) (parser : Nat → Parser α) : Prop where
  near : ∀ limit, Local false stops (parser limit)
  grows : ∀ lower higher, lower ≤ higher → Within (parser lower) (parser higher)

section
variable {parser other : Nat → Parser α} {next : α → Nat → Parser β} {stops wider : Kind → Prop}
  {used tokens middle rest : List Token} {start kinds : List Kind} {limit : Nat} {value : α}

theorem Finishes.congr (same : ∀ limit, parser limit tokens = other limit middle)
    (finishes : Finishes other middle rest) : Finishes parser tokens rest := by
  cases finishes with
  | returned value read => exact .returned value (by simpa only [same] using read)
  | misassigned target left read => exact .misassigned target left (by simpa only [same] using read)

theorem Finishes.behind (read : ∀ᶠ limit in atTop, parser limit tokens = .ok value middle)
    (follows : Finishes (next value) middle rest) :
    Finishes (fun limit => parser limit >>= fun value => next value limit) tokens rest := by
  cases follows with
  | returned result followed =>
    refine .returned result ?_
    filter_upwards [read, followed] with limit first second
    exact (bind_of_ok first).trans second
  | misassigned target left followed =>
    refine .misassigned target left ?_
    filter_upwards [read, followed] with limit first second
    exact (bind_of_ok first).trans second

theorem Finishes.bind (begins : Finishes parser tokens middle)
    (follows : ∀ value, Finishes (next value) middle rest) :
    Finishes (fun limit => parser limit >>= fun value => next value limit) tokens rest := by
  cases begins with
  | returned value read => exact .behind read (follows value)
  | misassigned target left read =>
    refine .misassigned target left ?_
    filter_upwards [read] with limit first
    simp only [Bind.bind, EStateM.bind, first]

theorem Joins.front {more : List Token} (joins : Joins wider stops kinds)
    (spelled : more.map Token.kind = kinds) (stop : stops (front rest).kind) :
    wider (front (more ++ rest)).kind := by
  cases more with
  | nil =>
    subst spelled
    exact joins _ stop
  | cons token more =>
    subst spelled
    exact joins

theorem Completes.narrow (completes : Completes parser wider used kinds)
    (weaker : ∀ kind, stops kind → wider kind) : Completes parser stops used kinds :=
  fun more rest spelled stop => completes more rest spelled (weaker _ stop)

theorem Reads.completes (reads : Reads parser kinds value stops) :
    Completes parser stops [] kinds :=
  fun more rest spelled stop => .returned value (reads more rest spelled stop)

theorem Completes.pure {value : α} : Completes (fun _ => Pure.pure value) stops [] [] := by
  intro more rest spelled _
  obtain rfl : more = [] := List.map_eq_nil_iff.mp spelled
  exact .returned value (Eventually.of_forall fun _ => rfl)

theorem Completes.bind (begins : Completes parser wider used kinds)
    (follows : ∀ value, Completes (next value) stops [] start) (joins : Joins wider stops start) :
    Completes (fun limit => parser limit >>= fun value => next value limit) stops used
      (kinds ++ start) := by
  intro more rest spelled stop
  obtain ⟨once, twice, rfl, onceKinds, twiceKinds⟩ := List.map_eq_append_iff.mp spelled
  have first := begins once (twice ++ rest) onceKinds (joins.front twiceKinds stop)
  rw [List.append_assoc]
  exact first.bind fun value => follows value twice rest twiceKinds stop

theorem Settles.reread (settles : Settles wider parser)
    (read : parser limit (used ++ middle) = .ok value middle) (agrees : Agrees wider rest middle) :
    ∀ᶠ higher in atTop, parser higher (used ++ rest) = .ok value rest := by
  have same : parser limit (used ++ rest) = .ok value rest := by
    obtain ⟨again, split, -, -, reread⟩ := settles.near limit _ _ _ (ends_returned.mpr read)
    obtain rfl := List.append_cancel_right split
    exact ends_returned.mp (reread used rest rfl agrees)
  filter_upwards [eventually_ge_atTop limit] with higher above
  rcases settles.grows limit higher above (used ++ rest) with ⟨left, deep⟩ | again
  · rw [same] at deep
    cases deep
  · exact again.trans same

namespace Mends

variable {anew : Bool}

theorem narrow (mends : Mends anew limit wider parser tokens)
    (weaker : ∀ kind, stops kind → wider kind) : Mends anew limit stops parser tokens := by
  intro complaint rest ends ordinary
  obtain ⟨used, split, mended⟩ := mends complaint rest ends ordinary
  refine ⟨used, split, fun begun => ?_⟩
  obtain ⟨kinds, completes⟩ := mended begun
  exact ⟨kinds, completes.narrow weaker⟩

theorem refuses {complaint : Complaint} {left : List Token}
    (refused : parser limit tokens = .error (.rejected complaint tokens) left) :
    Mends false limit stops parser tokens := by
  intro complaint rest ends _
  rw [refused] at ends
  cases ends
  exact ⟨[], rfl, by simp⟩

theorem returns (read : parser limit tokens = .ok value rest) :
    Mends anew limit stops parser tokens := by
  intro complaint rest ends _
  rw [read] at ends
  cases ends

/-- Either the first parser is completed and the second one is begun anew, or the first one has
returned and only the second one is completed. -/
theorem bind (settles : Settles wider parser) (begins : Mends anew limit wider parser tokens)
    (fresh : ∀ value, Completes (next value) stops [] start)
    (follows : ∀ value middle, parser limit tokens = .ok value middle →
      Mends false limit stops (next value) middle)
    (joins : Joins wider stops start) :
    Mends anew limit stops (fun limit => parser limit >>= fun value => next value limit) tokens := by
  intro complaint rest ends ordinary
  rcases ends_bind.mp ends with ⟨value, middle, read, ended⟩ | ⟨_, same, ended⟩
  · obtain ⟨once, rfl, -⟩ := settles.near limit _ _ _ (ends_returned.mpr read)
    obtain ⟨twice, rfl, mended⟩ := follows value _ read complaint rest ended ordinary
    refine ⟨once ++ twice, by simp, fun _ => ?_⟩
    by_cases begun : twice = []
    · subst begun
      refine ⟨start, fun more rest spelled stop => ?_⟩
      have reread := settles.reread read (.inr (joins.front spelled stop))
      rw [List.append_nil]
      exact .behind reread (fresh value more rest spelled stop)
    · obtain ⟨kinds, completes⟩ := mended (.inr begun)
      obtain ⟨token, left, rfl⟩ := List.exists_cons_of_ne_nil begun
      refine ⟨kinds, fun more rest spelled stop => ?_⟩
      have reread := @Settles.reread _ _ _ _ _ (token :: left ++ (more ++ rest)) _ _ settles read
        (.inl rfl)
      rw [List.append_assoc]
      exact .behind reread (completes more rest spelled stop)
  · cases same
    obtain ⟨used, rfl, mended⟩ := begins complaint rest ended ordinary
    refine ⟨used, rfl, fun begun => ?_⟩
    obtain ⟨kinds, completes⟩ := mended begun
    exact ⟨kinds ++ start, completes.bind fresh joins⟩

theorem dispatch {on? : Kind → Option (Nat → Parser α)} {no : Nat → Parser α}
    (dispatches : ∀ limit, Dispatches (parser limit) (fun kind => (on? kind).map (· limit)) (no limit))
    (yes : ∀ token after run, tokens = token :: after → on? token.kind = some run →
      Mends true limit stops run after)
    (otherwise : Mends false limit stops no tokens) : Mends false limit stops parser tokens := by
  intro complaint rest ends ordinary
  cases found : on? (front tokens).kind with
  | some run =>
    have listed (limit : Nat) : (on? (front tokens).kind).map (· limit) = some (run limit) := by
      rw [found]
      rfl
    obtain ⟨token, after, rfl, -⟩ := (dispatches limit).cons_of_some (listed limit)
    have passes (limit : Nat) (after : List Token) :=
      (dispatches limit).passes token after (run limit) (listed limit)
    rw [passes] at ends
    obtain ⟨used, rfl, mended⟩ := yes token after run rfl found complaint rest ends ordinary
    refine ⟨token :: used, rfl, fun _ => ?_⟩
    obtain ⟨kinds, completes⟩ := mended (.inl rfl)
    exact ⟨kinds, fun more rest spelled stop =>
      .congr (fun limit => passes limit _) (completes more rest spelled stop)⟩
  | none =>
    have missing (limit : Nat) : (on? (front tokens).kind).map (· limit) = none := by
      rw [found]
      rfl
    rw [(dispatches limit).other tokens (missing limit)] at ends
    obtain ⟨used, rfl, mended⟩ := otherwise complaint rest ends ordinary
    refine ⟨used, rfl, fun begun => ?_⟩
    have longer : used ≠ [] := by simpa using begun
    obtain ⟨kinds, completes⟩ := mended begun
    obtain ⟨token, left, rfl⟩ := List.exists_cons_of_ne_nil longer
    exact ⟨kinds, fun more rest spelled stop =>
      .congr (fun limit => (dispatches limit).other _ (missing limit))
        (completes more rest spelled stop)⟩

theorem guarded (ends : Kind → Bool) {value : α} {choice : Nat → Parser α}
    (shape : ∀ limit tokens, choice limit tokens =
      if ends (front tokens).kind = true then .ok value tokens else parser limit tokens)
    (each : ends (front tokens).kind = false → Mends false limit stops parser tokens) :
    Mends false limit stops choice tokens := by
  by_cases closed : ends (front tokens).kind = true
  · exact returns ((shape limit tokens).trans (if_pos closed))
  · intro complaint rest refused ordinary
    rw [shape, if_neg closed] at refused
    obtain ⟨used, rfl, mended⟩ := each (by simpa using closed) complaint rest refused ordinary
    refine ⟨used, rfl, fun begun => ?_⟩
    have longer : used ≠ [] := by simpa using begun
    obtain ⟨kinds, completes⟩ := mended begun
    obtain ⟨token, left, rfl⟩ := List.exists_cons_of_ne_nil longer
    exact ⟨kinds, fun more rest spelled stop =>
      .congr (fun limit => (shape limit _).trans (if_neg closed)) (completes more rest spelled stop)⟩

end Mends

namespace Resumes

theorem narrow (resumes : Resumes limit wider start parser)
    (weaker : ∀ kind, stops kind → wider kind) : Resumes limit stops start parser where
  fresh := resumes.fresh.narrow weaker
  mends tokens := (resumes.mends tokens).narrow weaker

theorem anew (resumes : Resumes limit stops start parser) (tokens : List Token) :
    Mends true limit stops parser tokens := by
  intro complaint rest ends ordinary
  obtain ⟨used, split, mended⟩ := resumes.mends tokens complaint rest ends ordinary
  refine ⟨used, split, fun _ => ?_⟩
  by_cases begun : used = []
  · subst begun
    exact ⟨start, resumes.fresh⟩
  · exact mended (.inr begun)

theorem pure (value : α) : Resumes limit stops [] (fun _ => Pure.pure value) where
  fresh := .pure
  mends _ := .returns rfl

theorem bind {first : List Kind} (settles : Settles wider parser)
    (begins : Resumes limit wider first parser)
    (follows : ∀ value, Resumes limit stops start (next value)) (joins : Joins wider stops start) :
    Resumes limit stops (first ++ start)
      (fun limit => parser limit >>= fun value => next value limit) where
  fresh := begins.fresh.bind (fun value => (follows value).fresh) joins
  mends tokens := (begins.mends tokens).bind settles (fun value => (follows value).fresh)
    (fun value middle _ => (follows value).mends middle) joins

theorem map (settles : Settles stops parser) (each : Resumes limit stops start parser)
    (change : α → β) :
    Resumes limit stops start (fun limit => parser limit >>= fun value => Pure.pure (change value)) := by
  have both := each.bind settles (fun value => pure (change value)) fun _ => id
  rwa [List.append_nil] at both

end Resumes

end

/-- The round that a loop has come to is completed, and it is the last one. The proof is by induction
on the tokens that are left. -/
theorem Resumes.repeated {more : Nat → α → Parser (Option α)}
    {on? : α → Kind → Option (Nat → Parser α)} {stops wider : Kind → Prop} {limit : Nat}
    (loops : ∀ limit, Loops (more limit) fun value kind => (on? value kind).map (· limit))
    (closed : ∀ value kind, stops kind → on? value kind = none)
    (settles : ∀ value kind run, on? value kind = some run → Settles wider run)
    (each : ∀ value kind run, on? value kind = some run →
      ∀ tokens, Mends true limit wider run tokens)
    (weaker : ∀ kind, stops kind → wider kind) (value : α) :
    Resumes limit stops [] fun limit => Grammar.repeated (more limit) value := by
  have fresh (value : α) :
      Completes (fun limit => Grammar.repeated (more limit) value) stops [] [] := by
    intro more rest spelled stop
    obtain rfl : more = [] := List.map_eq_nil_iff.mp spelled
    refine .returned value (Eventually.of_forall fun limit => (loops limit).stays ?_)
    show (on? value (front rest).kind).map (· limit) = none
    rw [closed value _ stop]
    rfl
  have near (limit : Nat) (value : α) (kind : Kind) (run : Parser α)
      (found : (on? value kind).map (· limit) = some run) : Local false wider run := by
    obtain ⟨round, listed, rfl⟩ := Option.map_eq_some_iff.mp found
    exact (settles value kind round listed).near limit
  have dispatches (value : α) (limit : Nat) : Dispatches (Grammar.repeated (more limit) value)
      (fun kind => ((on? value kind).map fun run limit =>
        run limit >>= fun next => Grammar.repeated (more limit) next).map (· limit))
      (Pure.pure value) := by
    have dispatched := (loops limit).dispatches (near limit) value
    simpa only [Option.map_map, Function.comp_def] using dispatched
  refine ⟨fresh value, fun tokens => ?_⟩
  induction size : tokens.length using Nat.strongRecOn generalizing tokens value with
  | ind size ih =>
    refine .dispatch (dispatches value) (fun token after run split found => ?_) (.returns rfl)
    obtain ⟨round, listed, rfl⟩ := Option.map_eq_some_iff.mp found
    have settled := settles value token.kind round listed
    refine (each value token.kind round listed after).bind settled fresh ?_ weaker
    intro next middle read
    have shorter := (settled.near limit).length_le read
    rw [split, List.length_cons] at size
    exact ih middle.length (by omega) next middle rfl

theorem Resumes.items {item : Nat → Parser α} {ends : Kind → Bool} {wider : Kind → Prop} {limit : Nat}
    {start : List Kind} (near : ∀ limit, Local true wider (item limit))
    (grows : ∀ lower higher, lower ≤ higher → Within (item lower) (item higher))
    (each : Resumes limit wider start item) (atEnd : ends .endOfInput = true)
    (weaker : ∀ kind, ends kind = true → wider kind) :
    Resumes limit (fun kind => ends kind = true) [] fun limit => Grammar.items ends (item limit) := by
  have shape (limit : Nat) := items_shape (near limit) atEnd
  have fresh : Completes (fun limit => Grammar.items ends (item limit))
      (fun kind => ends kind = true) [] [] := by
    intro more rest spelled stop
    obtain rfl : more = [] := List.map_eq_nil_iff.mp spelled
    exact .returned [] (Eventually.of_forall fun limit => (shape limit rest).trans (if_pos stop))
  have settles : Settles wider item := ⟨fun limit => (near limit).weaken, grows⟩
  have all : Settles (fun kind => ends kind = true) fun limit => Grammar.items ends (item limit) :=
    ⟨fun limit => Local.items (near limit) atEnd weaker,
      fun lower higher below => Within.items (grows lower higher below)⟩
  refine ⟨fresh, fun tokens => ?_⟩
  induction size : tokens.length using Nat.strongRecOn generalizing tokens with
  | ind size ih =>
    refine .guarded ends shape fun _ => ?_
    refine (each.mends tokens).bind settles (fun value => fresh.bind (fun _ => .pure) fun _ => id) ?_
      weaker
    intro value middle read
    have shorter := (near limit).length_lt read
    have others := ih middle.length (by omega) middle rfl
    exact others.bind all (fun _ => .pure) (fun _ _ _ => .returns rfl) fun _ => id

end Lox.Grammar
