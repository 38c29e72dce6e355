import Mathlib.Order.Filter.AtTopBot.Basic
import Lox.Proofs.Grammar.Boundary
import Lox.Proofs.Grammar.Soundness

/-!
Every phrase is read: with a nesting limit that is large enough, the rule of its level passes
exactly its tokens and returns its tree, provided that the token after them does not continue it.
The main statement is `Phrase.reads`, by induction on the derivation.
-/
namespace Lox.Grammar

open Filter
open Token (Kind)

/-- With every nesting limit from some limit on, a parser passes the tokens of such kinds and
returns the value, if the token after them has a kind that ends it. -/
def Reads {α : Type} (parser : Nat → Parser α) (kinds : List Kind) (value : α)
    (ends : Kind → Prop) : Prop :=
  ∀ used rest, used.map Token.kind = kinds → ends (front rest).kind →
    ∀ᶠ limit in atTop, parser limit (used ++ rest) = .ok value rest

/-- What a rule reads by means of rules at a limit, it reads at the next limit. -/
theorem eventually_parse {rule : Rule} {tokens : List Token}
    {result : EStateM.Result Fault (List Token) Node}
    (steps : ∀ᶠ limit in atTop, step (parse limit) rule tokens = result) :
    ∀ᶠ limit in atTop, parse limit rule tokens = result := by
  rcases eventually_atTop.mp steps with ⟨enough, reads⟩
  -- a limit above `enough + 1` leaves one of at least `enough` for the rules within
  refine eventually_atTop.mpr ⟨enough + 1, fun limit above => ?_⟩
  obtain ⟨lower, rfl⟩ : ∃ lower, limit = lower + 1 := ⟨limit - 1, by omega⟩
  exact reads lower (by omega)

theorem length_le_of_flatMap {α : Type} {parts : List α} {kinds : α → List Kind}
    {used : List Token} (rest : List Token)
    (spelled : used.map Token.kind = parts.flatMap kinds) (nonempty : ∀ part ∈ parts, kinds part ≠ []) :
    parts.length ≤ (used ++ rest).length := by
  have each : parts.length ≤ (parts.flatMap kinds).length := by
    clear spelled
    induction parts with
    | nil => simp
    | cons part parts ih =>
      have first := List.length_pos_iff.mpr (nonempty part List.mem_cons_self)
      have others := ih fun later member => nonempty later (List.mem_cons_of_mem part member)
      simp only [List.flatMap_cons, List.length_append, List.length_cons]
      omega
  have counted := congrArg List.length spelled
  simp only [List.length_map] at counted
  rw [List.length_append]
  omega

def Level.Reads (level : Level) (kinds : List Kind) (node : Node) : Prop :=
  Grammar.Reads (fun limit => parse limit level.rule) kinds node (· ∉ level.continuing)

section
variable {level : Level}

theorem links_stop {links : List Link}
    (operators : ∀ link ∈ links, level.operator? link.kind = some link.operator)
    {used rest : List Token} (spelled : used.map Token.kind = links.flatMap Link.kinds)
    (stops : (front rest).kind ∉ level.continuing) :
    (front (used ++ rest)).kind ∉ level.operand.continuing := by
  cases links with
  | nil =>
    obtain rfl : used = [] := by simpa using spelled
    exact Level.stops_operand stops
  | cons link links =>
    rcases List.map_eq_cons_iff.mp spelled with ⟨token, after, rfl, same, -⟩
    have found := operators link List.mem_cons_self
    rw [← same] at found
    exact Level.stops_of_operator? found

theorem further_operands_read (links : List Link)
    (operators : ∀ link ∈ links, level.operator? link.kind = some link.operator)
    (operands : ∀ link ∈ links, level.operand.Reads link.operand.kinds link.operand.node)
    (bound used rest : List Token) (left : Node)
    (spelled : used.map Token.kind = links.flatMap Link.kinds)
    (enough : links.length ≤ bound.length) (stops : (front rest).kind ∉ level.continuing) :
    ∀ᶠ limit in atTop,
      iterate (furtherOperand level.operator? level.join (parse limit level.operand.rule)) bound left
        (used ++ rest) = .ok (Link.chain level left links) rest := by
  have noEnd : level.operator? .endOfInput = none := by cases level <;> rfl
  induction links generalizing bound used left with
  | nil =>
    obtain rfl : used = [] := by simpa using spelled
    refine Eventually.of_forall fun limit => ?_
    cases bound with
    | nil => rfl
    | cons _ bound =>
      rw [iterate, List.nil_append, bind_of_ok ((furtherOperand_eq_ok noEnd).mpr
        (.inr ⟨Level.operator?_of_stops stops, rfl, rfl⟩))]
      rfl
  | cons link links ih =>
    rcases List.map_eq_cons_iff.mp spelled with ⟨token, after, rfl, same, split⟩
    rcases List.map_eq_append_iff.mp split with ⟨inner, more, rfl, innerKinds, moreKinds⟩
    cases bound with
    | nil => simp at enough
    | cons _ bound =>
      have laterOperators := fun later member => operators later (List.mem_cons_of_mem link member)
      have first := operands link List.mem_cons_self inner (more ++ rest) innerKinds
        (links_stop laterOperators moreKinds stops)
      have others := ih laterOperators
        (fun later member => operands later (List.mem_cons_of_mem link member)) bound more
        (level.join left link.operator link.operand.node) moreKinds (by simpa using enough)
      filter_upwards [first, others] with limit firstRead othersRead
      have found := operators link List.mem_cons_self
      rw [← same] at found
      rw [iterate, List.cons_append, List.append_assoc, bind_of_ok ((furtherOperand_eq_ok noEnd).mpr
        (.inl ⟨token, _, link.operator, _, rfl, found, firstRead, rfl⟩))]
      exact othersRead

theorem chain_reads (chained : level.chained) {kinds : List Kind} {first : Node} {links : List Link}
    (firstReads : level.operand.Reads kinds first)
    (operators : ∀ link ∈ links, level.operator? link.kind = some link.operator)
    (operands : ∀ link ∈ links, level.operand.Reads link.operand.kinds link.operand.node) :
    level.Reads (kinds ++ links.flatMap Link.kinds) (Link.chain level first links) := by
  intro used rest spelled stops
  rcases List.map_eq_append_iff.mp spelled with ⟨inner, more, rfl, innerKinds, moreKinds⟩
  have room := length_le_of_flatMap rest moreKinds fun link _ => List.cons_ne_nil _ _
  have begun := firstReads inner (more ++ rest) innerKinds (links_stop operators moreKinds stops)
  have others := further_operands_read links operators operands (more ++ rest) more rest first
    moreKinds room stops
  apply eventually_parse
  filter_upwards [begun, others] with limit begunRead othersRead
  rw [step_chained chained, chain, List.append_assoc, bind_of_ok begunRead]
  exact othersRead

end

theorem separator_stops {parts : List Part} {used rest : List Token}
    (spelled : used.map Token.kind = parts.flatMap fun part => .comma :: part.kinds)
    (closed : (front rest).kind = .rightParen) :
    (front (used ++ rest)).kind ∉ Level.assignment.continuing := by
  cases parts with
  | nil =>
    obtain rfl : used = [] := by simpa using spelled
    simp [closed, Level.continuing]
  | cons part parts =>
    rcases List.map_eq_cons_iff.mp spelled with ⟨token, after, rfl, same, -⟩
    simp [same, Level.continuing]

section
variable {expression : Nat → Parser Node} (parts : List Part)
  (arguments : ∀ part ∈ parts,
    Reads expression part.kinds part.node (· ∉ Level.assignment.continuing))
include arguments

theorem further_arguments_read
    (room : Nat) (used rest : List Token)
    (spelled : used.map Token.kind = parts.flatMap fun part => .comma :: part.kinds)
    (short : parts.length ≤ room) (closed : (front rest).kind = .rightParen) :
    ∀ᶠ limit in atTop, furtherArguments (expression limit) room (used ++ rest) =
      .ok (parts.map Part.node) rest := by
  induction parts generalizing room used with
  | nil =>
    obtain rfl : used = [] := by simpa using spelled
    have noComma : (front ([] ++ rest)).kind ≠ .comma := by simp [closed]
    refine Eventually.of_forall fun limit => ?_
    cases room with
    | zero => exact accept_bind_other noComma
    | succ room => exact accept_bind_other noComma
  | cons part parts ih =>
    rcases List.map_eq_cons_iff.mp spelled with ⟨token, after, rfl, same, split⟩
    rcases List.map_eq_append_iff.mp split with ⟨inner, more, rfl, innerKinds, moreKinds⟩
    cases room with
    | zero => simp at short
    | succ room =>
      have first := arguments part List.mem_cons_self inner (more ++ rest) innerKinds
        (separator_stops moreKinds closed)
      have others := ih (fun later member => arguments later (List.mem_cons_of_mem part member))
        room more moreKinds (Nat.le_of_succ_le_succ short)
      filter_upwards [first, others] with limit firstRead othersRead
      rw [furtherArguments, List.cons_append, accept_bind_cons (by simp) same, List.append_assoc,
        bind_of_ok firstRead, bind_of_ok othersRead]
      rfl

theorem listed_arguments_read
    (phrases : ∀ part ∈ parts, Phrase .assignment part.kinds part.node)
    (short : parts.length ≤ 255) (used rest : List Token)
    (spelled : used.map Token.kind = separated parts) (closed : (front rest).kind = .rightParen) :
    ∀ᶠ limit in atTop, listedArguments (expression limit) (used ++ rest) =
      .ok (parts.map Part.node) rest := by
  cases parts with
  | nil =>
    obtain rfl : used = [] := by simpa [separated] using spelled
    refine Eventually.of_forall fun limit => peek_bind_eq_ok.mpr ?_
    rw [List.nil_append, if_pos closed]
    rfl
  | cons part parts =>
    rcases List.map_eq_append_iff.mp spelled with ⟨inner, more, rfl, innerKinds, moreKinds⟩
    have first := arguments part List.mem_cons_self inner (more ++ rest) innerKinds
      (separator_stops moreKinds closed)
    have others := further_arguments_read parts
      (fun later member => arguments later (List.mem_cons_of_mem part member)) 254 more rest
      moreKinds (Nat.le_of_succ_le_succ short) closed
    have opens := (phrases part List.mem_cons_self).starts.front_kind innerKinds (more ++ rest)
    have notClosed : (front (inner ++ (more ++ rest))).kind ≠ .rightParen :=
      ne_of_property opens rfl
    filter_upwards [first, others] with limit firstRead othersRead
    refine peek_bind_eq_ok.mpr ?_
    rw [List.append_assoc, if_neg notClosed, bind_of_ok firstRead, bind_of_ok othersRead]
    rfl

end

section
variable {expression : Nat → Parser Node}

theorem further_calls_read (calls : List (List Part))
    (short : ∀ arguments ∈ calls, arguments.length ≤ 255)
    (phrases : ∀ arguments ∈ calls, ∀ part ∈ arguments, Phrase .assignment part.kinds part.node)
    (reads : ∀ arguments ∈ calls, ∀ part ∈ arguments,
      Reads expression part.kinds part.node (· ∉ Level.assignment.continuing))
    (bound used rest : List Token) (callee : Node)
    (spelled : used.map Token.kind = calls.flatMap enclosed)
    (enough : calls.length ≤ bound.length) (stops : (front rest).kind ≠ .leftParen) :
    ∀ᶠ limit in atTop,
      iterate (furtherCall (expression limit)) bound callee (used ++ rest) =
        .ok (applied callee calls) rest := by
  induction calls generalizing bound used callee with
  | nil =>
    obtain rfl : used = [] := by simpa using spelled
    refine Eventually.of_forall fun limit => ?_
    cases bound with
    | nil => rfl
    | cons _ bound =>
      rw [iterate, List.nil_append, bind_of_ok (furtherCall_eq_ok.mpr (.inr ⟨stops, rfl, rfl⟩))]
      rfl
  | cons arguments calls ih =>
    rw [List.flatMap_cons] at spelled
    rcases List.map_eq_append_iff.mp spelled with ⟨one, more, rfl, oneKinds, moreKinds⟩
    rcases List.map_eq_cons_iff.mp oneKinds with ⟨token, after, rfl, opened, split⟩
    rcases List.map_eq_append_iff.mp split with ⟨inner, closing, rfl, innerKinds, closingKinds⟩
    rcases List.map_eq_singleton_iff.mp closingKinds with ⟨last, rfl, closed⟩
    cases bound with
    | nil => simp at enough
    | cons _ bound =>
      have first := listed_arguments_read arguments (reads arguments List.mem_cons_self)
        (phrases arguments List.mem_cons_self) (short arguments List.mem_cons_self) inner
        (last :: (more ++ rest)) innerKinds closed
      have others := ih (fun later member => short later (List.mem_cons_of_mem _ member))
        (fun later member => phrases later (List.mem_cons_of_mem _ member))
        (fun later member => reads later (List.mem_cons_of_mem _ member)) bound more
        (.call callee (arguments.map Part.node)) moreKinds (by simpa using enough)
      filter_upwards [first, others] with limit firstRead othersRead
      have argumentsRead : Grammar.arguments (expression limit) (inner ++ last :: (more ++ rest)) =
          .ok (arguments.map Part.node) (more ++ rest) := by
        rw [Grammar.arguments, bind_of_ok firstRead, bind_of_ok (require_cons (by simp) closed)]
        rfl
      have one : furtherCall (expression limit) callee (token :: (inner ++ last :: (more ++ rest))) =
          .ok (some (.call callee (arguments.map Part.node))) (more ++ rest) :=
        furtherCall_eq_ok.mpr (.inl ⟨token, _, _, rfl, opened, argumentsRead, rfl⟩)
      simp only [List.cons_append, List.append_assoc, List.nil_append]
      rw [iterate, bind_of_ok one]
      exact othersRead

end

section
variable {kinds : List Kind} {node : Node}

theorem Level.Reads.expression (reads : Level.assignment.Reads kinds node) :
    Grammar.Reads (fun limit => parse limit .expression) kinds node
      (· ∉ Level.assignment.continuing) :=
  fun used rest spelled stops => eventually_parse (reads used rest spelled stops)

theorem call_reads {callee : Node} {calls : List (List Part)}
    (calleeReads : Level.primary.Reads kinds callee)
    (short : ∀ arguments ∈ calls, arguments.length ≤ 255)
    (phrases : ∀ arguments ∈ calls, ∀ part ∈ arguments, Phrase .assignment part.kinds part.node)
    (reads : ∀ arguments ∈ calls, ∀ part ∈ arguments,
      Level.assignment.Reads part.kinds part.node) :
    Level.call.Reads (kinds ++ calls.flatMap enclosed) (applied callee calls) := by
  intro used rest spelled stops
  rcases List.map_eq_append_iff.mp spelled with ⟨inner, more, rfl, innerKinds, moreKinds⟩
  have room := length_le_of_flatMap rest moreKinds fun arguments _ => List.cons_ne_nil _ _
  have begun := calleeReads inner (more ++ rest) innerKinds (by simp [Level.continuing])
  have others := further_calls_read calls short phrases
    (fun arguments member part within => (reads arguments member part within).expression)
    (more ++ rest) more rest callee moreKinds room (by simpa [Level.continuing] using stops)
  apply eventually_parse
  filter_upwards [begun, others] with limit begunRead othersRead
  rw [Level.rule, step, List.append_assoc]
  exact (bind_of_ok begunRead).trans othersRead

theorem unsigned_reads (phrase : Phrase .call kinds node) (reads : Level.call.Reads kinds node) :
    Level.unary.Reads kinds node := by
  intro used rest spelled stops
  have unmarked : unaryOperator (front (used ++ rest)).kind = none := by
    have opens := phrase.starts.front_kind spelled rest
    generalize (front (used ++ rest)).kind = kind at opens
    cases kind <;> first | rfl | cases opens
  apply eventually_parse
  filter_upwards [reads used rest spelled stops] with limit read
  refine peek_bind_eq_ok.mpr ?_
  simp only [unmarked]
  exact read

theorem signed_reads {kind : Kind} {operator : Operator}
    (found : prefixOperator? kind = some operator) (reads : Level.unary.Reads kinds node) :
    Level.unary.Reads (kind :: kinds) (.unary operator node) := by
  intro used rest spelled stops
  rcases List.map_eq_cons_iff.mp spelled with ⟨token, after, rfl, rfl, afterKinds⟩
  have inside : token.kind ≠ .endOfInput := by
    intro atEnd
    rw [atEnd] at found
    cases found
  apply eventually_parse
  filter_upwards [reads after rest afterKinds stops] with limit read
  refine peek_bind_eq_ok.mpr ?_
  rw [← unaryOperator_eq] at found
  simp only [List.cons_append, front_cons, found]
  exact (bind_of_ok (advance_cons inside)).trans ((bind_of_ok read).trans rfl)

theorem literal_reads {kind : Kind} {value : Value} (found : literal? kind = some value) :
    Level.primary.Reads [kind] (.literal value) := by
  intro used rest spelled stops
  rcases List.map_eq_singleton_iff.mp spelled with ⟨token, rfl, rfl⟩
  refine eventually_parse (Eventually.of_forall fun limit => ?_)
  have inside : token.kind ≠ .endOfInput := by
    intro atEnd
    rw [atEnd] at found
    cases found
  refine (bind_of_ok (advance_cons inside)).trans ?_
  cases shape : token.kind <;> simp only [shape, literal?] at found <;> cases found <;> rfl

theorem identifier_reads (name : String) :
    Level.primary.Reads [.identifier name] (.identifier name) := by
  intro used rest spelled stops
  rcases List.map_eq_singleton_iff.mp spelled with ⟨token, rfl, named⟩
  refine eventually_parse (Eventually.of_forall fun limit => ?_)
  refine (bind_of_ok (advance_cons (by simp [named]))).trans ?_
  simp only [named]
  rfl

theorem grouping_reads (reads : Level.assignment.Reads kinds node) :
    Level.primary.Reads (.leftParen :: (kinds ++ [.rightParen])) (.grouping node) := by
  intro used rest spelled stops
  rcases List.map_eq_cons_iff.mp spelled with ⟨token, after, rfl, opened, split⟩
  rcases List.map_eq_append_iff.mp split with ⟨inner, closing, rfl, innerKinds, closingKinds⟩
  rcases List.map_eq_singleton_iff.mp closingKinds with ⟨last, rfl, closed⟩
  have enclosed := reads.expression inner (last :: rest) innerKinds
    (by simp [closed, Level.continuing])
  apply eventually_parse
  filter_upwards [enclosed] with limit read
  simp only [List.cons_append, List.append_assoc, List.nil_append]
  refine (bind_of_ok (advance_cons (by simp [opened]))).trans ?_
  simp only [opened]
  exact (bind_of_ok read).trans ((bind_of_ok (require_cons (by simp) closed)).trans rfl)

theorem operand_reads {level : Level} (chained : level.chained)
    (reads : level.operand.Reads kinds node) : level.Reads kinds node := by
  simpa [Link.chain] using @chain_reads level chained kinds node [] reads (by simp) (by simp)

theorem name_reads (name : String) :
    Level.disjunction.Reads [.identifier name] (.identifier name) := by
  have atCall : Level.call.Reads [.identifier name] (.identifier name) := by
    simpa [applied] using @call_reads _ _ [] (identifier_reads name) (by simp) (by simp) (by simp)
  have phrase : Phrase .call [.identifier name] (.identifier name) :=
    @Phrase.call _ _ [] .identifier (by simp) (by simp)
  have atUnary := unsigned_reads phrase atCall
  exact operand_reads rfl <| operand_reads rfl <| operand_reads rfl <| operand_reads rfl <|
    operand_reads rfl <| operand_reads rfl atUnary

theorem assign_reads {name : String} (reads : Level.assignment.Reads kinds node) :
    Level.assignment.Reads (.identifier name :: .equal :: kinds) (.assign name node) := by
  intro used rest spelled stops
  rcases List.map_eq_cons_iff.mp spelled with ⟨target, _, rfl, named, split⟩
  rcases List.map_eq_cons_iff.mp split with ⟨equals, after, rfl, assigned, afterKinds⟩
  have first := name_reads name [target] (equals :: (after ++ rest)) (by simp [named])
    (by simp [assigned, Level.continuing])
  apply eventually_parse
  filter_upwards [first, reads after rest afterKinds stops] with limit targetRead valueRead
  refine (bind_of_ok targetRead).trans ?_
  refine (accept_bind_cons (by simp) assigned).trans ?_
  exact (bind_of_ok valueRead).trans rfl

theorem disjunction_reads (reads : Level.disjunction.Reads kinds node) :
    Level.assignment.Reads kinds node := by
  intro used rest spelled stops
  apply eventually_parse
  filter_upwards [reads used rest spelled (Level.stops_operand stops)] with limit read
  have noEqual : (front rest).kind ≠ .equal := by
    intro equals
    simp [equals, Level.continuing] at stops
  exact (bind_of_ok read).trans ((accept_bind_other noEqual).trans rfl)

end

theorem Phrase.reads {level : Level} {kinds : List Kind} {node : Node}
    (phrase : Phrase level kinds node) : level.Reads kinds node := by
  induction phrase with
  | assign _ ih => exact assign_reads ih
  | disjunction _ ih => exact disjunction_reads ih
  | chain chained _ operators _ first links => exact chain_reads chained first operators links
  | signed found _ ih => exact signed_reads found ih
  | unsigned phrase ih => exact unsigned_reads phrase ih
  | call _ short phrases callee arguments => exact call_reads callee short phrases arguments
  | literal found => exact literal_reads found
  | identifier => exact identifier_reads _
  | grouping _ ih => exact grouping_reads ih

end Lox.Grammar
