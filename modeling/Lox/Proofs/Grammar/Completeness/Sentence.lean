import Lox.Proofs.Grammar.Completeness.Phrase

namespace Lox.Grammar

open Filter
open Token (Kind)

def Form.Reads : Form → List Kind → Node → Prop
  | declaration, kinds, node =>
    Grammar.Reads (fun limit => parse limit .declaration) kinds node (· ≠ .elseWord)
  | statement dangling, kinds, node =>
    Grammar.Reads (fun limit => parse limit .statement) kinds node
      fun next => dangling = true → next ≠ .elseWord

theorem ended_expression_reads {kinds : List Kind} {value : Node} (phrase : Phrase .assignment kinds value)
    (what : String) (build : Node → Node) :
    Reads (fun limit => do
        let value ← parse limit .expression
        require .semicolon what
        return build value)
      (kinds ++ [.semicolon]) (build value) fun _ => True := by
  intro used rest spelled _
  rcases List.map_eq_append_iff.mp spelled with ⟨inner, closing, rfl, innerKinds, closingKinds⟩
  rcases List.map_eq_singleton_iff.mp closingKinds with ⟨last, rfl, closed⟩
  have reads := phrase.reads.expression inner (last :: rest) innerKinds
    (by simp [closed, Level.continuing])
  filter_upwards [reads] with limit read
  rw [List.append_assoc]
  exact (bind_of_ok read).trans ((bind_of_ok (require_cons (by simp) closed)).trans rfl)

theorem output_reads {kinds : List Kind} {value : Node} (phrase : Phrase .assignment kinds value) :
    Reads (fun limit => parse limit .output) (kinds ++ [.semicolon]) (.print value) fun _ => True :=
  fun used rest spelled ends =>
    eventually_parse (ended_expression_reads phrase _ .print used rest spelled ends)

theorem evaluation_reads {kinds : List Kind} {node : Node} (evaluated : Evaluation kinds node) :
    Reads (fun limit => parse limit .evaluation) kinds node fun _ => True := by
  intro used rest spelled ends
  cases evaluated with
  | intro phrase =>
    exact eventually_parse (ended_expression_reads phrase _ .expression used rest spelled ends)

theorem variable_reads {kinds : List Kind} {node : Node} (declared : Variable (.varWord :: kinds) node) :
    Reads (fun limit => parse limit .variable) kinds node fun _ => True := by
  intro used rest spelled _
  apply eventually_parse
  generalize shape : Kind.varWord :: kinds = whole at declared
  cases declared with
  | bare =>
    cases shape
    rcases List.map_eq_cons_iff.mp spelled with ⟨first, _, rfl, named, split⟩
    rcases List.map_eq_singleton_iff.mp split with ⟨last, rfl, closed⟩
    refine Eventually.of_forall fun limit => ?_
    have noValue : announced .equal (parse limit .expression) (last :: rest) =
        .ok none (last :: rest) :=
      (announced_eq_ok (by simp)).mpr (.inr ⟨by simp [closed], rfl, rfl⟩)
    refine (bind_of_ok (requireName_eq_ok.mpr ⟨first, rfl, named⟩)).trans ?_
    exact (bind_of_ok noValue).trans ((bind_of_ok (require_cons (by simp) closed)).trans rfl)
  | initialized phrase =>
    cases shape
    rcases List.map_eq_cons_iff.mp spelled with ⟨first, _, rfl, named, split⟩
    rcases List.map_eq_cons_iff.mp split with ⟨equals, _, rfl, assigned, split⟩
    rcases List.map_eq_append_iff.mp split with ⟨inner, closing, rfl, innerKinds, closingKinds⟩
    rcases List.map_eq_singleton_iff.mp closingKinds with ⟨last, rfl, closed⟩
    have reads := phrase.reads.expression inner (last :: rest) innerKinds
      (by simp [closed, Level.continuing])
    filter_upwards [reads] with limit read
    simp only [List.cons_append, List.append_assoc, List.nil_append]
    refine (bind_of_ok (requireName_eq_ok.mpr ⟨first, rfl, named⟩)).trans ?_
    refine (bind_of_ok ((announced_eq_ok (by simp)).mpr
      (.inl ⟨equals, _, _, rfl, assigned, read, rfl⟩))).trans ?_
    exact (bind_of_ok (require_cons (by simp) closed)).trans rfl

theorem announced_reads {word : Kind} {inner outer : Rule} {kinds : List Kind} {node : Node}
    {ends : Kind → Prop}
    (leads : ∀ rule token rest, token.kind = word →
      step rule outer (token :: rest) = rule inner rest)
    (reads : Reads (fun limit => parse limit inner) kinds node ends) :
    Reads (fun limit => parse limit outer) (word :: kinds) node ends := by
  intro used rest spelled stops
  rcases List.map_eq_cons_iff.mp spelled with ⟨token, after, rfl, same, afterKinds⟩
  apply eventually_parse
  filter_upwards [reads after rest afterKinds stops] with limit read
  rw [List.cons_append, leads _ _ _ same]
  exact read

section
variable (rule : Rule → Parser Node) (token : Token) (rest : List Token)

theorem declaration_var (word : token.kind = .varWord) :
    step rule .declaration (token :: rest) = rule .variable rest :=
  accept_bind_cons (by simp) word

theorem statement_for (word : token.kind = .forWord) :
    step rule .statement (token :: rest) = rule .forLoop rest :=
  accept_bind_cons (by simp) word

theorem statement_if (word : token.kind = .ifWord) :
    step rule .statement (token :: rest) = rule .choice rest :=
  (accept_bind_other (by simp [word])).trans (accept_bind_cons (by simp) word)

theorem statement_print (word : token.kind = .printWord) :
    step rule .statement (token :: rest) = rule .output rest :=
  (accept_bind_other (by simp [word])).trans <| (accept_bind_other (by simp [word])).trans <|
    accept_bind_cons (by simp) word

theorem statement_while (word : token.kind = .whileWord) :
    step rule .statement (token :: rest) = rule .whileLoop rest :=
  (accept_bind_other (by simp [word])).trans <| (accept_bind_other (by simp [word])).trans <|
    (accept_bind_other (by simp [word])).trans <| accept_bind_cons (by simp) word

theorem statement_brace (word : token.kind = .leftBrace) :
    step rule .statement (token :: rest) = rule .block rest :=
  (accept_bind_other (by simp [word])).trans <| (accept_bind_other (by simp [word])).trans <|
    (accept_bind_other (by simp [word])).trans <| (accept_bind_other (by simp [word])).trans <|
    accept_bind_cons (by simp) word

end

theorem statement_evaluation (rule : Rule → Parser Node) {tokens : List Token}
    (opens : opensPhrase (front tokens).kind = true) :
    step rule .statement tokens = rule .evaluation tokens := by
  have other {kind : Kind} (closed : opensPhrase kind = false) : (front tokens).kind ≠ kind :=
    ne_of_property opens closed
  exact (accept_bind_other (other rfl)).trans <| (accept_bind_other (other rfl)).trans <|
    (accept_bind_other (other rfl)).trans <| (accept_bind_other (other rfl)).trans <|
    accept_bind_other (other rfl)

theorem condition_reads {test : List Kind} {condition : Node}
    (phrase : Phrase .assignment test condition) {what ended : String} {opening closing : Token}
    (opened : opening.kind = .leftParen) (closed : closing.kind = .rightParen)
    {used after : List Token} (spelled : used.map Token.kind = test)
    {next : Nat → Node → Parser Node} {result : EStateM.Result Fault (List Token) Node}
    (reads : ∀ᶠ limit in atTop, next limit condition after = result) :
    ∀ᶠ limit in atTop, (do
        require .leftParen what
        let condition ← parse limit .expression
        require .rightParen ended
        next limit condition) (opening :: (used ++ closing :: after)) = result := by
  have tested := phrase.reads.expression used (closing :: after) spelled
    (by simp [closed, Level.continuing])
  filter_upwards [tested, reads] with limit testRead read
  refine (bind_of_ok (require_cons (by simp) opened)).trans ?_
  refine (bind_of_ok testRead).trans ?_
  exact (bind_of_ok (require_cons (by simp) closed)).trans read

section
variable {test inner : List Kind} {condition body : Node} {dangling : Bool}

theorem whileLoop_reads (phrase : Phrase .assignment test condition)
    (reads : (Form.statement dangling).Reads inner body) :
    Reads (fun limit => parse limit .whileLoop) (.leftParen :: (test ++ .rightParen :: inner))
      (.loop condition [body]) fun next => dangling = true → next ≠ .elseWord := by
  intro used rest spelled stops
  rcases List.map_eq_cons_iff.mp spelled with ⟨opening, _, rfl, opened, split⟩
  rcases List.map_eq_append_iff.mp split with ⟨first, _, rfl, firstKinds, split⟩
  rcases List.map_eq_cons_iff.mp split with ⟨closing, after, rfl, closed, afterKinds⟩
  simp only [List.cons_append, List.append_assoc]
  refine eventually_parse (condition_reads phrase opened closed firstKinds ?_)
  filter_upwards [reads after rest afterKinds stops] with limit bodyRead
  exact (bind_of_ok bodyRead).trans rfl

theorem choice_reads (phrase : Phrase .assignment test condition)
    (reads : (Form.statement dangling).Reads inner body) :
    Reads (fun limit => parse limit .choice) (.leftParen :: (test ++ .rightParen :: inner))
      (.choice condition body none) (· ≠ .elseWord) := by
  intro used rest spelled stops
  rcases List.map_eq_cons_iff.mp spelled with ⟨opening, _, rfl, opened, split⟩
  rcases List.map_eq_append_iff.mp split with ⟨first, _, rfl, firstKinds, split⟩
  rcases List.map_eq_cons_iff.mp split with ⟨closing, after, rfl, closed, afterKinds⟩
  simp only [List.cons_append, List.append_assoc]
  refine eventually_parse (condition_reads phrase opened closed firstKinds ?_)
  filter_upwards [reads after rest afterKinds fun _ => stops] with limit branchRead
  refine (bind_of_ok branchRead).trans ?_
  exact (bind_of_ok ((announced_eq_ok (by simp)).mpr (.inr ⟨stops, rfl, rfl⟩))).trans rfl

theorem alternative_reads {other : List Kind} {elseBranch : Node}
    (phrase : Phrase .assignment test condition)
    (reads : (Form.statement false).Reads inner body)
    (otherReads : (Form.statement dangling).Reads other elseBranch) :
    Reads (fun limit => parse limit .choice)
      (.leftParen :: (test ++ .rightParen :: (inner ++ .elseWord :: other)))
      (.choice condition body (some elseBranch)) fun next => dangling = true → next ≠ .elseWord := by
  intro used rest spelled stops
  rcases List.map_eq_cons_iff.mp spelled with ⟨opening, _, rfl, opened, split⟩
  rcases List.map_eq_append_iff.mp split with ⟨first, _, rfl, firstKinds, split⟩
  rcases List.map_eq_cons_iff.mp split with ⟨closing, _, rfl, closed, split⟩
  rcases List.map_eq_append_iff.mp split with ⟨branch, _, rfl, branchKinds, split⟩
  rcases List.map_eq_cons_iff.mp split with ⟨word, after, rfl, spelledElse, afterKinds⟩
  simp only [List.cons_append, List.append_assoc]
  refine eventually_parse (condition_reads phrase opened closed firstKinds ?_)
  filter_upwards [reads branch (word :: (after ++ rest)) branchKinds (by simp),
    otherReads after rest afterKinds stops] with limit branchRead otherRead
  refine (bind_of_ok branchRead).trans ?_
  exact (bind_of_ok ((announced_eq_ok (by simp)).mpr
    (.inl ⟨word, _, _, rfl, spelledElse, otherRead, rfl⟩))).trans rfl

end

theorem clause_reads {kinds : List Kind} {held : Option Node} (derived : Clause kinds held)
    {ends : Kind} (closes : ends ∉ Level.assignment.continuing) (closed : opensPhrase ends = false) :
    Reads (fun limit => clause ends (parse limit .expression)) kinds held (· = ends) := by
  intro used rest spelled stops
  cases derived with
  | absent =>
    obtain rfl : used = [] := by simpa using spelled
    exact Eventually.of_forall fun limit => clause_eq_ok.mpr (.inl ⟨stops, rfl, rfl⟩)
  | present phrase =>
    have inside : (front (used ++ rest)).kind ≠ ends :=
      ne_of_property (phrase.starts_phrase.front_kind spelled rest) closed
    filter_upwards [phrase.reads.expression used rest spelled (stops ▸ closes)] with limit read
    exact clause_eq_ok.mpr (.inr ⟨inside, _, read, rfl⟩)

theorem initializer_reads {kinds : List Kind} {held : Option Node}
    (derived : Initializer kinds held) :
    Reads (fun limit => initializer (parse limit .variable) (parse limit .evaluation)) kinds held
      fun _ => True := by
  intro used rest spelled ends
  cases derived with
  | absent =>
    rcases List.map_eq_singleton_iff.mp spelled with ⟨token, rfl, semicolon⟩
    exact Eventually.of_forall fun limit =>
      initializer_eq_ok.mpr (.inl ⟨token, rfl, semicolon, rfl⟩)
  | declared declaration =>
    obtain ⟨inner, rfl⟩ : ∃ inner, kinds = .varWord :: inner := by
      cases declaration <;> exact ⟨_, rfl⟩
    rcases List.map_eq_cons_iff.mp spelled with ⟨token, after, rfl, word, afterKinds⟩
    filter_upwards [variable_reads declaration after rest afterKinds ends] with limit read
    exact initializer_eq_ok.mpr (.inr (.inl ⟨token, _, _, rfl, word, read, rfl⟩))
  | evaluation evaluated =>
    have opens := evaluated.starts.front_kind spelled rest
    filter_upwards [evaluation_reads evaluated used rest spelled ends] with limit read
    exact initializer_eq_ok.mpr
      (.inr (.inr ⟨ne_of_property opens rfl, ne_of_property opens rfl, _, read, rfl⟩))

theorem forLoop_reads {start test advance inner : List Kind}
    {held condition increment : Option Node} {body : Node} {dangling : Bool}
    (begun : Initializer start held) (tested : Clause test condition)
    (advanced : Clause advance increment) (reads : (Form.statement dangling).Reads inner body) :
    Reads (fun limit => parse limit .forLoop)
      (.leftParen :: (start ++ (test ++ .semicolon :: (advance ++ .rightParen :: inner))))
      (desugared held condition increment body) fun next => dangling = true → next ≠ .elseWord := by
  intro used rest spelled stops
  rcases List.map_eq_cons_iff.mp spelled with ⟨opening, _, rfl, opened, split⟩
  rcases List.map_eq_append_iff.mp split with ⟨first, _, rfl, firstKinds, split⟩
  rcases List.map_eq_append_iff.mp split with ⟨second, _, rfl, secondKinds, split⟩
  rcases List.map_eq_cons_iff.mp split with ⟨semicolon, _, rfl, parted, split⟩
  rcases List.map_eq_append_iff.mp split with ⟨third, _, rfl, thirdKinds, split⟩
  rcases List.map_eq_cons_iff.mp split with ⟨closing, after, rfl, closed, afterKinds⟩
  simp only [List.cons_append, List.append_assoc]
  apply eventually_parse
  filter_upwards [
    initializer_reads begun first (second ++ semicolon :: (third ++ closing :: (after ++ rest)))
      firstKinds trivial,
    clause_reads tested (by simp [Level.continuing]) rfl second
      (semicolon :: (third ++ closing :: (after ++ rest))) secondKinds parted,
    clause_reads advanced (by simp [Level.continuing]) rfl third (closing :: (after ++ rest))
      thirdKinds closed,
    reads after rest afterKinds stops] with limit startRead testRead advanceRead bodyRead
  refine (bind_of_ok (require_cons (by simp) opened)).trans ?_
  refine (bind_of_ok startRead).trans ?_
  refine (bind_of_ok testRead).trans ?_
  refine (bind_of_ok (require_cons (by simp) parted)).trans ?_
  refine (bind_of_ok advanceRead).trans ?_
  refine (bind_of_ok (require_cons (by simp) closed)).trans ?_
  exact (bind_of_ok bodyRead).trans rfl

theorem declarations_stop {parts : List Part} {used rest : List Token}
    (sentences : ∀ part ∈ parts, Sentence .declaration part.kinds part.node)
    (spelled : used.map Token.kind = parts.flatMap Part.kinds)
    (stops : (front rest).kind ≠ .elseWord) : (front (used ++ rest)).kind ≠ .elseWord := by
  cases parts with
  | nil =>
    obtain rfl : used = [] := by simpa using spelled
    exact stops
  | cons part parts =>
    have starts := (sentences part List.mem_cons_self).starts_declaration
    exact ne_of_property ((starts.append _).front_kind spelled rest) rfl

theorem items_read (parts : List Part)
    (sentences : ∀ part ∈ parts, Sentence .declaration part.kinds part.node)
    (reads : ∀ part ∈ parts, Form.declaration.Reads part.kinds part.node)
    (bound used rest : List Token) (spelled : used.map Token.kind = parts.flatMap Part.kinds)
    (enough : parts.length ≤ bound.length) (closed : (front rest).kind = .rightBrace) :
    ∀ᶠ limit in atTop, itemsUntil endsBlock (parse limit .declaration) bound (used ++ rest) =
      .ok (parts.map Part.node) rest := by
  induction parts generalizing bound used with
  | nil =>
    obtain rfl : used = [] := by simpa using spelled
    refine Eventually.of_forall fun limit => ?_
    cases bound with
    | nil => rfl
    | cons _ bound =>
      refine peek_bind_eq_ok.mpr ?_
      rw [List.nil_append, closed]
      rfl
  | cons part parts ih =>
    have later := fun part member => sentences part (List.mem_cons_of_mem _ member)
    rw [List.flatMap_cons] at spelled
    rcases List.map_eq_append_iff.mp spelled with ⟨inner, more, rfl, innerKinds, moreKinds⟩
    cases bound with
    | nil => simp at enough
    | cons _ bound =>
      have inside : endsBlock (front (inner ++ (more ++ rest))).kind = false := by
        have opens := (sentences part List.mem_cons_self).starts_declaration.front_kind innerKinds
          (more ++ rest)
        have notBrace : (front (inner ++ (more ++ rest))).kind ≠ .rightBrace :=
          ne_of_property opens rfl
        have notEnd : (front (inner ++ (more ++ rest))).kind ≠ .endOfInput :=
          ne_of_property opens rfl
        simp [endsBlock, notBrace, notEnd]
      have first := reads part List.mem_cons_self inner (more ++ rest) innerKinds
        (declarations_stop later moreKinds (by simp [closed]))
      have others := ih later (fun part member => reads part (List.mem_cons_of_mem _ member))
        bound more moreKinds (by simpa using enough)
      filter_upwards [first, others] with limit firstRead othersRead
      rw [List.append_assoc]
      refine peek_bind_eq_ok.mpr ?_
      rw [inside, if_neg Bool.false_ne_true, bind_of_ok firstRead, bind_of_ok othersRead]
      rfl

theorem block_reads {parts : List Part}
    (sentences : ∀ part ∈ parts, Sentence .declaration part.kinds part.node)
    (reads : ∀ part ∈ parts, Form.declaration.Reads part.kinds part.node) :
    Reads (fun limit => parse limit .block) (parts.flatMap Part.kinds ++ [.rightBrace])
      (.block (parts.map Part.node)) fun _ => True := by
  intro used rest spelled _
  rcases List.map_eq_append_iff.mp spelled with ⟨inner, closing, rfl, innerKinds, closingKinds⟩
  rcases List.map_eq_singleton_iff.mp closingKinds with ⟨last, rfl, closed⟩
  have room := length_le_of_flatMap (last :: rest) innerKinds
    fun part member => (sentences part member).starts.ne_nil
  apply eventually_parse
  rw [List.append_assoc]
  filter_upwards [items_read parts sentences reads (inner ++ last :: rest) inner (last :: rest)
    innerKinds room closed] with limit itemsRead
  have all : items endsBlock (parse limit .declaration) (inner ++ last :: rest) =
      .ok (parts.map Part.node) (last :: rest) := itemsRead
  refine (bind_of_ok all).trans ?_
  exact (bind_of_ok (require_cons (by simp) closed)).trans rfl

theorem statement_reads {kinds : List Kind} {node : Node} {dangling : Bool}
    (sentence : Sentence (.statement dangling) kinds node)
    (reads : (Form.statement dangling).Reads kinds node) : Form.declaration.Reads kinds node := by
  intro used rest spelled stops
  have undeclared : (front (used ++ rest)).kind ≠ .varWord :=
    ne_of_property (sentence.starts.front_kind spelled rest) rfl
  apply eventually_parse
  filter_upwards [reads used rest spelled fun _ => stops] with limit read
  exact (accept_bind_other undeclared).trans read

theorem declared_reads {kinds : List Kind} {node : Node} (declaration : Variable kinds node) :
    Form.declaration.Reads kinds node := by
  obtain ⟨inner, rfl⟩ : ∃ inner, kinds = .varWord :: inner := by
    cases declaration <;> exact ⟨_, rfl⟩
  exact fun used rest spelled _ =>
    announced_reads declaration_var (variable_reads declaration) used rest spelled trivial

theorem lone_evaluation_reads {kinds : List Kind} {node : Node} (evaluated : Evaluation kinds node) :
    (Form.statement false).Reads kinds node := by
  intro used rest spelled _
  have opens := evaluated.starts.front_kind spelled rest
  apply eventually_parse
  filter_upwards [evaluation_reads evaluated used rest spelled trivial] with limit read
  exact (statement_evaluation _ opens).symm ▸ read

theorem Sentence.reads {form : Form} {kinds : List Kind} {node : Node}
    (sentence : Sentence form kinds node) : form.Reads kinds node := by
  induction sentence with
  | declared declaration => exact declared_reads declaration
  | statement sentence ih => exact statement_reads sentence ih
  | evaluation evaluated => exact lone_evaluation_reads evaluated
  | output phrase =>
    exact fun used rest spelled _ =>
      announced_reads statement_print (output_reads phrase) used rest spelled trivial
  | choice phrase _ ih =>
    exact fun used rest spelled stops =>
      announced_reads statement_if (choice_reads phrase ih) used rest spelled (stops rfl)
  | alternative phrase _ _ branch other =>
    exact announced_reads statement_if (alternative_reads phrase branch other)
  | whileLoop phrase _ ih => exact announced_reads statement_while (whileLoop_reads phrase ih)
  | forLoop begun tested advanced _ ih =>
    exact announced_reads statement_for (forLoop_reads begun tested advanced ih)
  | block sentences ih =>
    exact fun used rest spelled _ =>
      announced_reads statement_brace (block_reads sentences ih) used rest spelled trivial

end Lox.Grammar
