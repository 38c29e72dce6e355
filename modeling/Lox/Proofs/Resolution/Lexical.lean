import Lox.Proofs.Grammar.Acceptance
import Lox.Proofs.Resolution.Static
import Lox.Proofs.Resolution.Watched
import Lox.Proofs.Value.Complaint
import Lox.Scope.Tree

/-!
Names mean what the text of the program says. `Resolved` is what a watched run keeps: when the
names of every scope are the ones declared up to this place, then so they are afterwards, and all
variables that the run came to settle where the text says. Each step keeps it, and so does a run.
-/
namespace Lox

def Node.Accesses : Node → Access → Prop
  | identifier name, access => access.name = name ∧ access.writes = false
  | assign name _, access => access.name = name ∧ access.writes = true
  | _, _ => False

def Failure.unknown (name : String) (writes : Bool) : Failure :=
  .runtime (if writes then .unknownTarget name else .unknownName name)

/-- The run stopped at an unknown variable exactly if it came to one that settles nowhere. -/
def Failure.Blames (failure : Failure) (record : List Access) : Prop :=
  ∀ name writes, failure = .unknown name writes ↔
    ∃ access ∈ record, access.name = name ∧ access.writes = writes ∧ access.settled = none

/-- The access is by an expression within a node, whose place is the start of the access's place,
and it settles where the names declared before the expression say. -/
def Access.Lexical (names : Names) (node : Node) (start : List Nat) (access : Access) : Prop :=
  ∃ place part found, access.place = start ++ place ∧ node.reach names place = some (part, found) ∧
    part.Accesses access ∧ access.settled = found.settle access.name

/-- From scopes with some names a watched run comes to scopes with others, and it comes to
variables of one sort only. -/
def Resolved {α : Type} (place : List Nat) (names after : Names) (sort : Access → Prop)
    (watched : Watched α) : Prop :=
  ∀ context watch, names.Models watch.world.chain →
    match watched place context watch with
    | .ok _ later => ∃ new, later.record = watch.record ++ new ∧
      (∀ access ∈ new, sort access ∧ access.settled ≠ none) ∧ after.Models later.world.chain
    | .error failure later => ∃ new, later.record = watch.record ++ new ∧
      (∀ access ∈ new, sort access) ∧ failure.Blames new

def Failure.Blameless (failure : Failure) : Prop := ∀ name writes, failure ≠ .unknown name writes

theorem Failure.Blameless.blames {failure : Failure} (blameless : failure.Blameless) :
    failure.Blames [] := by
  intro name writes
  simp [blameless name writes]

theorem tooDeep_blameless : Failure.tooDeep.Blameless := by
  intro name writes same
  cases same

theorem outOfRounds_blameless : Failure.outOfRounds.Blameless := by
  intro name writes same
  cases same

theorem misplaced_blameless (role label : String) : (Failure.misplaced role label).Blameless := by
  intro name writes same
  cases same

theorem Failure.blames_unsettled {access : Access} (nowhere : access.settled = none) :
    (Failure.unknown access.name access.writes).Blames [access] := by
  intro name writes
  rcases access with ⟨place, other, writing, settled⟩
  cases writing <;> cases writes <;> simp_all [Failure.unknown]

theorem Failure.Blames.after {failure : Failure} {earlier new : List Access}
    (settled : ∀ access ∈ earlier, access.settled ≠ none) (blames : failure.Blames new) :
    failure.Blames (earlier ++ new) := by
  intro name writes
  rw [blames name writes]
  constructor
  · intro found
    rcases found with ⟨access, member, same⟩
    exact ⟨access, List.mem_append_right _ member, same⟩
  · intro found
    rcases found with ⟨access, member, named, writing, nowhere⟩
    rcases List.mem_append.mp member with before | last
    · exact absurd nowhere (settled access before)
    · exact ⟨access, last, named, writing, nowhere⟩

namespace Resolved

variable {α β : Type} {place : List Nat} {names middle after : Names} {sort : Access → Prop}
  {watched : Watched α}

theorem pure (value : α) : Resolved place names names sort (Pure.pure value : Watched α) := by
  intro context watch models
  exact ⟨[], by simp, by simp, models⟩

theorem throw {failure : Failure} (blameless : failure.Blameless) :
    Resolved place names after sort (throw failure : Watched α) := by
  intro context watch models
  exact ⟨[], by simp, by simp, blameless.blames⟩

theorem bind {next : α → Watched β} (first : Resolved place names middle sort watched)
    (second : ∀ value, Resolved place middle after sort (next value)) :
    Resolved place names after sort (watched >>= next) := by
  intro context watch models
  have start := first context watch models
  simp only [Bind.bind, ReaderT.bind, EStateM.bind]
  cases ran : watched place context watch with
  | error failure later =>
    simp only [ran] at start ⊢
    exact start
  | ok value later =>
    simp only [ran] at start ⊢
    rcases start with ⟨earlier, recorded, sorted, holds⟩
    have rest := second value context later holds
    cases finished : next value place context later with
    | ok result last =>
      simp only [finished] at rest ⊢
      rcases rest with ⟨new, again, others, ends⟩
      refine ⟨earlier ++ new, by rw [again, recorded, List.append_assoc], ?_, ends⟩
      intro access member
      rcases List.mem_append.mp member with before | last
      · exact sorted access before
      · exact others access last
    | error failure last =>
      simp only [finished] at rest ⊢
      rcases rest with ⟨new, again, others, blames⟩
      refine ⟨earlier ++ new, by rw [again, recorded, List.append_assoc], ?_,
        blames.after fun access member => (sorted access member).2⟩
      intro access member
      rcases List.mem_append.mp member with before | last
      · exact (sorted access before).1
      · exact others access last

theorem weaken {narrow : Access → Prop} (resolved : Resolved place names after narrow watched)
    (wider : ∀ access, narrow access → sort access) : Resolved place names after sort watched := by
  intro context watch models
  have start := resolved context watch models
  cases ran : watched place context watch with
  | ok value later =>
    simp only [ran] at start ⊢
    rcases start with ⟨new, recorded, sorted, holds⟩
    exact ⟨new, recorded, fun access member =>
      ⟨wider access (sorted access member).1, (sorted access member).2⟩, holds⟩
  | error failure later =>
    simp only [ran] at start ⊢
    rcases start with ⟨new, recorded, sorted, blames⟩
    exact ⟨new, recorded, fun access member => wider access (sorted access member), blames⟩

theorem nested (cost : Nat) (inner : Resolved place names after sort watched) :
    Resolved place names after sort (Watched.nested cost watched) := by
  intro context watch models
  simp only [Watched.nested]
  by_cases enough : cost ≤ context.depth
  · rw [if_pos enough]
    exact inner _ watch models
  · rw [if_neg enough]
    exact @throw α place names after sort _ tooDeep_blameless context watch models

theorem ite {condition : Prop} [Decidable condition] {other : Watched α}
    (first : Resolved place names after sort watched)
    (second : Resolved place names after sort other) :
    Resolved place names after sort (if condition then watched else other) := by
  split
  · exact first
  · exact second

/-- A scope that is new is dropped with all that was declared in it. -/
theorem inScope {listed : List String}
    (inner : Resolved place ([] :: names) (listed :: names) sort watched) :
    Resolved place names names sort (Watched.inScope watched) := by
  intro context watch models
  have start := inner context { watch with world := Run.enter watch.world }
    (.cons (fun _ => rfl) models)
  rw [Watched.inScope]
  cases ran : watched place context { watch with world := Run.enter watch.world } with
  | ok value later =>
    simp only [ran] at start ⊢
    rcases start with ⟨new, recorded, sorted, holds⟩
    refine ⟨new, recorded, sorted, ?_⟩
    cases shape : later.world.chain with
    | nil =>
      rw [shape] at holds
      cases holds
    | cons bindings outer =>
      rw [shape] at holds
      cases holds with
      | cons _ outside =>
        have dropped : (Run.leave later.world).chain = outer := by rw [Run.leave, shape, List.tail_cons]
        rw [dropped]
        exact outside
  | error failure later =>
    simp only [ran] at start ⊢
    exact start

theorem limited {steps : Limits → Watched α}
    (each : ∀ limits, Resolved place names after sort (steps limits)) :
    Resolved place names after sort (Machine.limited steps) :=
  fun context => each context.limits context

theorem rounds {condition : Watched Bool} {body : Watched Unit}
    (tests : Resolved place names names sort condition)
    (steps : Resolved place names names sort body) (count : Nat) :
    Resolved place names names sort (Machine.rounds condition body count) := by
  induction count with
  | zero => exact throw outOfRounds_blameless
  | succ count ih => exact tests.bind fun _ => ite (steps.bind fun _ => ih) (pure ())

theorem whileTrue {condition : Watched Bool} {body : Watched Unit}
    (tests : Resolved place names names sort condition)
    (steps : Resolved place names names sort body) :
    Resolved place names names sort (Machine.whileTrue condition body) :=
  limited fun limits => rounds tests steps limits.rounds

theorem ofRun {run : Run α}
    (keeps : ∀ context world, names.Models world.chain → match run context world with
      | .ok _ later => after.Models later.chain
      | .error failure _ => failure.Blameless) :
    Resolved place names after sort (Watched.ofRun run) := by
  intro context watch models
  have kept := keeps context watch.world models
  rw [Watched.ofRun]
  cases ran : run context watch.world with
  | ok value later =>
    simp only [ran] at kept ⊢
    exact ⟨[], by simp, by simp, kept⟩
  | error failure later =>
    simp only [ran] at kept ⊢
    exact ⟨[], by simp, by simp, kept.blames⟩

theorem report (activity label : String) :
    Resolved place names names sort (Watched.ofRun (Run.report activity label)) := by
  refine ofRun fun context world models => ?_
  rw [Run.report_eq]
  exact models

theorem print (text : String) : Resolved place names names sort (Watched.ofRun (Run.print text)) :=
  ofRun fun _ _ models => models

theorem define {listed : List String} (name : String) (value : Option Value) :
    Resolved place (listed :: names) ((listed ++ [name]) :: names) sort
      (Watched.ofRun (Run.define name value)) :=
  ofRun fun _ _ models => models.define name value

theorem call (node : Node) : Resolved place names names sort (Machine.call node) := by
  have called : (Failure.runtime (.call node)).Blameless := by
    intro name writes same
    cases writes <;> cases same
  have either (limits : Limits) : Resolved place names names sort
      (if node.height ≤ limits.source then Machine.throw (.runtime (.call node))
        else Machine.throw .tooDeep : Watched Value) :=
    ite (throw called) (throw tooDeep_blameless)
  exact limited either

theorem ofResult {result : Except RuntimeError α}
    (blameless : ∀ error, result = .error error → (Failure.runtime error).Blameless) :
    Resolved place names names sort (Machine.ofResult result) := by
  cases result with
  | ok value => exact pure value
  | error error => exact throw (blameless error rfl)

theorem lookup {name : String} (settles : sort ⟨place, name, false, names.settle name⟩) :
    Resolved place names names sort (Watched.lookup name) := by
  intro context watch models
  have noted : ∀ access ∈ [Access.mk place name false (watch.world.chain.settle name)],
      sort access := by
    rw [models.settle]
    simpa using settles
  rw [Watched.lookup_eq, ← Chain.valueAt_settle]
  cases settled : watch.world.chain.settle name with
  | none =>
    refine ⟨_, rfl, noted, ?_⟩
    exact @Failure.blames_unsettled ⟨place, name, false, watch.world.chain.settle name⟩ settled
  | some out =>
    have somewhere : ∀ access ∈ [Access.mk place name false (watch.world.chain.settle name)],
        access.settled ≠ none := by simp [settled]
    cases found : watch.world.chain.valueAt name (some out) with
    | ok value =>
      exact ⟨_, rfl, fun access member => ⟨noted access member, somewhere access member⟩, models⟩
    | error error =>
      refine ⟨_, rfl, noted, ?_⟩
      rw [← List.append_nil [_]]
      refine (Failure.Blameless.blames ?_).after somewhere
      intro other writes same
      have uninitialized : error = .uninitialized name := by
        simp only [Chain.valueAt] at found
        split at found
        · cases found
        · exact (Except.error.inj found).symm
      rw [uninitialized] at same
      cases writes <;> cases same

theorem assign {name : String} {value : Value}
    (settles : sort ⟨place, name, true, names.settle name⟩) :
    Resolved place names names sort (Watched.assign name value) := by
  intro context watch models
  have noted : ∀ access ∈ [Access.mk place name true (watch.world.chain.settle name)],
      sort access := by
    rw [models.settle]
    simpa using settles
  rw [Watched.assign_eq, ← Chain.assignAt_settle]
  cases settled : watch.world.chain.settle name with
  | none =>
    refine ⟨_, rfl, noted, ?_⟩
    exact @Failure.blames_unsettled ⟨place, name, true, watch.world.chain.settle name⟩ settled
  | some out =>
    refine ⟨_, rfl, fun access member => ⟨noted access member, ?_⟩,
      models.assignAt settled (some value)⟩
    rw [List.mem_singleton.mp member]
    simp [settled]

end Resolved

theorem RuntimeError.Operational.blameless {error : RuntimeError}
    (operational : error.Operational) : (Failure.runtime error).Blameless := by
  intro name writes same
  cases operational <;> cases writes <;> cases same

section
variable {names : Names} {node part : Node} {start : List Nat} {number : Nat} {access : Access}

theorem Access.Lexical.child (plain : ∀ statements, node ≠ .block statements)
    (found : node.children[number]? = some part)
    (lexical : Access.Lexical names part (start ++ [number]) access) :
    Access.Lexical names node start access := by
  rcases lexical with ⟨place, last, listed, placed, reached, settled⟩
  refine ⟨number :: place, last, listed, by simpa using placed, ?_, settled⟩
  have down : node.reach names (number :: place) =
      (node.children[number]?).bind fun part => part.reach names place := by
    cases node with
    | block statements => exact absurd rfl (plain statements)
    | _ => rfl
  rw [down, found]
  exact reached

theorem Access.Lexical.statement {statements : List Node} (found : statements[number]? = some part)
    (lexical : Access.Lexical (Node.allDeclared (statements.take number) :: names) part
      (start ++ [number]) access) :
    Access.Lexical names (.block statements) start access := by
  rcases lexical with ⟨place, last, listed, placed, reached, settled⟩
  refine ⟨number :: place, last, listed, by simpa using placed, ?_, settled⟩
  rw [Node.reach, found]
  exact reached

theorem Resolved.child {α : Type} {after : Names} {watched : Watched α}
    (plain : ∀ statements, node ≠ .block statements) (found : node.children[number]? = some part)
    (inner : Resolved (start ++ [number]) names after
      (Access.Lexical names part (start ++ [number])) watched) :
    Resolved start names after (Access.Lexical names node start) (Machine.within number watched) :=
  inner.weaken fun _ => Access.Lexical.child plain found

theorem Resolved.undeclared {α : Type} {listed : List String} {sort : Access → Prop}
    {watched : Watched α} (none : node.declared = [])
    (inner : Resolved start (listed :: names) (listed :: names) sort watched) :
    Resolved start (listed :: names) ((listed ++ node.declared) :: names) sort watched := by
  rw [none, List.append_nil]
  exact inner

end

open Resolved in
theorem evaluate_resolved (names : Names) (place : List Nat) (node : Node) :
    Resolved place names names (Access.Lexical names node place) node.evaluateIn := by
  match node with
  | .literal value => exact .nested 1 (.bind (report _ _) fun _ => .pure _)
  | .identifier name =>
    refine .nested 1 (.bind (report _ _) fun _ => lookup ?_)
    exact ⟨[], _, names, by simp, rfl, ⟨rfl, rfl⟩, rfl⟩
  | .assign name inner =>
    refine .nested 1 (.bind (report _ _) fun _ => ?_)
    refine .bind (.nested 1 (child (by simp) rfl (evaluate_resolved names _ inner))) fun value => ?_
    exact .bind (assign ⟨[], _, names, by simp, rfl, ⟨rfl, rfl⟩, rfl⟩) fun _ => .pure _
  | .unary operator right =>
    refine .nested 1 (.bind (report _ _) fun _ => ?_)
    refine .bind (.nested 1 (child (by simp) rfl (evaluate_resolved names _ right))) fun _ => ?_
    exact ofResult fun _ failed => (Value.unary_operational failed).blameless
  | .binary left operator right =>
    refine .nested 1 (.bind (report _ _) fun _ => ?_)
    refine .bind (.nested 1 (child (by simp) rfl (evaluate_resolved names _ left))) fun _ => ?_
    refine .bind (.nested 1 (child (by simp) rfl (evaluate_resolved names _ right))) fun _ => ?_
    exact ofResult fun _ failed => (Value.binary_operational failed).blameless
  | .logical left operator right =>
    refine .nested 1 (.bind (report _ _) fun _ => ?_)
    have second : Resolved place names names
        (Access.Lexical names (.logical left operator right) place)
        (Machine.nested 1 (Machine.within 1 right.evaluateIn)) :=
      .nested 1 (child (by simp) rfl (evaluate_resolved names _ right))
    refine .bind (.nested 1 (child (by simp) rfl (evaluate_resolved names _ left))) fun value => ?_
    cases operator with
    | and => exact .ite second (.pure value)
    | or => exact .ite (.pure value) second
    | _ => exact throw fun name writes same => by cases writes <;> cases same
  | .grouping inner =>
    refine .nested 1 (.bind (report _ _) fun _ => ?_)
    exact child (by simp) rfl (evaluate_resolved names _ inner)
  | .call callee arguments => exact .nested 1 (.bind (report _ _) fun _ => call _)
  | .expression _ | .print _ | .declare _ _ | .block _ | .choice _ _ _ | .loop _ _ | .foreign =>
    exact .nested 1 (.bind (report _ _) fun _ => throw (misplaced_blameless _ _))

open Resolved in
mutual

theorem execute_resolved {node : Node} (placed : node.placed = true) (listed : List String)
    (names : Names) (place : List Nat) :
    Resolved place (listed :: names) ((listed ++ node.declared) :: names)
      (Access.Lexical (listed :: names) node place) node.executeIn := by
  match node with
  | .expression inner =>
    refine .nested 1 (.bind (report _ _) fun _ => ?_)
    refine undeclared rfl ?_
    exact .bind (child (by simp) rfl (evaluate_resolved _ _ inner)) fun _ => .pure ()
  | .print inner =>
    refine .nested 1 (.bind (report _ _) fun _ => ?_)
    refine undeclared rfl ?_
    exact .bind (.nested 1 (child (by simp) rfl (evaluate_resolved _ _ inner))) fun _ => print _
  | .declare name none => exact .nested 1 (.bind (report _ _) fun _ => define name none)
  | .declare name (some initializer) =>
    refine .nested 1 (.bind (report _ _) fun _ => ?_)
    refine .bind (.nested 1 (child (by simp) rfl (evaluate_resolved _ _ initializer))) fun value => ?_
    exact define name (some value)
  | .block statements =>
    refine .nested 1 (.bind (report _ _) fun _ => ?_)
    refine undeclared rfl ?_
    refine .inScope (.nested 2 (executeAll_resolved placed [] (listed :: names) place 0 ?_))
    intro number part found access lexical
    rw [Nat.zero_add] at lexical
    exact lexical.statement found
  | .choice condition thenBranch none =>
    rw [Node.placed, Bool.and_eq_true, List.isEmpty_iff] at placed
    refine .nested 1 (.bind (report _ _) fun _ => ?_)
    refine undeclared rfl ?_
    refine .bind (.nested 1 (child (by simp) rfl (evaluate_resolved _ _ condition))) fun _ => ?_
    have branch := execute_resolved placed.2 listed names (place ++ [1])
    rw [placed.1, List.append_nil] at branch
    exact .ite (.nested 1 (child (by simp) rfl branch)) (.pure ())
  | .choice condition thenBranch (some elseBranch) =>
    rw [Node.placed, Bool.and_eq_true, Bool.and_eq_true, Bool.and_eq_true, List.isEmpty_iff,
      List.isEmpty_iff] at placed
    refine .nested 1 (.bind (report _ _) fun _ => ?_)
    refine undeclared rfl ?_
    refine .bind (.nested 1 (child (by simp) rfl (evaluate_resolved _ _ condition))) fun _ => ?_
    have first := execute_resolved placed.1.1.2 listed names (place ++ [1])
    have second := execute_resolved placed.2 listed names (place ++ [2])
    rw [placed.1.1.1, List.append_nil] at first
    rw [placed.1.2, List.append_nil] at second
    exact .ite (.nested 1 (child (by simp) rfl first)) (.nested 1 (child (by simp) rfl second))
  | .loop condition body =>
    rw [Node.placed, Bool.and_eq_true, List.isEmpty_iff] at placed
    refine .nested 1 (.bind (report _ _) fun _ => .nested 1 ?_)
    refine undeclared rfl ?_
    have round : Resolved place (listed :: names) ((listed ++ Node.allDeclared body) :: names)
        (Access.Lexical (listed :: names) (.loop condition body) place)
        (Node.executeAllIn 1 body) := by
      refine executeAll_resolved placed.2 listed names place 1 ?_
      intro number part found access lexical
      have none : Node.allDeclared (body.take number) = [] := by
        rw [Node.allDeclared, List.flatMap_eq_nil_iff] at placed ⊢
        exact fun part member => placed.1 part (List.mem_of_mem_take member)
      rw [none, List.append_nil, Nat.add_comm] at lexical
      exact lexical.child (by simp) found
    rw [placed.1, List.append_nil] at round
    refine .whileTrue (.bind ?_ fun _ => .pure _) (.nested 1 round)
    exact child (by simp) rfl (evaluate_resolved _ _ condition)
  | .literal _ | .identifier _ | .assign _ _ | .unary _ _ | .binary _ _ _ | .logical _ _ _
  | .grouping _ | .call _ _ | .foreign =>
    exact .nested 1 (.bind (report _ _) fun _ => throw (misplaced_blameless _ _))

theorem executeAll_resolved {nodes : List Node} (placed : Node.allPlaced nodes = true)
    (listed : List String) (names : Names) (place : List Nat) (number : Nat)
    {sort : Access → Prop}
    (wider : ∀ offset part, nodes[offset]? = some part → ∀ access,
      Access.Lexical ((listed ++ Node.allDeclared (nodes.take offset)) :: names) part
        (place ++ [number + offset]) access → sort access) :
    Resolved place (listed :: names) ((listed ++ Node.allDeclared nodes) :: names) sort
      (Node.executeAllIn number nodes) := by
  match nodes with
  | [] =>
    rw [Node.allDeclared, List.flatMap_nil, List.append_nil]
    exact .pure ()
  | node :: rest =>
    rw [Node.allPlaced, Bool.and_eq_true] at placed
    have first : Resolved place (listed :: names) ((listed ++ node.declared) :: names) sort
        (Machine.within number node.executeIn) := by
      refine (execute_resolved placed.1 listed names (place ++ [number])).weaken fun access lexical =>
        wider 0 node rfl access ?_
      simpa [Node.allDeclared] using lexical
    refine .bind first fun _ => ?_
    have shift (before : List Node) : listed ++ Node.allDeclared (node :: before) =
        (listed ++ node.declared) ++ Node.allDeclared before := by
      rw [Node.allDeclared, List.flatMap_cons, ← List.append_assoc]
      rfl
    rw [shift]
    refine executeAll_resolved placed.2 (listed ++ node.declared) names place (number + 1) ?_
    intro offset part found access lexical
    refine wider (offset + 1) part found access ?_
    rw [List.take_succ_cons, shift, ← Nat.add_assoc, Nat.add_right_comm]
    exact lexical

end

namespace Resolution

def fresh : World := ⟨ScopeTree.initial.chain 0, "", ""⟩

def watched (statements : List Node) (context : Context) : EStateM.Result Failure Watch Unit :=
  (Node.executeAllIn 0 statements : Watched Unit) [] context ⟨fresh, []⟩

def accesses : EStateM.Result Failure Watch Unit → List Access
  | .ok _ watch | .error _ watch => watch.record

theorem watched_resolved {statements : List Node}
    (placed : ∀ node ∈ statements, node.placed = true) :
    Resolved [] [[]] [Node.allDeclared statements] (Access.Lexical [] (.block statements) [])
      (Node.executeAllIn 0 statements) := by
  refine executeAll_resolved (Node.allPlaced_iff.mpr placed) [] [] [] 0 ?_
  intro number part found access lexical
  rw [Nat.zero_add] at lexical
  exact lexical.statement found

theorem Lexical.predicted {statements : List Node} {access : Access}
    (lexical : Access.Lexical [] (.block statements) [] access) :
    (∃ node names, (Node.block statements).reach [] access.place = some (node, names) ∧
      node.Accesses access) ∧
    access.settled = Node.predicted statements access.place access.name := by
  rcases lexical with ⟨place, node, names, placed, reached, accesses, settled⟩
  rw [List.nil_append] at placed
  rw [Node.predicted, placed, reached]
  exact ⟨⟨node, names, rfl, accesses⟩, settled⟩

theorem recorded {statements : List Node} (placed : ∀ node ∈ statements, node.placed = true)
    (context : Context) :
    (∀ access ∈ accesses (watched statements context),
      Access.Lexical [] (.block statements) [] access) ∧
    ∀ name writes,
      (∃ world, forget (watched statements context) = .error (.unknown name writes) world) ↔
      ∃ access ∈ accesses (watched statements context), access.name = name ∧
        access.writes = writes ∧ access.settled = none := by
  have resolved := watched_resolved placed context ⟨fresh, []⟩ (.cons (fun _ => rfl) .nil)
  rw [watched]
  cases ran : (Node.executeAllIn 0 statements : Watched Unit) [] context ⟨fresh, []⟩ with
  | ok value later =>
    simp only [ran, List.nil_append] at resolved
    rcases resolved with ⟨new, same, sorted, -⟩
    rw [accesses, same]
    refine ⟨fun access member => (sorted access member).1, fun name writes => ⟨?_, ?_⟩⟩
    · intro failed
      rcases failed with ⟨world, failed⟩
      cases failed
    · intro found
      rcases found with ⟨access, member, -, -, nowhere⟩
      exact absurd nowhere (sorted access member).2
  | error failure later =>
    simp only [ran, List.nil_append] at resolved
    rcases resolved with ⟨new, same, sorted, blames⟩
    rw [accesses, same]
    refine ⟨sorted, fun name writes => ?_⟩
    rw [← blames name writes]
    constructor
    · intro failed
      rcases failed with ⟨world, failed⟩
      cases failed
      rfl
    · intro blamed
      exact ⟨later.world, by rw [blamed]; rfl⟩

theorem name_eq {node : Node} {access other : Access} (first : node.Accesses access)
    (second : node.Accesses other) : access.name = other.name := by
  cases node with
  | identifier name => exact first.1.trans second.1.symm
  | assign name value => exact first.1.trans second.1.symm
  | _ => cases first

/-- A program that was read resolves its names by its text. Watching it changes nothing about the
run; every variable that the run comes to stands in the program at the place noted, and settles
where the text predicts, so at one place always as many scopes out; and the run stops at an unknown
variable if and only if it comes to one without a declaration that it could refer to. -/
theorem resolves_lexically {limit : Nat} {tokens : List Token} {statements : List Node}
    (read : Grammar.parseProgram limit tokens = .ok statements) (context : Context) :
    forget (watched statements context) = Node.executeAll statements context fresh ∧
    (∀ access ∈ accesses (watched statements context),
      (∃ node names, (Node.block statements).reach [] access.place = some (node, names) ∧
        node.Accesses access) ∧
      access.settled = Node.predicted statements access.place access.name) ∧
    (∀ access ∈ accesses (watched statements context),
      ∀ other ∈ accesses (watched statements context),
        access.place = other.place → access.settled = other.settled) ∧
    (∀ name writes,
      (∃ world, Node.executeAll statements context fresh = .error (.unknown name writes) world) ↔
      ∃ access ∈ accesses (watched statements context), access.name = name ∧
        access.writes = writes ∧ Node.predicted statements access.place access.name = none) := by
  have placed := (Grammar.parseProgram_sound (Grammar.ended_of_ok read) read).placed
  have erased : forget (watched statements context) = Node.executeAll statements context fresh :=
    Erases.mirrors.executeAll 0 statements [] context ⟨fresh, []⟩
  rcases recorded placed context with ⟨lexical, blames⟩
  rw [erased] at blames
  refine ⟨erased, fun access member => Lexical.predicted (lexical access member), ?_, ?_⟩
  · intro access member other among same
    rcases Lexical.predicted (lexical access member) with ⟨⟨node, names, reached, uses⟩, settled⟩
    rcases Lexical.predicted (lexical other among) with ⟨⟨part, found, again, usesToo⟩, settledToo⟩
    rw [same, again] at reached
    cases reached
    rw [settled, settledToo, same, name_eq uses usesToo]
  · intro name writes
    rw [blames]
    constructor
    · intro found
      rcases found with ⟨access, member, named, writing, nowhere⟩
      refine ⟨access, member, named, writing, ?_⟩
      rw [← (Lexical.predicted (lexical access member)).2, nowhere]
    · intro found
      rcases found with ⟨access, member, named, writing, nowhere⟩
      refine ⟨access, member, named, writing, ?_⟩
      rw [(Lexical.predicted (lexical access member)).2, nowhere]

/-- In `var a = nil; { var a = a; a = b; }` the initializer reads the outer `a`, one scope out,
and the run stops at `b`. -/
theorem resolves_shadowed :
    let tokens : List Token := [⟨.varWord, "var", 1⟩, ⟨.identifier "a", "a", 1⟩, ⟨.equal, "=", 1⟩,
      ⟨.nilWord, "nil", 1⟩, ⟨.semicolon, ";", 1⟩, ⟨.leftBrace, "\x7b", 1⟩, ⟨.varWord, "var", 1⟩,
      ⟨.identifier "a", "a", 1⟩, ⟨.equal, "=", 1⟩, ⟨.identifier "a", "a", 1⟩, ⟨.semicolon, ";", 1⟩,
      ⟨.identifier "a", "a", 1⟩, ⟨.equal, "=", 1⟩, ⟨.identifier "b", "b", 1⟩, ⟨.semicolon, ";", 1⟩,
      ⟨.rightBrace, "\x7d", 1⟩, .endOfInput 1]
    let statements : List Node := [.declare "a" (some (.literal .nil)),
      .block [.declare "a" (some (.identifier "a")),
        .expression (.assign "a" (.identifier "b"))]]
    let context : Context := ⟨false, .standard, 980⟩
    Grammar.parseProgram 980 tokens = .ok statements ∧
      accesses (watched statements context) =
        [⟨[1, 0, 0], "a", false, some 1⟩, ⟨[1, 1, 0, 0], "b", false, none⟩] ∧
      Node.predicted statements [1, 0, 0] "a" = some 1 ∧
      ∃ world, Node.executeAll statements context fresh = .error (.unknown "b" false) world := by
  intro tokens statements context
  have read : Grammar.parseProgram 980 tokens = .ok statements := rfl
  have seen : accesses (watched statements context) =
      [⟨[1, 0, 0], "a", false, some 1⟩, ⟨[1, 1, 0, 0], "b", false, none⟩] := rfl
  rcases resolves_lexically read context with ⟨-, predicts, -, stops⟩
  refine ⟨read, seen, ?_, (stops "b" false).mpr ?_⟩
  · have first := predicts ⟨[1, 0, 0], "a", false, some 1⟩ (by rw [seen]; exact List.mem_cons_self)
    exact first.2.symm
  · exact ⟨⟨[1, 1, 0, 0], "b", false, none⟩, by rw [seen]; simp, rfl, rfl, rfl⟩

end Resolution
end Lox
