import Mathlib.Data.List.Forall2
import Lox.Proofs.Frame.Confined
import Lox.Proofs.Renaming.Correspondence
import Lox.Proofs.Session.Concluded

namespace Lox

theorem Node.allDeclared_subset (statements : List Node) :
    allDeclared statements ⊆ allNames statements := by
  intro name among
  rcases List.mem_flatMap.mp among with ⟨node, member, declares⟩
  cases node with
  | declare _ _ => exact member_subset member (own_subset _ _ declares)
  | _ => cases declares

section
variable {names : List String} {name : String}

def Bindings.Agree (names : List String) (bindings twin : Bindings) : Prop :=
  ∀ name ∈ names, twin.lookup name = bindings.lookup name

theorem Bindings.Agree.declares {bindings twin : Bindings} (agree : Agree names bindings twin)
    (member : name ∈ names) : twin.declares name = bindings.declares name := by
  rw [Bindings.declares, Bindings.declares, agree name member]

theorem Bindings.Agree.put {bindings twin : Bindings} (agree : Agree names bindings twin)
    (name : String) (held : Option Value) :
    Agree names (bindings.put name held) (twin.put name held) := by
  intro other member
  rw [lookup_put, lookup_put, agree other member]

namespace Chain

def Agree (names : List String) : Chain → Chain → Prop := List.Forall₂ (Bindings.Agree names)

variable {chain twin : Chain}

theorem Agree.define (agree : Agree names chain twin) (name : String) (held : Option Value) :
    Agree names (chain.define name held) (twin.define name held) := by
  cases agree with
  | nil => exact .nil
  | cons inner outer => exact .cons (inner.put name held) outer

theorem Agree.lookup (agree : Agree names chain twin) (member : name ∈ names) :
    twin.lookup name = chain.lookup name := by
  induction agree with
  | nil => rfl
  | cons inner outer ih => rw [Chain.lookup, Chain.lookup, inner name member, ih]

theorem Agree.assign? (agree : Agree names chain twin) (member : name ∈ names) (value : Value) :
    Option.Rel (Agree names) (chain.assign? name value) (twin.assign? name value) := by
  induction agree with
  | nil => exact .none
  | @cons bindings other outer outerTwin inner rest ih =>
    rw [Chain.assign?, Chain.assign?, inner.declares member]
    split
    · exact .some (.cons (inner.put name (some value)) rest)
    · generalize Chain.assign? name value outer = found at ih ⊢
      generalize Chain.assign? name value outerTwin = ended at ih ⊢
      cases ih with
      | none => exact .none
      | some changed => exact .some (.cons inner changed)

end Chain

def agreement (names : List String) : Correspondence where
  change := id
  admits node := node.names ⊆ names
  chains := Chain.Agree names
  part within member := fun _ among => within (Node.part_subset member among)
  entered agree := .cons (fun _ _ => rfl) agree
  left agree := by
    cases agree with
    | nil => exact .nil
    | cons _ outer => exact outer
  looked {name chain twin} within agree := by
    rw [id, agree.lookup (within (Node.own_subset _ _ List.mem_cons_self))]
    cases chain.lookup name with
    | ok value => rfl
    | error error => exact congrArg Except.error error.rename_id.symm
  assigned value within agree :=
    agree.assign? (within (Node.own_subset _ _ List.mem_cons_self)) value
  defined held _ agree := agree.define _ held

theorem executeAll_agree (statements : List Node) :
    (agreement (Node.allNames statements)).Follows (Node.executeAll statements)
      (Node.executeAll statements) := by
  have unchanged : (agreement (Node.allNames statements)).change = id := rfl
  have mentioned : ∀ node ∈ statements, (agreement (Node.allNames statements)).admits node :=
    fun node member => Node.member_subset member
  have follows := Correspondence.executeAll_follows mentioned
  rwa [unchanged, Node.renameAll_id] at follows

end

namespace Session

variable {names : List String} {tree twin : ScopeTree} {scope other : Nat}

structure Agreeing {α : Type} (names : List String) (scope other : Nat) (step again : Step α) :
    Prop where
  result : again.result = step.result
  output : again.output = step.output
  trace : again.trace = step.trace
  chain : Chain.Agree names (step.tree.chain scope) (again.tree.chain other)

theorem agreeing_concluded {α : Type} {result ended : EStateM.Result Failure World α}
    (ends : (agreement names).Matches result ended) (rooted : tree.Rooted)
    (inside : scope < tree.length) (twinRooted : twin.Rooted) (twinInside : other < twin.length)
    (length : (worldAfter result).chain.length = (tree.chain scope).length)
    (twinLength : (worldAfter ended).chain.length = (twin.chain other).length) :
    Agreeing names scope other (concluded tree scope result) (concluded twin other ended) := by
  have seen := rooted.chain_update inside length
  have twinSeen := twinRooted.chain_update twinInside twinLength
  cases ends with
  | ok value alike =>
    refine ⟨rfl, alike.output, alike.trace, ?_⟩
    rw [concluded_tree, concluded_tree, seen, twinSeen]
    exact alike.chain
  | error failure _ alike =>
    refine ⟨?_, alike.output, alike.trace, ?_⟩
    · exact congrArg (fun cause : Failure => Except.error (Problem.failure cause.settle))
        failure.rename_id
    · rw [concluded_tree, concluded_tree, seen, twinSeen]
      exact alike.chain

section
variable {statements : List Node} {chain : Chain} {done : List String}

theorem others_kept
    (revised : Chain.Revised (Node.allTargets statements) done (tree.chain scope) chain)
    (before : done <+: Node.allDeclared statements) (rooted : tree.Rooted)
    (inside : scope < tree.length) {name : String} (unmentioned : name ∉ Node.allNames statements)
    (place : Nat) :
    ((tree.update scope chain).bindings place).lookup name = (tree.bindings place).lookup name := by
  have undeclared : name ∉ done := fun member =>
    unmentioned (Node.allDeclared_subset statements (before.subset member))
  have untargeted : name ∉ Node.allTargets statements := fun member =>
    unmentioned (Node.allTargets_subset statements member)
  refine (revised.update rooted inside place).others name untargeted ?_
  split
  · exact undeclared
  · exact List.not_mem_nil

/-- Programs do not depend on variables that they do not mention. A program that was read is run in
two scopes, and what is seen from them agrees on the names in the program. The two runs print the
same and come to the same end or the same error, what is seen from the two scopes agrees on those
names again, and no binding of any other name is changed in any scope. -/
theorem independent_of_others {limit : Nat} {tokens : List Token}
    (read : Grammar.parseProgram limit tokens = .ok statements) (rooted : tree.Rooted)
    (inside : scope < tree.length) (twinRooted : twin.Rooted) (twinInside : other < twin.length)
    (agree : Chain.Agree (Node.allNames statements) (tree.chain scope) (twin.chain other))
    (options : Options) (trace : String) :
    let step := execute options scope trace statements tree
    let again := execute options other trace statements twin
    Agreeing (Node.allNames statements) scope other step again ∧
    ∀ name ∉ Node.allNames statements, ∀ place,
      (step.tree.bindings place).lookup name = (tree.bindings place).lookup name ∧
      (again.tree.bindings place).lookup name = (twin.bindings place).lookup name := by
  intro step again
  rcases executeAll_revised read (opening options) (entrance tree scope trace) with
    ⟨done, before, revised⟩
  rcases executeAll_revised read (opening options) (entrance twin other trace) with
    ⟨twinDone, twinBefore, twinRevised⟩
  have alike : (agreement (Node.allNames statements)).Alike (entrance tree scope trace)
      (entrance twin other trace) := ⟨agree, rfl, rfl⟩
  have ends := executeAll_agree statements (opening options) _ _ alike
  have first : step = concluded tree scope _ := execute_concluded statements
  have second : again = concluded twin other _ := execute_concluded statements
  rw [first, second]
  refine ⟨?_, fun name unmentioned place => ⟨?_, ?_⟩⟩
  · exact agreeing_concluded ends rooted inside twinRooted twinInside revised.chain.length
      twinRevised.chain.length
  · rw [concluded_tree]
    exact others_kept revised.chain before rooted inside unmentioned place
  · rw [concluded_tree]
    exact others_kept twinRevised.chain twinBefore twinRooted twinInside unmentioned place

end

/-- `{ var x; x = y; } y = true; print y; print z;` in two scopes within the outermost one, of two
sessions in which other names are declared. -/
theorem other_session_agrees :
    let tokens : List Token := [⟨.leftBrace, "\x7b", 1⟩, ⟨.varWord, "var", 1⟩,
      ⟨.identifier "x", "x", 1⟩, ⟨.semicolon, ";", 1⟩, ⟨.identifier "x", "x", 1⟩, ⟨.equal, "=", 1⟩,
      ⟨.identifier "y", "y", 1⟩, ⟨.semicolon, ";", 1⟩, ⟨.rightBrace, "\x7d", 1⟩,
      ⟨.identifier "y", "y", 1⟩, ⟨.equal, "=", 1⟩, ⟨.trueWord, "true", 1⟩, ⟨.semicolon, ";", 1⟩,
      ⟨.printWord, "print", 1⟩, ⟨.identifier "y", "y", 1⟩, ⟨.semicolon, ";", 1⟩,
      ⟨.printWord, "print", 1⟩, ⟨.identifier "z", "z", 1⟩, ⟨.semicolon, ";", 1⟩, .endOfInput 1]
    let statements : List Node := [
      .block [.declare "x" none, .expression (.assign "x" (.identifier "y"))],
      .expression (.assign "y" (.literal (.boolean true))), .print (.identifier "y"),
      .print (.identifier "z")]
    let tree : ScopeTree := ((ScopeTree.initial.child 0).define 0 "y" (some .nil)).define 1 "u" none
    let twin : ScopeTree :=
      (((ScopeTree.initial.child 0).child 0).define 0 "v" (some .nil)).define 0 "y" (some .nil)
    let step := execute ⟨false, .standard⟩ 1 "" statements tree
    let again := execute ⟨false, .standard⟩ 2 "" statements twin
    Grammar.parseProgram 40 tokens = .ok statements ∧
      (tree.Rooted ∧ 1 < tree.length) ∧ (twin.Rooted ∧ 2 < twin.length) ∧
      Chain.Agree (Node.allNames statements) (tree.chain 1) (twin.chain 2) ∧
      Agreeing (Node.allNames statements) 1 2 step again ∧
      step.output = "true\n" ∧
      step.result = .error (.failure (.runtime (.unknownName "z"))) ∧
      step.tree.chain 1 = [[("u", none)], [("y", some (.boolean true))]] ∧
      again.tree.chain 2 = [[], [("v", some .nil), ("y", some (.boolean true))]] := by
  intro tokens statements tree twin step again
  have read : Grammar.parseProgram 40 tokens = .ok statements := rfl
  have rooted : tree.Rooted :=
    ((ScopeTree.rooted_initial.child (by decide)).update 0 _).update 1 _
  have twinRooted : twin.Rooted :=
    (((ScopeTree.rooted_initial.child (by decide)).child (by decide)).update 0 _).update 0 _
  have inside : 1 < tree.length := by decide
  have twinInside : 2 < twin.length := by decide
  have agree : Chain.Agree (Node.allNames statements) (tree.chain 1) (twin.chain 2) := by
    have names : Node.allNames statements = ["x", "x", "y", "y", "y", "z"] := rfl
    rw [names]
    refine .cons ?_ (.cons ?_ .nil) <;>
    · simp only [Bindings.Agree, List.forall_mem_cons]
      exact ⟨rfl, rfl, rfl, rfl, rfl, rfl, nofun⟩
  have both := independent_of_others read rooted inside twinRooted twinInside agree
    ⟨false, .standard⟩ ""
  exact ⟨read, ⟨rooted, inside⟩, ⟨twinRooted, twinInside⟩, agree, both.1, rfl, rfl, rfl, rfl⟩

end Session
end Lox
