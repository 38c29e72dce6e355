import Lox.Proofs.Run.Machine

namespace Lox

/-- A property that the primitive steps have, and every run made of runs that have it. -/
structure Closed (holds : (α : Type) → Run α → Prop) : Prop where
  pure : ∀ {α : Type} (value : α), holds α (Pure.pure value)
  throw : ∀ {α : Type} (failure : Failure), holds α (throw failure)
  bind : ∀ {α β : Type} {run : Run α} {next : α → Run β},
    holds α run → (∀ value, holds β (next value)) → holds β (run >>= next)
  nested : ∀ {α : Type} {run : Run α} (cost : Nat), holds α run → holds α (Run.nested cost run)
  /-- the limits, other than the depth, are the same for a whole run -/
  limited : ∀ {α : Type} {runs : Limits → Run α},
    (∀ limits, holds α (runs limits)) → holds α fun context => runs context.limits context
  inScope : ∀ {α : Type} {run : Run α}, holds α run → holds α (Run.inScope run)
  report : ∀ activity label, holds Unit (Run.report activity label)
  print : ∀ text, holds Unit (Run.print text)
  lookup : ∀ name, holds Value (Run.lookup name)
  define : ∀ name value, holds Unit (Run.define name value)
  assign : ∀ name value, holds Unit (Run.assign name value)

namespace Closed

variable {holds : (α : Type) → Run α → Prop} (closed : Closed holds)
include closed

theorem mirrors : Mirrors fun α (_ : Run α) run => holds α run where
  pure := closed.pure
  bind := closed.bind
  throw := closed.throw
  nested := closed.nested
  inScope := closed.inScope
  limited := closed.limited
  within _ each := each
  producing each := each
  report := closed.report
  lookup := closed.lookup
  define := closed.define
  assign := closed.assign
  print value := closed.print value.display

theorem evaluate (node : Node) : holds Value node.evaluate := closed.mirrors.evaluate node

theorem execute (node : Node) : holds Unit node.execute := closed.mirrors.execute node

theorem executeAll (nodes : List Node) : holds Unit (Node.executeAll nodes) :=
  closed.mirrors.executeAll 0 nodes

end Closed
end Lox
