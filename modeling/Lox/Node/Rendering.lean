import Lox.Node.Text

namespace Lox

inductive Unprintable where
  | tooDeep
  | foreign
  deriving DecidableEq

namespace Node

def source? (limit : Nat) (node : Node) : Option String :=
  if node.height ≤ limit then some node.source else none

def outline? (limit indent : Nat) (node : Node) : Option String :=
  if node.height ≤ limit then some (node.outline indent) else none

def prefixForm? (limit : Nat) (node : Node) : Except Unprintable String :=
  if limit < node.height then .error .tooDeep
  else if node.hasForeign then .error .foreign
  else .ok node.prefixForm

end Node
end Lox
