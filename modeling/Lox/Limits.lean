namespace Lox

/-- `parsing` counts rules within rules, `evaluating` steps within steps, `source` and `outline`
the nodes on a way down the tree that is written, and `rounds` the rounds of one loop. -/
structure Limits where
  parsing : Nat
  evaluating : Nat
  source : Nat
  outline : Nat
  rounds : Nat

def Limits.standard : Limits := ⟨980, 980, 330, 980, 10000000⟩

end Lox
