import Lox.Scope.Basic

namespace Lox.Chain

/-- The second chain is the first one with empty scopes put in. Of its scopes, from the innermost
outwards, `true` marks those of the first chain. -/
inductive Padded : List Bool → Chain → Chain → Prop where
  | nil : Padded [] [] []
  | shared {mask : List Bool} {chain wide : Chain} (bindings : Bindings) :
    Padded mask chain wide → Padded (true :: mask) (bindings :: chain) (bindings :: wide)
  | extra {mask : List Bool} {chain wide : Chain} :
    Padded mask chain wide → Padded (false :: mask) chain ([] :: wide)

namespace Padded

variable {mask : List Bool} {chain wide : Chain}

theorem lookup (padded : Padded mask chain wide) (name : String) :
    wide.lookup name = chain.lookup name := by
  induction padded with
  | nil => rfl
  | shared bindings _ ih =>
    rw [Chain.lookup, Chain.lookup]
    cases bindings.lookup name with
    | none => exact ih
    | some held => cases held <;> rfl
  | extra _ ih => exact ih

theorem assign? (padded : Padded mask chain wide) (name : String) (value : Value) :
    (chain.assign? name value = none ∧ wide.assign? name value = none) ∨
      ∃ changed widened, chain.assign? name value = some changed ∧
        wide.assign? name value = some widened ∧ Padded mask changed widened := by
  induction padded with
  | nil => exact .inl ⟨rfl, rfl⟩
  | shared bindings padded ih =>
    simp only [Chain.assign?]
    by_cases declared : bindings.declares name = true
    · simp only [if_pos declared]
      exact .inr ⟨_, _, rfl, rfl, .shared _ padded⟩
    · simp only [if_neg declared]
      rcases ih with ⟨missing, absent⟩ | ⟨changed, widened, found, wideFound, again⟩
      · exact .inl ⟨by rw [missing]; rfl, by rw [absent]; rfl⟩
      · exact .inr ⟨_, _, by rw [found]; rfl, by rw [wideFound]; rfl, .shared bindings again⟩
  | extra padded ih =>
    rcases ih with ⟨missing, absent⟩ | ⟨changed, widened, found, wideFound, again⟩
    · exact .inl ⟨missing, by rw [Chain.assign?, absent]; rfl⟩
    · exact .inr ⟨_, _, found, by rw [Chain.assign?, wideFound]; rfl, .extra again⟩

theorem define (padded : Padded (true :: mask) chain wide) (name : String) (value : Option Value) :
    Padded (true :: mask) (chain.define name value) (wide.define name value) := by
  cases padded with
  | shared bindings outer => exact .shared _ outer

theorem tail (padded : Padded (true :: mask) chain wide) : Padded mask chain.tail wide.tail := by
  cases padded with
  | shared bindings outer => exact outer

theorem tail_of_extra (padded : Padded (false :: mask) chain wide) : Padded mask chain wide.tail := by
  cases padded with
  | extra outer => exact outer

theorem eq_of_all_shared (padded : Padded mask chain wide) (shared : ∀ mark ∈ mask, mark = true) :
    wide = chain := by
  induction padded with
  | nil => rfl
  | shared bindings _ ih =>
    rw [ih fun mark member => shared mark (List.mem_cons_of_mem _ member)]
  | extra => exact absurd (shared false List.mem_cons_self) Bool.false_ne_true

end Padded
end Lox.Chain
