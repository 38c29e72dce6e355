import Lox.Proofs.Text.Lines

namespace Lox.Text

/-- The text without the carriage returns in front of line feeds. Other returns stay. -/
def unpaired : List Char → List Char
  | [] => []
  | '\r' :: '\n' :: rest => '\n' :: unpaired rest
  | c :: rest => c :: unpaired rest

section
variable {source front rest : List Char} {c : Char}

theorem unpaired_cons (other : c ≠ '\r') : unpaired (c :: rest) = c :: unpaired rest :=
  unpaired.eq_3 c rest fun _ same => absurd same other

theorem isEmpty_unpaired (source : List Char) : (unpaired source).isEmpty = source.isEmpty := by
  rw [unpaired.eq_def]
  split <;> rfl

/-- A pair of return and feed does not go over a seam behind which there is no feed. -/
theorem unpaired_append (source : List Char) (apart : '\n' ∉ rest.head?) :
    unpaired (source ++ rest) = unpaired source ++ unpaired rest := by
  fun_induction unpaired source with
  | case1 => rfl
  | case2 after ih => exact congrArg ('\n' :: ·) ih
  | case3 c after single ih =>
    have still : ∀ others, c = '\r' → after ++ rest = '\n' :: others → False := by
      intro others same feed
      cases after with
      | nil => exact apart (by rw [List.nil_append] at feed; rw [feed]; rfl)
      | cons first more => exact single more same (by rw [(List.cons.inj feed).1])
    rw [List.cons_append, unpaired.eq_3 c _ still, ih, List.cons_append]

theorem unpaired_append_left (lacks : '\r' ∉ front) :
    unpaired (front ++ rest) = front ++ unpaired rest := by
  induction front with
  | nil => rfl
  | cons c more ih =>
    have other : c ≠ '\r' := fun same => lacks (same ▸ List.mem_cons_self)
    rw [List.cons_append, unpaired_cons other, ih fun member => lacks (List.mem_cons_of_mem c member),
      List.cons_append]

theorem unpaired_of_lacks (lacks : '\n' ∉ source ∨ '\r' ∉ source) : unpaired source = source := by
  fun_induction unpaired source with
  | case1 => rfl
  | case2 after ih => simp at lacks
  | case3 c after single ih =>
    have less : '\n' ∉ after ∨ '\r' ∉ after :=
      lacks.imp (fun absent member => absent (List.mem_cons_of_mem c member))
        fun absent member => absent (List.mem_cons_of_mem c member)
    rw [ih less]

theorem count_unpaired (source : List Char) : (unpaired source).count '\n' = source.count '\n' := by
  fun_induction unpaired source with
  | case1 => rfl
  | case2 after ih =>
    rw [List.count_cons_self, List.count_cons_of_ne (by decide), List.count_cons_self, ih]
  | case3 c after single ih => rw [List.count_cons, List.count_cons, ih]

theorem split_unpaired {property : Char → Bool} (alike : property '\r' = property '\n')
    (source : List Char) :
    (unpaired source).takeWhile property = unpaired (source.takeWhile property) ∧
      (unpaired source).dropWhile property = unpaired (source.dropWhile property) := by
  fun_induction unpaired source with
  | case1 => exact ⟨rfl, rfl⟩
  | case2 after ih =>
    cases holds : property '\n' with
    | false => simp [alike, holds, unpaired]
    | true => simp [alike, holds, unpaired, ih]
  | case3 c after single ih =>
    cases holds : property c with
    | false => simp [holds, unpaired, unpaired.eq_3 c after single]
    | true =>
      have still : ∀ others, c = '\r' → after.takeWhile property = '\n' :: others → False := by
        intro others same feed
        obtain ⟨behind, split⟩ := List.takeWhile_prefix (l := after) property
        rw [feed, List.cons_append] at split
        exact single _ same split.symm
      simp [holds, ih, unpaired.eq_3 c _ still]

theorem prefix_unpaired (plain : ∀ c ∈ front, c ≠ '\r' ∧ c ≠ '\n') :
    front <+: unpaired source ↔ front <+: source := by
  induction front generalizing source with
  | nil => simp
  | cons first more ih =>
    have inside := plain first List.mem_cons_self
    have later := fun source => @ih source fun c member => plain c (List.mem_cons_of_mem first member)
    rw [unpaired.eq_def]
    split
    · rfl
    · simp [List.cons_prefix_cons, inside]
    · rw [List.cons_prefix_cons, List.cons_prefix_cons, later]

end

theorem getLast?_unpaired {source : List Char} (last : source.getLast? = some '\n') :
    (unpaired source).getLast? = some '\n' := by
  fun_induction unpaired source with
  | case1 => exact last
  | case2 after ih =>
    cases after with
    | nil => rfl
    | cons first more =>
      rw [List.getLast?_cons_cons, List.getLast?_cons_cons] at last
      rw [List.getLast?_cons, ih last]
      rfl
  | case3 c after single ih =>
    cases after with
    | nil => exact last
    | cons first more =>
      rw [List.getLast?_cons_cons] at last
      rw [List.getLast?_cons, ih last]
      rfl

theorem lineOffset_unpaired (before : List Char) :
    lineOffset (unpaired before) = lineOffset before := by
  obtain ⟨earlier, current, rfl, ended, inside, offset⟩ := exists_current before
  have apart : '\n' ∉ current.head? := fun first => inside (List.mem_of_mem_head? first)
  have still : unpaired earlier = [] ∨ (unpaired earlier).getLast? = some '\n' :=
    ended.imp (fun none => by rw [none]; rfl) getLast?_unpaired
  rw [unpaired_append earlier apart, unpaired_of_lacks (.inl inside), offset,
    lineOffset_append still inside]

end Lox.Text
