import Lox.Proofs.Text.Cut

namespace Lox.Text

theorem lines_ne_nil (source : List Char) : lines source ≠ [] := List.splitOn_ne_nil '\n' source

theorem lines_feed (rest : List Char) : lines ('\n' :: rest) = [] :: lines rest := by
  rw [lines, List.splitOn_cons_eq_if_modifyHead, if_pos (beq_self_eq_true '\n'), ← lines]

theorem lines_cons {c : Char} (other : c ≠ '\n') (rest : List Char) :
    ∃ first others, lines rest = first :: others ∧ lines (c :: rest) = (c :: first) :: others := by
  obtain ⟨first, others, split⟩ := List.exists_cons_of_ne_nil (lines_ne_nil rest)
  refine ⟨first, others, split, ?_⟩
  rw [lines, List.splitOn_cons_eq_if_modifyHead, if_neg (by simpa using other), ← lines, split]
  rfl

theorem lines_append (before after : List Char) :
    lines (before ++ '\n' :: after) = lines before ++ lines after :=
  List.splitOn_append_cons_self before after

theorem lines_intercalate {texts : List (List Char)} (nonempty : texts ≠ [])
    (plain : ∀ text ∈ texts, '\n' ∉ text) : lines (List.intercalate ['\n'] texts) = texts :=
  List.splitOn_intercalate '\n' plain nonempty

theorem length_lines (source : List Char) : (lines source).length = source.count '\n' + 1 := by
  induction source with
  | nil => rfl
  | cons c source ih =>
    by_cases feed : c = '\n'
    · rw [feed, lines_feed, List.length_cons, ih, List.count_cons_self]
    · obtain ⟨first, others, split, joined⟩ := lines_cons feed source
      rw [joined, List.count_cons_of_ne feed, ← ih, split]
      rfl

theorem plain_of_mem_lines {source text : List Char} (member : text ∈ lines source) :
    '\n' ∉ text := by
  induction source generalizing text with
  | nil =>
    obtain rfl := List.mem_singleton.mp member
    exact List.not_mem_nil
  | cons c source ih =>
    by_cases feed : c = '\n'
    · rw [feed, lines_feed] at member
      rcases List.mem_cons.mp member with rfl | later
      · exact List.not_mem_nil
      · exact ih later
    · obtain ⟨first, others, split, joined⟩ := lines_cons feed source
      rw [split] at ih
      rw [joined] at member
      rcases List.mem_cons.mp member with rfl | later
      · rw [List.mem_cons, not_or]
        exact ⟨Ne.symm feed, ih List.mem_cons_self⟩
      · exact ih (List.mem_cons_of_mem _ later)

theorem lines_head {text : List Char} (plain : '\n' ∉ text) (rest : List Char) :
    ∃ behind others, lines (text ++ rest) = (text ++ behind) :: others := by
  induction text with
  | nil => exact List.exists_cons_of_ne_nil (lines_ne_nil rest)
  | cons c text ih =>
    rw [List.mem_cons, not_or] at plain
    obtain ⟨behind, others, front⟩ := ih plain.2
    obtain ⟨first, more, split, joined⟩ := lines_cons (Ne.symm plain.1) (text ++ rest)
    obtain ⟨rfl, rfl⟩ := List.cons.inj (front.symm.trans split)
    exact ⟨behind, others, joined⟩

theorem exists_current (before : List Char) : ∃ earlier current, before = earlier ++ current ∧
    (earlier = [] ∨ earlier.getLast? = some '\n') ∧ '\n' ∉ current ∧
    lineOffset before = current.length := by
  have split := List.takeWhile_append_dropWhile (p := (· != '\n')) (l := before.reverse)
  have stopped := List.head?_dropWhile_not (· != '\n') before.reverse
  refine ⟨(before.reverse.dropWhile (· != '\n')).reverse,
    (before.reverse.takeWhile (· != '\n')).reverse, ?_, ?_, ?_, ?_⟩
  · rw [← List.reverse_append, split, List.reverse_reverse]
  · rw [List.getLast?_reverse]
    cases left : before.reverse.dropWhile (· != '\n') with
    | nil => exact .inl rfl
    | cons c rest =>
      rw [left] at stopped
      exact .inr (by simpa using stopped)
  · intro member
    have other := List.mem_takeWhile_imp (List.mem_reverse.mp member)
    simp at other
  · rw [lineOffset, List.length_reverse]

theorem lineOffset_append {earlier current : List Char}
    (ended : earlier = [] ∨ earlier.getLast? = some '\n') (inside : '\n' ∉ current) :
    lineOffset (earlier ++ current) = current.length := by
  have all : ∀ c ∈ current.reverse, (c != '\n') = true := by
    intro c member
    have different : c ≠ '\n' := fun same => inside (same ▸ List.mem_reverse.mp member)
    simpa using different
  have stops : earlier.reverse.takeWhile (· != '\n') = [] := by
    rcases ended with rfl | last
    · rfl
    · rw [← List.head?_reverse] at last
      obtain ⟨others, same⟩ := List.head?_eq_some_iff.mp last
      rw [same]
      rfl
  rw [lineOffset, List.reverse_append, List.takeWhile_append_of_pos all, stops, List.append_nil,
    List.length_reverse]

/-- A stretch without line feeds stands on the line behind the line feeds that are before it, after
as many characters as there are since the last of these. -/
theorem exists_line (before : List Char) {word : List Char} (plain : '\n' ∉ word)
    (rest : List Char) : ∃ front behind : List Char, front.length = lineOffset before ∧
      (lines (before ++ (word ++ rest)))[before.count '\n']? =
        some (front ++ (word ++ behind)) := by
  obtain ⟨earlier, current, rfl, ended, inside, offset⟩ := exists_current before
  have whole : '\n' ∉ current ++ word := by simp [inside, plain]
  obtain ⟨behind, others, line⟩ := lines_head whole rest
  refine ⟨current, behind, offset.symm, ?_⟩
  rw [List.append_assoc, List.append_assoc] at line
  rw [List.count_append, List.count_eq_zero.mpr inside, Nat.add_zero, List.append_assoc]
  rcases ended with rfl | last
  · rw [List.nil_append, line]
    rfl
  · obtain ⟨above, rfl⟩ := List.getLast?_eq_some_iff.mp last
    have number : (above ++ ['\n']).count '\n' = (lines above).length := by
      rw [length_lines, List.count_append]
      rfl
    rw [List.append_assoc, List.singleton_append, lines_append, number,
      List.getElem?_append_right (Nat.le_refl _), Nat.sub_self, line]
    rfl

end Lox.Text
