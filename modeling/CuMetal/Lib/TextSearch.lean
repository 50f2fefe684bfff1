import Mathlib.Data.List.Infix

/-!
# Searches in a text

The first occurrence of a pattern in a text, and occurrences of patterns that cannot span a
separator.
-/

namespace CuMetal

open List

variable {α : Type} [DecidableEq α]

/-- The text from the first occurrence of a pattern on. -/
def fromFirst (pattern : List α) : List α → Option (List α)
  | [] => if pattern = [] then some [] else none
  | c :: rest => if pattern <+: c :: rest then some (c :: rest) else fromFirst pattern rest

/-- The text before the first occurrence of a pattern. -/
def beforeFirst (pattern : List α) : List α → Option (List α)
  | [] => if pattern = [] then some [] else none
  | c :: rest =>
    if pattern <+: c :: rest then some [] else (beforeFirst pattern rest).map (c :: ·)

omit [DecidableEq α] in
/-- No occurrence of the pattern begins in the first part of a text. -/
def Skips (pattern first rest : List α) : Prop :=
  ∀ i < first.length, ¬ pattern <+: (first ++ rest).drop i

section

variable {pattern first second rest : List α} {c : α}

omit [DecidableEq α] in
theorem Skips.tail (skips : Skips pattern (c :: first) rest) :
    ¬ pattern <+: c :: (first ++ rest) ∧ Skips pattern first rest :=
  ⟨skips 0 (Nat.zero_lt_succ _), fun i inside => skips (i + 1) (Nat.succ_lt_succ inside)⟩

theorem fromFirst_append (skips : Skips pattern first rest) :
    fromFirst pattern (first ++ rest) = fromFirst pattern rest := by
  induction first with
  | nil => rfl
  | cons c first ih =>
    obtain ⟨here, later⟩ := skips.tail
    rw [cons_append, fromFirst, if_neg here, ih later]

theorem beforeFirst_append (skips : Skips pattern first rest) :
    beforeFirst pattern (first ++ rest) = (beforeFirst pattern rest).map (first ++ ·) := by
  induction first with
  | nil =>
    simp only [nil_append]
    exact Option.map_id'.symm
  | cons c first ih =>
    obtain ⟨here, later⟩ := skips.tail
    rw [cons_append, beforeFirst, if_neg here, ih later, Option.map_map]
    rfl

theorem fromFirst_here (occurs : pattern <+: rest) (some_ : rest ≠ []) :
    fromFirst pattern rest = some rest := by
  cases rest with
  | nil => exact absurd rfl some_
  | cons c rest => rw [fromFirst, if_pos occurs]

theorem beforeFirst_here (occurs : pattern <+: rest) (some_ : rest ≠ []) :
    beforeFirst pattern rest = some [] := by
  cases rest with
  | nil => exact absurd rfl some_
  | cons c rest => rw [beforeFirst, if_pos occurs]

theorem beforeFirst_infix (occurs : pattern <:+: first) (rest : List α) :
    ∃ before after, beforeFirst pattern (first ++ rest) = some before ∧
      first = before ++ pattern ++ after := by
  induction first with
  | nil =>
    obtain rfl := infix_nil.mp occurs
    refine ⟨[], [], ?_, rfl⟩
    cases rest with
    | nil => rfl
    | cons c rest => rw [nil_append, beforeFirst, if_pos nil_prefix]
  | cons c first ih =>
    by_cases here : pattern <+: c :: (first ++ rest)
    · obtain ⟨after, same⟩ :=
        prefix_of_prefix_length_le here (prefix_append (c :: first) rest)
          occurs.length_le
      exact ⟨[], after, by rw [cons_append, beforeFirst, if_pos here], same.symm⟩
    · have later : pattern <:+: first := by
        rcases infix_cons_iff.mp occurs with begins | later
        · exact absurd (begins.trans (prefix_append (c :: first) rest)) here
        · exact later
      obtain ⟨before, after, found, same⟩ := ih later
      refine ⟨c :: before, after, ?_, by rw [same]; rfl⟩
      rw [cons_append, beforeFirst, if_neg here, found]
      rfl

omit [DecidableEq α] in
theorem Skips.nil (pattern rest : List α) : Skips pattern [] rest :=
  fun _ inside => absurd inside (Nat.not_lt_zero _)

omit [DecidableEq α] in
theorem Skips.append (before : Skips pattern first (second ++ rest))
    (after : Skips pattern second rest) : Skips pattern (first ++ second) rest := by
  intro i inside
  rw [append_assoc]
  by_cases early : i < first.length
  · exact before i early
  · have later := after (i - first.length) (by simp at inside; omega)
    rw [drop_append, drop_eq_nil_of_le (Nat.le_of_not_lt early), nil_append]
    exact later

omit [DecidableEq α] in
theorem skips_of_head {tail : List α} (absent : c ∉ first) : Skips (c :: tail) first rest := by
  intro i inside occurs
  obtain ⟨after, same⟩ := occurs
  have here : (first ++ rest)[i]? = some c := by
    rw [← head?_drop, ← same]
    rfl
  rw [getElem?_append_left inside] at here
  exact absent (mem_of_getElem? here)

omit [DecidableEq α] in
theorem skips_of_end (absent : c ∉ pattern) (none_ : ¬ pattern <:+: first ++ [c]) :
    Skips pattern (first ++ [c]) rest := by
  intro i inside occurs
  obtain ⟨after, same⟩ := occurs
  rw [length_append, length_singleton] at inside
  rw [append_assoc, drop_append_of_le_length (by omega)] at same
  rcases append_eq_append_iff.mp same with ⟨middle, rest', same'⟩ | ⟨middle, here, same'⟩
  · exact none_ ⟨first.take i, middle ++ [c], by
      rw [append_assoc, ← append_assoc _ middle, ← rest', ← append_assoc,
        take_append_drop]⟩
  · cases middle with
    | nil =>
      rw [append_nil] at here
      exact none_ ⟨first.take i, [c], by rw [here, take_append_drop]⟩
    | cons x middle =>
      have first_ : x = c := (cons.inj same').1.symm
      exact absent (by rw [here, first_]; simp)

omit [DecidableEq α] in
/-- A pattern that does not have the separator occurs on one of its sides. -/
theorem infix_separator (absent : c ∉ pattern) (some_ : pattern ≠ []) :
    pattern <:+: first ++ c :: rest ↔ pattern <:+: first ∨ pattern <:+: rest := by
  constructor
  · rintro ⟨before, after, same⟩
    rw [append_assoc] at same
    rcases append_eq_append_iff.mp same with ⟨middle, first_, same⟩ | ⟨middle, before_, same⟩
    · rcases append_eq_append_iff.mp same with ⟨last, middle_, _⟩ | ⟨last, pattern_, same⟩
      · left
        exact ⟨before, last, by rw [first_, middle_, append_assoc]⟩
      · cases last with
        | nil =>
          left
          exact ⟨before, [], by rw [first_, pattern_, append_nil, append_nil]⟩
        | cons x last =>
          have here : c = x := (cons.inj same).1
          exact absurd (by rw [pattern_, here]; simp) absent
    · cases middle with
      | nil =>
        cases pattern with
        | nil => exact absurd rfl some_
        | cons x pattern =>
          have here : c = x := (cons.inj same).1
          exact absurd (by rw [here]; simp) absent
      | cons x middle =>
        right
        exact ⟨middle, after, by rw [append_assoc]; exact (cons.inj same).2.symm⟩
  · rintro (⟨before, after, same⟩ | ⟨before, after, same⟩)
    · exact ⟨before, after ++ c :: rest, by rw [← same]; simp⟩
    · exact ⟨first ++ c :: before, after, by rw [← same]; simp⟩

theorem not_mem_of_all {marks text : List α}
    (none_ : (marks.all fun c => !text.contains c) = true) : ∀ c ∈ marks, c ∉ text := by
  intro c mark here
  have absent := all_eq_true.mp none_ c mark
  simp [here] at absent

omit [DecidableEq α] in
/-- A pattern does not begin in a part that does not have its first character. -/
theorem infix_of_head {tail : List α} (absent : c ∉ first) :
    c :: tail <:+: first ++ rest ↔ c :: tail <:+: rest := by
  induction first with
  | nil => exact Iff.rfl
  | cons d first ih =>
    rw [mem_cons, not_or] at absent
    rw [cons_append, infix_cons_iff, cons_prefix_cons, ih absent.2]
    exact or_iff_right fun here => absent.1 here.1

omit [DecidableEq α] in
theorem infix_at_separator {tail : List α} (absent : c ∉ first) :
    c :: tail <:+: first ++ c :: rest ↔ tail <+: rest ∨ c :: tail <:+: rest := by
  rw [infix_of_head absent, infix_cons_iff, cons_prefix_cons]
  exact or_congr_left (and_iff_right rfl)

omit [DecidableEq α] in
/-- A word and a separator begin a text exactly if the first word of the text is that word. -/
theorem word_prefix (clean : c ∉ pattern) (clean' : c ∉ first) :
    pattern ++ [c] <+: first ++ c :: rest ↔ pattern = first := by
  induction pattern generalizing first with
  | nil =>
    cases first with
    | nil => simp
    | cons d first =>
      rw [mem_cons, not_or] at clean'
      simp [clean'.1]
  | cons d pattern ih =>
    rw [mem_cons, not_or] at clean
    cases first with
    | nil =>
      simp [Ne.symm clean.1]
    | cons e first =>
      rw [mem_cons, not_or] at clean'
      rw [cons_append, cons_append, cons_prefix_cons, ih clean.2 clean'.2,
        cons.injEq]

omit [DecidableEq α] in
/-- What has no separator begins a text exactly if it begins its first word. -/
theorem prefix_before_separator (clean : c ∉ pattern) :
    pattern <+: first ++ c :: rest ↔ pattern <+: first := by
  induction pattern generalizing first with
  | nil => simp
  | cons d pattern ih =>
    rw [mem_cons, not_or] at clean
    cases first with
    | nil => simp [Ne.symm clean.1]
    | cons e first =>
      rw [cons_append, cons_prefix_cons, cons_prefix_cons, ih clean.2]

/-- A text and words after it, each behind the separator. -/
def withSeparators (c : α) (first : List α) (words : List (List α)) : List α :=
  first ++ words.flatMap (c :: ·)

omit [DecidableEq α] in
/-- A word stands between two separators exactly if it is one of the words before the last. -/
theorem inner_word {word : List α} {words : List (List α)} (clean : c ∉ word)
    (clean_first : c ∉ first) (clean_words : ∀ w ∈ words, c ∉ w) :
    c :: (word ++ [c]) <:+: withSeparators c first words ↔ word ∈ words.dropLast := by
  induction words generalizing first with
  | nil =>
    simp only [withSeparators, flatMap_nil, append_nil, dropLast_nil,
      not_mem_nil, iff_false]
    exact fun found => clean_first (found.subset mem_cons_self)
  | cons w words ih =>
    have split : withSeparators c first (w :: words) =
        first ++ c :: withSeparators c w words := rfl
    rw [split, infix_at_separator clean_first,
      ih (clean_words w mem_cons_self)
        fun w' mem => clean_words w' (mem_cons_of_mem _ mem)]
    cases words with
    | nil =>
      simp only [withSeparators, flatMap_nil, append_nil, dropLast_nil,
        not_mem_nil, or_false, dropLast_singleton, iff_false]
      exact fun found => clean_words w mem_cons_self (found.subset (by simp))
    | cons w' words =>
      have more : withSeparators c w (w' :: words) = w ++ c :: withSeparators c w' words := rfl
      rw [more, word_prefix clean (clean_words w mem_cons_self), dropLast_cons_cons,
        mem_cons]

end

end CuMetal
