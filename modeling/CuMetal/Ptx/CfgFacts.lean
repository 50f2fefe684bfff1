import CuMetal.Ptx.Cfg
import Mathlib.Data.List.Basic
import Mathlib.Order.Nat

/-!
# Blocks of a PTX body

The blocks cut the body at its leaders: only the first position of a block can hold a
label, and only its last position a terminating instruction.
-/

namespace CuMetal.Ptx

open List

variable {body : List Instruction}

variable {i index : Nat}

theorem mem_leaderList :
    i ∈ leaderList body ↔ i = 0 ∨ (0 < i ∧ i < body.length ∧ isLeader body i = true) := by
  simp only [leaderList, mem_cons, mem_filter, mem_range'_1]
  constructor
  · rintro (rfl | ⟨bounds, leads⟩)
    · exact .inl rfl
    · exact .inr ⟨by omega, by omega, leads⟩
  · rintro (rfl | ⟨positive, bound, leads⟩)
    · exact .inl rfl
    · exact .inr ⟨by omega, leads⟩

theorem leaderList_sorted (body : List Instruction) : (leaderList body).Pairwise (· < ·) := by
  refine pairwise_cons.mpr ⟨?_, ?_⟩
  · intro i member
    have := (mem_range'_1.mp (mem_filter.mp member).1).1
    omega
  · exact (pairwise_lt_range' (s := 1) (n := body.length - 1)).filter _

theorem label_leads (bound : i < body.length)
    (label : isLabel (instructionAt body i) = true) : i ∈ leaderList body := by
  rw [mem_leaderList]
  rcases Nat.eq_zero_or_pos i with rfl | positive
  · exact .inl rfl
  · exact .inr ⟨positive, bound, by simp [isLeader, label]⟩

theorem after_terminating_leads (bound : i + 1 < body.length)
    (terminating : isTerminatingInstruction (instructionAt body i) = true) :
    i + 1 ∈ leaderList body := by
  rw [mem_leaderList]
  exact .inr ⟨by omega, bound, by simp [isLeader, terminating]⟩

abbrev blockCount (body : List Instruction) : Nat := (leaderList body).length

theorem blockCount_pos (body : List Instruction) : 0 < blockCount body := by
  simp [blockCount, leaderList]

theorem leaderList_getElem? (body : List Instruction) (bound : index < blockCount body) :
    (leaderList body)[index]? = some (blockBegin body index) := by
  simp [blockBegin, getD_eq_getElem?_getD, bound]

theorem blockBegin_mem (bound : index < blockCount body) :
    blockBegin body index ∈ leaderList body :=
  mem_of_getElem? (leaderList_getElem? body bound)

theorem exists_blockBegin (leads : i ∈ leaderList body) :
    ∃ index < blockCount body, blockBegin body index = i := by
  obtain ⟨index, found⟩ := mem_iff_getElem?.mp leads
  have bound : index < blockCount body := (List.getElem?_eq_some_iff.mp found).1
  exact ⟨index, bound, Option.some.inj ((leaderList_getElem? body bound).symm.trans found)⟩

theorem blockBegin_lt {a b : Nat} (less : a < b) (bound : b < blockCount body) :
    blockBegin body a < blockBegin body b := by
  have sorted := pairwise_iff_getElem.mp (leaderList_sorted body) a b (less.trans bound)
    bound less
  have ha := leaderList_getElem? body (less.trans bound)
  have hb := leaderList_getElem? body bound
  rw [getElem?_eq_getElem (less.trans bound)] at ha
  rw [getElem?_eq_getElem bound] at hb
  rwa [Option.some.inj ha, Option.some.inj hb] at sorted

theorem blockEnd_of_next (bound : index + 1 < blockCount body) :
    blockEnd body index = blockBegin body (index + 1) := by
  simp [blockEnd, blockBegin, getD_eq_getElem?_getD, bound]

theorem blockEnd_of_last (last : ¬ index + 1 < blockCount body) :
    blockEnd body index = body.length := by
  have beyond : blockCount body ≤ index + 1 := Nat.le_of_not_lt last
  simp [blockEnd, getD_eq_getElem?_getD, beyond]

theorem blockBegin_lt_length (nonempty : 0 < body.length)
    (bound : index < blockCount body) : blockBegin body index < body.length := by
  rcases mem_leaderList.mp (blockBegin_mem bound) with zero | ⟨-, inside, -⟩
  · omega
  · exact inside

theorem blockBegin_lt_blockEnd (nonempty : 0 < body.length)
    (bound : index < blockCount body) : blockBegin body index < blockEnd body index := by
  by_cases next : index + 1 < blockCount body
  · rw [blockEnd_of_next next]
    exact blockBegin_lt (Nat.lt_succ_self index) next
  · rw [blockEnd_of_last next]
    exact blockBegin_lt_length nonempty bound

theorem blockEnd_le_length (body : List Instruction) (index : Nat) :
    blockEnd body index ≤ body.length := by
  by_cases next : index + 1 < blockCount body
  · rw [blockEnd_of_next next]
    rcases mem_leaderList.mp (blockBegin_mem next) with zero | ⟨-, inside, -⟩
    · omega
    · omega
  · exact (blockEnd_of_last next).le

theorem not_leader_inside (bound : index < blockCount body)
    (after : blockBegin body index < i) (before : i < blockEnd body index) :
    i ∉ leaderList body := by
  intro leads
  obtain ⟨other, otherBound, rfl⟩ := exists_blockBegin leads
  have later : index < other := by
    by_contra notLater
    rcases lt_or_eq_of_le (Nat.le_of_not_lt notLater) with less | rfl
    · have := blockBegin_lt less bound
      omega
    · omega
  have next : index + 1 < blockCount body := by omega
  rw [blockEnd_of_next next] at before
  rcases lt_or_eq_of_le (show index + 1 ≤ other from later) with less | equal
  · have := blockBegin_lt less otherBound
    omega
  · rw [← equal] at before
    omega

theorem label_at_begin (bound : index < blockCount body)
    (first : blockBegin body index ≤ i) (last : i < blockEnd body index)
    (label : isLabel (instructionAt body i) = true) : i = blockBegin body index := by
  by_contra different
  have inside : i < body.length := last.trans_le (blockEnd_le_length body index)
  exact not_leader_inside bound (by omega) last (label_leads inside label)

theorem terminating_at_end (bound : index < blockCount body)
    (first : blockBegin body index ≤ i) (last : i < blockEnd body index)
    (terminating : isTerminatingInstruction (instructionAt body i) = true) :
    i + 1 = blockEnd body index := by
  by_contra different
  have inside := blockEnd_le_length body index
  exact not_leader_inside bound (by omega) (by omega)
    (after_terminating_leads (by omega) terminating)

/-- The instructions of a block from a position on. -/
def instructionsFrom (body : List Instruction) (index i : Nat) : List Nat :=
  (List.range' i (blockEnd body index - i)).filter fun j => !isLabel (instructionAt body j)

theorem instructionsFrom_begin (body : List Instruction) (index : Nat) :
    instructionsFrom body index (blockBegin body index) = blockInstructions body index := rfl

theorem instructionsFrom_end (body : List Instruction) (index : Nat) :
    instructionsFrom body index (blockEnd body index) = [] := by
  simp [instructionsFrom]

theorem instructionsFrom_label (before : i < blockEnd body index)
    (label : isLabel (instructionAt body i) = true) :
    instructionsFrom body index i = instructionsFrom body index (i + 1) := by
  have split : blockEnd body index - i = blockEnd body index - (i + 1) + 1 := by omega
  rw [instructionsFrom, split, range'_succ, filter_cons_of_neg (by simp [label])]
  rfl

theorem instructionsFrom_instruction (before : i < blockEnd body index)
    (instruction : isLabel (instructionAt body i) = false) :
    instructionsFrom body index i = i :: instructionsFrom body index (i + 1) := by
  have split : blockEnd body index - i = blockEnd body index - (i + 1) + 1 := by omega
  rw [instructionsFrom, split, range'_succ, filter_cons_of_pos (by simp [instruction])]
  rfl

theorem mem_blockInstructions (member : i ∈ blockInstructions body index) :
    blockBegin body index ≤ i ∧ i < blockEnd body index ∧ i < body.length ∧
      isLabel (instructionAt body i) = false := by
  obtain ⟨covered, notLabel⟩ := mem_filter.mp member
  have range := mem_range'_1.mp covered
  have inside := blockEnd_le_length body index
  exact ⟨range.1, by omega, by omega, by simpa using notLabel⟩

/-- The last instruction of a block is at its end, unless a label is all it covers. -/
theorem lastInstruction_eq (nonempty : 0 < body.length) (bound : index < blockCount body) :
    lastInstruction body index =
      if isLabel (instructionAt body (blockEnd body index - 1)) then none
      else some (blockEnd body index - 1) := by
  have less := blockBegin_lt_blockEnd nonempty bound
  have split : blockEnd body index - blockBegin body index =
      blockEnd body index - 1 - blockBegin body index + 1 := by omega
  have place : blockBegin body index + (blockEnd body index - 1 - blockBegin body index) =
      blockEnd body index - 1 := by omega
  have covered : blockIndices body index =
      range' (blockBegin body index) (blockEnd body index - 1 - blockBegin body index) ++
        [blockEnd body index - 1] := by
    rw [blockIndices, split, range'_concat, Nat.one_mul, place]
  rw [lastInstruction, blockInstructions, covered, filter_append]
  by_cases label : isLabel (instructionAt body (blockEnd body index - 1)) = true
  · have only := label_at_begin bound (by omega) (by omega) label
    rw [if_pos label, ← only]
    simp [label]
  · rw [if_neg label]
    simp [label]

theorem getLast?_filter_range {n : Nat} {p : Nat → Bool}
    (found : ((List.range n).filter p).getLast? = some i) :
    i < n ∧ p i = true ∧ ∀ j, i < j → j < n → p j = false := by
  induction n with
  | zero => simp at found
  | succ n ih =>
    rw [range_succ, filter_append] at found
    by_cases holds : p n = true
    · rw [filter_cons_of_pos holds, filter_nil, getLast?_concat] at found
      cases found
      exact ⟨by omega, holds, fun j after before => by omega⟩
    · rw [filter_cons_of_neg holds, filter_nil, append_nil] at found
      obtain ⟨bound, here, later⟩ := ih found
      refine ⟨by omega, here, fun j after before => ?_⟩
      rcases Nat.lt_succ_iff_lt_or_eq.mp before with less | rfl
      · exact later j after less
      · exact Bool.eq_false_iff.mpr holds

/-- The position that a branch to a label goes to, the last one if the name is declared
    more than once. -/
def labelPosition (body : List Instruction) (name : String) : Option Nat :=
  ((List.range body.length).filter fun i =>
    labelName (instructionAt body i) == some name).getLast?

theorem isLabel_of_labelName {instruction : Instruction} {name : String}
    (named : labelName instruction = some name) : isLabel instruction = true := by
  unfold labelName at named
  split at named
  · assumption
  · simp at named

/-- The entries for `label_blocks`: each block contributes the label at its beginning. -/
theorem labelEntries_eq (nonempty : 0 < body.length) :
    labelEntries body = (List.range (blockCount body)).filterMap fun index =>
      (labelName (instructionAt body (blockBegin body index))).map fun name => (name, index) := by
  rw [labelEntries, filterMap_eq_flatMap_toList]
  apply flatMap_congr
  intro index member
  have bound := mem_range.mp member
  have less := blockBegin_lt_blockEnd nonempty bound
  have split : blockEnd body index - blockBegin body index =
      blockEnd body index - (blockBegin body index + 1) + 1 := by omega
  have rest : (range' (blockBegin body index + 1)
      (blockEnd body index - (blockBegin body index + 1))).filterMap (fun i =>
        (labelName (instructionAt body i)).map fun name => (name, index)) = [] := by
    rw [filterMap_eq_nil_iff]
    intro i inside
    have range := mem_range'_1.mp inside
    cases named : labelName (instructionAt body i) with
    | none => rfl
    | some name =>
      have := label_at_begin bound (by omega) (by omega) (isLabel_of_labelName named)
      omega
  rw [blockIndices, split, range'_succ, filterMap_cons, rest]
  cases labelName (instructionAt body (blockBegin body index)) <;> rfl

private theorem getLast?_filter_eq_none {n : Nat} {p : Nat → Bool}
    (none : ((List.range n).filter p).getLast? = none) (bound : i < n) : p i = false := by
  rw [getLast?_eq_none_iff, filter_eq_nil_iff] at none
  exact Bool.eq_false_iff.mpr (none i (mem_range.mpr bound))

theorem find?_labelBlocks (nonempty : 0 < body.length) (name : String) :
    (labelBlocks body).find? name = ((List.range (blockCount body)).filter fun index =>
      labelName (instructionAt body (blockBegin body index)) == some name).getLast? := by
  have entries : (labelEntries body).filter (fun entry => entry.1 = name) =
      ((range (blockCount body)).filter fun index =>
        labelName (instructionAt body (blockBegin body index)) == some name).map
          fun index => (name, index) := by
    rw [labelEntries_eq nonempty]
    induction range (blockCount body) with
    | nil => rfl
    | cons index rest ih =>
      cases named : labelName (instructionAt body (blockBegin body index)) with
      | none => simp [named, ih]
      | some found =>
        by_cases same : found = name
        · simp [named, same, ih]
        · simp [named, same, ih]
  rw [labelBlocks, AssocMap.find?_assignAll, entries, getLast?_map]
  simp [Option.map_map, Function.comp_def]

/-- A branch to a label goes to the beginning of the block that `label_blocks` has. -/
theorem labelPosition_eq (nonempty : 0 < body.length) (name : String) :
    labelPosition body name = ((labelBlocks body).find? name).map (blockBegin body) := by
  rw [find?_labelBlocks nonempty, labelPosition]
  -- a declaration of the label is the beginning of a block
  have starts : ∀ i < body.length, (labelName (instructionAt body i) == some name) = true →
      ∃ index < blockCount body, blockBegin body index = i := by
    intro i bound named
    exact exists_blockBegin
      (label_leads bound (isLabel_of_labelName (by simpa using named)))
  cases hi : ((range body.length).filter fun i =>
      labelName (instructionAt body i) == some name).getLast? with
  | none =>
    cases ht : ((range (blockCount body)).filter fun index =>
        labelName (instructionAt body (blockBegin body index)) == some name).getLast? with
    | none => rfl
    | some t =>
      obtain ⟨bound, here, -⟩ := getLast?_filter_range ht
      rw [getLast?_filter_eq_none hi (blockBegin_lt_length nonempty bound)] at here
      simp at here
  | some i =>
    obtain ⟨bound, here, later⟩ := getLast?_filter_range hi
    obtain ⟨index, indexBound, rfl⟩ := starts i bound here
    cases ht : ((range (blockCount body)).filter fun index =>
        labelName (instructionAt body (blockBegin body index)) == some name).getLast? with
    | none =>
      rw [getLast?_filter_eq_none ht indexBound] at here
      simp at here
    | some t =>
      obtain ⟨tBound, there, tLater⟩ := getLast?_filter_range ht
      rcases lt_trichotomy index t with less | rfl | greater
      · have := later _ (blockBegin_lt less tBound) (blockBegin_lt_length nonempty tBound)
        simp [this] at there
      · rfl
      · have := tLater index greater indexBound
        simp [this] at here

theorem find?_labelBlocks_lt {name : String} {t : Nat}
    (found : (labelBlocks body).find? name = some t) : t < blockCount body := by
  rcases Nat.eq_zero_or_pos body.length with empty | nonempty
  · obtain rfl := length_eq_zero_iff.mp empty
    simp [labelBlocks, labelEntries, leaderList, blockIndices, blockBegin, blockEnd,
      AssocMap.assignAll] at found
  · rw [find?_labelBlocks nonempty] at found
    exact (getLast?_filter_range found).1

theorem blockSuccessors_lt {t : Nat} (member : t ∈ blockSuccessors body index) :
    t < blockCount body := by
  have through : ∀ u ∈ fallThrough body index, u < blockCount body := by
    intro u hu
    unfold fallThrough at hu
    split at hu
    · next bound => exact mem_singleton.mp hu ▸ bound
    · simp at hu
  unfold blockSuccessors at member
  split at member
  · exact through t member
  · simp only at member
    split at member
    · rcases mem_append.mp member with toLabel | next
      · exact find?_labelBlocks_lt (Option.mem_toList.mp toLabel)
      · split at next
        · exact through t next
        · simp at next
    · split at member
      · exact through t member
      · simp at member

end CuMetal.Ptx
