import CuMetal.Ptx.ControlPaths

/-!
# The import keeps the control paths

A simulation between the text and the imported function, in both directions, as long as
the text does not meet a guarded `ret`, `exit` or `trap` that the import takes for an
unguarded one, a guarded `bra` that gets one edge only, or a `bra` whose label is declared
again behind the declaration that it means.
-/

namespace CuMetal.Ptx

open Option TextStep

open Lts (Run Traces)

variable {context : ImportContext} {translator : Translator} {body : List Instruction}
  {state : SsaState} {function : Ir.Function}

/-- The first instruction at a position or behind it, with only labels before it. -/
def behindLabels (body : List Instruction) (p : Nat) : Option Nat :=
  (List.range' p (body.length - p)).find? fun j => !isLabel (instructionAt body j)

/-- The guard of an instruction means the same in the import: there is none, or it is
    a `bra` with a known label and something after it, or a `ret` or `exit` with nothing
    but labels after it, or no terminating instruction at all. -/
def GuardHonoured (body : List Instruction) (i : Nat) : Prop :=
  let instruction := instructionAt body i
  let root := rootOpcode instruction.opcode
  instruction.predicate = "" ∨
    ((root = "bra" → labelPosition body (branchTarget instruction) ≠ none ∧
        i + 1 < body.length) ∧
      (root = "ret" ∨ root = "exit" →
        ∀ j, i < j → j < body.length → isLabel (instructionAt body j) = true) ∧
      root ≠ "trap")

/-- The label that a `bra` means leads to the same instruction as the last label of its name. -/
def TargetHonoured {body : List Instruction} (scope : LabelScope body) (i : Nat) : Prop :=
  let name := branchTarget (instructionAt body i)
  rootOpcode (instructionAt body i).opcode = "bra" →
    ∀ last, labelPosition body name = some last →
      behindLabels body (scope.label i name) = behindLabels body last

def InstructionHonoured {body : List Instruction} (scope : LabelScope body) (i : Nat) : Prop :=
  GuardHonoured body i ∧ TargetHonoured scope i

/-- The text has come to no instruction whose guard or target the import does not honour. -/
def Honoured {body : List Instruction} (scope : LabelScope body) : TextState → Prop
  | .at i => i < body.length → isLabel (instructionAt body i) = false → InstructionHonoured scope i
  | _ => True

section Labels

variable {p q : Nat}

theorem behindLabels_beyond (beyond : body.length ≤ p) : behindLabels body p = none := by
  rw [behindLabels, Nat.sub_eq_zero_of_le beyond]
  rfl

theorem behindLabels_label (label : isLabel (instructionAt body p) = true) :
    behindLabels body (p + 1) = behindLabels body p := by
  rcases Nat.lt_or_ge p body.length with inside | beyond
  · have split : body.length - p = body.length - (p + 1) + 1 := by omega
    rw [behindLabels, behindLabels, split, List.range'_succ,
      List.find?_cons_of_neg (by simp [label])]
  · rw [behindLabels_beyond beyond, behindLabels_beyond (by omega)]

theorem behindLabels_instruction (inside : p < body.length)
    (instruction : isLabel (instructionAt body p) = false) : behindLabels body p = some p := by
  have split : body.length - p = body.length - (p + 1) + 1 := by omega
  rw [behindLabels, split, List.range'_succ, List.find?_cons_of_pos (by simp [instruction])]

theorem behindLabels_eq_none : behindLabels body p = none ↔
    ∀ j, p ≤ j → j < body.length → isLabel (instructionAt body j) = true := by
  rw [behindLabels, List.find?_eq_none]
  simp only [List.mem_range'_1, Bool.not_eq_true, Bool.not_eq_false']
  exact ⟨fun all j after before => all j ⟨after, by omega⟩,
    fun all j range => all j range.1 (by omega)⟩

theorem behindLabels_eq_some (found : behindLabels body p = some q) :
    q < body.length ∧ isLabel (instructionAt body q) = false := by
  have inside := List.mem_range'_1.mp (List.mem_of_find?_eq_some found)
  have instruction := List.find?_some found
  exact ⟨by omega, by simpa using instruction⟩

/-- The text passes the labels before an instruction, or returns behind them. -/
theorem text_passes_labels (scope : LabelScope body) (p : Nat) :
    match behindLabels body p with
    | some q => Run (TextStep scope) (.at p) [] (.at q)
    | none => Run (TextStep scope) (.at p) [] (.done false) := by
  generalize left : body.length - p = k
  induction k generalizing p with
  | zero =>
    rw [behindLabels_beyond (by omega)]
    exact Run.one (fallOff (by omega))
  | succ k ih =>
    have inside : p < body.length := by omega
    cases here : isLabel (instructionAt body p) with
    | false =>
      rw [behindLabels_instruction inside here]
      exact .refl _
    | true =>
      have rest := ih (p + 1) (by omega)
      rw [behindLabels_label here] at rest
      revert rest
      split <;> exact fun rest => .silent (.label inside here) rest

end Labels

/-! ## Related states -/

/-- The run is over, or only labels are left of the text. -/
inductive Halted (body : List Instruction) : TextState → ImportState → Prop
  | ended {p : Nat} : behindLabels body p = none → Halted body (.at p) (.done false)
  | done (trapped : Bool) : Halted body (.done trapped) (.done trapped)
  | stuck : Halted body .stuck .stuck
  | gone : Halted body .gone .gone

/-- Control has left a block. The text may stand at another label that leads to the same
instruction as the beginning of the block. -/
inductive Next (body : List Instruction) (state : SsaState) : TextState → ImportState → Prop
  | enter {p index : Nat} : index < blockCount body →
      behindLabels body p = behindLabels body (blockBegin body index) →
      Next body state (.at p) (startOf state index)
  | halted {s : TextState} {t : ImportState} : Halted body s t → Next body state s t

/-- The import has the rest of a block before it, and the text, up to labels, as well. -/
inductive Core (body : List Instruction) : TextState → ImportState → Prop
  | inside {p i index : Nat} {before : Bool} : index < blockCount body →
      blockBegin body index ≤ i → i < blockEnd body index →
      behindLabels body p = behindLabels body i →
      Core body (.at p) (.run index (instructionsFrom body index i) before)
  | halted {s : TextState} {t : ImportState} : Halted body s t → Core body s t

/-- The import may still have the terminator of a block to perform. -/
inductive Related (body : List Instruction) (state : SsaState) :
    TextState → ImportState → Prop
  | core {s : TextState} {t : ImportState} : Core body s t → Related body state s t
  | between {s : TextState} {index : Nat} {holds : Bool} : index < blockCount body →
      Next body state s (controlAfter body state index holds) →
      Related body state s (.run index [] holds)

variable {scope : LabelScope body} {index i p : Nat} {s : TextState} {t : ImportState}

theorem startOf_eq (ok : importBody context translator body = .ok (state, function))
    (bound : index < blockCount body) :
    startOf state index =
      .run index (instructionsFrom body index (blockBegin body index)) true := by
  have shape := importSsa_block (importBody_ok ok).1 bound
  simp only [RawBlock.shape, Prod.mk.injEq] at shape
  rw [startOf, shape.2.2.1, instructionsFrom_begin]

theorem Next.core (ok : importBody context translator body = .ok (state, function))
    (nonempty : 0 < body.length) (next : Next body state s t) :
    Core body s t := by
  cases next with
  | enter bound same =>
    rw [startOf_eq ok bound]
    exact .inside bound (le_refl _) (blockBegin_lt_blockEnd nonempty bound) same
  | halted halted => exact .halted halted

/-- Control after a block that ends in no terminating instruction. -/
theorem controlAfter_plain (state : SsaState) (holds : Bool)
    (plain : ∀ i, lastInstruction body index = some i →
      isTerminatingInstruction (instructionAt body i) = false) :
    controlAfter body state index holds =
      if index + 1 < blockCount body then startOf state (index + 1) else .done false := by
  unfold controlAfter
  cases last : lastInstruction body index with
  | none => simp
  | some i =>
    have other := plain i last
    simp only [isTerminatingInstruction, Bool.or_eq_false_iff, beq_eq_false_iff_ne] at other
    simp [other.1.1.1, other.1.1.2, other.1.2, other.2]

theorem next_plain (state : SsaState) (holds : Bool)
    (plain : ∀ i, lastInstruction body index = some i →
      isTerminatingInstruction (instructionAt body i) = false)
    (same : behindLabels body p = behindLabels body (blockEnd body index)) :
    Next body state (.at p) (controlAfter body state index holds) := by
  rw [controlAfter_plain state holds plain]
  split
  · next inside => exact .enter inside (blockEnd_of_next inside ▸ same)
  · next last =>
      rw [blockEnd_of_last last, behindLabels_beyond le_rfl] at same
      exact .halted (.ended same)

/-- A block that ends with a label has no terminating instruction. -/
theorem plain_of_label (bound : index < blockCount body)
    (atEnd : i + 1 = blockEnd body index) (label : isLabel (instructionAt body i) = true) :
    ∀ j, lastInstruction body index = some j →
      isTerminatingInstruction (instructionAt body j) = false := by
  intro j hj
  have inside := blockEnd_le_length body index
  have position : blockEnd body index - 1 = i := by omega
  rw [lastInstruction_eq (by omega) bound, position, label] at hj
  simp at hj

theorem blockSuccessors_of_bra (last : lastInstruction body index = some i)
    (isBra : rootOpcode (instructionAt body i).opcode = "bra") :
    blockSuccessors body index =
      ((labelBlocks body).find? (branchTarget (instructionAt body i))).toList ++
        if (instructionAt body i).predicate ≠ "" then fallThrough body index else [] := by
  simp [blockSuccessors, last, isBra, isConditionalBranch]

theorem blockSuccessors_ne_nil (ok : importBody context translator body = .ok (state, function))
 (bound : index < blockCount body) (last : lastInstruction body index = some i)
    (isBra : rootOpcode (instructionAt body i).opcode = "bra") :
    blockSuccessors body index ≠ [] := by
  obtain ⟨-, each⟩ := materialized_block ok
  obtain ⟨block, translated, conversions, final, -, -, -, made⟩ := each index bound
  have shape := importSsa_block (importBody_ok ok).1 bound
  simp only [RawBlock.shape, Prod.mk.injEq] at shape
  intro empty
  simp only [terminator, last, map_some, getD_some, isBra, if_true,
    branchTerminator, shape.2.2.2.1, empty] at made
  obtain ⟨branch, hbranch, -⟩ := bind_eq_ok made
  simp at hbranch

theorem controlAfter_of_bra (last : lastInstruction body index = some i)
    (isBra : rootOpcode (instructionAt body i).opcode = "bra") (holds : Bool) :
    controlAfter body state index holds =
      if takesEffect (instructionAt body i) holds then followEdge body state index 0
      else followEdge body state index 1 := by
  simp only [controlAfter, last, map_some, getD_some, isBra, if_true, takesEffect]
  by_cases free : (instructionAt body i).predicate = ""
  · simp [free]
  · by_cases asked : (normalizedPredicate (instructionAt body i).predicate).2 = holds
    · simp [free, asked]
    · simp [free, asked, Ne.symm asked]

theorem declared_of_labelPosition {name : String} {last : Nat}
    (found : labelPosition body name = some last) :
    body.any (fun declared => labelName declared == some name) = true := by
  obtain ⟨inside, here, -⟩ := getLast?_filter_range found
  refine List.any_eq_true.mpr ⟨instructionAt body last, ?_, here⟩
  rw [instructionAt, List.getD_eq_getElem?_getD, List.getElem?_eq_getElem inside, getD_some]
  exact List.getElem_mem inside

theorem next_terminating (ok : importBody context translator body = .ok (state, function))
 (bound : index < blockCount body) (nonempty : 0 < body.length)
    (atEnd : i + 1 = blockEnd body index) (last : lastInstruction body index = some i)
    (terminating : isTerminatingInstruction (instructionAt body i) = true)
    (honoured : InstructionHonoured scope i) (holds : Bool) :
    Next body state (afterInstruction scope i holds) (controlAfter body state index holds) := by
  obtain ⟨honoured, targetHonoured⟩ := honoured
  have free_effect : (instructionAt body i).predicate = "" →
      takesEffect (instructionAt body i) holds = true := by
    intro free
    simp [takesEffect, free]
  by_cases isBra : rootOpcode (instructionAt body i).opcode = "bra"
  · rw [controlAfter_of_bra last isBra]
    have edges := blockSuccessors_of_bra last isBra
    by_cases effect : takesEffect (instructionAt body i) holds = true
    · -- the branch is taken: its label is known
      obtain ⟨t, found⟩ : ∃ t, (labelBlocks body).find?
          (branchTarget (instructionAt body i)) = some t := by
        rw [← isSome_iff_exists, isSome_iff_ne_none]
        intro unknown
        rcases honoured with free | ⟨branch, -⟩
        · exact blockSuccessors_ne_nil ok bound last isBra (by simp [edges, unknown, free])
        · exact (branch isBra).1 (by rw [labelPosition_eq nonempty, unknown, map_none])
      have position : labelPosition body (branchTarget (instructionAt body i)) =
          some (blockBegin body t) := by rw [labelPosition_eq nonempty, found, map_some]
      have first : (blockSuccessors body index)[0]? = some t := by simp [edges, found]
      simp only [afterInstruction, effect, isBra, if_true, declared_of_labelPosition position,
        followEdge, first]
      exact .enter (find?_labelBlocks_lt found) (targetHonoured isBra _ position)
    · -- the branch is not taken: the block has a fall-through edge
      have guarded : (instructionAt body i).predicate ≠ "" := fun free =>
        effect (free_effect free)
      obtain ⟨known, more⟩ := (honoured.resolve_left guarded).1 isBra
      have next : index + 1 < blockCount body := by
        by_contra last
        rw [blockEnd_of_last last] at atEnd
        omega
      obtain ⟨t, found⟩ : ∃ t, (labelBlocks body).find?
          (branchTarget (instructionAt body i)) = some t := by
        rw [← isSome_iff_exists, isSome_iff_ne_none]
        intro unknown
        exact known (by rw [labelPosition_eq nonempty, unknown, map_none])
      have second : (blockSuccessors body index)[1]? = some (index + 1) := by
        simp [edges, found, guarded, fallThrough, next]
      simp only [afterInstruction, effect, followEdge, second, atEnd, blockEnd_of_next next]
      exact .enter next rfl
  · by_cases isTrap : rootOpcode (instructionAt body i).opcode = "trap"
    · have free : (instructionAt body i).predicate = "" :=
        honoured.resolve_right fun guarded => guarded.2.2 isTrap
      simp only [afterInstruction, free_effect free, isTrap, controlAfter, last, map_some,
        getD_some]
      exact .halted (.done true)
    · have isReturn : rootOpcode (instructionAt body i).opcode = "ret" ∨
          rootOpcode (instructionAt body i).opcode = "exit" := by
        simpa [isTerminatingInstruction, isBra, isTrap] using terminating
      have control : controlAfter body state index holds = .done false := by
        simp only [controlAfter, last, map_some, getD_some, if_neg isBra,
          if_neg isTrap]
        rw [if_pos (by simpa using isReturn)]
      rw [control]
      by_cases effect : takesEffect (instructionAt body i) holds = true
      · have after : afterInstruction scope i holds = .done false := by
          simp only [afterInstruction, effect, if_true, if_neg isBra]
          rw [if_pos (by simpa using isReturn)]
        rw [after]
        exact .halted (.done false)
      · have guarded : (instructionAt body i).predicate ≠ "" := fun free =>
          effect (free_effect free)
        have labels := (honoured.resolve_left guarded).2.1 isReturn
        simp only [afterInstruction, effect]
        exact .halted (.ended (behindLabels_eq_none.mpr fun j after before =>
          labels j (by omega) before))

theorem related_after (ok : importBody context translator body = .ok (state, function))
 (bound : index < blockCount body) (first : blockBegin body index ≤ i)
    (before : i < blockEnd body index) (instruction : isLabel (instructionAt body i) = false)
    (honoured : InstructionHonoured scope i) (holds : Bool) :
    Related body state (afterInstruction scope i holds)
      (.run index (instructionsFrom body index (i + 1)) holds) := by
  have inside : i < body.length := before.trans_le (blockEnd_le_length body index)
  have plain_after : isTerminatingInstruction (instructionAt body i) = false →
      afterInstruction scope i holds = .at (i + 1) := by
    intro plain
    simp only [isTerminatingInstruction, Bool.or_eq_false_iff, beq_eq_false_iff_ne] at plain
    simp [afterInstruction, plain.1.1.1, plain.1.1.2, plain.1.2, plain.2]
  rcases lt_or_eq_of_le (show i + 1 ≤ blockEnd body index from before) with more | atEnd
  · have plain : isTerminatingInstruction (instructionAt body i) = false := by
      by_contra terminating
      have := terminating_at_end bound first before (by simpa using terminating)
      omega
    rw [plain_after plain]
    exact .core (.inside bound (by omega) more rfl)
  · have last : lastInstruction body index = some i := by
      have here : blockEnd body index - 1 = i := by omega
      rw [lastInstruction_eq (by omega) bound, here, instruction]
      rfl
    rw [atEnd, instructionsFrom_end]
    refine .between bound ?_
    cases terminating : isTerminatingInstruction (instructionAt body i) with
    | true => exact next_terminating ok bound (by omega) atEnd last terminating honoured holds
    | false =>
      rw [plain_after terminating]
      refine next_plain state holds (fun j hj => ?_) (by rw [atEnd])
      rw [last] at hj
      exact some.inj hj ▸ terminating

/-! ## Simulations -/

section

variable (ok : importBody context translator body = .ok (state, function))

include ok

variable {label : Option Event}

/-- The import passes the blocks that have nothing but labels, up to the next instruction or to the
end of the body. -/
theorem import_passes_labels (bound : index < blockCount body) (first : blockBegin body index ≤ i)
    (last : i < blockEnd body index) (holds : Bool) :
    match behindLabels body i with
    | some q => ∃ index' holds',
        Run (ImportStep state function) (.run index (instructionsFrom body index i) holds) []
          (.run index' (instructionsFrom body index' q) holds') ∧
        index' < blockCount body ∧ blockBegin body index' ≤ q ∧ q < blockEnd body index'
    | none =>
        Run (ImportStep state function) (.run index (instructionsFrom body index i) holds) []
          (.done false) := by
  generalize left : body.length - i = k
  induction k generalizing i index holds with
  | zero =>
    have inside := blockEnd_le_length body index
    omega
  | succ k ih =>
    have within : i < body.length := last.trans_le (blockEnd_le_length body index)
    cases here : isLabel (instructionAt body i) with
    | false =>
      rw [behindLabels_instruction within here]
      exact ⟨index, holds, .refl _, bound, first, last⟩
    | true =>
      rw [instructionsFrom_label last here, ← behindLabels_label here]
      rcases lt_or_eq_of_le (show i + 1 ≤ blockEnd body index from last) with more | atEnd
      · exact ih bound (by omega) more holds (by omega)
      · have plain := controlAfter_plain state holds (plain_of_label bound atEnd here)
        have leave : ImportStep state function (.run index (instructionsFrom body index (i + 1))
            holds) none (controlAfter body state index holds) := by
          rw [atEnd, instructionsFrom_end, ← transfer_eq ok bound]
          exact .leave
        by_cases next : index + 1 < blockCount body
        · rw [plain, if_pos next, startOf_eq ok next, ← blockEnd_of_next next, ← atEnd] at leave
          have nonempty := blockBegin_lt_blockEnd (by omega) next
          have rest := ih next (blockEnd_of_next next ▸ atEnd.ge)
            (by rw [atEnd, blockEnd_of_next next]; exact nonempty) true (by omega)
          revert rest
          split
          · rintro ⟨index', holds', run, reached⟩
            exact ⟨index', holds', .silent leave run, reached⟩
          · exact fun run => .silent leave run
        · rw [plain, if_neg next] at leave
          rw [atEnd, blockEnd_of_last next, behindLabels_beyond le_rfl]
          rw [atEnd, blockEnd_of_last next] at leave
          exact Run.one leave

theorem import_follows_core {s' : TextState} (core : Core body s t) (honoured : Honoured scope s)
    (step : TextStep scope s label s') :
    ∃ t', Run (ImportStep state function) t label.toList t' ∧ Related body state s' t' := by
  cases core with
  | @inside p i index before bound first last same =>
    have reached := import_passes_labels ok bound first last before
    cases step with
    | label _ isLabel =>
      exact ⟨_, .refl _, .core (.inside bound first last ((behindLabels_label isLabel).trans same))⟩
    | visit holds within notLabel =>
      rw [← same, behindLabels_instruction within notLabel] at reached
      obtain ⟨index', holds', run, bound', first', last'⟩ := reached
      rw [instructionsFrom_instruction last' notLabel] at run
      exact ⟨_, run.trans (.visible (.visit holds) (.refl _)),
        related_after ok bound' first' last' notLabel (honoured within notLabel) holds⟩
    | fallOff beyond =>
      rw [← same, behindLabels_beyond beyond] at reached
      exact ⟨_, reached, .core (.halted (.done false))⟩
  | halted halted =>
    cases halted with
    | ended labels =>
      cases step with
      | label _ isLabel =>
        exact ⟨_, .refl _, .core (.halted (.ended ((behindLabels_label isLabel).trans labels)))⟩
      | visit holds within notLabel =>
        rw [behindLabels_instruction within notLabel] at labels
        cases labels
      | fallOff _ => exact ⟨_, .refl _, .core (.halted (.done false))⟩
    | done trapped =>
      cases step with
      | finish => exact ⟨_, Run.one (ImportStep.finish trapped), .core (.halted .gone)⟩
    | stuck => cases step
    | gone => cases step

theorem Next.core_controlAfter
    {holds : Bool} (next : Next body state s (controlAfter body state index holds)) :
    Core body s (controlAfter body state index holds) := by
  rcases Nat.eq_zero_or_pos body.length with empty | nonempty
  · obtain rfl := List.length_eq_zero_iff.mp empty
    have control : controlAfter [] state index holds = .done false := by
      simp [controlAfter, lastInstruction, blockInstructions, blockIndices, blockEnd, blockBegin,
        leaderList, blockCount]
    generalize controlAfter [] state index holds = t at next control
    cases next with
    | enter => simp [startOf] at control
    | halted halted => exact .halted halted
  · exact next.core ok nonempty

/-- Where the import still has a terminator to perform, it performs it. -/
theorem Related.to_core (related : Related body state s t) :
    ∃ t', Run (ImportStep state function) t [] t' ∧ Core body s t' := by
  cases related with
  | core core => exact ⟨t, .refl t, core⟩
  | @between index holds bound next =>
    refine ⟨_, .silent .leave (.refl _), ?_⟩
    rw [transfer_eq ok bound]
    exact next.core_controlAfter ok

theorem import_follows (s : TextState) (t : ImportState) (label : Option Event)
    (s' : TextState) (related : Related body state s t) (honoured : Honoured scope s)
    (step : TextStep scope s label s') :
    ∃ t', Run (ImportStep state function) t label.toList t' ∧ Related body state s' t' := by
  obtain ⟨t₁, left, core⟩ := related.to_core ok
  obtain ⟨t', follows, related'⟩ := import_follows_core ok core honoured step
  exact ⟨t', left.trans follows, related'⟩

/-- The text follows from a place that leads to the instruction that the import visits. -/
theorem text_follows_instruction {before : Bool} {t' : ImportState}
    (bound : index < blockCount body) (first : blockBegin body index ≤ i)
    (last : i < blockEnd body index) (instruction : isLabel (instructionAt body i) = false)
    (same : behindLabels body p = some i)
    (honoured : ∀ before u, Run (TextStep scope) (.at p) before u → Honoured scope u)
    (step : ImportStep state function (.run index (instructionsFrom body index i) before) label
      t') : ∃ s', Run (TextStep scope) (.at p) label.toList s' ∧ Related body state s' t' := by
  have within : i < body.length := last.trans_le (blockEnd_le_length body index)
  have skip := text_passes_labels scope p
  rw [same] at skip
  rw [instructionsFrom_instruction last instruction] at step
  cases step with
  | visit holds =>
    exact ⟨_, skip.trans (Run.one (visit holds within instruction)),
      related_after ok bound first last instruction (honoured [] _ skip within instruction) holds⟩

theorem text_follows (t : ImportState) (s : TextState) (label : Option Event)
    (t' : ImportState) (related : Related body state s t)
    (honoured : ∀ before u, Run (TextStep scope) s before u → Honoured scope u)
    (step : ImportStep state function t label t') :
    ∃ s', Run (TextStep scope) s label.toList s' ∧ Related body state s' t' := by
  cases related with
  | between bound next =>
    cases step with
    | leave =>
      rw [transfer_eq ok bound]
      exact ⟨s, .refl s, .core (next.core_controlAfter ok)⟩
  | core core =>
  cases core with
  | halted halted =>
    cases halted with
    | @ended p labels =>
      have returns := text_passes_labels scope p
      rw [labels] at returns
      cases step with
      | finish => exact ⟨.gone, returns.trans (Run.one (finish false)), .core (.halted .gone)⟩
    | done trapped =>
      cases step with
      | finish => exact ⟨.gone, Run.one (finish trapped), .core (.halted .gone)⟩
    | stuck => cases step
    | gone => cases step
  | @inside p i index before bound first last same =>
    have within : i < body.length := last.trans_le (blockEnd_le_length body index)
    cases here : isLabel (instructionAt body i) with
    | false =>
      exact text_follows_instruction ok bound first last here
        (same.trans (behindLabels_instruction within here)) honoured step
    | true =>
      -- the label is skipped, and what follows it in the block is an instruction
      rw [← behindLabels_label here] at same
      rcases lt_or_eq_of_le (show i + 1 ≤ blockEnd body index from last) with
        more | atEnd
      · have instruction : isLabel (instructionAt body (i + 1)) = false := by
          by_contra label
          have := label_at_begin bound (by omega) more (by simpa using label)
          omega
        rw [instructionsFrom_label last here] at step
        have inside := blockEnd_le_length body index
        exact text_follows_instruction ok bound (by omega) more instruction
          (same.trans (behindLabels_instruction (by omega) instruction)) honoured step
      · have plain := plain_of_label bound atEnd here
        rw [instructionsFrom_label last here, atEnd, instructionsFrom_end] at step
        cases step with
        | leave =>
          rw [transfer_eq ok bound]
          have next := next_plain state before plain (same.trans (by rw [atEnd]))
          exact ⟨_, .refl _, .core (next.core_controlAfter ok)⟩

theorem related_start :
    Related body state (.at 0) (startOf state 0) := by
  rw [startOf_eq ok (blockCount_pos body)]
  rcases Nat.eq_zero_or_pos body.length with empty | nonempty
  · obtain rfl := List.length_eq_zero_iff.mp empty
    exact .between (blockCount_pos []) (.halted (.ended rfl))
  · exact .core (.inside (blockCount_pos body) (le_refl 0)
      (blockBegin_lt_blockEnd nonempty (blockCount_pos body)) rfl)

theorem sameControlPaths_of_honoured
    (honoured : ∀ trace u, Run (TextStep scope) (.at 0) trace u → Honoured scope u) :
    SameControlPaths scope state function := by
  apply Set.Subset.antisymm
  · rintro trace ⟨u, run⟩
    obtain ⟨t, matched, -⟩ := run.simulate (import_follows ok) (related_start ok) honoured
    exact ⟨t, matched⟩
  · rintro trace ⟨t, run⟩
    let Rel := fun (t : ImportState) (s : TextState) =>
      Related body state s t ∧ ∃ before, Run (TextStep scope) (.at 0) before s
    have follows : ∀ t s label t', Rel t s → True → ImportStep state function t label t' →
        ∃ s', Run (TextStep scope) s label.toList s' ∧ Rel t' s' := by
      rintro t s label t' ⟨related, before, reached⟩ - step
      obtain ⟨s', matched, related'⟩ := text_follows ok t s label t' related
        (fun more u run => honoured _ u (reached.trans run)) step
      exact ⟨s', matched, related', _, reached.trans matched⟩
    obtain ⟨s, matched, -⟩ := run.simulate follows ⟨related_start ok, [], .refl _⟩
      (fun _ _ _ => trivial)
    exact ⟨s, matched⟩

end

/-! ## Instructions that are not honoured -/

/-- The next event behind a position of the text: the instruction behind its labels, or the end. -/
theorem text_event (scope : LabelScope body) (p : Nat) :
    (∃ q u, behindLabels body p = some q ∧ Run (TextStep scope) (.at p) [.visit q true] u) ∨
      behindLabels body p = none ∧ Run (TextStep scope) (.at p) [.finish false] .gone := by
  have passes := text_passes_labels scope p
  cases found : behindLabels body p with
  | none =>
    rw [found] at passes
    exact .inr ⟨rfl, passes.trans (.visible (.finish false) (.refl _))⟩
  | some q =>
    rw [found] at passes
    obtain ⟨within, instruction⟩ := behindLabels_eq_some found
    exact .inl ⟨q, _, rfl, passes.trans (Run.one (visit true within instruction))⟩

/-- The truth value with which a guarded instruction has no effect. -/
def refusing (instruction : Instruction) : Bool :=
  (normalizedPredicate instruction.predicate).2

theorem takesEffect_refusing {instruction : Instruction} (guarded : instruction.predicate ≠ "") :
    takesEffect instruction (refusing instruction) = false := by
  simp [takesEffect, refusing, guarded]

theorem takesEffect_not_refusing (instruction : Instruction) :
    takesEffect instruction (!refusing instruction) = true := by
  simp [takesEffect, refusing]

variable {event : Event}

theorem event_of_done {trapped : Bool}
    (run : Run (ImportStep state function) (.done trapped) [event] t) :
    event = .finish trapped := by
  cases run with
  | silent step _ => cases step
  | visible step _ => cases step with | finish => rfl

theorem no_event_of_stuck : ¬ Run (ImportStep state function) .stuck [event] t := by
  intro run
  have := run.labels_of_final (fun label s' step => by cases step)
  simp at this

/-- The next event of the import from the beginning of a block. -/
theorem event_of_start (ok : importBody context translator body = .ok (state, function))
    (bound : index < blockCount body) (nonempty : 0 < body.length)
    (run : Run (ImportStep state function) (startOf state index) [event] t) :
    match behindLabels body (blockBegin body index) with
    | some q => ∃ holds, event = .visit q holds
    | none => event = .finish false := by
  rw [startOf_eq ok bound] at run
  have reached := import_passes_labels ok bound le_rfl (blockBegin_lt_blockEnd nonempty bound) true
  cases found : behindLabels body (blockBegin body index) with
  | none =>
    rw [found] at reached
    exact event_of_done (reached.cancel (importStep_deterministic state function)
      (show Run _ _ ([] ++ [event]) t from run))
  | some q =>
    rw [found] at reached
    obtain ⟨index', holds', passes, -, -, last⟩ := reached
    rw [instructionsFrom_instruction last (behindLabels_eq_some found).2] at passes
    have rest := passes.cancel (importStep_deterministic state function)
      (show Run _ _ ([] ++ [event]) t from run)
    cases rest with
    | silent step _ => cases step
    | visible step _ => cases step with | visit holds => exact ⟨holds, rfl⟩

/-- The import does not go where the text goes when a guard that it does not honour fails. -/
theorem guard_differs (scope : LabelScope body) (state : SsaState) (function : Ir.Function)
    (atEnd : i + 1 = blockEnd body index) (last : lastInstruction body index = some i)
    (nonempty : 0 < body.length) (dishonoured : ¬ GuardHonoured body i) :
    ∃ event u,
      Run (TextStep scope) (afterInstruction scope i (refusing (instructionAt body i))) [event] u ∧
      ∀ t, ¬ Run (ImportStep state function)
        (controlAfter body state index (refusing (instructionAt body i))) [event] t := by
  obtain ⟨guarded, conditions⟩ := not_or.mp dishonoured
  have fails := takesEffect_refusing guarded
  have through : afterInstruction scope i (refusing (instructionAt body i)) = .at (i + 1) := by
    simp [afterInstruction, fails]
  rw [through]
  by_cases isBra : rootOpcode (instructionAt body i).opcode = "bra"
  · -- one edge at most: the second one does not exist
    have oneEdge : (blockSuccessors body index)[1]? = none := by
      rw [blockSuccessors_of_bra last isBra, if_pos guarded]
      by_cases known : (labelBlocks body).find? (branchTarget (instructionAt body i)) = none
      · have short : (fallThrough body index).length ≤ 1 := by
          unfold fallThrough
          split <;> simp
        simpa [known] using short
      · have noMore : ¬ i + 1 < body.length := by
          intro more
          refine conditions ⟨fun _ => ⟨?_, more⟩, by simp [isBra], by simp [isBra]⟩
          rw [labelPosition_eq nonempty]
          simpa using known
        have noNext : ¬ index + 1 < blockCount body := by
          intro next
          rw [blockEnd_of_next next] at atEnd
          have := blockBegin_lt_length nonempty next
          omega
        cases hfound : (labelBlocks body).find? (branchTarget (instructionAt body i)) <;>
          simp [fallThrough, noNext]
    have control : controlAfter body state index (refusing (instructionAt body i)) = .stuck := by
      rw [controlAfter_of_bra last isBra, fails]
      simp [followEdge, oneEdge]
    rw [control]
    rcases text_event scope (i + 1) with ⟨j, u, -, run⟩ | ⟨-, run⟩
    · exact ⟨_, u, run, fun t => no_event_of_stuck⟩
    · exact ⟨_, _, run, fun t => no_event_of_stuck⟩
  by_cases isTrap : rootOpcode (instructionAt body i).opcode = "trap"
  · have control : controlAfter body state index (refusing (instructionAt body i)) =
        .done true := by
      simp [controlAfter, last, isTrap]
    rw [control]
    rcases text_event scope (i + 1) with ⟨j, u, -, run⟩ | ⟨-, run⟩
    · exact ⟨_, u, run, fun t absurd => by simpa using event_of_done absurd⟩
    · exact ⟨_, _, run, fun t absurd => by simpa using event_of_done absurd⟩
  by_cases isReturn : rootOpcode (instructionAt body i).opcode = "ret" ∨
      rootOpcode (instructionAt body i).opcode = "exit"
  · have control : controlAfter body state index (refusing (instructionAt body i)) =
        .done false := by
      simp only [controlAfter, last, map_some, getD_some, if_neg isBra,
        if_neg isTrap]
      rw [if_pos (by simpa using isReturn)]
    rw [control]
    rcases text_event scope (i + 1) with ⟨j, u, -, run⟩ | ⟨labels, -⟩
    · exact ⟨_, u, run, fun t absurd => by simpa using event_of_done absurd⟩
    · rw [behindLabels_eq_none] at labels
      exact absurd ⟨fun absurd => (isBra absurd).elim,
        fun _ j after => labels j (by omega), isTrap⟩ conditions
  · exact absurd ⟨fun absurd => (isBra absurd).elim, fun absurd => (isReturn absurd).elim,
      isTrap⟩ conditions

/-- The import does not go where the text goes when a `bra` is taken whose label is not the one that
the import finds. -/
theorem target_differs (ok : importBody context translator body = .ok (state, function))
    (last : lastInstruction body index = some i) (nonempty : 0 < body.length)
    (dishonoured : ¬ TargetHonoured scope i) :
    ∃ event u,
      Run (TextStep scope) (afterInstruction scope i (!refusing (instructionAt body i))) [event] u ∧
      ∀ t, ¬ Run (ImportStep state function)
        (controlAfter body state index (!refusing (instructionAt body i))) [event] t := by
  simp only [TargetHonoured, Classical.not_imp, not_forall] at dishonoured
  obtain ⟨isBra, position, found, differ⟩ := dishonoured
  have effect := takesEffect_not_refusing (instructionAt body i)
  obtain ⟨target, known, rfl⟩ := map_eq_some_iff.mp ((labelPosition_eq nonempty _).symm.trans found)
  have after : afterInstruction scope i (!refusing (instructionAt body i)) =
      .at (scope.label i (branchTarget (instructionAt body i))) := by
    simp only [afterInstruction, effect, isBra, if_true, declared_of_labelPosition found]
  have first : (blockSuccessors body index)[0]? = some target := by
    simp [blockSuccessors_of_bra last isBra, known]
  have control : controlAfter body state index (!refusing (instructionAt body i)) =
      startOf state target := by
    rw [controlAfter_of_bra last isBra, if_pos effect, followEdge, first]
  have next := fun event t (run : Run (ImportStep state function) _ [event] t) =>
    event_of_start ok (find?_labelBlocks_lt known) nonempty run
  rw [after, control]
  rcases text_event scope (scope.label i (branchTarget (instructionAt body i))) with
    ⟨j, u, meant, run⟩ | ⟨meant, run⟩
  · refine ⟨_, u, run, fun t absurd => ?_⟩
    have here := next _ t absurd
    split at here
    · next q found' =>
        obtain ⟨holds, same⟩ := here
        cases same
        exact differ (meant.trans found'.symm)
    · cases here
  · refine ⟨_, _, run, fun t absurd => ?_⟩
    have here := next _ t absurd
    split at here
    · obtain ⟨holds, same⟩ := here
      cases same
    · next found' => exact differ (meant.trans found'.symm)

theorem terminating_of_dishonoured (dishonoured : ¬ InstructionHonoured scope i) :
    isTerminatingInstruction (instructionAt body i) = true := by
  by_contra plain
  apply dishonoured
  simp only [isTerminatingInstruction, Bool.or_eq_true, beq_iff_eq, not_or] at plain
  obtain ⟨⟨⟨notBra, notRet⟩, notExit⟩, notTrap⟩ := plain
  exact ⟨.inr ⟨fun bra => absurd bra notBra,
    fun ret => ret.elim (fun h => absurd h notRet) (fun h => absurd h notExit), notTrap⟩,
    fun bra => absurd bra notBra⟩

theorem not_sameControlPaths (ok : importBody context translator body = .ok (state, function))
    {trace : List Event} {u : TextState} (run : Run (TextStep scope) (.at 0) trace u)
    (dishonoured : ¬ Honoured scope u) : ¬ SameControlPaths scope state function := by
  intro same
  -- up to the first instruction that is not honoured the import follows
  obtain ⟨before, v, t, reached, bad, matched, related⟩ :
      ∃ before v t, Run (TextStep scope) (.at 0) before v ∧ ¬ Honoured scope v ∧
        Run (ImportStep state function) (startOf state 0) before t ∧ Related body state v t := by
    rcases run.simulate_until (import_follows ok) (related_start ok) with
      ⟨t, matched, related⟩ | found
    · exact ⟨trace, u, t, run, dishonoured, matched, related⟩
    · exact found
  obtain ⟨t₁, left, core⟩ := related.to_core ok
  cases v with
  | done trapped => exact bad trivial
  | stuck => exact bad trivial
  | gone => exact bad trivial
  | «at» i =>
    simp only [Honoured, Classical.not_imp] at bad
    obtain ⟨within, instruction, dishonoured⟩ := bad
    cases core with
    | halted halted =>
      cases halted with
      | ended labels =>
        rw [behindLabels_instruction within instruction] at labels
        cases labels
    | @inside _ j _ flag bound' first' last' meets =>
      have passes := import_passes_labels ok bound' first' last' flag
      rw [← meets, behindLabels_instruction within instruction] at passes
      obtain ⟨index, holds, passes, bound, first, last⟩ := passes
      have atEnd := terminating_at_end bound first last
        (terminating_of_dishonoured dishonoured)
      have isLast : lastInstruction body index = some i := by
        have here : blockEnd body index - 1 = i := by omega
        rw [lastInstruction_eq (by omega) bound, here, instruction]
        rfl
      obtain ⟨value, event, w, textRun, differs⟩ : ∃ value event w,
          Run (TextStep scope) (afterInstruction scope i value) [event] w ∧
          ∀ t, ¬ Run (ImportStep state function) (controlAfter body state index value)
            [event] t := by
        by_cases guard : GuardHonoured body i
        · exact ⟨_, target_differs ok isLast (by omega) fun target => dishonoured ⟨guard, target⟩⟩
        · exact ⟨_, guard_differs scope state function atEnd isLast (by omega) guard⟩
      have textTrace : Run (TextStep scope) (.at 0) ((before ++ [.visit i value]) ++ [event]) w :=
        (reached.trans (.visible (.visit _ within instruction) (.refl _))).trans textRun
      have importRun : Run (ImportStep state function) (startOf state 0)
          (before ++ [.visit i value]) (controlAfter body state index value) := by
        have start := (matched.trans left).trans passes
        rw [List.append_nil, List.append_nil, instructionsFrom_instruction last instruction, atEnd,
          instructionsFrom_end] at start
        refine start.trans (.visible (.visit _) (.silent .leave ?_))
        rw [transfer_eq ok bound]
        exact .refl _
      have inImport : (before ++ [.visit i value]) ++ [event] ∈
          Traces (ImportStep state function) (startOf state 0) := same ▸ ⟨w, textTrace⟩
      obtain ⟨x, long⟩ := inImport
      exact differs x (importRun.cancel (importStep_deterministic state function) long)

/-- The import has the control paths of the text, for all truth values of the predicates and
    whatever the scopes of the labels, exactly if the text never comes to an instruction whose
    guard is not honoured, nor to a `bra` to a label that is not the last of its name. -/
theorem sameControlPaths_iff (context : ImportContext) (translator : Translator)
    (body : List Instruction) (scope : LabelScope body) (state : SsaState) (function : Ir.Function)
    (ok : importBody context translator body = .ok (state, function)) :
    SameControlPaths scope state function ↔
      ∀ (trace : List Event) (i : Nat), Run (TextStep scope) (.at 0) trace (.at i) →
        i < body.length → isLabel (instructionAt body i) = false → InstructionHonoured scope i := by
  constructor
  · intro same trace i run within instruction
    by_contra dishonoured
    exact not_sameControlPaths ok run (fun honoured => dishonoured (honoured within instruction))
      same
  · intro honoured
    refine sameControlPaths_of_honoured ok fun trace u run => ?_
    cases u with
    | «at» i => exact honoured trace i run
    | _ => trivial

/-- The translation of a kernel that only compares constants besides its terminators. -/
def compareTranslator (body : List Instruction) : Translator :=
  { header := { name := "kernel", isKernel := true, kernelAbi := some {} }
    translateBlock := fun state index environment =>
      let compared := (blockAt state.blocks index).instructions.filter fun i =>
        !isTerminatingInstruction (instructionAt body i)
      let results := state.allocation.instructionResults
      .ok
        { operations := compared.map fun i =>
            { opcode := .compare
              results := (results.find? i).getD []
              resultTypes := [.predicate]
              operands := ((instructionAt body i).operands.drop 1).map fun text =>
                { kind := .immediate, type := .integer 32, text }
              attributes := [("ptx_opcode", (instructionAt body i).opcode), ("predicate", "eq")] }
          environment := compared.foldl (defineResults body results) environment } }

/-- A loop: `L: setp.eq.s32 %p1, 0, 0; @!%p1 bra L; ret;`. -/
def loopBody : List Instruction :=
  [{ opcode := "ptx.label", operands := ["L"], line := 1, supported := true },
   { opcode := "setp.eq.s32", operands := ["%p1", "0", "0"], line := 2, supported := true },
   { predicate := "@!%p1", opcode := "bra", operands := ["L"], line := 3, supported := true },
   { opcode := "ret", line := 4, supported := true }]

/-- The only label of the loop. -/
def loopScope : LabelScope loopBody where
  label _ _ := 0
  named i name := by
    rintro ⟨j, declared⟩
    match j with
    | 0 => exact declared
    | 1 | 2 | 3 => exact absurd declared (by simp [loopBody, instructionAt, labelName, isLabel])
    | j + 4 => exact absurd declared (by simp [loopBody, instructionAt, labelName, isLabel])

theorem sameControlPaths_iff_loop :
    ∃ state function, importBody { registerTypes := [("%p1", .predicate)] }
        (compareTranslator loopBody) loopBody = .ok (state, function) ∧
      (SameControlPaths loopScope state function ↔
        ∀ (trace : List Event) (i : Nat), Run (TextStep loopScope) (.at 0) trace (.at i) →
          i < loopBody.length → isLabel (instructionAt loopBody i) = false →
          InstructionHonoured loopScope i) := by
  have imported : (importBody { registerTypes := [("%p1", .predicate)] }
      (compareTranslator loopBody) loopBody).isOk = true := by decide +kernel
  cases ok : importBody { registerTypes := [("%p1", .predicate)] }
      (compareTranslator loopBody) loopBody with
  | error message => simp [ok, Except.isOk, Except.toBool] at imported
  | ok result =>
    obtain ⟨state, function⟩ := result
    exact ⟨state, function, rfl, sameControlPaths_iff _ _ _ loopScope state function ok⟩

/-- `setp.eq.s32 %p1, 0, 0; @!%p1 ret; ret;`. -/
def guardedReturnBody : List Instruction :=
  [{ opcode := "setp.eq.s32", operands := ["%p1", "0", "0"], line := 1, supported := true },
   { predicate := "@!%p1", opcode := "ret", line := 2, supported := true },
   { opcode := "ret", line := 3, supported := true }]

/-- The import takes a guarded `ret` for an unguarded one, however the instructions
    between the terminators are translated. -/
theorem guarded_return_deletes_the_rest :
    (importBody { registerTypes := [("%p1", .predicate)] }
        (compareTranslator guardedReturnBody) guardedReturnBody).isOk = true ∧
      ∀ context translator state function (scope : LabelScope guardedReturnBody),
        importBody context translator guardedReturnBody = .ok (state, function) →
        ¬ SameControlPaths scope state function := by
  refine ⟨by decide +kernel, fun context translator state function scope ok => ?_⟩
  have reached : Run (TextStep scope) (.at 0) [.visit 0 true] (.at 1) :=
    Run.one (visit true (by decide) (by decide +kernel))
  refine not_sameControlPaths ok reached fun honoured => ?_
  have atReturn : GuardHonoured guardedReturnBody 1 :=
    (honoured (by decide) (by decide +kernel)).1
  rcases atReturn with free | ⟨-, labels, -⟩
  · simp [guardedReturnBody, instructionAt] at free
  · have label := labels (.inl (by decide +kernel)) 2 (by decide) (by decide)
    revert label
    decide +kernel

end CuMetal.Ptx
