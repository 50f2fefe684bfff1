import CuMetal.Ptx.Cfg
import Mathlib.Data.List.Basic

/-!
# The basic blocks of an emitted body

`index_control_flow` and `emit_body` (`compiler/ptx/src/lower_to_llvm.cpp:2603-2652`, `9796-9859`)
put the executed instructions of a PTX body into LLVM blocks, whose terminators come from
`emit_branch` and `emit_indexed_branch` (`9580-9651`).
-/

namespace CuMetal.Ptx.Emitted

open List

/-- The name that a `.branchtargets` table declares. -/
def tableName (instruction : Instruction) : Option String :=
  if instruction.opcode = "ptx.branchtargets" then instruction.operands.head? else none

def executes (instruction : Instruction) : Bool :=
  instruction.opcode ≠ "ptx.label" && instruction.opcode ≠ "ptx.branchtargets"

/-- `exec_indices_`. -/
def execIndices (body : List Instruction) : List Nat :=
  (List.range body.length).filter fun i => executes (instructionAt body i)

variable (body : List Instruction)

/-- The instruction at a position of `exec_indices_`. -/
def executed (p : Nat) : Instruction := instructionAt body ((execIndices body).getD p 0)

/-- The position of the first executed instruction behind index `i`. -/
def positionBehind (i : Nat) : Option Nat := (execIndices body).findIdx? fun j => i < j

/-- `next_exec_pos_by_exec_pos_`. -/
def nextPosition (p : Nat) : Option Nat :=
  if p + 1 < (execIndices body).length then some (p + 1) else none

/-- The last line that declares a name: an entry of a map is written again by a later line. -/
def lastNamed (named : Instruction → Option String) (name : String) : Option Nat :=
  ((List.range body.length).filter fun i => named (instructionAt body i) == some name).getLast?

/-- `label_to_exec_pos_`, where no position stands for the `-1` of a label at the end. -/
def labelToExecPos (name : String) : Option (Option Nat) :=
  (lastNamed body labelName name).map (positionBehind body)

/-- `branch_tables_`. -/
def branchTable (name : String) : Option (List String) :=
  (lastNamed body tableName name).map fun i => (instructionAt body i).operands.tail

/-- The instructions that end a block (`9826`). -/
def terminates (instruction : Instruction) : Bool :=
  ["bra", "brx", "ret", "exit"].contains (rootOpcode instruction.opcode)

/-- `leaders` (`9816-9830`), but for the entry. -/
def leader (p : Nat) : Bool :=
  (body.any fun instruction =>
    (labelName instruction).any fun name => labelToExecPos body name == some (some p)) ||
  terminates (executed body (p - 1))

inductive Block
  | exit
  | bb (position : Nat)
  deriving DecidableEq

/-- `block_name_for_exec_pos`. -/
def blockFor : Option Nat → Block
  | none => .exit
  | some p => .bb p

/-- A line, or the lines of one instruction that runs through. The others are a branch, a switch or
a return that an instruction makes, and the branches and the return that `emit_body` adds. -/
inductive Line
  | label (block : Block)
  | code (p : Nat)
  | condBr (p : Nat) (inverted : Bool) (taken other : Block)
  | jump (p : Nat) (target : Block)
  | switch (p : Nat) (cases : List Block) (other : Block)
  | leave (p : Nat)
  | br (target : Block)
  | ret
  deriving DecidableEq

def inverted (instruction : Instruction) : Bool := startsWith (trim instruction.predicate) "@!"

def blockForLabel (name : String) : Block := blockFor ((labelToExecPos body name).getD none)

/-- `emit_instruction_block` (`9675-9725`) for an instruction that it accepts. -/
def emitInstruction (p : Nat) : Line :=
  let instruction := executed body p
  let root := rootOpcode instruction.opcode
  if root = "ret" ∨ root = "exit" then .leave p
  else if root = "bra" then
    if instruction.predicate ≠ "" then
      .condBr p (inverted instruction) (blockForLabel body (instruction.operands.headD ""))
        (blockFor (nextPosition body p))
    else .jump p (blockForLabel body (instruction.operands.headD ""))
  else if root = "brx" then
    .switch p (((branchTable body (instruction.operands.getD 1 "")).getD []).map
      (blockForLabel body)) (blockFor (nextPosition body p))
  else .code p

/-- The lines from position `p` on, when so many instructions remain. A block whose last
instruction runs through gets a branch, and a leader its label. -/
def emitFrom : Nat → Nat → List Line
  | 0, _ => [.label .exit, .ret]
  | remaining + 1, p =>
    let terminated := terminates (executed body p)
    let starts := leader body (p + 1)
    emitInstruction body p ::
      ((if terminated then []
        else if remaining = 0 then [.br .exit]
        else if starts then [.br (.bb (p + 1))] else []) ++
      ((if remaining ≠ 0 ∧ (terminated ∨ starts) then [.label (.bb (p + 1))] else []) ++
        emitFrom remaining (p + 1)))

/-- What the emitters refuse; `lowers` stands for those of the other instructions. -/
def accepted (lowers : Instruction → Bool) (instruction : Instruction) : Bool :=
  let root := rootOpcode instruction.opcode
  (instruction.predicate = "" || root = "bra") &&
    if root = "ret" || root = "exit" then true
    else if root = "bra" then
      instruction.operands ≠ [] &&
        (labelToExecPos body (instruction.operands.headD "")).isSome &&
        (instruction.predicate = "" || startsWith (trim instruction.predicate) "@%" ||
          startsWith (trim instruction.predicate) "@!%")
    else if root = "brx" then
      instruction.operands.length = 2 && startsWith (instruction.operands.headD "") "%" &&
        (branchTable body (instruction.operands.getD 1 "")).any fun targets =>
          targets.all fun name => (labelToExecPos body name).isSome
    else lowers instruction

def emitBody (lowers : Instruction → Bool) : Option (List Line) :=
  if (execIndices body).all (fun i => accepted body lowers (instructionAt body i)) ∧
      body.all fun instruction => tableName instruction = none || 2 ≤ instruction.operands.length then
    if execIndices body = [] then some [.ret]
    else some (.br (.bb 0) :: .label (.bb 0) :: emitFrom body (execIndices body).length 0)
  else none

/-- The lines behind a label. -/
def blockAt (lines : List Line) (block : Block) : List Line :=
  (lines.dropWhile (· ≠ .label block)).tail

def visit (p : Nat) (run : List Nat × Bool) : List Nat × Bool := (p :: run.1, run.2)

/-- The instructions that the function executes, and whether it has returned. `choices` are the
values of the register that the executed instructions read. -/
def runLines (lines : List Line) (choices : Nat → Nat) : Nat → Nat → List Line → List Nat × Bool
  | fuel + 1, k, .code p :: rest => visit p (runLines lines choices fuel (k + 1) rest)
  | fuel + 1, k, .condBr p inverted taken other :: _ =>
    visit p (runLines lines choices fuel (k + 1)
      (blockAt lines (if (choices k ≠ 0) ≠ (inverted = true) then taken else other)))
  | fuel + 1, k, .jump p target :: _ =>
    visit p (runLines lines choices fuel (k + 1) (blockAt lines target))
  | fuel + 1, k, .switch p cases other :: _ =>
    visit p (runLines lines choices fuel (k + 1) (blockAt lines (cases.getD (choices k) other)))
  | _ + 1, _, .leave p :: _ => ([p], true)
  | fuel + 1, k, .br target :: _ => runLines lines choices fuel k (blockAt lines target)
  | _ + 1, _, .ret :: _ => ([], true)
  | _, _, _ => ([], false)

/-- What the names of a body mean: the line that declares them, in whose scope an instruction
stands. -/
structure Scoping where
  label : Nat → String → Nat
  table : Nat → String → Nat
  label_named : ∀ i name, (∃ j, labelName (instructionAt body j) = some name) →
    labelName (instructionAt body (label i name)) = some name
  table_named : ∀ i name, (∃ j, tableName (instructionAt body j) = some name) →
    tableName (instructionAt body (table i name)) = some name

variable {body}

/-- Where PTX goes on after the instruction at a position, by what its register holds. -/
def Scoping.next (scoping : Scoping body) (p value : Nat) : Option Nat :=
  let i := (execIndices body).getD p 0
  let instruction := instructionAt body i
  let root := rootOpcode instruction.opcode
  if root = "ret" ∨ root = "exit" then none
  else if root = "bra" then
    if instruction.predicate = "" ∨ (value ≠ 0) ≠ (inverted instruction = true) then
      positionBehind body (scoping.label i (instruction.operands.headD ""))
    else nextPosition body p
  else if root = "brx" then
    let table := scoping.table i (instruction.operands.getD 1 "")
    match (instructionAt body table).operands.tail[value]? with
    | some name => positionBehind body (scoping.label table name)
    | none => nextPosition body p
  else nextPosition body p

def Scoping.run (scoping : Scoping body) (choices : Nat → Nat) :
    Nat → Nat → Option Nat → List Nat × Bool
  | _, _, none => ([], true)
  | 0, _, some _ => ([], false)
  | n + 1, k, some p => visit p (scoping.run choices n (k + 1) (scoping.next p (choices k)))

/-- The name that the branch at a position follows, by what its register holds, means the last line
that declares it. -/
def Scoping.Honoured (scoping : Scoping body) (p value : Nat) : Prop :=
  let i := (execIndices body).getD p 0
  let instruction := instructionAt body i
  let root := rootOpcode instruction.opcode
  (root = "bra" → instruction.predicate = "" ∨ (value ≠ 0) ≠ (inverted instruction = true) →
    labelToExecPos body (instruction.operands.headD "") =
      some (positionBehind body (scoping.label i (instruction.operands.headD "")))) ∧
  (root = "brx" →
    let table := scoping.table i (instruction.operands.getD 1 "")
    ((branchTable body (instruction.operands.getD 1 "")).getD [])[value]?.map (labelToExecPos body) =
      (instructionAt body table).operands.tail[value]?.map fun name =>
        some (positionBehind body (scoping.label table name)))

/-- Behind a label: lines that run through, one terminator, and the next block. -/
inductive Formed : List Line → Prop
  | code {p : Nat} {rest : List Line} : Formed rest → Formed (.code p :: rest)
  | last {line : Line} : (∀ p, line ≠ .code p) → (∀ b, line ≠ .label b) → Formed [line]
  | next {line : Line} {block : Block} {rest : List Line} : (∀ p, line ≠ .code p) →
      (∀ b, line ≠ .label b) → Formed rest → Formed (line :: .label block :: rest)

variable (body) in
theorem emitInstruction_ne_label (p : Nat) (block : Block) :
    emitInstruction body p ≠ .label block := by
  unfold emitInstruction
  grind

variable {p : Nat}

theorem emitInstruction_eq_code {q : Nat} :
    emitInstruction body p = .code q → terminates (executed body p) = false := by
  unfold emitInstruction terminates
  grind

theorem emitInstruction_of_runs (runs : terminates (executed body p) = false) :
    emitInstruction body p = .code p := by
  unfold terminates at runs
  unfold emitInstruction
  grind

variable (body) in
theorem emitFrom_last (p : Nat) :
    (terminates (executed body p) = true ∧
      emitFrom body 1 p = [emitInstruction body p, .label .exit, .ret]) ∨
    (terminates (executed body p) = false ∧
      emitFrom body 1 p = [.code p, .br .exit, .label .exit, .ret]) := by
  cases ends : terminates (executed body p) with
  | true => simp [emitFrom, ends]
  | false => simp [emitFrom, ends, emitInstruction_of_runs ends]

variable (body) in
theorem emitFrom_next (remaining p : Nat) :
    (terminates (executed body p) = true ∧ leader body (p + 1) = true ∧
      emitFrom body (remaining + 2) p =
        emitInstruction body p :: .label (.bb (p + 1)) :: emitFrom body (remaining + 1) (p + 1)) ∨
    (terminates (executed body p) = false ∧ leader body (p + 1) = true ∧
      emitFrom body (remaining + 2) p = .code p :: .br (.bb (p + 1)) :: .label (.bb (p + 1)) ::
        emitFrom body (remaining + 1) (p + 1)) ∨
    (terminates (executed body p) = false ∧ leader body (p + 1) = false ∧
      emitFrom body (remaining + 2) p = .code p :: emitFrom body (remaining + 1) (p + 1)) := by
  rw [emitFrom]
  cases ends : terminates (executed body p) with
  | true => simp [leader, ends]
  | false => cases leader body (p + 1) <;> simp [emitInstruction_of_runs ends]

theorem formed_emitFrom (remaining p : Nat) : Formed (emitFrom body (remaining + 1) p) := by
  have ends_block (p : Nat) (block : Block) (rest : List Line)
      (ends : terminates (executed body p) = true) (formed : Formed rest) :
      Formed (emitInstruction body p :: .label block :: rest) :=
    .next (fun q code => by simp [emitInstruction_eq_code code] at ends)
      (emitInstruction_ne_label body p) formed
  have returns : Formed [.ret] := .last nofun nofun
  induction remaining generalizing p with
  | zero =>
    obtain ⟨ends, lines⟩ | ⟨-, lines⟩ := emitFrom_last body p <;> rw [lines]
    · exact ends_block p .exit _ ends returns
    · exact .code (.next nofun nofun returns)
  | succ remaining ih =>
    obtain ⟨ends, -, lines⟩ | ⟨-, -, lines⟩ | ⟨-, -, lines⟩ :=
      emitFrom_next body remaining p <;> rw [lines]
    · exact ends_block p _ _ ends (ih (p + 1))
    · exact .code (.next nofun nofun (ih (p + 1)))
    · exact .code (ih (p + 1))

@[simp] theorem blockAt_cons (line : Line) (lines : List Line) (block : Block) :
    blockAt (line :: lines) block = if line = .label block then lines else blockAt lines block := by
  by_cases found : line = .label block <;> simp [blockAt, found]

variable {remaining : Nat}

/-- A block holds what is emitted from its position. -/
theorem blockAt_emitFrom {q : Nat} (behind : p < q) (inside : q ≤ p + remaining)
    (starts : leader body q = true) :
    blockAt (emitFrom body (remaining + 1) p) (.bb q) =
      emitFrom body (p + (remaining + 1) - q) q := by
  induction remaining generalizing p with
  | zero => omega
  | succ remaining ih =>
    have rest : blockAt (.label (.bb (p + 1)) :: emitFrom body (remaining + 1) (p + 1)) (.bb q) =
        emitFrom body (p + (remaining + 2) - q) q := by
      obtain later | rfl := Nat.lt_or_eq_of_le (Nat.succ_le_of_lt behind)
      · rw [blockAt_cons, if_neg (by simp; omega), ih later (by omega)]
        congr 1; omega
      · rw [blockAt_cons, if_pos rfl]
        congr 1; omega
    obtain ⟨-, -, lines⟩ | ⟨-, -, lines⟩ | ⟨-, runs, lines⟩ :=
      emitFrom_next body remaining p <;> rw [lines, ← rest]
    · rw [blockAt_cons, if_neg (emitInstruction_ne_label body p _)]
    · simp
    · have other : p + 1 ≠ q := by grind
      simp [other]

theorem blockAt_exit (remaining p : Nat) :
    blockAt (emitFrom body (remaining + 1) p) .exit = [.ret] := by
  induction remaining generalizing p with
  | zero =>
    obtain ⟨-, lines⟩ | ⟨-, lines⟩ := emitFrom_last body p <;>
      simp [lines, emitInstruction_ne_label]
  | succ remaining ih =>
    obtain ⟨-, -, lines⟩ | ⟨-, -, lines⟩ | ⟨-, -, lines⟩ :=
      emitFrom_next body remaining p <;> simp [lines, emitInstruction_ne_label, ih]

theorem count_label (remaining p : Nat) (block : Block) :
    (emitFrom body (remaining + 1) p).count (.label block) = match block with
      | .exit => 1
      | .bb q => if p < q ∧ q ≤ p + remaining ∧ leader body q then 1 else 0 := by
  induction remaining generalizing p with
  | zero =>
    obtain ⟨-, lines⟩ | ⟨-, lines⟩ := emitFrom_last body p <;>
      cases block <;> simp [lines, emitInstruction_ne_label] <;> omega
  | succ remaining ih =>
    have front := emitInstruction_ne_label body p block
    obtain ⟨-, starts, lines⟩ | ⟨-, starts, lines⟩ | ⟨-, runs, lines⟩ :=
      emitFrom_next body remaining p <;> rw [lines] <;>
        cases block <;> simp [count_cons, ih, front] <;> grind


theorem lastNamed_eq {named : Instruction → Option String} {name : String} {i : Nat}
    (last : lastNamed body named name = some i) :
    instructionAt body i ∈ body ∧ named (instructionAt body i) = some name := by
  have found := mem_of_getLast? last
  simp only [mem_filter, mem_range, beq_iff_eq] at found
  refine ⟨?_, found.2⟩
  simp [instructionAt, found.1]

/-- The label of a position stands in the function. -/
def Entered (body : List Instruction) (target : Option Nat) : Prop :=
  ∀ q ∈ target, q < (execIndices body).length ∧ (q = 0 ∨ leader body q = true)

variable (body) in
theorem entered_none : Entered body none := nofun

variable (body) in
theorem entered_label (name : String) : Entered body ((labelToExecPos body name).getD none) := by
  intro q target
  cases last : lastNamed body labelName name with
  | none => simp [labelToExecPos, last] at target
  | some i =>
    have position : labelToExecPos body name = some (positionBehind body i) := by
      simp [labelToExecPos, last]
    have behind : positionBehind body i = some q := by simpa [position] using target
    obtain ⟨inside, -⟩ := findIdx?_eq_some_iff_findIdx_eq.mp behind
    obtain ⟨member, named⟩ := lastNamed_eq last
    refine ⟨inside, .inr ?_⟩
    simp only [leader, Bool.or_eq_true, any_eq_true]
    exact .inl ⟨_, member, by simp [named, position, behind]⟩

theorem entered_nextPosition (ends : terminates (executed body p) = true) :
    Entered body (nextPosition body p) := by
  intro q next
  have starts : leader body (p + 1) = true := by simp [leader, ends]
  grind [nextPosition]

/-- The label of a block stands in the function. -/
def Block.Stands (body : List Instruction) (block : Block) : Prop :=
  ∃ t, block = blockFor t ∧ Entered body t

/-- The blocks that a line branches to. -/
def Line.targets : Line → List Block
  | .condBr _ _ taken other => [taken, other]
  | .jump _ target | .br target => [target]
  | .switch _ cases other => other :: cases
  | _ => []

variable {block : Block}

theorem entered_emitInstruction (target : block ∈ (emitInstruction body p).targets) :
    block.Stands body := by
  by_cases ends : terminates (executed body p) = true
  · have next := entered_nextPosition ends
    have label (name : String) : (blockForLabel body name).Stands body :=
      ⟨_, rfl, entered_label body name⟩
    dsimp only [emitInstruction] at target
    split_ifs at target
    · simp [Line.targets] at target
    · obtain rfl | rfl : block = _ ∨ block = _ := by simpa [Line.targets] using target
      · exact label _
      · exact ⟨_, rfl, next⟩
    · obtain rfl : block = _ := by simpa [Line.targets] using target
      exact label _
    · obtain rfl | ⟨name, -, rfl⟩ : block = _ ∨ ∃ name ∈ _, blockForLabel body name = block := by
        simpa [Line.targets] using target
      · exact ⟨_, rfl, next⟩
      · exact label name
    · simp [Line.targets] at target
  · rw [emitInstruction_of_runs (by simpa using ends)] at target
    simp [Line.targets] at target

theorem entered_emitFrom {line : Line} (all : p + remaining + 1 = (execIndices body).length)
    (member : line ∈ emitFrom body (remaining + 1) p) (target : block ∈ line.targets) :
    block.Stands body := by
  have first (p : Nat) (same : line = emitInstruction body p) : block.Stands body :=
    entered_emitInstruction (same ▸ target)
  have exit : Block.exit.Stands body := ⟨none, rfl, entered_none body⟩
  induction remaining generalizing p with
  | zero =>
    obtain ⟨-, lines⟩ | ⟨-, lines⟩ := emitFrom_last body p <;>
      grind [Line.targets]
  | succ remaining ih =>
    have rest := ih (p := p + 1) (by omega)
    obtain ⟨-, -, lines⟩ | ⟨-, starts, lines⟩ | ⟨-, -, lines⟩ :=
      emitFrom_next body remaining p
    · grind [Line.targets]
    · have next : (Block.bb (p + 1)).Stands body :=
        ⟨some (p + 1), rfl, by simp [Entered, starts]; omega⟩
      grind [Line.targets]
    · grind [Line.targets]

variable (body) in
/-- The lines of a body that executes something. -/
def emittedLines : List Line :=
  .br (.bb 0) :: .label (.bb 0) :: emitFrom body (execIndices body).length 0

variable (body) in
/-- What is emitted for a position, or for the end. -/
def codeAt : Option Nat → List Line
  | none => [.ret]
  | some q => emitFrom body ((execIndices body).length - q) q

variable {t : Option Nat}

theorem count_entered (some_executed : execIndices body ≠ []) (entered : Entered body t) :
    (emittedLines body).count (.label (blockFor t)) = 1 := by
  obtain ⟨r, length⟩ := Nat.exists_eq_succ_of_ne_zero (length_eq_zero_iff.not.mpr some_executed)
  cases t with
  | none => simp [emittedLines, length, count_label, blockFor]
  | some q =>
    have inside := entered q rfl
    simp only [emittedLines, length, blockFor, count_cons, count_label]
    grind

theorem blockAt_entered (some_executed : execIndices body ≠ []) (entered : Entered body t) :
    blockAt (emittedLines body) (blockFor t) = codeAt body t := by
  obtain ⟨r, length⟩ := Nat.exists_eq_succ_of_ne_zero (length_eq_zero_iff.not.mpr some_executed)
  cases t with
  | none => simp [emittedLines, length, blockAt_exit, blockFor, codeAt]
  | some q =>
    obtain ⟨inside, rfl | starts⟩ := entered q rfl
    · simp [emittedLines, blockFor, codeAt]
    · obtain rfl | positive := Nat.eq_zero_or_pos q
      · simp [emittedLines, blockFor, codeAt]
      · simp only [emittedLines, length, blockFor, codeAt, blockAt_cons]
        rw [if_neg (by simp), if_neg (by simp; omega),
          blockAt_emitFrom positive (by omega) starts, Nat.zero_add]

/-! ## The runs agree -/

/-- The block that a branching line goes to. -/
def Line.goesTo (value : Nat) : Line → Option Block
  | .condBr _ inverted taken other =>
    some (if (value ≠ 0) ≠ (inverted = true) then taken else other)
  | .jump _ target => some target
  | .switch _ cases other => some (cases.getD value other)
  | _ => none

theorem runLines_of_goesTo {lines rest : List Line} {choices : Nat → Nat} {fuel k : Nat}
    (goes : (emitInstruction body p).goesTo (choices k) = some block) :
    runLines lines choices (fuel + 1) k (emitInstruction body p :: rest) =
      visit p (runLines lines choices fuel (k + 1) (blockAt lines block)) := by
  unfold emitInstruction at goes ⊢
  grind [Line.goesTo, runLines]

theorem next_of_runs (scoping : Scoping body) (runs : terminates (executed body p) = false)
    (value : Nat) : scoping.next p value = nextPosition body p := by
  unfold terminates executed at runs
  grind [Scoping.next]

/-- A branch whose name is honoured goes where PTX goes. -/
theorem emitInstruction_goesTo {scoping : Scoping body} {value : Nat}
    (ends : terminates (executed body p) = true) (honoured : scoping.Honoured p value) :
    Entered body (scoping.next p value) ∧
      (emitInstruction body p = .leave p ∧ scoping.next p value = none ∨
        (emitInstruction body p).goesTo value = some (blockFor (scoping.next p value))) := by
  obtain ⟨branches, indexed⟩ := honoured
  have next := entered_nextPosition ends
  have label {name : String} {t : Option Nat} (means : labelToExecPos body name = some t) :
      Entered body t ∧ blockForLabel body name = blockFor t := by
    have entered := entered_label body name
    rw [means] at entered
    exact ⟨entered, by simp [blockForLabel, means]⟩
  rw [← executed] at branches indexed
  dsimp only [Scoping.next, emitInstruction]
  rw [← executed]
  split_ifs with leaves branch taken predicated always index
  · exact ⟨entered_none body, .inl ⟨rfl, rfl⟩⟩
  · obtain ⟨entered, block⟩ := label (branches branch taken)
    exact ⟨entered, .inr (by
      rw [Line.goesTo, if_pos (taken.resolve_left predicated), block])⟩
  · obtain ⟨entered, block⟩ := label (branches branch taken)
    exact ⟨entered, .inr (by rw [Line.goesTo, block])⟩
  · exact ⟨next, .inr (by rw [Line.goesTo, if_neg (not_or.mp taken).2])⟩
  · exact absurd (.inl (not_not.mp always)) taken
  · have means := indexed index
    simp only [Line.goesTo, getD_eq_getElem?_getD, getElem?_map] at means ⊢
    generalize (instructionAt body _).operands.tail[value]? = meant at means ⊢
    generalize ((branchTable body _).getD [])[value]? = found at means ⊢
    cases meant <;> cases found <;> simp at means
    · exact ⟨next, .inr rfl⟩
    · obtain ⟨entered, block⟩ := label means
      exact ⟨entered, .inr (by simp [block])⟩
  · simp [terminates, index, branch, not_or.mp leaves] at ends

theorem runLines_codeAt (scoping : Scoping body) (choices : Nat → Nat) (n k : Nat)
    (t : Option Nat) (inside : ∀ p ∈ t, p < (execIndices body).length)
    (honoured : ∀ j p, (scoping.run choices n k t).1[j]? = some p →
      scoping.Honoured p (choices (k + j))) :
    ∃ fuel, runLines (emittedLines body) choices fuel k (codeAt body t) =
      scoping.run choices n k t := by
  induction n generalizing k t with
  | zero =>
    cases t with
    | none => exact ⟨1, rfl⟩
    | some p => exact ⟨0, by simp [runLines, Scoping.run]⟩
  | succ n ih =>
    cases t with
    | none => exact ⟨1, rfl⟩
    | some p =>
      have some_executed : execIndices body ≠ [] := by
        have := inside p rfl
        rintro empty
        simp [empty] at this
      rw [Scoping.run] at honoured ⊢
      have continues (inside : ∀ q ∈ scoping.next p (choices k), q < (execIndices body).length) :=
        ih (k + 1) (scoping.next p (choices k)) inside
          fun j q visited => by
            rw [show k + 1 + j = k + (j + 1) by omega]
            exact honoured (j + 1) q visited
      obtain ⟨remaining, length⟩ := Nat.exists_eq_add_of_lt (inside p rfl)
      have code : codeAt body (some p) = emitFrom body (remaining + 1) p := by
        rw [codeAt]; congr 1; omega
      rw [code]
      cases ends : terminates (executed body p) with
      | true =>
        obtain ⟨rest, lines⟩ : ∃ rest,
            emitFrom body (remaining + 1) p = emitInstruction body p :: rest := ⟨_, rfl⟩
        obtain ⟨entered, ⟨leaves, returned⟩ | goes⟩ :=
          emitInstruction_goesTo ends (show scoping.Honoured p (choices k) from honoured 0 p rfl)
        · refine ⟨1, ?_⟩
          rw [lines, leaves, returned]
          cases n <;> rfl
        · obtain ⟨fuel, agrees⟩ := continues fun q member => (entered q member).1
          refine ⟨fuel + 1, ?_⟩
          rw [lines, runLines_of_goesTo goes, blockAt_entered some_executed entered, agrees]
      | false =>
        have next := next_of_runs scoping ends (choices k)
        obtain ⟨fuel, agrees⟩ := continues fun q member => by grind [nextPosition]
        rw [← agrees, next]
        cases remaining with
        | zero =>
          obtain ⟨also, -⟩ | ⟨-, lines⟩ := emitFrom_last body p
          · simp [ends] at also
          have exit := blockAt_entered some_executed (entered_none body)
          rw [nextPosition, if_neg (by omega), lines, ← exit]
          exact ⟨fuel + 2, rfl⟩
        | succ remaining =>
          have code : emitFrom body (remaining + 1) (p + 1) = codeAt body (some (p + 1)) := by
            rw [codeAt]; congr 1; omega
          rw [nextPosition, if_pos (by omega)]
          obtain ⟨also, -⟩ | ⟨-, starts, lines⟩ | ⟨-, -, lines⟩ :=
            emitFrom_next body remaining p
          · simp [ends] at also
          · have entered : Entered body (some (p + 1)) := by simp [Entered, starts]; omega
            rw [lines, ← blockAt_entered some_executed entered]
            exact ⟨fuel + 2, rfl⟩
          · rw [lines, code]
            exact ⟨fuel + 1, rfl⟩

variable (body) in
/-- The position at which a body starts. -/
def entry : Option Nat := if execIndices body = [] then none else some 0

/-- Every block ends in one terminator, every block that is branched to exists once, and a run whose
branches are honoured executes what PTX does. -/
theorem emitBody_refines {lowers : Instruction → Bool} {lines : List Line}
    (emitted : emitBody body lowers = some lines) :
    Formed lines ∧
      (∀ line ∈ lines, ∀ block ∈ line.targets, lines.count (.label block) = 1) ∧
      ∀ (scoping : Scoping body) (choices : Nat → Nat) (n : Nat),
        (∀ j p, (scoping.run choices n 0 (entry body)).1[j]? = some p →
          scoping.Honoured p (choices j)) →
        ∃ fuel, runLines lines choices fuel 0 lines = scoping.run choices n 0 (entry body) := by
  unfold emitBody at emitted
  split at emitted
  case isFalse => cases emitted
  split at emitted
  case isTrue nothing =>
    obtain rfl : [.ret] = lines := by simpa using emitted
    refine ⟨.last nofun nofun, by simp [Line.targets], fun scoping choices n _ => ⟨1, ?_⟩⟩
    rw [entry, if_pos nothing]
    cases n <;> rfl
  case isFalse some_executed =>
    obtain rfl : emittedLines body = lines := by simpa [emittedLines] using emitted
    obtain ⟨r, length⟩ :=
      Nat.exists_eq_succ_of_ne_zero (length_eq_zero_iff.not.mpr some_executed)
    refine ⟨?_, ?_, fun scoping choices n honoured => ?_⟩
    · rw [emittedLines, length]
      exact .next nofun nofun (formed_emitFrom r 0)
    · intro line member block target
      obtain ⟨t, rfl, entered⟩ : block.Stands body := by
        rw [emittedLines, length] at member
        obtain rfl | rfl | member := by simpa using member
        · exact ⟨some 0, by simpa [Line.targets, blockFor] using target, by simp [Entered, length]⟩
        · simp [Line.targets] at target
        · exact entered_emitFrom (by omega) member target
      exact count_entered some_executed entered
    · rw [entry, if_neg some_executed] at honoured ⊢
      obtain ⟨fuel, agrees⟩ := runLines_codeAt scoping choices n 0 (some 0)
        (by simp [length]) (by simpa using honoured)
      exact ⟨fuel + 1, by rw [← agrees]; simp [emittedLines, runLines, codeAt]⟩

/-- Two scopes that declare one name. -/
def reused : List Instruction :=
  [{ opcode := "bra", operands := ["L"], predicate := "@%p1" },
    { opcode := "ptx.label", operands := ["L"] }, { opcode := "add.u32" },
    { opcode := "ptx.label", operands := ["L"] }, { opcode := "ret" }]

def reusedScoping : Scoping reused where
  label _ _ := 1
  table _ _ := 0
  label_named := by
    rintro - name ⟨j, named⟩
    match j, named with
    | 1, named | 3, named => exact named
    | 0, named | 2, named | 4, named | j + 5, named => cases named
  table_named := by
    rintro - name ⟨j, named⟩
    match j, named with
    | 0, named | 1, named | 2, named | 3, named | 4, named | j + 5, named => cases named

/-- The branch is not taken. -/
theorem emitBody_refines_reused : ∃ lines, emitBody reused (fun _ => true) = some lines ∧
    Formed lines ∧ ∃ fuel, runLines lines (fun _ => 0) fuel 0 lines = ([0, 1, 2], true) := by
  obtain ⟨formed, -, runs⟩ := emitBody_refines (show emitBody reused (fun _ => true) = some _ from rfl)
  refine ⟨_, rfl, formed, runs reusedScoping (fun _ => 0) 3 fun j p visited => ?_⟩
  match j, visited with
  | 0, visited =>
    cases visited
    exact ⟨fun _ taken => absurd taken (by decide), fun index => absurd index (by decide)⟩
  | 1, visited | 2, visited =>
    cases visited
    exact ⟨fun branch => absurd branch (by decide), fun index => absurd index (by decide)⟩
  | j + 3, visited => cases visited

/-- The branch leaves its scope, and skips an instruction. -/
theorem emitBody_reused : ∃ lines, emitBody reused (fun _ => true) = some lines ∧
    reusedScoping.run (fun _ => 1) 3 0 (entry reused) = ([0, 1, 2], true) ∧
    ∀ fuel, runLines lines (fun _ => 1) fuel 0 lines ≠ ([0, 1, 2], true) := by
  refine ⟨[.br (.bb 0), .label (.bb 0), .condBr 0 false (.bb 2) (.bb 1), .label (.bb 1), .code 1,
    .br (.bb 2), .label (.bb 2), .leave 2, .label .exit, .ret], by decide, by decide, fun fuel => ?_⟩
  match fuel with
  | 0 | 1 | 2 => decide
  | fuel + 3 => simp [runLines, visit]
end CuMetal.Ptx.Emitted
