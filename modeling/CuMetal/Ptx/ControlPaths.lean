import CuMetal.Lib.Transition
import CuMetal.Ptx.MaterializeFacts

/-!
# Control paths of a body and of its import

Two machines that visit the instructions of a body: one follows the PTX text, where
`bra`, `ret`, `exit` and `trap` take effect only when their guard holds, the other
follows the blocks and terminators of the imported function.
-/

namespace CuMetal.Ptx

open Ir (Successor Operand Operation BasicBlock Function)

/-- What can be seen of a run: an instruction is visited while its predicate register
    holds or not, and the run ends, normally or in a trap. -/
inductive Event where
  | visit (i : Nat) (holds : Bool)
  | finish (trapped : Bool)
  deriving DecidableEq, Repr

/-- Where control is in the text. -/
inductive TextState where
  | at (position : Nat)
  | done (trapped : Bool)
  | stuck
  | gone
  deriving DecidableEq, Repr

/-- What the labels of a body mean: a name means, at an instruction, one of the lines that declare
    it, in whose scope the instruction stands. -/
structure LabelScope (body : List Instruction) where
  label : Nat → String → Nat
  named : ∀ i name, (∃ j, labelName (instructionAt body j) = some name) →
    labelName (instructionAt body (label i name)) = some name

/-- Where control goes after an instruction. -/
def afterInstruction {body : List Instruction} (scope : LabelScope body) (i : Nat) (holds : Bool) :
    TextState :=
  let instruction := instructionAt body i
  let root := rootOpcode instruction.opcode
  if takesEffect instruction holds then
    if root = "bra" then
      if body.any fun declared => labelName declared == some (branchTarget instruction) then
        .at (scope.label i (branchTarget instruction))
      else .stuck
    else if root = "ret" || root = "exit" then .done false
    else if root = "trap" then .done true
    else .at (i + 1)
  else .at (i + 1)

/-- The steps of the text.  Control that runs off its end has returned. -/
inductive TextStep {body : List Instruction} (scope : LabelScope body) :
    TextState → Option Event → TextState → Prop
  | label {i : Nat} : i < body.length → isLabel (instructionAt body i) = true →
      TextStep scope (.at i) none (.at (i + 1))
  | visit {i : Nat} (holds : Bool) : i < body.length →
      isLabel (instructionAt body i) = false →
      TextStep scope (.at i) (some (.visit i holds)) (afterInstruction scope i holds)
  | fallOff {i : Nat} : body.length ≤ i → TextStep scope (.at i) none (.done false)
  | finish (trapped : Bool) : TextStep scope (.done trapped) (some (.finish trapped)) .gone

/-- Where control is in the imported function: a block, what is left of its
    instructions, and the truth value that the last predicate had. -/
inductive ImportState where
  | run (block : Nat) (rest : List Nat) (holds : Bool)
  | done (trapped : Bool)
  | stuck
  | gone
  deriving DecidableEq, Repr

def startOf (state : SsaState) (index : Nat) : ImportState :=
  .run index (blockAt state.blocks index).instructions true

def enter (state : SsaState) (function : Function) : Option Successor → ImportState
  | none => .stuck
  | some successor =>
    match function.blocks.findIdx? fun block => block.id == successor.block with
    | none => .stuck
    | some index => startOf state index

/-- What a terminator does while its predicate holds or not. -/
def perform (state : SsaState) (function : Function) (terminator : Operation) (holds : Bool) :
    ImportState :=
  match terminator.opcode with
  | .branch => enter state function terminator.successors[0]?
  | .condBranch =>
    if holds != terminator.flag "inverted" then
      enter state function terminator.successors[0]?
    else enter state function terminator.successors[1]?
  | .return => .done false
  | .trap => .done true
  | _ => .stuck

def transfer (state : SsaState) (function : Function) (index : Nat) (holds : Bool) :
    ImportState :=
  match (function.blocks[index]?).bind fun block => block.operations.getLast? with
  | none => .stuck
  | some terminator => perform state function terminator holds

/-- The steps of the imported function. -/
inductive ImportStep (state : SsaState) (function : Function) :
    ImportState → Option Event → ImportState → Prop
  | visit {index i : Nat} {rest : List Nat} {before : Bool} (holds : Bool) :
      ImportStep state function (.run index (i :: rest) before) (some (.visit i holds))
        (.run index rest holds)
  | leave {index : Nat} {holds : Bool} :
      ImportStep state function (.run index [] holds) none (transfer state function index holds)
  | finish (trapped : Bool) :
      ImportStep state function (.done trapped) (some (.finish trapped)) .gone

/-- For every truth value of the predicate at every visited instruction, the text and the
    imported function visit the same instructions and end in the same way. -/
def SameControlPaths {body : List Instruction} (scope : LabelScope body) (state : SsaState)
    (function : Function) : Prop :=
  Lts.Traces (TextStep scope) (.at 0) = Lts.Traces (ImportStep state function) (startOf state 0)

theorem importStep_deterministic (state : SsaState) (function : Function) :
    Lts.Deterministic (ImportStep state function) := by
  constructor
  · intro s s' label u silent step
    cases silent with
    | leave => cases step with | leave => exact ⟨rfl, rfl⟩
  · intro s s' event u first second
    cases first with
    | visit => cases second with | visit => rfl
    | finish => cases second with | finish => rfl

/-! ## Control after a block of the import -/

section

variable {context : ImportContext} {translator : Translator} {body : List Instruction}
  {state : SsaState} {function : Function}

def followEdge (body : List Instruction) (state : SsaState) (index edge : Nat) : ImportState :=
  match (blockSuccessors body index)[edge]? with
  | none => .stuck
  | some target => startOf state target

/-- Control after a block, by the last instruction of the block. -/
def controlAfter (body : List Instruction) (state : SsaState) (index : Nat) (holds : Bool) :
    ImportState :=
  let last := (lastInstruction body index).map (instructionAt body)
  let root := (last.map fun instruction => rootOpcode instruction.opcode).getD ""
  let instruction := last.getD {}
  if root = "bra" then
    if instruction.predicate ≠ "" ∧ (normalizedPredicate instruction.predicate).2 = holds then
      followEdge body state index 1
    else followEdge body state index 0
  else if root = "trap" then .done true
  else if root = "ret" || root = "exit" then .done false
  else if index + 1 < blockCount body then startOf state (index + 1)
  else .done false

variable {index source : Nat}

theorem blockSuccessors_of_fallThrough
    (plain : ∀ i, lastInstruction body index = some i → isTerminatingInstruction (instructionAt
      body i) = false) : blockSuccessors body index = fallThrough body index := by
  unfold blockSuccessors
  split
  · rfl
  · next i last =>
      have other := plain i last
      simp only [isTerminatingInstruction, Bool.or_eq_false_iff, beq_eq_false_iff_ne] at other
      simp [other.1.1.1, other.1.1.2, other.1.2, other.2]

theorem enter_eq (ok : importBody context translator body = .ok (state, function)) {target : Nat}
    {successor : Successor} (bound : target < blockCount body)
    (made : successorTo state source target = .ok successor) :
    enter state function (some successor) = startOf state target := by
  obtain ⟨length, each⟩ := materialized_block ok
  have shape := importSsa_block (importBody_ok ok).1 bound
  simp only [RawBlock.shape, Prod.mk.injEq] at shape
  have hid : successor.block = context.nextBlock + target := by
    unfold successorTo makeSuccessor at made
    cases hargs : (environmentAt state.blockArguments target).mapM fun argument =>
        (environmentAt state.outgoing source).find? argument.1 with
    | none => simp [hargs] at made
    | some arguments =>
      simp only [hargs, Option.map_some] at made
      cases made
      exact shape.1
  have here : function.blocks.findIdx? (fun block => block.id == successor.block) =
      some target := by
    rw [List.findIdx?_eq_some_iff_getElem]
    obtain ⟨block, -, -, -, found, id, -⟩ := each target bound
    obtain ⟨inside, equal⟩ := List.getElem?_eq_some_iff.mp found
    refine ⟨inside, by simp [equal, id, hid], ?_⟩
    intro j less
    obtain ⟨other, -, -, -, found', id', -⟩ := each j (by omega)
    obtain ⟨inside', equal'⟩ := List.getElem?_eq_some_iff.mp found'
    have different : other.id ≠ successor.block := by
      rw [id', hid]
      exact fun same => absurd (Nat.add_left_cancel same) (by omega)
    simpa [equal'] using different
  simp [enter, here]

theorem getElem?_of_mapM :
    ∀ {targets : List Nat} {successors : List Successor},
      targets.mapM (successorTo state source) = .ok successors → ∀ (k : Nat),
        (targets[k]? = none ∧ successors[k]? = none) ∨
          ∃ target successor, targets[k]? = some target ∧ successors[k]? = some successor ∧
            successorTo state source target = .ok successor := by
  intro targets successors ok k
  have all := mapM_eq_ok ok
  have length := all.length_eq
  by_cases bound : k < targets.length
  · exact .inr ⟨targets[k], successors.get ⟨k, length ▸ bound⟩, by simp, by simp,
      (List.forall₂_iff_get.mp all).2 k bound (length ▸ bound)⟩
  · exact .inl ⟨by simp; omega, by simp; omega⟩

theorem perform_branch (ok : importBody context translator body = .ok (state, function))
    (edges : (blockAt state.blocks index).successors = blockSuccessors body index)
    {last : Instruction} (isBra : rootOpcode last.opcode = "bra") {environment : Environment}
    {branch : Operation}
    (made : branchTerminator state translator index last environment = .ok branch) (holds : Bool) :
    perform state function branch holds =
      if last.predicate ≠ "" ∧ (normalizedPredicate last.predicate).2 = holds then
        followEdge body state index 1
      else followEdge body state index 0 := by
  unfold branchTerminator at made
  rw [edges] at made
  split at made
  · simp at made
  next front rest hedges =>
  split at made
  · next guarded =>
      simp only [isConditionalBranch, Bool.and_eq_true, bne_iff_ne, ne_eq] at guarded
      split at made
      · simp at made
      next predicate hpredicate =>
      obtain ⟨successors, hsuccessors, rest⟩ := bind_eq_ok made
      cases rest
      have edge : ∀ k, enter state function successors[k]? =
          followEdge body state index k := by
        intro k
        rcases getElem?_of_mapM hsuccessors k with ⟨noTarget, noSuccessor⟩ |
          ⟨target, successor, hasTarget, hasSuccessor, hmade⟩
        · simp [followEdge, hedges, noTarget, noSuccessor, enter]
        · have inside := blockSuccessors_lt
            (show target ∈ blockSuccessors body index from hedges ▸ List.mem_of_getElem? hasTarget)
          rw [hasSuccessor, enter_eq ok inside hmade]
          simp [followEdge, hedges, hasTarget]
      cases holds <;> cases (normalizedPredicate last.predicate).2 <;>
        simp [perform, Operation.flag, AssocMap.find?, guarded.2, edge]
  · next unguarded =>
      obtain ⟨successor, hsuccessor, rest'⟩ := bind_eq_ok made
      cases rest'
      have inside := blockSuccessors_lt
        (show _ ∈ blockSuccessors body index from hedges ▸ List.mem_cons_self)
      have none : last.predicate = "" := by simpa [isConditionalBranch, isBra] using unguarded
      simp [perform, none, enter_eq ok inside hsuccessor, followEdge, hedges]

theorem transfer_eq (ok : importBody context translator body = .ok (state, function))
    (bound : index < blockCount body) (holds : Bool) :
    transfer state function index holds = controlAfter body state index holds := by
  obtain ⟨-, each⟩ := materialized_block ok
  obtain ⟨block, translated, conversions, final, found, -, last, made⟩ := each index bound
  have shape := importSsa_block (importBody_ok ok).1 bound
  simp only [RawBlock.shape, Prod.mk.injEq] at shape
  have edges := shape.2.2.2.1
  have through : transfer state function index holds = perform state function final holds := by
    simp [transfer, found, last]
  rw [through]
  unfold terminator at made
  unfold controlAfter
  simp only at made ⊢
  generalize hlast : (lastInstruction body index).map (instructionAt body) = maybe at made ⊢
  split at made
  · next isBra =>
      rw [if_pos isBra]
      obtain ⟨branch, hbranch, rest⟩ := bind_eq_ok made
      injection Except.ok.inj rest with _ same
      subst same
      cases maybe with
      | none => simp at isBra
      | some instruction => exact perform_branch ok edges (by simpa using isBra) hbranch holds
  next notBra =>
  rw [if_neg notBra]
  split at made
  · next isTrap =>
      rw [if_pos isTrap]
      injection Except.ok.inj made with _ same
      subst same
      rfl
  next notTrap =>
  rw [if_neg notTrap]
  split at made
  · next isRet =>
      rw [if_pos isRet]
      split at made
      · obtain ⟨⟨c, o⟩, -, rest⟩ := bind_eq_ok made
        injection Except.ok.inj rest with _ same
        subst same
        rfl
      · injection Except.ok.inj made with _ same
        subst same
        rfl
  next notRet =>
  rw [if_neg notRet]
  have plain : blockSuccessors body index = fallThrough body index := by
    apply blockSuccessors_of_fallThrough
    intro i hi
    rw [hi] at hlast
    subst hlast
    simp only [Option.map_some, Option.getD_some, Bool.or_eq_true, decide_eq_true_eq,
      not_or] at notBra notTrap notRet
    simp [isTerminatingInstruction, notBra, notTrap, notRet]
  rw [edges, plain, fallThrough] at made
  by_cases next : index + 1 < blockCount body
  · rw [if_pos next] at made ⊢
    obtain ⟨successor, hsuccessor, rest⟩ := bind_eq_ok made
    injection Except.ok.inj rest with _ same
    subst same
    simp [perform, enter_eq ok next hsuccessor]
  · rw [if_neg next] at made ⊢
    simp only at made
    split at made
    · simp at made
    · injection Except.ok.inj made with _ same
      subst same
      rfl

end

end CuMetal.Ptx
