import CuMetal.Ir.MemoryAccesses

/-!
# The addresses of memory accesses

What each instruction accesses, and when that is what its memory operand says.
-/

namespace CuMetal.Ir

open BitVec List Option

open Ptx (rootOpcode firstRegister registersIn parameterNameFromOperand memoryOperandOffset
  memoryOperand BaseName Displacement)
open IrType

namespace ImportTables

variable {tables : ImportTables} {start : Meaning} {emission last : Emission}
  {instruction : Ptx.Instruction}

/-- The tables hold values that exist already, names that are names, and each variable once. -/
structure Valid (tables : ImportTables) (next : ValueId) : Prop where
  environment : ∀ name value, tables.environment.find? name = some value → value < next
  globals : ∀ name operand, tables.moduleGlobalValues.find? name = some operand →
    operand.kind = .value ∧ operand.value < next
  depots : ∀ name operand, tables.localDepotValues.find? name = some operand →
    operand.kind = .value ∧ operand.value < next
  buffer : ∀ buffer, tables.moduleConstantBuffer = some buffer →
    buffer.kind = .value ∧ buffer.value < next ∧ buffer.type = .pointer (.integer 8) .constant
  names : ∀ name, (tables.variableOperand name).isSome ∨
    tables.moduleConstantSymbols.contains name = true → name.toList.all Ptx.isRegisterChar = true
  apart : ∀ name, tables.moduleConstantSymbols.contains name = true →
    tables.variableOperand name = none

variable {next : ValueId} {base address : Operand} {operation guarded : Operation}
  {token source : String} {types : List IrType} {results : List ValueId} {lane : Nat}
  {more : List String}

theorem Valid.mono {later : ValueId} (valid : tables.Valid next) (le : next ≤ later) :
    tables.Valid later where
  environment name value found := lt_of_lt_of_le (valid.environment name value found) le
  globals name operand found :=
    ⟨(valid.globals name operand found).1,
      lt_of_lt_of_le (valid.globals name operand found).2 le⟩
  depots name operand found :=
    ⟨(valid.depots name operand found).1,
      lt_of_lt_of_le (valid.depots name operand found).2 le⟩
  buffer buffer found :=
    ⟨(valid.buffer buffer found).1, lt_of_lt_of_le (valid.buffer buffer found).2.1 le,
      (valid.buffer buffer found).2.2⟩
  names := valid.names
  apart := valid.apart

variable {name : String} {operand : Operand} {operands : List Operand}

theorem Valid.below_variable (valid : tables.Valid next)
    (found : tables.variableOperand name = some operand) : operand.Below next := by
  unfold variableOperand at found
  split at found
  · next operand' global =>
    cases found
    exact fun _ => (valid.globals name _ global).2
  · split at found
    · cases found
      exact fun kind => absurd kind (by simp [Operand.symbol])
    · split at found
      · cases found
        exact fun kind => absurd kind (by simp [Operand.symbol])
      · exact fun _ => (valid.depots name operand found).2

theorem Valid.below_operandFor (valid : tables.Valid next) (token : String)
    (type : IrType) : (tables.operandFor token type).Below next := by
  unfold operandFor
  dsimp only
  split
  · next value found =>
    split at found
    · exact Operand.below_valueRef (valid.environment _ value found) _
    · cases found
  · split
    · next operand found => exact valid.below_variable found
    · split <;> exact fun kind => absurd kind (by simp [Operand.immediate])

theorem Valid.kind_variable (valid : tables.Valid next)
    (found : tables.variableOperand name = some operand) :
    operand.kind = .value ∨ operand.kind = .symbol ∧ operand.text = name := by
  unfold variableOperand at found
  split at found
  · next operand' global =>
    cases found
    exact .inl (valid.globals name _ global).1
  · split at found
    · cases found
      exact .inr ⟨rfl, rfl⟩
    · split at found
      · cases found
        exact .inr ⟨rfl, rfl⟩
      · exact .inl (valid.depots name operand found).1

theorem operand_operandFor (meaning : Meaning) (token : String) (type type' : IrType) :
    meaning.operand (tables.operandFor token type) =
      meaning.operand (tables.operandFor token type') := by
  unfold operandFor
  dsimp only
  split
  · rfl
  · split
    · rfl
    · split <;> rfl

theorem castAddress_gives (start : Meaning) (below : base.Below emission.next) (type : IrType) :
    emission.Gives start (castAddress emission base type)
      ((start.run emission.operations).1.operand base) := by
  unfold castAddress
  split
  · have emitted := Emission.emit_step start emission
      { opcode := .addressSpaceCast, operands := [base] }
      { type with addressSpace := base.type.addressSpace }
      ((start.run emission.operations).1.operand base) rfl
    exact ⟨emitted.1, emitted.2.1, emitted.2.2⟩
  · exact Emission.gives_self below

theorem memoryAddressOperand_gives (start : Meaning) (valid : tables.Valid emission.next)
    (token : String)
    (type : IrType) : emission.Gives start (tables.memoryAddressOperand emission token type)
      ((start.run emission.operations).1.operand (tables.operandFor token {}) +
        BitVec.ofInt 64 (memoryOperandOffset token)) := by
  rw [operand_operandFor _ token {} type]
  have cast := castAddress_gives start (valid.below_operandFor token type) type
  unfold memoryAddressOperand
  dsimp only
  split
  · next zero =>
    rw [zero, show BitVec.ofInt 64 0 = 0#64 from rfl, BitVec.add_zero]
    exact cast
  · rw [← cast.word_eq]
    split
    · exact cast.trans (Emission.offsetBytes_gives _ _ _ _)
    · rw [← Meaning.operand_retyped _ _ type]
      exact cast.trans (Emission.offsetBytes_gives _ _ _ _)

theorem appendGuard_ok (appended : tables.appendGuard operation instruction = .ok guarded) :
    guarded.opcode = operation.opcode ∧ guarded.results = operation.results ∧
      ∃ guard, guarded.operands = operation.operands ++ guard := by
  unfold appendGuard at appended
  split at appended
  · obtain rfl := Except.ok.inj appended
    exact ⟨rfl, rfl, [], (append_nil _).symm⟩
  · dsimp only at appended
    split at appended
    · cases appended
    · obtain rfl := Except.ok.inj appended
      exact ⟨rfl, rfl, _, rfl⟩

theorem guarded_step (start : Meaning) (emission : Emission)
    (appended : tables.appendGuard operation instruction = .ok guarded)
    (opcode : operation.opcode = .load ∨ operation.opcode = .atomic)
    (reads : operation.operands = address :: operands) :
    emission.Step start (emission.push guarded)
      [⟨(start.run emission.operations).1.operand address, .into operation.results⟩] := by
  obtain ⟨same, results, guard, with_⟩ := appendGuard_ok appended
  apply Emission.push_step
  unfold Meaning.step
  rcases opcode with opcode | opcode <;> simp [same, results, with_, opcode, reads]

theorem guarded_store_step (start : Meaning) (emission : Emission) {stored : Operand}
    (appended : tables.appendGuard operation instruction = .ok guarded)
    (opcode : operation.opcode = .store)
    (reads : operation.operands = address :: stored :: operands) :
    emission.Step start (emission.push guarded)
      [⟨(start.run emission.operations).1.operand address,
        .from_ ((start.run emission.operations).1.operand stored)⟩] := by
  obtain ⟨same, results, guard, with_⟩ := appendGuard_ok appended
  apply Emission.push_step
  unfold Meaning.step
  simp [same, with_, opcode, reads]

/-! ### Each instruction -/

/-- The address that a store or an atomic operation uses for its first lane. -/
def usedWord (tables : ImportTables) (meaning : Meaning) (token : String) : BitVec 64 :=
  meaning.operand (tables.operandFor token {}) + BitVec.ofInt 64 (memoryOperandOffset token)

/-- The address that a load uses for its first lane. -/
def loadedWord (tables : ImportTables) (meaning : Meaning) (token : String) : BitVec 64 :=
  match tables.moduleConstantSymbols.find? (parameterNameFromOperand token),
      tables.moduleConstantBuffer with
  | some offset, some buffer =>
    meaning.operand buffer + BitVec.ofInt 64 ((offset : Int) + memoryOperandOffset token)
  | _, _ => tables.usedWord meaning token

variable {first : Emission} {accesses : List Access}

theorem usedWord_step (valid : tables.Valid first.next)
    (step : first.Step start emission accesses) (token : String) :
    tables.usedWord (start.run emission.operations).1 token =
      tables.usedWord (start.run first.operations).1 token := by
  rw [usedWord, step.keeps _ (valid.below_operandFor token {}), usedWord]

theorem loadAddress_gives (start : Meaning) (valid : tables.Valid emission.next)
 {given : Operand × Emission}
    (found : tables.loadAddress instruction token types emission = .ok given) :
    emission.Gives start given (tables.loadedWord (start.run emission.operations).1 token) := by
  unfold loadAddress at found
  split at found
  · next offset constant =>
    split at found
    · cases found
    · next buffer some_ =>
      obtain ⟨kind, below, type⟩ := valid.buffer buffer some_
      simp only [loadedWord, constant, some_]
      have wrapped : BitVec.ofInt 64 ((offset : Int) + memoryOperandOffset token) =
          BitVec.ofInt 64 (((offset : Int) + memoryOperandOffset token).bmod (2 ^ 64)) := by
        rw [← toInt_inj, toInt_ofInt, toInt_ofInt, Int.bmod_bmod]
      rw [wrapped]
      dsimp only at found
      split at found
      · next zero =>
        obtain rfl := Except.ok.inj found
        rw [zero, show BitVec.ofInt 64 0 = 0#64 from rfl, BitVec.add_zero]
        exact Emission.gives_self fun _ => below
      · obtain rfl := Except.ok.inj found
        have emitted := Emission.emit_step start emission
          { opcode := .pointerOffset
            operands := [buffer, .immediate (toString
              (((offset : Int) + memoryOperandOffset token).bmod (2 ^ 64))) (.integer 64)] }
          (.pointer (.integer 8) .constant)
          ((start.run emission.operations).1.operand buffer + BitVec.ofInt 64
            (((offset : Int) + memoryOperandOffset token).bmod (2 ^ 64)))
          (by
            have unit : ∀ last : Operand, Meaning.offsetUnit
                { opcode := .pointerOffset, results := [emission.next]
                  resultTypes := [.pointer (.integer 8) .constant]
                  operands := [buffer, last] } = 1 := by
              intro last
              simp [Meaning.offsetUnit, type, pointer, integer, typeSize]
            simp only [Meaning.step, unit, Meaning.operand_immediate]
            rw [show BitVec.ofNat 64 1 = 1#64 from rfl, BitVec.mul_one])
        exact ⟨emitted.1, emitted.2.1, emitted.2.2⟩
  · next none_ =>
    obtain rfl := Except.ok.inj found
    simp only [loadedWord, none_]
    exact memoryAddressOperand_gives start valid token _

theorem loadLane_step (start : Meaning)
    (emitted : tables.loadLane instruction base results types emission lane = .ok last) :
    emission.Step start last
      [⟨(start.run emission.operations).1.operand base +
        BitVec.ofNat 64 (lane * (ptxScalarType instruction.opcode).typeSize),
        .into (results[lane]?).toList⟩] := by
  unfold loadLane at emitted
  dsimp only at emitted
  obtain ⟨load, appended, emitted⟩ := bind_eq_ok emitted
  obtain rfl := Except.ok.inj emitted
  have offset := Emission.offsetBytes_gives start emission base
    ((lane * (ptxScalarType instruction.opcode).typeSize : Nat) : Int)
  have loaded := guarded_step start (emission.offsetBytes base
    ((lane * (ptxScalarType instruction.opcode).typeSize : Nat) : Int)).2 appended (.inl rfl) rfl
  rw [offset.word_eq, ofInt_natCast] at loaded
  exact offset.step.trans loaded

/-- The lanes of an access in the order of its operations: the first one comes last. -/
def laneOrder (lanes : Nat) : List Nat := List.range' 1 (lanes - 1) ++ [0]

def laneResults (results : List ValueId) (lanes lane : Nat) : List ValueId :=
  if lanes ≤ 1 then results else (results[lane]?).toList

theorem loadedWord_step (valid : tables.Valid first.next)
    (step : first.Step start emission accesses) (token : String) :
    tables.loadedWord (start.run emission.operations).1 token =
      tables.loadedWord (start.run first.operations).1 token := by
  unfold loadedWord
  split
  · next offset buffer _ some_ =>
    rw [step.keeps buffer fun _ => (valid.buffer buffer some_).2.1]
  · exact usedWord_step valid step token

theorem loadLanes_step (start : Meaning) (valid : tables.Valid emission.next)
    {kept : List ValueId} {types' : List IrType}
    (emitted : tables.loadLanes instruction token results types emission =
      .ok (last, kept, types')) :
    emission.Step start last
      ((List.range' 1 (memoryVectorWidth instruction.opcode - 1)).map fun lane =>
        ⟨tables.loadedWord (start.run emission.operations).1 token +
          BitVec.ofNat 64 (lane * (ptxScalarType instruction.opcode).typeSize),
          .into (laneResults results (memoryVectorWidth instruction.opcode) lane)⟩) ∧
      kept = laneResults results (memoryVectorWidth instruction.opcode) 0 := by
  unfold loadLanes at emitted
  dsimp only at emitted
  split at emitted
  · next scalar =>
    simp only [Except.ok.injEq, Prod.mk.injEq] at emitted
    obtain ⟨rfl, rfl, -⟩ := emitted
    refine ⟨?_, by rw [laneResults, if_pos scalar]⟩
    rw [Nat.sub_eq_zero_of_le scalar]
    exact .refl start _
  · next vector =>
    split at emitted
    · cases emitted
    · split at emitted
      · cases emitted
      · next variable_ =>
        obtain ⟨after, lanes, emitted⟩ := bind_eq_ok emitted
        simp only [Except.ok.injEq, Prod.mk.injEq] at emitted
        obtain ⟨rfl, rfl, -⟩ := emitted
        have gives := memoryAddressOperand_gives start valid token
          (.pointer (ptxScalarType instruction.opcode) (accessAddressSpace instruction.opcode))
        have word : tables.loadedWord (start.run emission.operations).1 token =
            (start.run emission.operations).1.operand (tables.operandFor token {}) +
              BitVec.ofInt 64 (memoryOperandOffset token) := by
          have none_ :
              tables.moduleConstantSymbols.find? (parameterNameFromOperand token) = none := by
            simpa [AssocMap.contains] using variable_
          rw [loadedWord, none_, usedWord]
        rw [word, ← gives.word_eq]
        constructor
        · apply gives.step.trans
          refine Emission.lanes_step _ ?_ (.refl start _) lanes
          intro emission' next lane accesses before here
          have step := loadLane_step start here
          rw [before.keeps _ gives.below] at step
          rw [laneResults, if_neg vector]
          exact step
        · rw [laneResults, if_neg vector]
          cases results <;> rfl

variable {destination : String}

theorem translateLoad_step (start : Meaning) (valid : tables.Valid emission.next)
    (operands : instruction.operands = destination :: token :: more)
    (emitted : tables.translateLoad instruction results types emission = .ok last) :
    emission.Step start last ((laneOrder (memoryVectorWidth instruction.opcode)).map fun lane =>
      ⟨tables.loadedWord (start.run emission.operations).1 token +
        BitVec.ofNat 64 (lane * (ptxScalarType instruction.opcode).typeSize),
        .into (laneResults results (memoryVectorWidth instruction.opcode) lane)⟩) := by
  unfold translateLoad at emitted
  rw [operands] at emitted
  dsimp only at emitted
  obtain ⟨⟨middle, kept, types'⟩, lanes, emitted⟩ := bind_eq_ok emitted
  obtain ⟨⟨pointer, addressed⟩, found, emitted⟩ := bind_eq_ok emitted
  obtain ⟨load, appended, emitted⟩ := bind_eq_ok emitted
  obtain rfl := Except.ok.inj emitted
  obtain ⟨before, rfl⟩ := loadLanes_step start valid lanes
  have gives := loadAddress_gives start (valid.mono before.grows) found
  have loaded := guarded_step start addressed appended (.inl rfl) rfl
  rw [gives.word_eq, loadedWord_step valid before] at loaded
  rw [laneOrder, map_append]
  apply before.trans
  rw [List.map_singleton, Nat.zero_mul, show BitVec.ofNat 64 0 = 0#64 from rfl, BitVec.add_zero]
  exact gives.step.trans loaded

theorem contained_store_step (start : Meaning) (valid : tables.Valid emission.next)
 (below : address.Below emission.next) {type : IrType}
    (appended : tables.appendGuard operation instruction = .ok guarded)
    (opcode : operation.opcode = .store) (reads : operation.operands =
      [address, (emission.container (tables.operandFor source type) type).1]) :
    emission.Step start
      ((emission.container (tables.operandFor source type) type).2.push guarded)
      [⟨(start.run emission.operations).1.operand address,
        .from_ ((start.run emission.operations).1.operand (tables.operandFor source {}))⟩] := by
  have stored := Emission.container_gives start (valid.below_operandFor source type) type
  have done := guarded_store_step start
    (emission.container (tables.operandFor source type) type).2 appended opcode reads
  rw [stored.word_eq, stored.step.keeps _ below, operand_operandFor _ source type {}] at done
  exact stored.step.trans done

theorem storeLane_step (start : Meaning) (valid : tables.Valid emission.next)
    {laneRegisters : List String}
    (emitted : tables.storeLane instruction base laneRegisters emission lane = .ok last) :
    emission.Step start last
      [⟨(start.run emission.operations).1.operand base +
        BitVec.ofNat 64 (lane * (ptxScalarType instruction.opcode).typeSize),
        .from_ ((start.run emission.operations).1.operand
          (tables.operandFor (laneRegisters.getD lane "") {}))⟩] := by
  unfold storeLane at emitted
  dsimp only at emitted
  obtain ⟨store, appended, emitted⟩ := bind_eq_ok emitted
  obtain rfl := Except.ok.inj emitted
  have offset := Emission.offsetBytes_gives start emission base
    ((lane * (ptxScalarType instruction.opcode).typeSize : Nat) : Int)
  have done := contained_store_step start (valid.mono offset.step.grows) offset.below
    appended rfl rfl
  rw [offset.step.keeps _ (valid.below_operandFor _ {}), offset.word_eq,
    ofInt_natCast] at done
  exact offset.step.trans done

def laneSource (source : String) (lanes lane : Nat) : String :=
  if lanes ≤ 1 then source else (registersIn source).getD lane ""

theorem laneSource_zero (source : String) (lanes : Nat) :
    (if lanes > 1 then (registersIn source).getD 0 "" else source) = laneSource source lanes 0 := by
  unfold laneSource
  by_cases scalar : lanes ≤ 1
  · rw [if_pos scalar, if_neg (not_lt.mpr scalar)]
  · rw [if_neg scalar, if_pos (Nat.lt_of_not_le scalar)]

variable {lanes : Nat}

theorem laneSource_later (mem : lane ∈ List.range' 1 (lanes - 1)) :
    laneSource source lanes lane = (registersIn source).getD lane "" := by
  have vector : ¬ lanes ≤ 1 := by
    intro scalar
    rw [Nat.sub_eq_zero_of_le scalar] at mem
    cases mem
  rw [laneSource, if_neg vector]

theorem translateStore_step (start : Meaning) (valid : tables.Valid emission.next)
    (operands : instruction.operands = token :: source :: more)
    (emitted : tables.translateStore instruction results types emission = .ok last) :
    emission.Step start last ((laneOrder (memoryVectorWidth instruction.opcode)).map fun lane =>
      ⟨tables.usedWord (start.run emission.operations).1 token +
        BitVec.ofNat 64 (lane * (ptxScalarType instruction.opcode).typeSize),
        .from_ ((start.run emission.operations).1.operand (tables.operandFor
          (laneSource source (memoryVectorWidth instruction.opcode) lane) {}))⟩) := by
  unfold translateStore at emitted
  rw [operands] at emitted
  dsimp only at emitted
  rw [laneSource_zero] at emitted
  split at emitted
  · cases emitted
  · obtain ⟨middle, lanes, emitted⟩ := bind_eq_ok emitted
    obtain ⟨store, appended, emitted⟩ := bind_eq_ok emitted
    obtain rfl := Except.ok.inj emitted
    have gives := memoryAddressOperand_gives start valid token
      (.pointer (ptxScalarType instruction.opcode) (accessAddressSpace instruction.opcode))
    have valid' := valid.mono gives.step.grows
    have before := Emission.lanes_step
      (fun lane =>
        ⟨tables.usedWord (start.run emission.operations).1 token +
          BitVec.ofNat 64 (lane * (ptxScalarType instruction.opcode).typeSize),
          .from_ ((start.run emission.operations).1.operand (tables.operandFor
            ((registersIn source).getD lane "") {}))⟩)
      (by
        intro emission' next lane accesses kept here
        have step := storeLane_step start (valid'.mono kept.grows) here
        rw [kept.keeps _ gives.below, gives.word_eq, kept.keeps _ (valid'.below_operandFor _ {}),
          gives.step.keeps _ (valid.below_operandFor _ {})] at step
        exact step) (.refl start _) lanes
    have stored := contained_store_step start (valid'.mono before.grows)
      (gives.below.mono before.grows) appended rfl rfl
    rw [before.keeps _ gives.below, gives.word_eq, before.keeps _ (valid'.below_operandFor _ {}),
      gives.step.keeps _ (valid.below_operandFor _ {})] at stored
    rw [laneOrder, map_append, map_singleton, Nat.zero_mul,
      show BitVec.ofNat 64 0 = 0#64 from rfl, BitVec.add_zero,
      map_congr_left fun lane mem => by rw [laneSource_later mem]]
    exact gives.step.trans (before.trans stored)

theorem translateAtomic_step (start : Meaning) (valid : tables.Valid emission.next)
    {previous : Option Operation} (operands : instruction.operands = destination :: token :: more)
    (emitted : tables.translateAtomic instruction results types previous emission = .ok last) :
    emission.Step start last
      [⟨tables.usedWord (start.run emission.operations).1 token, .into results⟩] := by
  unfold translateAtomic at emitted
  dsimp only at emitted
  split at emitted
  · cases emitted
  · rw [operands] at emitted
    cases more with
    | nil => cases emitted
    | cons source more =>
      dsimp only at emitted
      obtain ⟨atomic, appended, emitted⟩ := bind_eq_ok emitted
      obtain rfl := Except.ok.inj emitted
      have gives := memoryAddressOperand_gives start valid token
        (.pointer (ptxScalarType instruction.opcode)
          (if mentions instruction.opcode ".shared." then .threadgroup else .device))
      have done := guarded_step start (tables.memoryAddressOperand emission token
          (.pointer (ptxScalarType instruction.opcode)
            (if mentions instruction.opcode ".shared." then .threadgroup else .device))).2
        appended (.inr rfl) rfl
      rw [gives.word_eq] at done
      exact gives.step.trans done

/-! ## What the operand says -/

section

variable (tables : ImportTables) (meaning : Meaning) (opcode : AccessOpcode) (base : BaseName)
  (displacement : Displacement)

/-- The address of the base of a memory operand. -/
def baseAddress : BitVec 64 :=
  match if base.register then tables.environment.find? base.name else none with
  | some value => meaning.value value
  | none =>
    match tables.moduleConstantSymbols.find? base.name, tables.moduleConstantBuffer with
    | some offset, some buffer => meaning.operand buffer + BitVec.ofInt 64 offset
    | _, _ =>
      match tables.variableOperand base.name with
      | some operand => meaning.operand operand
      | none => meaning.symbol base.name

/-- The importer finds the base: a register that has a value, or a variable that it has a place for,
and from which nothing is subtracted. -/
def Finds : Prop :=
  if base.register then tables.environment.contains base.name = true
  else (∀ literal, displacement ≠ .minus literal) ∧
    ((tables.variableOperand base.name).isSome ∨
      opcode.root = "ld" ∧ tables.moduleConstantSymbols.contains base.name = true)

/-- The address that the operations use for the first lane. -/
def firstWord (token : String) : BitVec 64 :=
  if opcode.root = "ld" then tables.loadedWord meaning token else tables.usedWord meaning token

def lanesEmitted : Nat := if opcode.root ∈ ["ld", "st"] then opcode.lanesFound else 1

def transfer (instruction : Ptx.Instruction) (results : List ValueId) (lanes lane : Nat) :
    Transfer :=
  if opcode.root = "st" then
    .from_ (meaning.operand
      (tables.operandFor (laneSource (instruction.operands.getD 1 "") lanes lane) {}))
  else .into (laneResults results lanes lane)

end

section

variable {meaning : Meaning} {opcode : AccessOpcode} {base : BaseName} {displacement : Displacement}

theorem name_of_base (name : String) (same : name = base.name)
    (listed : name.toList.all Ptx.isRegisterChar = true) : base.register = false := by
  by_contra register
  have sigil : '%' ∈ name.toList := by
    simp [same, BaseName.name, BaseName.text, Bool.eq_true_of_not_eq_false register]
  exact absurd (all_eq_true.mp listed _ sigil) (by decide)

/-- A name that a memory operand spells and that is listed is that of a variable from which nothing
is subtracted. -/
theorem listed_namedBase
    (listed : (Ptx.namedBase base displacement).toList.all Ptx.isRegisterChar = true) :
    base.register = false ∧ (∀ literal, displacement ≠ .minus literal) ∧
      Ptx.namedBase base displacement = base.name := by
  cases displacement with
  | none => exact ⟨name_of_base _ rfl listed, by simp, rfl⟩
  | plus literal => exact ⟨name_of_base _ rfl listed, by simp, rfl⟩
  | minus literal =>
    have sign : '-' ∈ (Ptx.namedBase base (.minus literal)).toList := by
      simp [Ptx.namedBase]
    exact absurd (all_eq_true.mp listed _ sign) (by decide)

theorem firstRegister_base :
    (if firstRegister (memoryOperand base displacement) ≠ "" then
      tables.environment.find? (firstRegister (memoryOperand base displacement)) else none) =
        if base.register then tables.environment.find? base.name else none := by
  rw [Ptx.firstRegister_memoryOperand]
  by_cases register : base.register = true
  · have some_ : base.name ≠ "" := by
      intro same
      have text := congrArg String.toList same
      simp [BaseName.name, BaseName.text, base.nonempty] at text
    simp only [register, if_true]
    rw [if_pos some_]
  · simp only [register, Bool.false_eq_true, if_false, ne_eq, not_true_eq_false]

theorem trim_memoryOperand : Ptx.trim (memoryOperand base displacement) =
    memoryOperand base displacement := by
  have plain : ∀ c ∈ (memoryOperand base displacement).toList, Ptx.isSpace c = false := by
    intro c mem
    rw [memoryOperand, String.toList_ofList, List.cons_append, List.mem_cons, List.mem_append,
      mem_singleton] at mem
    rcases mem with rfl | inside | rfl
    · decide
    · exact Ptx.isSpace_of_operandChar (Ptx.isOperandChar_inside base displacement inside)
    · decide
  rw [Ptx.trim, Ptx.trimChars_of_plain plain, String.ofList_toList]

theorem decimal_memoryOperand : Meaning.decimal (memoryOperand base displacement) = none := by
  rw [Meaning.decimal, memoryOperand, String.toList_ofList, List.cons_append,
    Numerals.leadingInt_of_head (by decide) (by decide),
    Numerals.leadingNat_of_head (by decide)]
  rfl

theorem operand_memoryOperand :
    meaning.operand (tables.operandFor (memoryOperand base displacement) {}) =
      match if base.register then tables.environment.find? base.name else none with
      | some value => meaning.value value
      | none =>
        match tables.variableOperand (Ptx.namedBase base displacement) with
        | some operand => meaning.operand operand
        | none => meaning.symbol (memoryOperand base displacement) := by
  unfold operandFor
  dsimp only
  rw [firstRegister_base, Ptx.parameterNameFromOperand_memoryOperand, trim_memoryOperand]
  cases if base.register then tables.environment.find? base.name else none with
  | some value => rfl
  | none =>
    dsimp only
    cases tables.variableOperand (Ptx.namedBase base displacement) with
    | some operand => rfl
    | none =>
      dsimp only
      split <;>
        · simp only [Meaning.operand, Operand.immediate]
          rw [decimal_memoryOperand]

variable {next : ValueId} (valid : tables.Valid next)

theorem usedWord_memoryOperand : tables.usedWord meaning (memoryOperand base displacement) =
    meaning.operand (tables.operandFor (memoryOperand base displacement) {}) +
      BitVec.ofInt 64 displacement.read := by
  rw [usedWord, Ptx.memoryOperandOffset_memoryOperand]

theorem firstWord_variable (other : opcode.root = "ld" →
    tables.moduleConstantSymbols.find? (Ptx.namedBase base displacement) = none) :
    tables.firstWord meaning opcode (memoryOperand base displacement) =
      tables.usedWord meaning (memoryOperand base displacement) := by
  unfold firstWord
  split
  · next load =>
    rw [loadedWord, Ptx.parameterNameFromOperand_memoryOperand, other load]
  · rfl

theorem contains_of_find? {offset : Nat}
    (found : tables.moduleConstantSymbols.find? name = some offset) :
    tables.moduleConstantSymbols.contains name = true := by
  rw [AssocMap.contains, found]
  rfl

include valid in
theorem not_listed_register (displacement : Displacement) (register : base.register = true) :
    tables.variableOperand (Ptx.namedBase base displacement) = none ∧
      tables.moduleConstantSymbols.find? (Ptx.namedBase base displacement) = none := by
  constructor
  · by_contra found
    have listed := listed_namedBase (valid.names _ (.inl (isSome_iff_ne_none.mpr found)))
    rw [listed.1] at register
    cases register
  · by_contra found
    obtain ⟨offset, found⟩ := ne_none_iff_exists'.mp found
    have listed := listed_namedBase (valid.names _ (.inr (contains_of_find? found)))
    rw [listed.1] at register
    cases register

include valid in
/-- Where the base is found, the address is the one of the base and what is read behind it. -/
theorem firstWord_found (meaning : Meaning) (found : tables.Finds opcode base displacement)
    (buffer : opcode.root = "ld" →
      tables.moduleConstantSymbols.contains (Ptx.namedBase base displacement) = true →
        tables.moduleConstantBuffer.isSome) :
    tables.firstWord meaning opcode (memoryOperand base displacement) =
      tables.baseAddress meaning base + BitVec.ofInt 64 displacement.read := by
  unfold Finds at found
  by_cases register : base.register = true
  · rw [if_pos register] at found
    obtain ⟨value, found⟩ := Option.isSome_iff_exists.mp found
    rw [firstWord_variable fun _ => (not_listed_register valid displacement register).2,
      usedWord_memoryOperand,
      operand_memoryOperand, baseAddress, if_pos register, found]
  · rw [if_neg register] at found
    obtain ⟨plus, found⟩ := found
    have name : Ptx.namedBase base displacement = base.name := by
      cases displacement with
      | none => rfl
      | plus literal => rfl
      | minus literal => exact absurd rfl (plus literal)
    by_cases constant : opcode.root = "ld" ∧ tables.moduleConstantSymbols.contains base.name = true
    · obtain ⟨buffer, some_⟩ := Option.isSome_iff_exists.mp
        (buffer constant.1 (name ▸ constant.2))
      obtain ⟨offset, found⟩ := Option.isSome_iff_exists.mp constant.2
      rw [firstWord, if_pos constant.1, loadedWord, Ptx.parameterNameFromOperand_memoryOperand,
        name, baseAddress, if_neg register, found, some_, Ptx.memoryOperandOffset_memoryOperand]
      simp only [BitVec.ofInt_add, BitVec.add_assoc]
    · obtain ⟨operand, found⟩ := Option.isSome_iff_exists.mp (found.resolve_right constant)
      have apart : tables.moduleConstantSymbols.find? base.name = none := by
        by_contra both
        obtain ⟨offset, both⟩ := Option.ne_none_iff_exists'.mp both
        rw [valid.apart _ (contains_of_find? both)] at found
        cases found
      rw [firstWord_variable fun _ => name ▸ apart, usedWord_memoryOperand, operand_memoryOperand,
        baseAddress, if_neg register, name, apart, found]

include valid in
theorem firstWord_missing (missing : ¬ tables.Finds opcode base displacement) :
    tables.firstWord meaning opcode (memoryOperand base displacement) =
      meaning.symbol (memoryOperand base displacement) + BitVec.ofInt 64 displacement.read := by
  unfold Finds at missing
  by_cases register : base.register = true
  · rw [if_pos register] at missing
    have unbound : tables.environment.find? base.name = none := by
      simpa [AssocMap.contains] using missing
    obtain ⟨variable_, constant⟩ := not_listed_register valid displacement register
    rw [firstWord_variable fun _ => constant, usedWord_memoryOperand, operand_memoryOperand,
      if_pos register, unbound, variable_]
  · rw [if_neg register] at missing
    have variable_ : tables.variableOperand (Ptx.namedBase base displacement) = none := by
      by_contra found
      have some_ := isSome_iff_ne_none.mpr found
      obtain ⟨-, plus, name⟩ := listed_namedBase (valid.names _ (.inl some_))
      exact missing ⟨plus, .inl (name ▸ some_)⟩
    have constant : opcode.root = "ld" →
        tables.moduleConstantSymbols.find? (Ptx.namedBase base displacement) = none := by
      intro load
      by_contra found
      obtain ⟨offset, found⟩ := ne_none_iff_exists'.mp found
      have contains := contains_of_find? found
      obtain ⟨-, plus, name⟩ := listed_namedBase (valid.names _ (.inr contains))
      exact missing ⟨plus, .inr ⟨load, name ▸ contains⟩⟩
    rw [firstWord_variable constant, usedWord_memoryOperand, operand_memoryOperand, if_neg register,
      variable_]

include valid in
theorem baseAddress_point (word word' : BitVec 64) :
    tables.baseAddress (.point (memoryOperand base displacement) word) base =
      tables.baseAddress (.point (memoryOperand base displacement) word') base := by
  have other : base.name ≠ memoryOperand base displacement := by
    intro same
    have bracket : '[' ∈ base.text := by
      have text := congrArg String.toList same
      rw [BaseName.name, String.toList_ofList, memoryOperand, String.toList_ofList] at text
      rw [text]
      exact mem_append_left _ mem_cons_self
    exact base.ne_of_mem bracket (d := '[') (by decide) (by decide) rfl
  unfold baseAddress
  split
  · rfl
  · split
    · next offset buffer _ some_ =>
      simp [Meaning.operand, (valid.buffer buffer some_).1, Meaning.point]
    · split
      · next operand found =>
        rcases valid.kind_variable found with kind | ⟨kind, text⟩
        · simp [Meaning.operand, kind, Meaning.point]
        · simp [Meaning.operand, kind, text, Meaning.point, other]
      · simp [Meaning.point, other]

end

/-! ## When the addresses are those that the operand says -/

variable {results : List ValueId} {types : List IrType} {token : String}

theorem translateLoad_buffer {more : List String}
    (operands : instruction.operands = destination :: token :: more)
    (emitted : tables.translateLoad instruction results types emission = .ok last)
    (constant : tables.moduleConstantSymbols.contains (parameterNameFromOperand token) = true) :
    tables.moduleConstantBuffer.isSome := by
  unfold translateLoad at emitted
  rw [operands] at emitted
  dsimp only at emitted
  obtain ⟨⟨middle, kept, types'⟩, lanes, emitted⟩ := bind_eq_ok emitted
  obtain ⟨given, found, -⟩ := bind_eq_ok emitted
  obtain ⟨offset, some_⟩ := isSome_iff_exists.mp constant
  unfold loadAddress at found
  rw [some_] at found
  dsimp only at found
  split at found
  · cases found
  · next buffer some_ => rw [some_]; rfl

def memoryIndex (opcode : AccessOpcode) : Nat := if opcode.root = "st" then 0 else 1

theorem translateAccess_cases {opcode : AccessOpcode}
    (spelled : instruction.opcode = opcode.spelling) {previous : Option Operation}
    (emitted : tables.translateAccess instruction results types previous emission = .ok last) :
    opcode.root = "ld" ∧ tables.translateLoad instruction results types emission = .ok last ∨
      opcode.root = "st" ∧ tables.translateStore instruction results types emission = .ok last ∨
        opcode.root = "atom" ∧
          tables.translateAtomic instruction results types previous emission = .ok last := by
  unfold translateAccess at emitted
  dsimp only at emitted
  rw [spelled, opcode.rootOpcode_spelling] at emitted
  split at emitted
  · cases emitted
  · split at emitted
    · next root => exact .inl ⟨root, emitted⟩
    · split at emitted
      · next root => exact .inr (.inl ⟨root, emitted⟩)
      · split at emitted
        · next root => exact .inr (.inr ⟨root, emitted⟩)
        · cases emitted

theorem operands_of_index {operands : List String} :
    (operands[0]? = some token → ∃ more, operands = token :: more) ∧
      (operands[1]? = some token → ∃ first more, operands = first :: token :: more) := by
  constructor
  · intro found
    cases operands with
    | nil => cases found
    | cons first more => exact ⟨more, by rw [some.inj found]⟩
  · intro found
    cases operands with
    | nil => cases found
    | cons first more =>
      cases more with
      | nil => cases found
      | cons second more => exact ⟨first, more, by rw [some.inj found]⟩

theorem laneResults_one (results : List ValueId) (lane : Nat) :
    laneResults results 1 lane = results := if_pos (le_refl 1)

theorem translateAccess_step (start : Meaning) (valid : tables.Valid emission.next)
    {opcode : AccessOpcode} (spelled : instruction.opcode = opcode.spelling)
 {previous : Option Operation} (operand : instruction.operands[memoryIndex opcode]? = some token)
    (emitted : tables.translateAccess instruction results types previous emission = .ok last) :
    emission.Step start last ((laneOrder (lanesEmitted opcode)).map fun lane =>
      ⟨tables.firstWord (start.run emission.operations).1 opcode token +
        BitVec.ofNat 64 (lane * (ptxScalarType opcode.spelling).typeSize),
        tables.transfer (start.run emission.operations).1 opcode instruction results
          (lanesEmitted opcode) lane⟩) := by
  have width := opcode.memoryVectorWidth_spelling
  unfold lanesEmitted firstWord transfer
  rcases translateAccess_cases spelled emitted with ⟨root, load⟩ | ⟨root, store⟩ | ⟨root, atomic⟩
  · simp only [memoryIndex, root, if_false, String.reduceEq] at operand ⊢
    obtain ⟨destination, more, operands⟩ := operands_of_index.2 operand
    have step := translateLoad_step start valid operands load
    rw [spelled, width] at step
    simpa using step
  · simp only [memoryIndex, root, if_true, if_false, String.reduceEq] at operand ⊢
    obtain ⟨more, operands⟩ := operands_of_index.1 operand
    cases more with
    | nil =>
      simp only [translateStore, operands] at store
      cases store
    | cons source more =>
      have step := translateStore_step start valid operands store
      rw [spelled, width] at step
      simpa [operands] using step
  · simp only [memoryIndex, root, if_false, String.reduceEq] at operand ⊢
    obtain ⟨destination, more, operands⟩ := operands_of_index.2 operand
    have step := translateAtomic_step start valid operands atomic
    simpa [laneOrder, laneResults_one] using step

/-- The addresses that the operand says, for every lane, whatever the values and the names are. -/
def Addressed (tables : ImportTables) (opcode : AccessOpcode) (base : BaseName)
    (displacement : Displacement) (instruction : Ptx.Instruction) (results : List ValueId)
    (operations : List Operation) : Prop :=
  ∀ meaning : Meaning, (meaning.run operations).2 = (laneOrder opcode.width.lanes).map fun lane =>
    ⟨tables.baseAddress meaning base + BitVec.ofInt 64 displacement.value +
      BitVec.ofNat 64 (lane * opcode.bytes),
      tables.transfer meaning opcode instruction results opcode.width.lanes lane⟩

/-- The importer finds the base, reads the displacement that is spelled, and steps through all the
lanes by the size of an element. -/
structure Follows (tables : ImportTables) (opcode : AccessOpcode) (base : BaseName)
    (displacement : Displacement) : Prop where
  finds : tables.Finds opcode base displacement
  reads : displacement.Exact
  lanes : opcode.width = .one ∨ opcode.root ∈ ["ld", "st"] ∧ opcode.width ≠ .eight ∧
    (ptxScalarType opcode.spelling).typeSize = opcode.bytes

theorem typeSize_ptxScalarType (spelling : String) : (ptxScalarType spelling).typeSize ≤ 8 := by
  have bits : ptxTypeBits spelling ≤ 64 := by
    unfold ptxTypeBits
    cases found : ([8, 16, 32, 64] : List Nat).find?
        fun bits => mentions spelling (toString bits) with
    | none => decide
    | some bits =>
      have all : ∀ bits ∈ ([8, 16, 32, 64] : List Nat), bits ≤ 64 := by decide
      exact all bits (mem_of_find?_eq_some found)
  unfold ptxScalarType
  split
  · decide
  · split
    · simp only [floating, typeSize]
      omega
    · simp only [integer, typeSize]
      omega

theorem length_laneOrder (some_ : 0 < lanes) : (laneOrder lanes).length = lanes := by
  simp only [laneOrder, length_append, length_range', length_singleton]
  omega

theorem zero_mem_laneOrder (lanes : Nat) : 0 ∈ laneOrder lanes := by simp [laneOrder]

theorem one_mem_laneOrder (vector : 1 < lanes) : 1 ∈ laneOrder lanes := by
  rw [laneOrder, mem_append, mem_range']
  exact .inl ⟨0, by omega, rfl⟩

/-- All the lanes are emitted for one element, and for the vectors that loads and stores know. -/
theorem lanesEmitted_eq_iff (opcode : AccessOpcode) :
    lanesEmitted opcode = opcode.width.lanes ↔
      opcode.width = .one ∨ opcode.root ∈ ["ld", "st"] ∧ opcode.width ≠ .eight := by
  unfold lanesEmitted AccessOpcode.lanesFound
  by_cases root : opcode.root ∈ ["ld", "st"]
  · rw [if_pos root]
    cases opcode.width <;> simp [VectorWidth.lanes, root]
  · rw [if_neg root]
    cases opcode.width <;> simp [VectorWidth.lanes, root]

theorem lanesEmitted_pos (opcode : AccessOpcode) : 0 < lanesEmitted opcode := by
  unfold lanesEmitted AccessOpcode.lanesFound
  split
  · cases opcode.width <;> decide
  · decide

theorem lanes_pos (width : VectorWidth) : 0 < width.lanes := by
  cases width <;> decide

section

variable {opcode : AccessOpcode} {base : BaseName} {displacement : Displacement}
  {results : List ValueId} {types : List IrType} {previous : Option Operation}

/-- The accesses of an instruction are those of its operand exactly when as many lanes are emitted
and each begins where it should. -/
theorem accesses_eq_iff {meaning : Meaning} {word word' : BitVec 64}
    (size : (ptxScalarType opcode.spelling).typeSize ≤ 8) :
    ((laneOrder (lanesEmitted opcode)).map fun lane =>
      (⟨word + BitVec.ofNat 64 (lane * (ptxScalarType opcode.spelling).typeSize),
        tables.transfer meaning opcode instruction results (lanesEmitted opcode) lane⟩ : Access)) =
      ((laneOrder opcode.width.lanes).map fun lane =>
        (⟨word' + BitVec.ofNat 64 (lane * opcode.bytes),
          tables.transfer meaning opcode instruction results opcode.width.lanes lane⟩ : Access)) ↔
      word = word' ∧ (opcode.width = .one ∨ opcode.root ∈ ["ld", "st"] ∧ opcode.width ≠ .eight ∧
        (ptxScalarType opcode.spelling).typeSize = opcode.bytes) := by
  have small := opcode.bytes_le
  constructor
  · intro same
    have lanes : lanesEmitted opcode = opcode.width.lanes := by
      have lengths := congrArg length same
      rwa [length_map, length_map, length_laneOrder (lanesEmitted_pos opcode),
        length_laneOrder (lanes_pos _)] at lengths
    rw [lanes] at same
    have each := map_inj_left.mp same
    have first := congrArg Access.address (each 0 (zero_mem_laneOrder _))
    simp only [Nat.zero_mul, BitVec.add_zero] at first
    refine ⟨first, ?_⟩
    rcases (lanesEmitted_eq_iff opcode).mp lanes with one | ⟨root, width⟩
    · exact .inl one
    · by_cases one : opcode.width = .one
      · exact .inl one
      · have vector : 1 < opcode.width.lanes := by
          cases width' : opcode.width <;> simp_all [VectorWidth.lanes]
        have second := congrArg Access.address (each 1 (one_mem_laneOrder vector))
        simp only [Nat.one_mul, first, BitVec.add_right_inj] at second
        have sizes := congrArg BitVec.toNat second
        rw [BitVec.toNat_ofNat, BitVec.toNat_ofNat, Nat.mod_eq_of_lt (by omega),
          Nat.mod_eq_of_lt (by omega)] at sizes
        exact .inr ⟨root, width, sizes⟩
  · rintro ⟨rfl, one | ⟨root, width, sizes⟩⟩
    · have order : laneOrder VectorWidth.one.lanes = [0] := rfl
      rw [(lanesEmitted_eq_iff opcode).mpr (.inl one), one, order, map_singleton,
        map_singleton, Nat.zero_mul, Nat.zero_mul]
    · rw [(lanesEmitted_eq_iff opcode).mpr (.inr ⟨root, width⟩), sizes]

/-- A load that is accepted has the buffer of the constants that it reads. -/
theorem buffer_of_accepted (spelled : instruction.opcode = opcode.spelling)
    {token : String} (operand : instruction.operands[memoryIndex opcode]? = some token)
    (emitted : tables.translateAccess instruction results types previous emission = .ok last)
    (load : opcode.root = "ld")
    (constant : tables.moduleConstantSymbols.contains (parameterNameFromOperand token) = true) :
    tables.moduleConstantBuffer.isSome := by
  simp only [memoryIndex, load, if_false, String.reduceEq] at operand
  obtain ⟨destination, more, operands⟩ := operands_of_index.2 operand
  rcases translateAccess_cases spelled emitted with ⟨_, loaded⟩ | ⟨root, _⟩ | ⟨root, _⟩
  · exact translateLoad_buffer operands loaded constant
  · rw [load] at root
    exact absurd root (by decide)
  · rw [load] at root
    exact absurd root (by decide)

end

/-- One register, which holds a pointer. -/
def pointerRegister : ImportTables where
  environment := [("%rd1", 1)]
  valueTypes := [(1, .pointer (.integer 32) .device)]
  moduleGlobalValues := []
  moduleInitializedSymbols := []
  threadgroupSymbols := []
  localDepotValues := []
  moduleConstantSymbols := []
  moduleConstantBuffer := none
  fp64Mode := "emulate"

theorem pointerRegister_valid : pointerRegister.Valid 4 where
  environment name value found := by
    simp only [pointerRegister, AssocMap.find?] at found
    split at found
    · cases found
      decide
    · cases found
  globals name operand found := by cases found
  depots name operand found := by cases found
  buffer buffer found := by cases found
  names name listed := by
    rcases listed with listed | listed
    · simp [variableOperand, pointerRegister] at listed
    · simp [AssocMap.contains, pointerRegister] at listed
  apart name listed := by simp [AssocMap.contains, pointerRegister] at listed

def pointerBase : BaseName := ⟨true, "rd1".toList, by decide, by decide +kernel⟩

/-- `ld.global.v2.u32 {%r1, %r2}, [%rd1+24];` -/
def pairLoad : Ptx.Instruction where
  opcode := "ld.global.v2.u32"
  operands := ["\x7b%r1, %r2\x7d", "[%rd1+24]"]
  supported := true

def pairOpcode : AccessOpcode :=
  ⟨"ld", ["global"], .two, "u32", 4, by decide, by decide, by decide⟩

def twentyFour : Displacement :=
  .plus ⟨.decimal, "24".toList, false, by decide, by decide, fun _ => .inr (by decide)⟩

theorem accepted_of_isOk {ε α : Type} (result : Except ε α) (ok : result.isOk = true) :
    ∃ value, result = .ok value := by
  cases result with
  | ok value => exact ⟨value, rfl⟩
  | error message => cases ok

/-- `ld.global.u32 %r1, [%rd1+0x10];` -/
def hexLoad : Ptx.Instruction where
  opcode := "ld.global.u32"
  operands := ["%r1", "[%rd1+0x10]"]
  supported := true

def wordOpcode : AccessOpcode :=
  ⟨"ld", ["global"], .one, "u32", 4, by decide, by decide, by decide⟩

def hexSixteen : Displacement :=
  .plus ⟨.hexadecimal false, "10".toList, false, by decide, by decide, by simp⟩

end ImportTables

end CuMetal.Ir
