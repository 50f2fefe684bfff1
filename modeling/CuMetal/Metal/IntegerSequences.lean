import CuMetal.Metal.IntegerAgreement

/-!
# Sequences of LLVM integer instructions in MSL

The statements that the lowerer makes of a sequence of integer instructions, run one after another,
leave in the variables what LLVM computes.
-/

namespace CuMetal.Metal

open Option

open Ir (IntegerType IntegerOperand BinaryOpcode IntegerPredicate IntegerInstruction NvvmValue
  NvvmValues ValueId constantSpelling runNvvm importInstruction)
open IntegerValue

/-! ## Expressions -/

/-- Every LLVM value is the content of a variable whose name no other value has. -/
def InScope (lowerer : AstLowerer) (locals : Locals) (values : NvvmValues) : Prop :=
  ∀ id value, values id = some value → ∃ name type,
    lowerer.expressionFor (.valueRef id (.integer value.type.bits)) = .identifier name type ∧
      name ∉ enumerators ∧ (∀ other, name = valueName other → other = id) ∧
      locals name = some (container value.type value.bits)

theorem literalValue_constant {type : IntegerType} (bits : BitVec type.bits) :
    literalValue (constantSpelling bits) = some (operandValue (.constant bits) bits) := by
  unfold constantSpelling operandValue
  by_cases single : type = .i1
  · rw [if_pos single, if_pos single]
    by_cases one : bits = 1
    · rw [if_pos one, decide_eq_true one]
      rfl
    · rw [if_neg one, decide_eq_false one]
      rfl
  · rw [if_neg single, if_neg single]
    exact literalValue_int (toInt_range type bits).1 (toInt_range type bits).2

theorem evaluate_operand {lowerer : AstLowerer} {locals : Locals} {values : NvvmValues}
    (scope : InScope lowerer locals values) {type : IntegerType} {operand : IntegerOperand type}
    {bits : BitVec type.bits} (read : operand.read values = some bits) (machine : Machine) :
    (evaluate locals (lowerer.expressionFor operand.imported)).run machine =
      some (operandValue operand bits, machine) := by
  cases operand with
  | constant _ =>
    cases read
    have known := literalValue_constant bits
    have spelled : constantSpelling bits ≠ "null" := by
      intro same
      rw [same, operandValue] at known
      split at known <;> cases known
    change (evaluate locals (.literal (if constantSpelling bits = "null" then "nullptr"
      else constantSpelling bits) _)).run machine = _
    rw [if_neg spelled]
    simp [evaluate, known]
  | value id =>
    obtain ⟨⟨type', value⟩, found, here⟩ := bind_eq_some_iff.mp read
    by_cases same : type' = type
    · subst same
      rw [if_pos rfl, BitVec.setWidth_eq] at here
      cases here
      obtain ⟨name, type, expression, ordinary, _, stored⟩ := scope id _ found
      change (evaluate locals (lowerer.expressionFor (.valueRef id _))).run machine = _
      rw [expression]
      exact evaluate_identifier stored ordinary machine
    · rw [if_neg same] at here
      cases here

theorem evaluate_convertTo {locals : Locals} {target : MslType} {operand : MslExpression}
    {value converted : Value} {machine : Machine}
    (operandValue : (evaluate locals operand).run machine = some (value, machine))
    (converts : convert target value = some converted) :
    (evaluate locals (.convertTo target operand)).run machine = some (converted, machine) := by
  simp [evaluate, operandValue, converts]

/-- The operation of an instruction is declared with an expression whose value fits the container
of LLVM's. -/
def Lowers (lowerer : AstLowerer) (locals : Locals) (result : ValueId)
    (instruction : IntegerInstruction) (bits : BitVec instruction.type.bits) : Prop :=
  ∃ expression value,
    lowerer.lowerOperation (importInstruction result instruction) =
        lowerer.declareResult (importInstruction result instruction) expression ∧
      (∀ machine, (evaluate locals expression).run machine = some (value, machine)) ∧
      convert (lowerType (.integer instruction.type.bits)) value =
        some (container instruction.type bits)

variable {instruction : IntegerInstruction}

section Instructions

variable {lowerer : AstLowerer} {locals : Locals} {values : NvvmValues}
  (scope : InScope lowerer locals values) (result : ValueId)

include scope

variable {type source target : IntegerType} {left right : IntegerOperand type}
  {predicate : IntegerPredicate} {operand : IntegerOperand source}

theorem lowers_binary {opcode : BinaryOpcode} {bits : BitVec type.bits}
    (defined : (IntegerInstruction.binary opcode type left right).evaluate values = some bits)
    (keeps : IntegerInstruction.Keeps values (.binary opcode type left right)) :
    Lowers lowerer locals result (.binary opcode type left right) bits := by
  obtain ⟨x, readLeft, defined⟩ := bind_eq_some_iff.mp defined
  obtain ⟨y, readRight, defined⟩ := bind_eq_some_iff.mp defined
  have kept := keeps x y readLeft readRight
  have leftValue := evaluate_operand scope readLeft
  have rightValue := evaluate_operand scope readRight
  obtain ⟨v, computed, converts⟩ : ∃ v,
      @binaryResult opcode type (operandValue left x) (operandValue right y) = some v ∧
        convert (lowerType (.integer type.bits)) v = some (container type bits) := by
    by_cases single : type = .i1
    · subst single
      exact binaryResult_single opcode left right x y bits defined kept
    · exact binaryResult_wide single opcode left right x y bits defined kept
  unfold binaryResult at computed
  by_cases signed : opcode = .sdiv ∨ opcode = .srem ∨ opcode = .ashr
  · rw [if_pos signed] at computed
    obtain ⟨l, castLeft, computed⟩ := bind_eq_some_iff.mp computed
    obtain ⟨r, castRight, computed⟩ := bind_eq_some_iff.mp computed
    refine ⟨.binary (binarySpelling (Ir.binaryOpcode opcode))
      (.convertTo (.sint type.bits) (lowerer.expressionFor left.imported))
      (.convertTo (.sint type.bits) (lowerer.expressionFor right.imported)) (.sint type.bits), v,
      ?_, fun machine => ?_, converts⟩
    · rcases signed with rfl | rfl | rfl <;> cases left <;> rfl
    · exact evaluate_binary _ (evaluate_convertTo (leftValue machine) castLeft)
        (evaluate_convertTo (rightValue machine) castRight) computed
  · rw [if_neg signed] at computed
    refine ⟨.binary (binarySpelling (Ir.binaryOpcode opcode))
      (lowerer.expressionFor left.imported) (lowerer.expressionFor right.imported)
      (lowerType (.integer type.bits)), v, ?_, fun machine => ?_, converts⟩
    · cases opcode <;> first
        | rfl
        | exact absurd (by decide) signed
    · exact evaluate_binary _ (leftValue machine) (rightValue machine) computed

omit scope in
theorem comparesSigned_keeps {x y : BitVec type.bits}
    (keeps : IntegerPredicate.Keeps predicate left right x y) :
    if comparesSigned predicate then type = .i1 → x = y
    else (operandInteger left x).commonSigned (operandInteger right y) = true →
      (0 ≤ (operandInteger left x).toInt ↔ 0 ≤ (operandInteger right y).toInt) := by
  cases predicate <;> exact keeps

theorem lowers_icmp {bits : BitVec 1}
    (defined : (IntegerInstruction.icmp predicate type left right).evaluate values = some bits)
    (keeps : IntegerInstruction.Keeps values (.icmp predicate type left right)) :
    Lowers lowerer locals result (.icmp predicate type left right) bits := by
  obtain ⟨x, readLeft, defined⟩ := bind_eq_some_iff.mp defined
  obtain ⟨y, readRight, defined⟩ := bind_eq_some_iff.mp defined
  cases defined
  have kept := comparesSigned_keeps (keeps x y readLeft readRight)
  have leftValue := evaluate_operand scope readLeft
  have rightValue := evaluate_operand scope readRight
  obtain ⟨onInt, operator, meaning⟩ := predicate_operator predicate
  have compared := meaning x y
  have finish : ∀ {value : Bool}, predicate.evaluate x y = value →
      convert (lowerType (.integer 1)) (.bool value) =
        some (container .i1 (BitVec.ofBool (predicate.evaluate x y))) := by
    rintro _ rfl
    exact convert_bool _
  by_cases signed : comparesSigned predicate
  · rw [if_pos signed] at kept compared
    obtain ⟨l, castLeft, r, castRight, computed⟩ : ∃ l,
        convert (.sint type.bits) (operandValue left x) = some l ∧ ∃ r,
        convert (.sint type.bits) (operandValue right y) = some r ∧
        binaryValue (compareSpelling (importInstruction 0
          (.icmp predicate .i1 (.value 0) (.value 0)))) l r =
            some (.bool (onInt x.toInt y.toInt)) := by
      by_cases single : type = .i1
      · subst single
        obtain rfl := kept rfl
        have cast : ∀ x : BitVec 1, convert (.sint 1) (.bool (x = 1)) =
            some (.integer ⟨true, 32, if x = 1 then 1 else 0⟩) := by decide
        have same : ∀ operand : IntegerOperand .i1, convert (.sint 1) (operandValue operand x) =
            some (.integer ⟨true, 32, if x = 1 then 1 else 0⟩) := by
          intro operand
          cases operand <;> exact cast x
        have reads : ∀ c : BitVec 32, SignedReads ⟨true, 32, c⟩ c := fun c =>
          ⟨le_rfl, rfl, le_rfl, rfl⟩
        refine ⟨_, same left, _, same right, ?_⟩
        rw [binaryValue_integer, operator.signed_value (reads _) (reads _)]
        have level : ∀ n : Int, onInt n n = onInt 0 0 := fun n => by
          simpa using operator.shifts 0 0 n
        rw [level, level x.toInt]
      · refine ⟨_, convert_signed single left x, _, convert_signed single right y, ?_⟩
        rw [← operator.signed_value (signed_reads type x) (signed_reads type y),
          binaryValue_integer]
        unfold integerBinary
        rw [promoted_promoted, promoted_promoted]
    refine ⟨.binary (compareSpelling (importInstruction 0
          (.icmp predicate .i1 (.value 0) (.value 0))))
      (.convertTo (.sint type.bits) (lowerer.expressionFor left.imported))
      (.convertTo (.sint type.bits) (lowerer.expressionFor right.imported)) .boolean, _,
      ?_, fun machine => ?_, finish compared⟩
    · rcases signed with rfl | rfl | rfl | rfl <;> cases left <;> rfl
    · exact evaluate_binary _ (evaluate_convertTo (leftValue machine) castLeft)
        (evaluate_convertTo (rightValue machine) castRight) computed
  · rw [if_neg signed] at kept compared
    have computed := operator.unsigned_value (operandInteger_reads left x)
      (operandInteger_reads right y) kept
    rw [← binaryValue_operands] at computed
    refine ⟨.binary (compareSpelling (importInstruction 0
          (.icmp predicate .i1 (.value 0) (.value 0))))
      (lowerer.expressionFor left.imported) (lowerer.expressionFor right.imported) .boolean, _,
      ?_, fun machine => ?_, finish compared⟩
    · cases predicate <;> first
        | rfl
        | exact absurd (by decide) signed
    · exact evaluate_binary _ (leftValue machine) (rightValue machine) computed

theorem lowers_select {condition : IntegerOperand .i1}
    {trueValue falseValue : IntegerOperand type} {bits : BitVec type.bits}
    (defined : (IntegerInstruction.select type condition trueValue falseValue).evaluate values =
      some bits) :
    Lowers lowerer locals result (.select type condition trueValue falseValue) bits := by
  obtain ⟨chosen, readCondition, defined⟩ := bind_eq_some_iff.mp defined
  obtain ⟨x, readTrue, defined⟩ := bind_eq_some_iff.mp defined
  obtain ⟨y, readFalse, defined⟩ := bind_eq_some_iff.mp defined
  cases defined
  have test : ∀ machine, (evaluate locals (lowerer.expressionFor condition.imported)).run machine =
      some (.bool (chosen = 1), machine) := by
    intro machine
    rw [evaluate_operand scope readCondition]
    cases condition <;> rfl
  by_cases one : chosen = 1
  · refine ⟨_, operandValue trueValue x, rfl, fun machine => ?_, ?_⟩
    · rw [evaluate_conditional (test machine), decide_eq_true one]
      exact evaluate_operand scope readTrue machine
    · exact (convert_operandValue trueValue x).trans
        (congrArg (fun bits => some (container type bits)) (if_pos one).symm)
  · refine ⟨_, operandValue falseValue y, rfl, fun machine => ?_, ?_⟩
    · rw [evaluate_conditional (test machine), decide_eq_false one]
      exact evaluate_operand scope readFalse machine
    · exact (convert_operandValue falseValue y).trans
        (congrArg (fun bits => some (container type bits)) (if_neg one).symm)

/-- A cast converts the operand's value to the container of the target. -/
theorem lowers_cast (changes : source.bits ≠ target.bits) {x : BitVec source.bits}
    {bits : BitVec target.bits} (read : operand.read values = some x)
    (converts : convert (lowerType (.integer target.bits)) (operandValue operand x) = some
      (container target bits)) :
    ∃ expression value,
      lowerer.lowerOperation (Ir.importCast result source target operand) =
          lowerer.declareResult (Ir.importCast result source target operand) expression ∧
        (∀ machine, (evaluate locals expression).run machine = some (value, machine)) ∧
        convert (lowerType (.integer target.bits)) value = some (container target bits) := by
  refine ⟨.convertTo (lowerType (.integer target.bits)) (lowerer.expressionFor operand.imported),
    container target bits, ?_, fun machine => ?_, ?_⟩
  · have differs : operand.imported.type ≠ Ir.IrType.integer target.bits := by
      intro same
      have width := congrArg Ir.IrType.bitWidth same
      cases operand <;> exact changes width
    change (if operand.imported.type = Ir.IrType.integer target.bits then _ else _) = _
    rw [if_neg differs]
    rfl
  · exact evaluate_convertTo (evaluate_operand scope read machine) converts
  · exact convert_operandValue (.value 0) bits

theorem lowers_trunc {narrower : target.bits < source.bits} {bits : BitVec target.bits}
    (defined : (IntegerInstruction.trunc source target narrower operand).evaluate values = some
      bits) (keeps : IntegerInstruction.Keeps values (.trunc source target narrower operand)) :
    Lowers lowerer locals result (.trunc source target narrower operand) bits := by
  obtain ⟨x, read, defined⟩ := bind_eq_some_iff.mp defined
  cases defined
  refine lowers_cast scope result narrower.ne' read ?_
  by_cases single : target = .i1
  · subst single
    have wide : source ≠ .i1 := by
      rintro rfl
      exact absurd narrower (by decide)
    rw [convert_truth wide]
    change some (Value.bool (x ≠ 0)) = some (.bool (x.setWidth 1 = 1))
    rcases keeps x read rfl with zero | odd
    · rw [zero]
      simp
    · have one : x.setWidth 1 = 1 := by
        ext i inside
        obtain rfl : i = 0 := by omega
        simpa using odd
      have nonzero : x ≠ 0 := by
        rintro rfl
        simp at odd
      rw [decide_eq_true nonzero, decide_eq_true one]
  · rw [convert_number single, Reads.setWidth (operandInteger_reads operand x) narrower.le]

theorem lowers_zext {wider : source.bits < target.bits} {bits : BitVec target.bits}
    (defined : (IntegerInstruction.zext source target wider operand).evaluate values = some bits)
    (keeps : IntegerInstruction.Keeps values (.zext source target wider operand)) :
    Lowers lowerer locals result (.zext source target wider operand) bits := by
  obtain ⟨x, read, defined⟩ := bind_eq_some_iff.mp defined
  cases defined
  have wide : target ≠ .i1 := by
    rintro rfl
    exact absurd wider (by cases source <;> decide)
  refine lowers_cast scope result wider.ne read ?_
  rw [convert_number wide, keeps x read, BitVec.ofInt_natCast, BitVec.ofNat_toNat]

theorem lowers_sext {wider : source.bits < target.bits} {bits : BitVec target.bits}
    (defined : (IntegerInstruction.sext source target wider operand).evaluate values = some bits)
    (keeps : IntegerInstruction.Keeps values (.sext source target wider operand)) :
    Lowers lowerer locals result (.sext source target wider operand) bits := by
  obtain ⟨x, read, defined⟩ := bind_eq_some_iff.mp defined
  cases defined
  have wide : target ≠ .i1 := by
    rintro rfl
    exact absurd wider (by cases source <;> decide)
  refine lowers_cast scope result wider.ne read ?_
  rw [convert_number wide, keeps x read]
  rfl

/-- Every instruction whose operands keep their meaning is lowered to an expression of its value. -/
theorem lowers {bits : BitVec instruction.type.bits}
    (defined : instruction.evaluate values = some bits)
    (keeps : IntegerInstruction.Keeps values instruction) :
    Lowers lowerer locals result instruction bits := by
  cases instruction with
  | binary _ _ _ _ => exact lowers_binary scope result defined keeps
  | icmp _ _ _ _ => exact lowers_icmp scope result defined keeps
  | select _ _ _ _ => exact lowers_select scope result defined
  | trunc _ _ _ _ => exact lowers_trunc scope result defined keeps
  | zext _ _ _ _ => exact lowers_zext scope result defined keeps
  | sext _ _ _ _ => exact lowers_sext scope result defined keeps

end Instructions

/-! ## Sequences -/

theorem valueName_injective {first second : ValueId} (same : valueName first = valueName second) :
    first = second := by
  have letters : ∀ id : ValueId, (valueName id).toList = 'v' :: Nat.toDigits 10 id := by
    intro id
    simp [valueName]
  have digits : Nat.toDigits 10 first = Nat.toDigits 10 second := by
    have both := congrArg String.toList same
    rw [letters, letters] at both
    exact (List.cons.inj both).2
  rw [← Nat.ofDigitChars_toDigits (b := 10) (n := first) (by decide) (by decide), digits,
    Nat.ofDigitChars_toDigits (by decide) (by decide)]

theorem valueName_ordinary (id : ValueId) : valueName id ∉ enumerators := by
  intro listed
  have first : (valueName id).toList.head? = some 'v' := by simp [valueName]
  have others : ∀ name ∈ enumerators, name.toList.head? ≠ some 'v' := by decide
  exact others _ listed first

/-- After the declaration of a result, it is the content of its variable. -/
theorem InScope.declared {lowerer : AstLowerer} {locals : Locals} {values : NvvmValues}
    (scope : InScope lowerer locals values) (result : ValueId) (computed : NvvmValue) :
    InScope
      { lowerer with
        values := lowerer.values.assign result
          (.identifier (valueName result) (lowerType (.integer computed.type.bits))) }
      (locals.set (valueName result) (container computed.type computed.bits))
      (Function.update values result (some computed)) := by
  intro id value found
  by_cases same : id = result
  · subst same
    rw [Function.update_self] at found
    cases found
    refine ⟨valueName id, lowerType (.integer computed.type.bits), ?_, valueName_ordinary id,
      fun other named => (valueName_injective named).symm, Locals.set_self ..⟩
    change getD (AssocMap.find? _ id) _ = _
    rw [AssocMap.find?_assign, if_pos rfl]
    rfl
  · rw [Function.update_of_ne same] at found
    obtain ⟨name, type, expression, ordinary, own, stored⟩ := scope id value found
    refine ⟨name, type, ?_, ordinary, own, ?_⟩
    · rw [← expression]
      change getD (AssocMap.find? _ id) _ = getD (AssocMap.find? _ id) _
      rw [AssocMap.find?_assign, if_neg (Ne.symm same)]
    · rw [Locals.set_of_ne]
      · exact stored
      · intro named
        exact same (own result named).symm

/-- The first steps of a thread, at most as many as it takes. -/
def runSteps : Nat → Locals → List MslStatement → Eval Thread
  | 0, locals, code => pure (.running locals code)
  | count + 1, locals, code => do
    match ← stepThread locals code with
    | .running locals code => runSteps count locals code
    | .finished result => pure (.finished result)

/-- One instruction: its statement leaves what LLVM computes in the variable of the result. -/
theorem instruction_agrees {lowerer : AstLowerer} {locals : Locals} {values after : NvvmValues}
    (scope : InScope lowerer locals values) {result : ValueId}
    (defined : instruction.step values result = some after)
    (keeps : IntegerInstruction.Keeps values instruction) :
    ∃ lowerer' statement locals',
      lowerer.lowerOperation (importInstruction result instruction) = .ok (lowerer', statement) ∧
        (∀ rest machine, (stepThread locals (statement :: rest)).run machine =
          some (.running locals' rest, machine)) ∧
        InScope lowerer' locals' after := by
  obtain ⟨bits, computed, rfl⟩ := map_eq_some_iff.mp defined
  obtain ⟨expression, value, lowered, evaluates, converts⟩ := lowers scope result computed keeps
  have declares : lowerer.declareResult (importInstruction result instruction) expression =
      .ok ({ lowerer with
          values := lowerer.values.assign result
            (.identifier (valueName result) (lowerType (.integer instruction.type.bits))) },
        if lowerer.predeclared then
          .assignment (.identifier (valueName result) (lowerType (.integer instruction.type.bits)))
            expression
        else
          .variable (lowerType (.integer instruction.type.bits)) (valueName result)
            (some expression) true) := by
    cases instruction <;> rfl
  refine ⟨_, _, _, lowered.trans declares, fun rest machine => ?_,
    scope.declared result ⟨instruction.type, bits⟩⟩
  split
  · exact stepThread_assignVariable (evaluates machine) converts
  · exact stepThread_variable (evaluates machine) converts

/-- The statements of a sequence leave what LLVM computes in the variables. -/
def SequenceAgrees (lowerer : AstLowerer) (locals : Locals)
    (sequence : List (ValueId × IntegerInstruction)) (after : NvvmValues) : Prop :=
  ∃ lowerer' statements locals',
    lowerer.lowerOperations (sequence.map fun entry => importInstruction entry.1 entry.2) =
        .ok (lowerer', statements) ∧
      (∀ rest machine, (runSteps statements.length locals (statements ++ rest)).run machine =
        some (.running locals' rest, machine)) ∧
      InScope lowerer' locals' after

/-- A sequence of which every instruction keeps its meaning where it stands computes in MSL what it
computes in LLVM. -/
theorem sequence_agrees {lowerer : AstLowerer} {locals : Locals} {values after : NvvmValues}
    (scope : InScope lowerer locals values) {sequence : List (ValueId × IntegerInstruction)}
    (keeps : KeepsAll values sequence) (defined : runNvvm values sequence = some after) :
    SequenceAgrees lowerer locals sequence after := by
  induction sequence generalizing lowerer locals values with
  | nil =>
    cases defined
    exact ⟨lowerer, [], locals, rfl, fun _ _ => rfl, scope⟩
  | cons entry rest ih =>
    obtain ⟨result, instruction⟩ := entry
    obtain ⟨middle, step, defined⟩ := bind_eq_some_iff.mp defined
    obtain ⟨lowerer', statement, locals', lowered, runs, scope'⟩ :=
      instruction_agrees scope step keeps.1
    obtain ⟨last, statements, locals'', lowered', runs', scope''⟩ :=
      ih scope' (keeps.2 middle step) defined
    refine ⟨last, statement :: statements, locals'', ?_, fun code machine => ?_, scope''⟩
    · rw [List.map_cons, AstLowerer.lowerOperations, lowered]
      change (lowerer'.lowerOperations _ >>= _) = _
      rw [lowered']
      rfl
    · simp [runSteps, runs, runs']

def byteValues (byte : BitVec 8) : NvvmValues :=
  Function.update (fun _ => none) 0 (some ⟨.i8, byte⟩)

def byteLocals (byte : BitVec 8) : Locals :=
  Locals.set (fun _ => none) (valueName 0) (container .i8 byte)

theorem byte_inScope (byte : BitVec 8) :
    InScope ⟨[], false⟩ (byteLocals byte) (byteValues byte) := by
  intro id value found
  by_cases parameter : id = 0
  · subst parameter
    cases found
    exact ⟨_, _, rfl, valueName_ordinary 0, fun other named => (valueName_injective named).symm,
      Locals.set_self ..⟩
  · rw [byteValues, Function.update_of_ne parameter] at found
    cases found

/-- The sum of a byte and a constant, and its zero extension. -/
def widenedSum : List (ValueId × IntegerInstruction) :=
  [(1, .binary .add .i8 (.value 0) (.constant (BitVec.ofNat 8 100))),
   (2, .zext .i8 .i32 (by decide) (.value 1))]

theorem widenedSum_keeps : KeepsAll (byteValues 200) widenedSum := by
  refine ⟨fun x y left right => ?_, fun after step => ⟨fun x read => ?_, fun _ _ => trivial⟩⟩
  · cases left
    cases right
    exact ⟨fun single => IntegerType.noConfusion single.1, fun _ => ⟨by decide, by decide⟩⟩
  · cases step
    cases read
    decide

theorem widenedSum_agrees : ∃ after,
    after 2 = some ⟨.i32, BitVec.ofNat 32 44⟩ ∧
      SequenceAgrees ⟨[], false⟩ (byteLocals 200) widenedSum after :=
  ⟨_, rfl, sequence_agrees (byte_inScope 200) widenedSum_keeps rfl⟩

def signExtension : List (ValueId × IntegerInstruction) :=
  [(1, .sext .i8 .i32 (by decide) (.value 0))]

/-- The sign extension of -128 is 128 in MSL: no cast makes the byte signed. -/
theorem signExtension_disagrees : ¬ ∀ (lowerer : AstLowerer) (locals : Locals)
    (values after : NvvmValues) (sequence : List (ValueId × IntegerInstruction)),
    InScope lowerer locals values → runNvvm values sequence = some after →
      SequenceAgrees lowerer locals sequence after := by
  intro agrees
  obtain ⟨lowerer', statements, locals', lowered, runs, scope⟩ :=
    agrees ⟨[], false⟩ _ _ _ signExtension (byte_inScope 128) rfl
  cases lowered
  have ran := runs [] ⟨⟨fun _ => 0, fun _ => 0⟩, []⟩
  obtain ⟨name, type, expression, _, _, stored⟩ := scope 1 ⟨.i32, BitVec.ofInt 32 (-128)⟩ rfl
  cases expression
  cases ran
  exact absurd stored (by decide)

end CuMetal.Metal
