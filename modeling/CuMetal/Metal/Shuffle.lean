import CuMetal.Ir.PtxImport
import CuMetal.Metal.LowerIntegers
import CuMetal.Metal.MslSemantics

/-!
# SIMD shuffles

`AstLowerer::lower_operation` on a shuffle (`compiler/metal/src/lower_to_msl.cpp:3556-3650`): PTX
packs a clamp and a segment mask into one word, and the emitted index selects the lane to read.
-/

namespace CuMetal.Metal

open BitVec AstLowerer

open Ir (Operand Operation OpCode)

/-- A value of type `uint`. -/
def uintLiteral (spelling : String) : MslExpression := .literal spelling (.uint 32)

/-- A binary operator on values of type `uint`. -/
def uintBinary (operation : String) (left right : MslExpression) : MslExpression :=
  .binary operation left right (.uint 32)

def comparing (operation : String) (left right : MslExpression) : MslExpression :=
  .binary operation left right .boolean

/-- `lane` (`3573-3574`). -/
def laneIdentifier : MslExpression := .identifier "cm_lane_id" (.uint 32)

/-- `source_or_delta` (`3575-3579`). -/
def sourceOrDelta (source : MslExpression) : MslExpression :=
  uintBinary "&" (.convertTo (.uint 32) source) (uintLiteral "31u")

/-- `segment_mask` (`3584-3589`). -/
def segmentMask (control : MslExpression) : MslExpression :=
  uintBinary "&" (uintBinary ">>" (.convertTo (.uint 32) control) (uintLiteral "8u"))
    (uintLiteral "31u")

/-- `minimum_lane` (`3590-3591`). -/
def minimumLane (control : MslExpression) : MslExpression :=
  uintBinary "&" laneIdentifier (segmentMask control)

/-- `maximum_lane` (`3592-3596`). -/
def maximumLane (control : MslExpression) : MslExpression :=
  uintBinary "|" (minimumLane control)
    (uintBinary "&" (.convertTo (.uint 32) control) (uintLiteral "31u"))

/-- `requested_lane` (`3599-3606`, `3611-3612`, `3617-3618`, `3625-3626`). -/
def requestedLane (kind : String) (source control : MslExpression) : MslExpression :=
  if kind = "index" then
    uintBinary "|"
      (uintBinary "&" (sourceOrDelta source) (.unary "~" (segmentMask control) (.uint 32)))
      (minimumLane control)
  else if kind = "down" then uintBinary "+" laneIdentifier (sourceOrDelta source)
  else if kind = "up" then uintBinary "-" laneIdentifier (sourceOrDelta source)
  else uintBinary "^" laneIdentifier (sourceOrDelta source)

/-- `valid_lane` (`3607-3609`, `3613-3615`, `3619-3623`, `3627-3635`). -/
def validLane (kind : String) (source control : MslExpression) : MslExpression :=
  let requested := requestedLane kind source control
  if kind = "index" then comparing "<=" requested (maximumLane control)
  else if kind = "down" then comparing "<=" requested (maximumLane control)
  else if kind = "up" then
    comparing ">=" laneIdentifier (uintBinary "+" (minimumLane control) (sourceOrDelta source))
  else
    comparing "&&" (comparing ">=" requested (minimumLane control))
      (comparing "<=" requested (maximumLane control))

/-- `shuffle_index` (`3637-3639`). -/
def shuffleIndex (kind : String) (source control : MslExpression) : MslExpression :=
  .conditional (validLane kind source control) (requestedLane kind source control) laneIdentifier
    (.uint 32)

def controlledKinds : List String := ["index", "down", "up", "xor"]

/-- The index of a shuffle (`3562-3641`). -/
def AstLowerer.shuffleIndexFor (lowerer : AstLowerer) (operation : Operation)
    (lane : Operand) (rest : List Operand) : Except String MslExpression :=
  match operation.attributes.find? "kind", rest with
  | none, _ => .ok (lowerer.expressionFor lane)
  | some kind, control :: _ =>
    if kind ∈ controlledKinds then
      .ok (shuffleIndex kind (lowerer.expressionFor lane) (lowerer.expressionFor control))
    else .ok (lowerer.expressionFor lane)
  | some kind, [] =>
    if kind ∈ controlledKinds then
      .error "PTX SIMD shuffle is missing its clamp/control operand"
    else .ok (lowerer.expressionFor lane)

/-- `lower_operation` on a shuffle (`3556-3650`). -/
def AstLowerer.lowerShuffle (lowerer : AstLowerer) (operation : Operation) :
    Except String (AstLowerer × MslStatement) :=
  match operation.operands, operation.results with
  | value :: lane :: rest, _ :: _ => do
    let index ← lowerer.shuffleIndexFor operation lane rest
    lowerer.declareResult operation
      (.call "simd_shuffle" [lowerer.expressionFor value, index]
        (lowerType (operation.resultTypes.headD {})))
  | _, _ => .error "malformed SIMD shuffle"

/-- The modes of `shfl`. -/
inductive ShuffleMode
  | idx | up | down | bfly
  deriving DecidableEq

namespace ShuffleMode

def spelling : ShuffleMode → String
  | .idx => "idx"
  | .up => "up"
  | .down => "down"
  | .bfly => "bfly"

/-- The opcode of a mode, with or without a member mask. -/
def opcode (mode : ShuffleMode) (sync : Bool) : String :=
  (if sync then "shfl.sync." else "shfl.") ++ mode.spelling ++ ".b32"

/-- The `kind` of the operation for a mode. -/
def kind : ShuffleMode → String
  | .idx => "index"
  | .up => "up"
  | .down => "down"
  | .bfly => "xor"

theorem shuffleKind_opcode (mode : ShuffleMode) (sync : Bool) :
    Ir.shuffleKind (mode.opcode sync) = mode.kind := by
  cases mode <;> cases sync <;> decide +kernel

theorem ptxScalarType_opcode (mode : ShuffleMode) (sync : Bool) :
    Ir.ptxScalarType (mode.opcode sync) = .integer 32 := by
  cases mode <;> cases sync <;> decide +kernel

end ShuffleMode

section Prescribed

variable (mode : ShuffleMode) (lane : BitVec 5) (source control : BitVec 32)

/-- `bval`, the low bits of the source or delta. -/
def delta : BitVec 5 := source.setWidth 5

/-- `cval`, the low bits of the control word. -/
def clamp : BitVec 5 := control.setWidth 5

/-- `segmask`, bits 8 to 12 of the control word. -/
def segments : BitVec 5 := (control >>> 8).setWidth 5

/-- PTX's first lane of the segment. -/
def minLane : BitVec 5 := lane &&& segments control

/-- PTX's last lane that may be read. -/
def maxLane : BitVec 5 := minLane lane control ||| (clamp control &&& ~~~segments control)

/-- The lane that a mode asks for, which may be no lane at all. -/
def askedLane : Int :=
  match mode with
  | .idx => (minLane lane control ||| (delta source &&& ~~~segments control)).toNat
  | .up => (lane.toNat : Int) - (delta source).toNat
  | .down => (lane.toNat : Int) + (delta source).toNat
  | .bfly => (lane ^^^ delta source).toNat

/-- PTX reads the lane that is asked for. -/
def IsRead : Prop :=
  match mode with
  | .up => ((maxLane lane control).toNat : Int) ≤ askedLane mode lane source control
  | _ => askedLane mode lane source control ≤ (maxLane lane control).toNat

instance : Decidable (IsRead mode lane source control) := by
  unfold IsRead
  cases mode <;> infer_instance

/-- The lane that `shfl` reads. -/
def prescribedLane : Nat :=
  if IsRead mode lane source control then (askedLane mode lane source control).toNat
  else lane.toNat

/-- The last lane that the emitted test admits: the clamp is not cut to the segment. -/
def clampedLane : BitVec 5 := minLane lane control ||| clamp control

/-- No lane but the own one is asked for that is beyond the last lane of the segment and not beyond
the clamp, nor, going up, one of the segment before the last, nor, exchanging, one before the
segment. -/
def KeepsLane : Prop :=
  let asked := askedLane mode lane source control
  match mode with
  | .idx | .down =>
    (maxLane lane control).toNat < asked → asked ≤ (clampedLane lane control).toNat →
      asked = lane.toNat
  | .up =>
    (minLane lane control).toNat ≤ asked → asked < (maxLane lane control).toNat →
      asked = lane.toNat
  | .bfly =>
    (asked < (minLane lane control).toNat ∨
      (maxLane lane control).toNat < asked ∧ asked ≤ (clampedLane lane control).toNat) →
      asked = lane.toNat

end Prescribed

/-- The emitted test admits the lane. -/
def IsAdmitted (mode : ShuffleMode) (lane : BitVec 5) (source control : BitVec 32) : Prop :=
  let asked := askedLane mode lane source control
  match mode with
  | .idx | .down => asked ≤ (clampedLane lane control).toNat
  | .up => (minLane lane control).toNat ≤ asked
  | .bfly => (minLane lane control).toNat ≤ asked ∧ asked ≤ (clampedLane lane control).toNat

instance (mode : ShuffleMode) (lane : BitVec 5) (source control : BitVec 32) :
    Decidable (IsAdmitted mode lane source control) := by
  unfold IsAdmitted
  cases mode <;> infer_instance

/-- The lane that the emitted code reads. -/
def emittedLane (mode : ShuffleMode) (lane : BitVec 5) (source control : BitVec 32) : Nat :=
  if IsAdmitted mode lane source control then (askedLane mode lane source control).toNat
  else lane.toNat

theorem minLane_le_maxLane (lane : BitVec 5) (control : BitVec 32) :
    (minLane lane control).toNat ≤ (maxLane lane control).toNat := by
  rw [maxLane, toNat_or]
  exact Nat.left_le_or

theorem maxLane_le_clampedLane (lane : BitVec 5) (control : BitVec 32) :
    (maxLane lane control).toNat ≤ (clampedLane lane control).toNat := by
  have cut : clampedLane lane control = maxLane lane control ||| clamp control := by
    ext i bound
    simp only [clampedLane, maxLane, getElem_or, getElem_and]
    cases (minLane lane control)[i] <;> cases (clamp control)[i] <;> simp
  rw [cut, toNat_or]
  exact Nat.left_le_or

theorem emittedLane_lt (mode : ShuffleMode) (lane : BitVec 5) (source control : BitVec 32) :
    emittedLane mode lane source control < 32 := by
  have own := lane.isLt
  have clamped := (clampedLane lane control).isLt
  have delta_ := (delta source).isLt
  unfold emittedLane
  split
  · next admitted =>
      cases mode with
      | idx | down | bfly =>
        simp only [IsAdmitted] at admitted
        omega
      | up =>
        simp only [askedLane]
        omega
  · exact own

theorem ite_eq_ite_iff {α : Type} {P Q : Prop} [Decidable P] [Decidable Q] (a b : α) :
    ((if P then a else b) = if Q then a else b) ↔ (P ↔ Q) ∨ a = b := by
  by_cases here : P <;> by_cases there : Q <;> simp [here, there, eq_comm]

/-- The emitted index selects the prescribed lane under exactly this condition. -/
theorem emittedLane_eq_iff (mode : ShuffleMode) (lane : BitVec 5) (source control : BitVec 32) :
    emittedLane mode lane source control = prescribedLane mode lane source control ↔
      KeepsLane mode lane source control := by
  have first := minLane_le_maxLane lane control
  have last := maxLane_le_clampedLane lane control
  rw [emittedLane, prescribedLane, ite_eq_ite_iff]
  cases mode with
  | idx | down | up =>
    simp only [IsAdmitted, IsRead, KeepsLane]
    omega
  | bfly =>
    have nonneg : 0 ≤ askedLane .bfly lane source control := Int.natCast_nonneg _
    simp only [IsAdmitted, IsRead, KeepsLane]
    omega

/-! ## The value of the index -/

section Index

variable {locals : Locals} {machine : Machine}

/-- An expression has a value of type `uint`, and computing it changes nothing. -/
def HasWord (locals : Locals) (machine : Machine) (e : MslExpression) (word : BitVec 32) : Prop :=
  (evaluate locals e).run machine = some (.uint word, machine)

variable {left right e : MslExpression} {x y word : BitVec 32}

theorem HasWord.binary {operation : String} {z : BitVec 32}
    (leftWord : HasWord locals machine left x) (rightWord : HasWord locals machine right y)
    (defined : arithmetic operation false x y = some z) :
    HasWord locals machine (uintBinary operation left right) z :=
  evaluate_binary _ leftWord rightWord (binaryValue_arithmetic le_rfl defined)

theorem HasWord.comparing {operation : String} {value : Bool}
    (leftWord : HasWord locals machine left x) (rightWord : HasWord locals machine right y)
    (defined : comparison operation false x y = some value) :
    (evaluate locals (comparing operation left right)).run machine =
      some (.bool value, machine) :=
  evaluate_binary _ leftWord rightWord (binaryValue_comparison le_rfl defined)

theorem HasWord.complement (word : HasWord locals machine e x) :
    HasWord locals machine (.unary "~" e (.uint 32)) (~~~x) := by
  have value : unaryValue "~" (.uint x) = some (.uint (~~~x)) := rfl
  have run : (evaluate locals e).run machine = some (.uint x, machine) := word
  simp [HasWord, evaluate, run, value]

theorem hasWord_literal {spelling : String} (value : literalValue spelling = some (.uint word)) :
    HasWord locals machine (uintLiteral spelling) word := by
  simp [HasWord, uintLiteral, evaluate, value]

/-- The expression evaluates to the word. -/
def HoldsWord (locals : Locals) (machine : Machine) (e : MslExpression) (word : BitVec 32) :
    Prop :=
  ∃ x : IntegerValue, (evaluate locals e).run machine = some (.integer x, machine) ∧
    x.converted 32 = word

theorem HoldsWord.cast (holds : HoldsWord locals machine e word) :
    HasWord locals machine (.convertTo (.uint 32) e) word := by
  obtain ⟨x, run, rfl⟩ := holds
  have value : convert (.uint 32) (.integer x) = some (.uint (x.converted 32)) := rfl
  simp [HasWord, evaluate, run, value]

variable {lane : BitVec 5} {source control : BitVec 32} {sourceOperand controlOperand : MslExpression}

theorem hasWord_lane
    (own : locals "cm_lane_id" = some (.uint (lane.setWidth 32))) :
    HasWord locals machine laneIdentifier (lane.setWidth 32) :=
  evaluate_identifier own (by decide) machine

theorem low_bits (word : BitVec 32) : word &&& 31#32 = (word.setWidth 5).setWidth 32 := by
  apply eq_of_toNat_eq
  rw [toNat_and, toNat_setWidth, toNat_setWidth]
  have mask : word.toNat &&& 2 ^ 5 - 1 = word.toNat % 2 ^ 5 := Nat.and_two_pow_sub_one_eq_mod ..
  have small : word.toNat % 2 ^ 5 < 2 ^ 32 := by omega
  rw [Nat.mod_eq_of_lt small, ← mask]
  rfl

theorem hasWord_sourceOrDelta (holds : HoldsWord locals machine sourceOperand source) :
    HasWord locals machine (sourceOrDelta sourceOperand) ((delta source).setWidth 32) := by
  rw [delta, ← low_bits]
  exact holds.cast.binary (hasWord_literal (by decide)) rfl

theorem hasWord_segmentMask (holds : HoldsWord locals machine controlOperand control) :
    HasWord locals machine (segmentMask controlOperand) ((segments control).setWidth 32) := by
  rw [segments, ← low_bits]
  have shifted : HasWord locals machine
      (uintBinary ">>" (.convertTo (.uint 32) controlOperand) (uintLiteral "8u"))
      (control >>> 8) :=
    evaluate_binary _ holds.cast (hasWord_literal (by decide : literalValue "8u" = some (.uint 8)))
      (binaryValue_shift le_rfl le_rfl rfl)
  exact shifted.binary (hasWord_literal (by decide)) rfl

variable (own : locals "cm_lane_id" = some (.uint (lane.setWidth 32)))
  (holdsSource : HoldsWord locals machine sourceOperand source)
  (holdsControl : HoldsWord locals machine controlOperand control)

include own holdsControl in
theorem hasWord_minimumLane :
    HasWord locals machine (minimumLane controlOperand) ((minLane lane control).setWidth 32) := by
  rw [minLane, setWidth_and]
  exact (hasWord_lane own).binary (hasWord_segmentMask holdsControl) rfl

include own holdsControl in
theorem hasWord_maximumLane :
    HasWord locals machine (maximumLane controlOperand)
      ((clampedLane lane control).setWidth 32) := by
  rw [clampedLane, setWidth_or, clamp, ← low_bits]
  exact (hasWord_minimumLane own holdsControl).binary
    (holdsControl.cast.binary (hasWord_literal (by decide)) rfl) rfl

theorem ofNat_toNat_lane (x : BitVec 5) : BitVec.ofNat 32 x.toNat = x.setWidth 32 :=
  ofNat_toNat ..

theorem ofInt_toNat_lane (x : BitVec 5) : BitVec.ofInt 32 (x.toNat : Int) = x.setWidth 32 := by
  rw [ofInt_natCast, ofNat_toNat_lane]

theorem toNat_ofInt_asked {asked : Int} (nonneg : 0 ≤ asked) (small : asked < 64) :
    ((BitVec.ofInt 32 asked).toNat : Int) = asked := by
  rw [toNat_ofInt]
  omega

theorem toNat_wide (x : BitVec 5) : (x.setWidth 32).toNat = x.toNat := by
  rw [toNat_setWidth]
  omega

theorem askedLane_range (lane : BitVec 5) (source control : BitVec 32) {mode : ShuffleMode}
    (other : mode ≠ .up) :
    0 ≤ askedLane mode lane source control ∧ askedLane mode lane source control < 64 := by
  have ownLane := lane.isLt
  have ownDelta := (delta source).isLt
  cases mode with
  | up => exact absurd rfl other
  | idx =>
    have bound := (minLane lane control ||| (delta source &&& ~~~segments control)).isLt
    simp only [askedLane]
    omega
  | down =>
    simp only [askedLane]
    omega
  | bfly =>
    have bound := (lane ^^^ delta source).isLt
    simp only [askedLane]
    omega

include own holdsSource holdsControl in
theorem hasWord_requestedLane (mode : ShuffleMode) :
    HasWord locals machine (requestedLane mode.kind sourceOperand controlOperand)
      (BitVec.ofInt 32 (askedLane mode lane source control)) := by
  have lane_ : HasWord locals machine laneIdentifier (lane.setWidth 32) := hasWord_lane own
  have delta_ := hasWord_sourceOrDelta holdsSource
  cases mode with
  | idx =>
    have bits : BitVec.ofInt 32 (askedLane .idx lane source control) =
        ((delta source).setWidth 32 &&& ~~~(segments control).setWidth 32) |||
          (minLane lane control).setWidth 32 := by
      rw [askedLane, ofInt_toNat_lane]
      ext i bound
      by_cases low : i < 5
      · simp [low, Bool.or_comm]
      · simp [getLsbD_of_ge _ i (Nat.le_of_not_lt low)]
    rw [bits]
    exact (delta_.binary (hasWord_segmentMask holdsControl).complement rfl).binary
      (hasWord_minimumLane own holdsControl) rfl
  | down =>
    rw [askedLane, ofInt_add, ofInt_toNat_lane, ofInt_toNat_lane]
    exact lane_.binary delta_ rfl
  | up =>
    rw [askedLane, Int.sub_eq_add_neg, ofInt_add, ofInt_neg, ofInt_toNat_lane,
      ofInt_toNat_lane, ← sub_eq_add_neg]
    exact lane_.binary delta_ rfl
  | bfly =>
    rw [askedLane, ofInt_toNat_lane, setWidth_xor]
    exact lane_.binary delta_ rfl

include own holdsSource holdsControl in
theorem evaluate_beforeLast {mode : ShuffleMode} (other : mode ≠ .up) :
    (evaluate locals (Metal.comparing "<=" (requestedLane mode.kind sourceOperand controlOperand)
      (maximumLane controlOperand))).run machine =
      some (.bool (decide (askedLane mode lane source control ≤ (clampedLane lane control).toNat)),
        machine) := by
  obtain ⟨nonneg, small⟩ := askedLane_range lane source control other
  have value := toNat_ofInt_asked nonneg small
  refine (hasWord_requestedLane own holdsSource holdsControl mode).comparing
    (hasWord_maximumLane own holdsControl) ?_
  have compares : (BitVec.ofInt 32 (askedLane mode lane source control)).ule
      ((clampedLane lane control).setWidth 32) =
        decide (askedLane mode lane source control ≤ (clampedLane lane control).toNat) := by
    rw [ule_eq_decide, toNat_wide, decide_eq_decide]
    omega
  exact congrArg some compares

include own holdsSource holdsControl in
theorem evaluate_validLane (mode : ShuffleMode) :
    (evaluate locals (validLane mode.kind sourceOperand controlOperand)).run machine =
      some (.bool (decide (IsAdmitted mode lane source control)), machine) := by
  cases mode with
  | idx => exact evaluate_beforeLast own holdsSource holdsControl (by decide)
  | down => exact evaluate_beforeLast own holdsSource holdsControl (by decide)
  | up =>
    have sum : HasWord locals machine
        (uintBinary "+" (minimumLane controlOperand) (sourceOrDelta sourceOperand))
        ((minLane lane control).setWidth 32 + (delta source).setWidth 32) :=
      (hasWord_minimumLane own holdsControl).binary (hasWord_sourceOrDelta holdsSource) rfl
    refine (hasWord_lane own).comparing sum ?_
    have ownMin := (minLane lane control).isLt
    have ownDelta := (delta source).isLt
    have compares : ((minLane lane control).setWidth 32 + (delta source).setWidth 32).ule
        (lane.setWidth 32) = decide (IsAdmitted .up lane source control) := by
      rw [ule_eq_decide, toNat_add, toNat_wide, toNat_wide, toNat_wide,
        decide_eq_decide]
      simp only [IsAdmitted, askedLane]
      omega
    exact congrArg some compares
  | bfly =>
    have other : ShuffleMode.bfly ≠ .up := by decide
    obtain ⟨nonneg, small⟩ := askedLane_range lane source control other
    have value := toNat_ofInt_asked nonneg small
    have first : (evaluate locals (Metal.comparing ">="
        (requestedLane "xor" sourceOperand controlOperand) (minimumLane controlOperand))).run
          machine = some (.bool ((minLane lane control).setWidth 32 |>.ule
            (BitVec.ofInt 32 (askedLane .bfly lane source control))), machine) :=
      (hasWord_requestedLane own holdsSource holdsControl .bfly).comparing
        (hasWord_minimumLane own holdsControl) rfl
    have both := evaluate_and .boolean first
      (evaluate_beforeLast own holdsSource holdsControl other)
    refine both.trans ?_
    rw [ule_eq_decide, toNat_wide, ← Bool.decide_and]
    have same : (((minLane lane control).toNat ≤
        (BitVec.ofInt 32 (askedLane .bfly lane source control)).toNat) ∧
        askedLane .bfly lane source control ≤ (clampedLane lane control).toNat) ↔
        IsAdmitted .bfly lane source control := by
      simp only [IsAdmitted]
      omega
    rw [decide_eq_decide.mpr same]

include own holdsSource holdsControl in
theorem hasWord_shuffleIndex (mode : ShuffleMode) :
    HasWord locals machine (shuffleIndex mode.kind sourceOperand controlOperand)
      (BitVec.ofNat 32 (emittedLane mode lane source control)) := by
  refine (evaluate_conditional (evaluate_validLane own holdsSource holdsControl mode)).trans ?_
  unfold emittedLane
  by_cases admitted : IsAdmitted mode lane source control
  · have nonneg : 0 ≤ askedLane mode lane source control := by
      by_cases up : mode = .up
      · subst up
        simp only [IsAdmitted] at admitted
        omega
      · exact (askedLane_range lane source control up).1
    rw [if_pos (decide_eq_true admitted), if_pos admitted]
    have word := hasWord_requestedLane own holdsSource holdsControl mode
    rw [← Int.toNat_of_nonneg nonneg, ofInt_natCast] at word
    exact word
  · rw [if_neg (by simp [admitted]), if_neg admitted, ofNat_toNat_lane]
    exact hasWord_lane own

end Index

variable {operation : Operation} {value : Operand} {rest : List Operand}

theorem assigned_of_lowerShuffle {lowerer after : AstLowerer} {statement : MslStatement}
    {source control : Operand} {mode : ShuffleMode}
    (kind : operation.attributes.find? "kind" = some mode.kind)
    (operands : operation.operands = value :: source :: control :: rest)
    (lowered : lowerer.lowerShuffle operation = .ok (after, statement)) :
    statement.assigned = some (.call "simd_shuffle" [lowerer.expressionFor value,
      shuffleIndex mode.kind (lowerer.expressionFor source) (lowerer.expressionFor control)]
      (lowerType (operation.resultTypes.headD {}))) := by
  have controlled : mode.kind ∈ controlledKinds := by cases mode <;> decide
  unfold lowerShuffle at lowered
  rw [operands] at lowered
  split at lowered
  · next _ _ _ _ _ same _ =>
      cases same
      simp only [shuffleIndexFor, kind, if_pos controlled] at lowered
      exact assigned_of_declareResult lowered
  · cases lowered

theorem translateShuffle_last {mode : ShuffleMode} {sync : Bool} {source control : Operand}
    {results : List Ir.ValueId} {resultTypes : List Ir.IrType} {fresh : Ir.ValueId}
    {operations : List Operation}
    (translated : Ir.translateShuffle (mode.opcode sync) (value :: source :: control :: rest)
      results resultTypes fresh = .ok operations) (last : operations.getLast? = some operation) :
    operation.attributes.find? "kind" = some mode.kind ∧
      ∃ container, operation.operands = container :: source :: control :: rest := by
  cases translated
  rw [List.getLast?_append, List.getLast?_singleton, Option.some_or] at last
  cases last
  rw [ShuffleMode.shuffleKind_opcode]
  exact ⟨rfl, _, rfl⟩

/-- The index that is emitted for `shfl` selects the prescribed lane, whatever the values of the
lanes are, exactly if the lanes asked for keep to the segment. -/
theorem shuffle_reads_iff (mode : ShuffleMode) (sync : Bool) {value source control : Operand}
    {rest : List Operand} {results : List Ir.ValueId} {resultTypes : List Ir.IrType}
    {fresh : Ir.ValueId} {operations : List Operation} {operation : Operation}
    {lowerer after : AstLowerer} {statement : MslStatement}
    (translated : Ir.translateShuffle (mode.opcode sync) (value :: source :: control :: rest)
      results resultTypes fresh = .ok operations)
    (last : operations.getLast? = some operation)
    (lowered : lowerer.lowerShuffle operation = .ok (after, statement)) :
    ∃ valueExpression index type,
      statement.assigned = some (.call "simd_shuffle" [valueExpression, index] type) ∧
      ∀ (locals : Locals) (machine : Machine) (lane : BitVec 5) (delta clamps : BitVec 32),
        locals "cm_lane_id" = some (.uint (lane.setWidth 32)) →
        HoldsWord locals machine (lowerer.expressionFor source) delta →
        HoldsWord locals machine (lowerer.expressionFor control) clamps →
        ∃ selected < 32, HasWord locals machine index (BitVec.ofNat 32 selected) ∧
          ((∀ values : Nat → Value,
              values selected = values (prescribedLane mode lane delta clamps)) ↔
            KeepsLane mode lane delta clamps) := by
  obtain ⟨kind, container, operands⟩ := translateShuffle_last translated last
  refine ⟨_, _, _, assigned_of_lowerShuffle kind operands lowered, ?_⟩
  intro locals machine lane delta clamps own holdsSource holdsControl
  refine ⟨emittedLane mode lane delta clamps, emittedLane_lt .., ?_, ?_⟩
  · exact hasWord_shuffleIndex own holdsSource holdsControl mode
  rw [← emittedLane_eq_iff]
  constructor
  · intro same
    have told := same fun lane' =>
      .bool (lane' = emittedLane mode lane delta clamps)
    rw [decide_eq_true rfl, Value.bool.injEq, eq_comm, decide_eq_true_eq] at told
    exact told.symm
  · intro same values
    rw [same]

theorem holdsWord_immediate {locals : Locals} {machine : Machine} {text : String}
    {type : Ir.IrType} {x : IntegerValue} (plain : text ≠ "null")
    (value : literalValue text = some (.integer x)) (lowerer : AstLowerer) :
    HoldsWord locals machine (lowerer.expressionFor { text, type }) (x.converted 32) := by
  refine ⟨x, ?_, rfl⟩
  simp [expressionFor, plain, evaluate, value]

/-- A shuffle down by one, in segments of four lanes as a width of 4 gives. -/
def downOfFour : List Operand :=
  [.valueRef 1 (.integer 32), { text := "1", type := .integer 32 },
    { text := "7199", type := .integer 32 }]

def laneThree : Locals := fun name => if name = "cm_lane_id" then some (.uint 3#32) else none

def emptyMachine : Machine := ⟨⟨fun _ => 0, fun _ => 0⟩, []⟩

def shuffleOfFour : Operation :=
  { opcode := .shuffle, operands := downOfFour, results := [2], resultTypes := [.integer 32]
    attributes := [("kind", "down")] }

theorem translateShuffle_downOfFour :
    Ir.translateShuffle (ShuffleMode.down.opcode true) downOfFour [2] [.integer 32] 3 =
      .ok [shuffleOfFour] := by
  unfold Ir.translateShuffle shuffleOfFour downOfFour
  rw [ShuffleMode.shuffleKind_opcode, ShuffleMode.ptxScalarType_opcode]
  rfl

theorem shuffle_reads_downOfFour : ∃ statement valueExpression index type,
    MslStatement.assigned statement =
      some (.call "simd_shuffle" [valueExpression, index] type) ∧
      ∃ selected < 32, HasWord laneThree emptyMachine index (BitVec.ofNat 32 selected) ∧
        ((∀ values : Nat → Value,
            values selected = values (prescribedLane .down 3#5 1#32 7199#32)) ↔
          KeepsLane .down 3#5 1#32 7199#32) := by
  have lowered : lowerShuffle ⟨[], false⟩ shuffleOfFour = .ok _ := rfl
  obtain ⟨valueExpression, index, type, assigned, selects⟩ :=
    shuffle_reads_iff .down true translateShuffle_downOfFour rfl lowered
  exact ⟨_, valueExpression, index, type, assigned,
    selects laneThree emptyMachine 3#5 1#32 7199#32 rfl
      (holdsWord_immediate (by decide)
        (by decide : literalValue "1" = some (.integer ⟨true, 32, 1#32⟩)) _)
      (holdsWord_immediate (by decide)
        (by decide : literalValue "7199" = some (.integer ⟨true, 32, 7199#32⟩)) _)⟩

/-- Lane 3 is the last of its segment and keeps its own value; the index selects lane 4. -/
theorem shuffleDown_leaves_segment : ∃ operation after statement valueExpression index type,
    Ir.translateShuffle "shfl.sync.down.b32" downOfFour [2] [.integer 32] 3 = .ok [operation] ∧
    AstLowerer.lowerShuffle ⟨[], false⟩ operation = .ok (after, statement) ∧
    statement.assigned = some (.call "simd_shuffle" [valueExpression, index] type) ∧
    HasWord laneThree emptyMachine index 4#32 ∧
    prescribedLane .down 3#5 1#32 7199#32 = 3 := by
  refine ⟨_, _, _, _, _, _, translateShuffle_downOfFour, rfl, rfl, ?_, by decide⟩
  have own : laneThree "cm_lane_id" = some (.uint ((3#5).setWidth 32)) := rfl
  exact hasWord_shuffleIndex own
    (holdsWord_immediate (by decide)
      (by decide : literalValue "1" = some (.integer ⟨true, 32, 1#32⟩)) _)
    (holdsWord_immediate (by decide)
      (by decide : literalValue "7199" = some (.integer ⟨true, 32, 7199#32⟩)) _) .down

end CuMetal.Metal
