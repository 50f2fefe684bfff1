import CuMetal.Driver.MemoryCalls
import CuMetal.Runtime.PitchedBounds

/-!
# Bounds of the driver's memory calls

The bytes that the copies and the fills of `runtime/driver/cuda_driver.cpp` go over, and when they
lie in the allocation with which the call compared its span.
-/

namespace CuMetal.Driver

open CuMetal.Runtime AllocationTable WordMap BitVec List
open CuMetal.Runtime.Sync (BlockEnd)
open CuMetal.Runtime.Pitched (Holds ofNat_pred alignPitch cudaMallocPitch AllocatesRows
  hostAccessiblePointer_room cudaMallocPitch_iff)

/-- The bytes at one end of a call: `height` rows of `width` bytes in each of `depth` planes. The
base of a checked end comes from `cumetalRuntimeGetHostPointer`. -/
structure Operand where
  side : BlockEnd
  width : Nat
  height : Nat
  depth : Nat
  checked : Bool

namespace Operand

/-- The address of a byte, as the loops compute it. -/
def address (operand : Operand) (z y c : Nat) : BitVec 64 :=
  operand.side.row z y + BitVec.ofNat 64 c

/-- Where the byte stands in exact arithmetic. -/
def place (operand : Operand) (z y c : Nat) : Nat :=
  operand.side.base.toNat +
    (operand.side.z.toNat + z) * (operand.side.pitch.toNat * operand.side.height.toNat) +
    (operand.side.y.toNat + y) * operand.side.pitch.toNat + operand.side.x.toNat + c

/-- The bytes from the base to the last one. -/
def span (operand : Operand) : Nat :=
  (operand.side.z.toNat + operand.depth - 1) *
      (operand.side.pitch.toNat * operand.side.height.toNat) +
    (operand.side.y.toNat + operand.height - 1) * operand.side.pitch.toNat +
    operand.side.x.toNat + operand.width

def Occupied (operand : Operand) : Prop :=
  0 < operand.width ∧ 0 < operand.height ∧ 0 < operand.depth

/-- In tracked memory, each byte is addressed where it stands and lies in the allocation. -/
def InBounds (table : AllocationTable Buffer) (operand : Operand) : Prop :=
  ∀ entry ∈ table.entries, Contains entry operand.side.base →
    ∀ z < operand.depth, ∀ y < operand.height, ∀ c < operand.width,
      (operand.address z y c).toNat = operand.place z y c ∧ Contains entry (operand.address z y c)

/-- In tracked memory, the span of a checked end is a number of 64 bits, and an end that is passed
as host memory, which nothing checks, ends in the allocation. -/
def Counted (table : AllocationTable Buffer) (operand : Operand) : Prop :=
  ∀ entry ∈ table.entries, Contains entry operand.side.base → operand.Occupied →
    if operand.checked then operand.span < 2 ^ 64
    else operand.side.base.toNat + operand.span ≤ entry.1.toNat + entry.2.size.toNat

/-- The base of a checked end is the answer for the span, computed with wrapping. -/
def Checks (table : AllocationTable Buffer) (operand : Operand) : Prop :=
  operand.Occupied → operand.checked = true → ∃ pointer,
    operand.side.base = hostAccessiblePointer table pointer (BitVec.ofNat 64 operand.span)

variable {operand : Operand} {table : AllocationTable Buffer}

theorem address_eq (operand : Operand) (z y c : Nat) :
    operand.address z y c = BitVec.ofNat 64 (operand.place z y c) := by
  simp only [address, place, BlockEnd.row, ofNat_add, ofNat_mul, ofNat_toNat,
    setWidth_eq]
  ring

theorem place_lt (operand : Operand) {z y c : Nat} (plane : z < operand.depth)
    (row : y < operand.height) (column : c < operand.width) :
    operand.place z y c < operand.side.base.toNat + operand.span := by
  have planes := Nat.mul_le_mul_right (operand.side.pitch.toNat * operand.side.height.toNat)
    (show operand.side.z.toNat + z ≤ operand.side.z.toNat + operand.depth - 1 by omega)
  have rows := Nat.mul_le_mul_right operand.side.pitch.toNat
    (show operand.side.y.toNat + y ≤ operand.side.y.toNat + operand.height - 1 by omega)
  unfold place span
  omega

theorem inBounds_iff_counted (recorded : Recorded table) (checks : operand.Checks table) :
    operand.InBounds table ↔ operand.Counted table := by
  constructor
  · intro inBounds entry mem starts occupied
    obtain ⟨wide, tall, deep⟩ := occupied
    have last := inBounds entry mem starts (operand.depth - 1) (by omega) (operand.height - 1)
      (by omega) (operand.width - 1) (by omega)
    have place : operand.place (operand.depth - 1) (operand.height - 1) (operand.width - 1) + 1 =
        operand.side.base.toNat + operand.span := by
      rw [Operand.place, span, Nat.add_sub_assoc (show 1 ≤ operand.depth from deep),
        Nat.add_sub_assoc (show 1 ≤ operand.height from tall)]
      omega
    have below := last.2.2
    have low := starts.1
    have size := entry.2.size.isLt
    rw [last.1] at below
    split <;> omega
  · intro counted entry mem starts z plane y row c column
    have occupied : operand.Occupied := ⟨by omega, by omega, by omega⟩
    have within : operand.side.base.toNat + operand.span ≤
        entry.1.toNat + entry.2.size.toNat := by
      have counted := counted entry mem starts occupied
      split at counted
      next checked =>
        obtain ⟨pointer, base⟩ := checks occupied checked
        have room := hostAccessiblePointer_room recorded mem (base ▸ starts)
        rwa [← base, toNat_ofNat, Nat.mod_eq_of_lt counted] at room
      next => exact counted
    have below := operand.place_lt plane row column
    have ends := recorded.bounded.ends entry mem
    have exact_ : (operand.address z y c).toNat = operand.place z y c := by
      rw [address_eq, toNat_ofNat, Nat.mod_eq_of_lt (by omega)]
    have low : operand.side.base.toNat ≤ operand.place z y c := by
      unfold Operand.place
      omega
    refine ⟨exact_, ?_⟩
    rw [Contains, exact_]
    exact ⟨le_trans starts.1 low, by omega⟩

end Operand

/-! ## The operands of the calls -/

/-- An end of a copy of rows. -/
def Memcpy2D.operand (copy : Memcpy2D) (side : Memcpy2DEnd) (base : BitVec 64) : Operand where
  side := ⟨base, copy.pitch side, 0, 0, side.y, side.xInBytes⟩
  width := copy.widthInBytes.toNat
  height := copy.height.toNat
  depth := 1
  checked := side.memoryType ≠ .host

/-- An end of a copy of planes. -/
def Memcpy3D.operand (copy : Memcpy3D) (side : Memcpy3DEnd) (base : BitVec 64) : Operand where
  side := ⟨base, copy.pitchOf side, copy.heightOf side, side.z, side.y, side.xInBytes⟩
  width := copy.widthInBytes.toNat
  height := copy.height.toNat
  depth := copy.depth.toNat
  checked := side.memoryType ≠ .host

/-- The rows of a fill with values of so many bytes. -/
def fillOperand (base pitch : BitVec 64) (bytes : Nat) (width : BitVec 64) (height : Nat) :
    Operand where
  side := ⟨base, pitch, 0, 0, 0, 0⟩
  width := width.toNat * bytes
  height := height
  depth := 1
  checked := true

/-- The rows of a fill that is not refused. -/
def rowOperands (answers : Answers) (state : RuntimeState) (dst pitch : BitVec 64)
    (value : List UInt8) (width height : BitVec 64) : List Operand :=
  match resolveRows answers state dst pitch value width height with
  | .error _ => []
  | .ok base => [fillOperand base pitch value.length width height.toNat]

/-- The row of a fill of consecutive values that is not refused. -/
def valueOperands (state : RuntimeState) (dst : BitVec 64) (bytes : Nat) (n : BitVec 64) :
    List Operand :=
  let pointer := hostAccessiblePointer state.allocations dst (n * BitVec.ofNat 64 bytes)
  if dst = 0 ∨ pointer = 0 then [] else [fillOperand pointer 0 bytes n 1]

def copyOperands (state : RuntimeState) (copy : Option Memcpy2D) : List Operand :=
  match resolveMemcpy2D state copy with
  | .error _ => []
  | .ok (copy, bases) => [copy.operand copy.dst bases.dst, copy.operand copy.src bases.src]

def planeOperands (state : RuntimeState) : Option Memcpy3D → List Operand
  | none => []
  | some copy =>
    match resolveMemcpy3D state copy with
    | .error _ => []
    | .ok bases => [copy.operand copy.dst bases.dst, copy.operand copy.src bases.src]

/-- What a call goes over once its own checks accepted the arguments. -/
def MemoryCall.operands {σ : Type} (answers : Answers) (state : RuntimeState) :
    MemoryCall σ → List Operand
  | memcpy2D copy | memcpy2DAsync copy _ => copyOperands state copy
  | memcpy3D copy | memcpy3DAsync copy _ => planeOperands state copy
  | memsetD16 dst _ n | memsetD16Async dst _ n _ => valueOperands state dst 2 n
  | memsetD32 dst _ n | memsetD32Async dst _ n _ => valueOperands state dst 4 n
  | memsetD2D8 dst pitch uc width height | memsetD2D8Async dst pitch uc width height _ =>
    rowOperands answers state dst pitch (toLittleEndian 1 uc.toNat) width height
  | memsetD2D16 dst pitch us width height | memsetD2D16Async dst pitch us width height _ =>
    rowOperands answers state dst pitch (toLittleEndian 2 us.toNat) width height
  | memsetD2D32 dst pitch ui width height | memsetD2D32Async dst pitch ui width height _ =>
    rowOperands answers state dst pitch (toLittleEndian 4 ui.toNat) width height

/-! ## The calls go over their operands -/

/-- The rows of one operand are copied to those of another. -/
def copyOver (dst src : Operand) (memory : ByteMemory) : ByteMemory :=
  (List.range dst.depth).foldl (fun memory z =>
    (List.range dst.height).foldl (fun memory y =>
      memory.write (dst.side.row z y) (memory.read (src.side.row z y) dst.width)) memory) memory

/-- Values are stored over the rows of an operand. -/
def fillOver (operand : Operand) (value : List UInt8) (count : Nat) (memory : ByteMemory) :
    ByteMemory :=
  (List.range operand.height).foldl (fun memory y =>
    fillValues (operand.side.row 0 y) value count memory) memory

/-- An effect goes over these operands and nothing else. -/
inductive GoesOver : List Operand → (ByteMemory → ByteMemory) → Prop
  | copy {dst src : Operand} (width : src.width = dst.width) :
      GoesOver [dst, src] (copyOver dst src)
  | fill {operand : Operand} {value : List UInt8} {count : Nat}
      (width : operand.width = count * value.length) :
      GoesOver [operand] (fillOver operand value count)

/-- What a call does with memory, at once or on a stream. -/
def Script.effect? {σ : Type} : Script σ → Option (ByteMemory → ByteMemory)
  | .finish _ => none
  | .access effect | .enqueue _ effect _ => some effect

theorem performMemcpy2D_rows (copy : Memcpy2D) (bases : Bases) :
    performMemcpy2D copy bases =
      copyOver (copy.operand copy.dst bases.dst) (copy.operand copy.src bases.src) := by
  funext memory
  simp [performMemcpy2D, copyOver, Memcpy2D.row, Memcpy2D.operand, BlockEnd.row]

theorem performMemcpy3D_rows (copy : Memcpy3D) (bases : Bases) :
    performMemcpy3D copy bases =
      copyOver (copy.operand copy.dst bases.dst) (copy.operand copy.src bases.src) := rfl

theorem fillValueRows_rows (base pitch : BitVec 64) (value : List UInt8)
    (width height : BitVec 64) :
    fillValueRows base pitch value width height =
      fillOver (fillOperand base pitch value.length width height.toNat) value width.toNat := by
  funext memory
  simp [fillValueRows, fillOver, fillOperand, BlockEnd.row]

theorem fillValues_row (base : BitVec 64) (value : List UInt8) (n : BitVec 64) :
    fillValues base value n.toNat = fillOver (fillOperand base 0 value.length n 1) value n.toNat := by
  funext memory
  simp [fillOver, fillOperand, BlockEnd.row]

section

variable {σ : Type} {state : RuntimeState} {answers : Answers} {effect : ByteMemory → ByteMemory}

theorem effect?_of_ite {refused : Prop} [Decidable refused] {result : CuResult} {script : Script σ}
    (found : (if refused then .finish result else script).effect? = some effect) :
    ¬ refused ∧ script.effect? = some effect := by
  split at found
  · cases found
  next accepted => exact ⟨accepted, found⟩

theorem goesOver_values {dst n : BitVec 64} {value : List UInt8} {bytes : Nat}
    (length : value.length = bytes)
    (found : (memsetValues (σ := σ) state dst value n).effect? = some effect) :
    GoesOver (valueOperands state dst bytes n) effect := by
  subst length
  obtain ⟨present, found⟩ := effect?_of_ite found
  obtain ⟨known, found⟩ := effect?_of_ite found
  obtain ⟨-, found⟩ := effect?_of_ite found
  cases found
  rw [valueOperands, if_neg (not_or.mpr ⟨present, known⟩), fillValues_row]
  exact .fill rfl

theorem goesOver_rows {dst pitch width height : BitVec 64} {value : List UInt8} {script : Script σ}
    (called : script = memsetRows answers state dst pitch value width height ∨
      ∃ stream, script = memsetRowsAsync answers state dst pitch value width height stream)
    (found : script.effect? = some effect) :
    GoesOver (rowOperands answers state dst pitch value width height) effect := by
  have does : ∃ base, resolveRows answers state dst pitch value width height = .ok base ∧
      effect = fillValueRows base pitch value width height := by
    rcases called with rfl | ⟨stream, rfl⟩
    · unfold memsetRows at found
      split at found
      · cases found
      next base resolved =>
        obtain ⟨-, found⟩ := effect?_of_ite found
        cases found
        exact ⟨base, resolved, rfl⟩
    · unfold memsetRowsAsync at found
      split at found
      · cases found
      next base resolved =>
        obtain ⟨-, found⟩ := effect?_of_ite found
        cases found
        exact ⟨base, resolved, rfl⟩
  obtain ⟨base, resolved, rfl⟩ := does
  rw [rowOperands, resolved, fillValueRows_rows]
  exact .fill rfl

theorem goesOver_copy {copy : Option Memcpy2D} {copy' : Memcpy2D} {bases : Bases}
    (resolved : resolveMemcpy2D state copy = .ok (copy', bases)) :
    GoesOver (copyOperands state copy) (performMemcpy2D copy' bases) := by
  rw [copyOperands, resolved, performMemcpy2D_rows]
  exact .copy rfl

theorem goesOver_planes {copy : Memcpy3D} {bases : Bases}
    (resolved : resolveMemcpy3D state copy = .ok bases) :
    GoesOver (planeOperands state (some copy)) (performMemcpy3D copy bases) := by
  rw [planeOperands, resolved, performMemcpy3D_rows]
  exact .copy rfl

/-- Whatever a call does with memory, it goes over its operands. -/
theorem goesOver_operands (call : MemoryCall σ)
    (found : (call.script answers state).effect? = some effect) :
    GoesOver (call.operands answers state) effect := by
  cases call with
  | memcpy2D copy =>
    obtain ⟨-, found⟩ := effect?_of_ite found
    split at found
    · cases found
    next copy' bases resolved =>
      obtain ⟨-, found⟩ := effect?_of_ite found
      cases found
      exact goesOver_copy resolved
  | memcpy2DAsync copy stream =>
    obtain ⟨-, found⟩ := effect?_of_ite found
    obtain ⟨-, found⟩ := effect?_of_ite found
    split at found
    · cases found
    next copy' bases resolved =>
      obtain ⟨-, found⟩ := effect?_of_ite found
      cases found
      exact goesOver_copy resolved
  | memcpy3D copy =>
    cases copy with
    | none => cases found
    | some copy =>
      obtain ⟨-, found⟩ := effect?_of_ite found
      split at found
      · cases found
      next bases resolved =>
        obtain ⟨-, found⟩ := effect?_of_ite found
        cases found
        exact goesOver_planes resolved
  | memcpy3DAsync copy stream =>
    cases copy with
    | none => cases found
    | some copy =>
      obtain ⟨-, found⟩ := effect?_of_ite found
      obtain ⟨-, found⟩ := effect?_of_ite found
      obtain ⟨-, found⟩ := effect?_of_ite found
      obtain ⟨-, found⟩ := effect?_of_ite found
      split at found
      · cases found
      next bases resolved =>
        cases found
        exact goesOver_planes resolved
  | memsetD16 | memsetD16Async | memsetD32 | memsetD32Async =>
    exact goesOver_values (length_toLittleEndian ..) found
  | memsetD2D8 | memsetD2D16 | memsetD2D32 => exact goesOver_rows (.inl rfl) found
  | memsetD2D8Async | memsetD2D16Async | memsetD2D32Async =>
    exact goesOver_rows (.inr ⟨_, rfl⟩) found

end

/-! ## The calls check their operands -/

/-- The calls compute the span with wrapping. -/
theorem ofNat_span (side : BlockEnd) (width : Nat) (height depth : BitVec 64) {checked : Bool}
    (tall : 0 < height.toNat) (deep : 0 < depth.toNat) :
    BitVec.ofNat 64 (Operand.span ⟨side, width, height.toNat, depth.toNat, checked⟩) =
      (side.z + depth - 1) * side.pitch * side.height + (side.y + height - 1) * side.pitch +
        side.x + BitVec.ofNat 64 width := by
  simp only [Operand.span, ofNat_add, ofNat_mul, ofNat_pred _ tall,
    ofNat_pred _ deep, ofNat_toNat, setWidth_eq]
  ring

variable {state : RuntimeState}

theorem copyOperands_checks (copy : Option Memcpy2D) :
    ∀ operand ∈ copyOperands state copy, operand.Checks state.allocations := by
  cases copy with
  | none => exact fun _ mem => nomatch mem
  | some copy =>
    have ends : ∀ side : Memcpy2DEnd, side.memoryType ≠ .array →
        (copy.operand side (side.resolve state (copy.span side))).Checks state.allocations := by
      rintro side linear ⟨-, tall, -⟩ checked
      have counts : BitVec.ofNat 64 (copy.operand side 0).span = copy.span side := by
        refine (ofNat_span _ _ copy.height 1 tall (by decide)).trans ?_
        simp [Memcpy2D.span]
      refine ⟨side.device, Eq.trans ?_ (congrArg _ counts.symm)⟩
      cases kind : side.memoryType with
      | host => exact absurd kind (of_decide_eq_true checked)
      | array => exact absurd kind linear
      | device => simp only [Memcpy2D.operand, Memcpy2DEnd.resolve, kind]
      | unified => simp only [Memcpy2D.operand, Memcpy2DEnd.resolve, kind]
    intro operand mem
    simp only [copyOperands, resolveMemcpy2D] at mem
    split_ifs at mem with array narrow empty null
    · cases mem
    · cases mem
    · have vacant : operand.width = 0 ∨ operand.height = 0 := by
        rcases mem_pair.mp mem with rfl | rfl <;>
          exact empty.imp (congrArg BitVec.toNat) (congrArg BitVec.toNat)
      rintro ⟨wide, tall, -⟩ -
      omega
    · cases mem
    · rcases mem_pair.mp mem with rfl | rfl
      · exact ends _ (not_or.mp array).2
      · exact ends _ (not_or.mp array).1

theorem planeOperands_checks (copy : Option Memcpy3D) :
    ∀ operand ∈ planeOperands state copy, operand.Checks state.allocations := by
  cases copy with
  | none => exact fun _ mem => nomatch mem
  | some copy =>
    have ends : ∀ side : Memcpy3DEnd,
        (copy.operand side (side.base state (copy.span side))).Checks state.allocations := by
      rintro side ⟨-, tall, deep⟩ checked
      have counts : BitVec.ofNat 64 (copy.operand side 0).span = copy.span side := by
        refine (ofNat_span _ _ copy.height copy.depth tall deep).trans ?_
        simp [Memcpy3D.span]
      refine ⟨side.device, Eq.trans ?_ (congrArg _ counts.symm)⟩
      exact if_neg (of_decide_eq_true checked)
    intro operand mem
    simp only [planeOperands, resolveMemcpy3D] at mem
    split_ifs at mem with empty null
    · have vacant : operand.width = 0 ∨ operand.height = 0 ∨ operand.depth = 0 := by
        have empty : (copy.widthInBytes = 0 ∨ copy.height = 0) ∨ copy.depth = 0 := by
          simpa [Memcpy3D.empty] using empty
        rcases mem_pair.mp mem with rfl | rfl <;> rcases empty with (none | none) | none <;>
          simp [Memcpy3D.operand, none]
      rintro ⟨wide, tall, deep⟩ -
      omega
    · cases mem
    · rcases mem_pair.mp mem with rfl | rfl <;> exact ends _

theorem fillOperand_checks (dst pitch : BitVec 64) (bytes : Nat) (width height : BitVec 64) :
    (fillOperand (hostAccessiblePointer state.allocations dst (if height = 0 then 0
      else (height - 1) * pitch + width * BitVec.ofNat 64 bytes)) pitch bytes width
        height.toNat).Checks state.allocations := by
  rintro ⟨-, tall, -⟩ -
  have some_ : height ≠ 0 := by
    rintro rfl
    exact absurd tall (lt_irrefl 0)
  have counts : BitVec.ofNat 64 (fillOperand 0 pitch bytes width height.toNat).span =
      (height - 1) * pitch + width * BitVec.ofNat 64 bytes := by
    refine (ofNat_span _ _ height 1 tall (by decide)).trans ?_
    simp [ofNat_mul]
  rw [if_neg some_]
  exact ⟨dst, congrArg (hostAccessiblePointer state.allocations dst) counts.symm⟩

theorem operands_checks {σ : Type} (answers : Answers) (call : MemoryCall σ) :
    ∀ operand ∈ call.operands answers state, operand.Checks state.allocations := by
  have rows : ∀ (dst pitch : BitVec 64) (value : List UInt8) (width height : BitVec 64),
      ∀ operand ∈ rowOperands answers state dst pitch value width height,
        operand.Checks state.allocations := by
    intro dst pitch value width height operand mem
    unfold rowOperands at mem
    split at mem
    · cases mem
    next base resolved =>
      unfold resolveRows at resolved
      split at resolved
      · cases resolved
      · extract_lets pointer at resolved
        split at resolved
        · cases resolved
        · rw [mem_singleton.mp mem, ← Except.ok.inj resolved]
          exact fillOperand_checks dst pitch _ width height
  have values : ∀ (dst : BitVec 64) (bytes : Nat) (n : BitVec 64),
      ∀ operand ∈ valueOperands state dst bytes n, operand.Checks state.allocations := by
    intro dst bytes n operand mem
    simp only [valueOperands] at mem
    split_ifs at mem
    · cases mem
    · rw [mem_singleton.mp mem]
      simpa using @fillOperand_checks state dst 0 bytes n 1
  cases call with
  | memcpy2D copy | memcpy2DAsync copy => exact copyOperands_checks copy
  | memcpy3D copy | memcpy3DAsync copy => exact planeOperands_checks copy
  | memsetD16 dst _ n | memsetD16Async dst _ n => exact values dst 2 n
  | memsetD32 dst _ n | memsetD32Async dst _ n => exact values dst 4 n
  | _ => exact rows _ _ _ _ _

/-! ## The calls and the allocation of rows -/

/-- `cuMemAllocPitch` (`2868-2877`) with places for the pointer and the pitch: the pitch, and what
`cudaMalloc` leaves if `cuMemAlloc` (`1779-1796`) comes to it. -/
def cuMemAllocPitch (ready : CuResult) (initialization status : CudaError) (buffer : Option Buffer)
    (mode : Bool) (table : AllocationTable Buffer) (width height : BitVec 64) :
    BitVec 64 × Option Allocated :=
  let pitch := alignPitch width
  (pitch,
    if pitch * height = 0 ∨ ready ≠ .success then none
    else some (cudaMalloc initialization status buffer mode table (pitch * height)))

/-- Every call goes over its operands. The bytes of every accepted call lie in the allocations exactly
if its spans are counted without wrapping, and a successful allocation holds its rows exactly if
their exact size is a number of 64 bits. -/
theorem driver_bounds_iff {σ : Type} {state : RuntimeState}
    (reachable : Reachable state.allocations) :
    (∀ (answers : Answers) (call : MemoryCall σ),
      (∀ effect ∈ (call.script answers state).effect?,
        GoesOver (call.operands answers state) effect) ∧
      ((∀ operand ∈ call.operands answers state, operand.InBounds state.allocations) ↔
        ∀ operand ∈ call.operands answers state, operand.Counted state.allocations)) ∧
    ∀ (ready : CuResult) (initialization status : CudaError) (buffer : Option Buffer) (mode : Bool)
      (width height : BitVec 64) (made : Allocated),
      (∀ allocated ∈ buffer, allocated.Fits (alignPitch width * height)) →
      (cuMemAllocPitch ready initialization status buffer mode state.allocations width
        height).2 = some made → made.status = .success →
        (AllocatesRows made.allocations made.pointer (alignPitch width) width height 1 ↔
          (alignPitch width).toNat * height.toNat < 2 ^ 64) := by
  constructor
  · refine fun answers call => ⟨fun effect found => goesOver_operands call found, ?_⟩
    exact forall₂_congr fun operand mem => Operand.inBounds_iff_counted (.of_reachable reachable)
      (operands_checks answers call operand mem)
  · intro ready initialization status buffer mode width height made fits result succeeds
    simp only [cuMemAllocPitch] at result
    split at result
    · cases result
    · cases result
      exact cudaMallocPitch_iff fits succeeds

/-- Two rows of four bytes, eight bytes apart, in an allocation of 16 bytes; and rows of their own
for the same bytes. -/
theorem driver_bounds_rows :
    let operand := fillOperand 0x1000 8 4 1 2
    GoesOver [operand] (fillValueRows 0x1000 8 [0, 0, 0, 0] 1 2) ∧
      operand.InBounds (Runtime.holding []).allocations ∧
      ∃ made, (cuMemAllocPitch .success .success .success (some ⟨1, 0x8000, 0x200000⟩) false
          (Runtime.holding []).allocations 4 2).2 = some made ∧
        AllocatesRows made.allocations made.pointer 512 4 2 1 := by
  have bounds := @driver_bounds_iff Nat (Runtime.holding []) Runtime.reachable_oneBufferTable
  obtain ⟨goes, inBounds⟩ := bounds.1 ⟨.success, true, true, .success⟩
    (.memsetD2D32 0x1000 8 0 1 2)
  refine ⟨goes _ rfl, inBounds.mpr (fun operand mem => ?_) _ (.head _), _, rfl, ?_⟩
  · obtain rfl := mem_singleton.mp mem
    intro entry _ _ _
    change Operand.span _ < 2 ^ 64
    decide
  · exact (bounds.2 .success .success .success (some ⟨1, 0x8000, 0x200000⟩) false 4 2 _
      (by simp [Buffer.Fits, alignPitch]) rfl rfl).mpr (by decide)

/-- So many values that their bytes, counted with wrapping, are two. -/
theorem wrappedValues_outside : ¬ ∀ (state : RuntimeState), Reachable state.allocations →
    ∀ (answers : Answers) (call : MemoryCall Nat), ∀ operand ∈ call.operands answers state,
      operand.InBounds state.allocations := by
  intro always
  have inBounds := always (Runtime.holding []) Runtime.reachable_oneBufferTable
    ⟨.success, true, true, .success⟩ (.memsetD16 0x1000 0 (BitVec.ofNat 64 (2 ^ 63 + 1))) _
    (.head _)
  have outside := inBounds (0x1000, ⟨16, .device, 0, _, false⟩) (.head _) ⟨by decide, by decide⟩
    0 (by decide) 0 (by decide) 16 (by decide)
  exact absurd outside.2.2 (by decide)

end CuMetal.Driver
