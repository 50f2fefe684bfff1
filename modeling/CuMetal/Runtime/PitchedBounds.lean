import Mathlib.Data.BitVec
import Mathlib.Tactic.LinearCombination
import CuMetal.Runtime.PitchedCalls
import CuMetal.Runtime.RoundTrip

/-!
# Bounds of pitched and three-dimensional memory

A call compares the span of a block with the allocation before it goes over the rows. The span is
computed with wrapping, so the comparison only says that the rows lie in the allocation if the exact
span is below 2^64, or if the strides happen to lead back into the allocation.
-/

namespace CuMetal.Runtime.Pitched

open AllocationTable CuMetal.Runtime.Stream CuMetal.Runtime.Sync Option

variable {table : AllocationTable Buffer}

/-- A block that starts in a recorded range stays in it. -/
def Block.InBounds (table : AllocationTable Buffer) (block : Block) : Prop :=
  ∀ entry ∈ table.entries, Contains entry block.side.base →
    ∀ z < block.depth.toNat, ∀ y < block.height.toNat, ∀ c < block.width.toNat,
      Contains entry (block.byte z y c)

/-- The bytes of an array, without wrapping around. -/
def arrayBytes (array : CuMetalArray) : Nat :=
  array.width.toNat * array.height.toNat * array.depth.toNat *
    ((arrayElementSize array).getD 0).toNat

/-- The check of the call counts all bytes of the block: the span behind a pointer does not wrap,
or the array still has its own allocation. -/
def Block.Counted (block : Block) (entry : BitVec 64 × Entry Buffer) : Prop :=
  match block.array with
  | none => block.span < 2 ^ 64
  | some array => entry.1 = array.data ∧ arrayBytes array ≤ entry.2.size.toNat

/-- Where a block that has bytes starts in a recorded range, the check counts them all, or the
corners of the block, with the strides read as signed numbers, lie in the range anyhow. -/
def Block.Fits (table : AllocationTable Buffer) (block : Block) : Prop :=
  ∀ entry ∈ table.entries, Contains entry block.side.base → block.Occupied →
    block.Counted entry ∨ (block.grid entry.1).Corners entry.2.size.toNat

variable {entry : BitVec 64 × Entry Buffer} {block : Block} {pointer count widthBytes : BitVec 64}
  {extent : Extent} {state : RuntimeState} {position : Pos} {env : Environment}
  {initialization status : CudaError} {buffer : Option Buffer} {mode : Bool}

theorem contains_iff (bounded : table.Bounded) (mem : entry ∈ table.entries) {address : BitVec 64} :
    Contains entry address ↔ (address - entry.1).toNat < entry.2.size.toNat := by
  have ends := bounded.ends entry mem
  have size := entry.2.size.isLt
  rw [Contains, BitVec.toNat_sub]
  omega

theorem byte_sub (block : Block) (low : BitVec 64) (z y c : Nat) :
    block.byte z y c - low = (block.grid low).byte z y c := by
  simp only [Block.byte, ByteMemory.place, BlockEnd.row, SteppedWalk.Grid.byte, Block.grid,
    BitVec.add_zero]
  ring

theorem inBounds_iff_inside (bounded : table.Bounded) (mem : entry ∈ table.entries) :
    (∀ z < block.depth.toNat, ∀ y < block.height.toNat, ∀ c < block.width.toNat,
        Contains entry (block.byte z y c)) ↔
      (block.grid entry.1).Inside entry.2.size.toNat := by
  simp only [contains_iff bounded mem, byte_sub]
  rfl

theorem toNat_byte {low : BitVec 64} {size : Nat} (starts : low.toNat ≤ block.side.base.toNat)
    (fits : block.side.base.toNat + block.span ≤ low.toNat + size)
    (ends : low.toNat + size < 2 ^ 64) {z y c : Nat} (plane : z < block.depth.toNat)
    (row : y < block.height.toNat) (column : c < block.width.toNat) :
    low.toNat ≤ (block.byte z y c).toNat ∧ (block.byte z y c).toNat < low.toNat + size := by
  have planes : (block.side.z.toNat + z) * (block.side.pitch.toNat * block.side.height.toNat) ≤
      (block.side.z.toNat + block.depth.toNat - 1) *
        (block.side.pitch.toNat * block.side.height.toNat) :=
    Nat.mul_le_mul_right _ (by omega)
  have rows : (block.side.y.toNat + y) * block.side.pitch.toNat ≤
      (block.side.y.toNat + block.height.toNat - 1) * block.side.pitch.toNat :=
    Nat.mul_le_mul_right _ (by omega)
  have whole : block.byte z y c = BitVec.ofNat 64 (block.side.base.toNat +
      (block.side.z.toNat + z) * (block.side.pitch.toNat * block.side.height.toNat) +
      (block.side.y.toNat + y) * block.side.pitch.toNat + block.side.x.toNat + c) := by
    simp only [Block.byte, ByteMemory.place, BlockEnd.row, BitVec.ofNat_add, BitVec.ofNat_mul,
      BitVec.ofNat_toNat, BitVec.setWidth_eq]
    ring
  rw [Block.span] at fits
  rw [whole, BitVec.toNat_ofNat, Nat.mod_eq_of_lt] <;> omega

/-- What the check of a call gives for a block. -/
def Block.Accepted (table : AllocationTable Buffer) (block : Block) : Prop :=
  ∀ entry ∈ table.entries, Contains entry block.side.base → block.Occupied →
    block.Counted entry → block.side.base.toNat + block.span ≤
      entry.1.toNat + entry.2.size.toNat

theorem Block.inBounds_iff (bounded : table.Bounded)
    (small : ∀ entry ∈ table.entries, entry.2.size.toNat ≤ 2 ^ 63)
    (accepted : block.Accepted table) : block.InBounds table ↔ block.Fits table := by
  constructor
  · intro inBounds entry mem starts occupied
    have inside := (inBounds_iff_inside bounded mem).mp (inBounds entry mem starts)
    exact .inr ((SteppedWalk.Grid.inside_iff (w := 62)
      ⟨occupied.depth, occupied.height, occupied.width⟩ (small entry mem)).mp inside)
  · intro fits entry mem starts z plane y row c column
    have occupied : block.Occupied := ⟨by omega, by omega, by omega⟩
    rcases fits entry mem starts occupied with counted | corners
    · exact toNat_byte starts.1 (accepted entry mem starts occupied counted)
        (bounded.ends entry mem) plane row column
    · have inside := (SteppedWalk.Grid.inside_iff (w := 62)
        ⟨occupied.depth, occupied.height, occupied.width⟩ (small entry mem)).mpr corners
      exact (inBounds_iff_inside bounded mem).mpr inside z plane y row c column

theorem hostAccessiblePointer_room (recorded : Recorded table) (mem : entry ∈ table.entries)
    (starts : Contains entry (hostAccessiblePointer table pointer count)) :
    (hostAccessiblePointer table pointer count).toNat + count.toNat ≤
      entry.1.toNat + entry.2.size.toNat := by
  have notNull : hostAccessiblePointer table pointer count ≠ 0 := by
    intro null
    have low := starts.1
    rw [null] at low
    exact recorded.bounded.base entry mem (BitVec.eq_of_toNat_eq (Nat.le_zero.mp low))
  unfold hostAccessiblePointer at starts notNull ⊢
  split at notNull
  · exact absurd rfl notNull
  next named =>
    rw [if_neg named] at starts ⊢
    cases resolves : table.resolve pointer with
    | none =>
      rw [resolves] at starts
      exact absurd starts (recorded.bounded.resolvesExactly.missing _ resolves entry mem)
    | some resolved =>
      simp only [resolves] at starts notNull ⊢
      cases holder : resolved.buffer with
      | none =>
        rw [holder] at notNull
        exact absurd rfl notNull
      | some buffer =>
        simp only [holder] at starts notNull ⊢
        split at notNull
        · exact absurd rfl notNull
        next room =>
          rw [if_neg room] at starts ⊢
          obtain ⟨found, mem', holds, -, owner, -, -, offset, total⟩ :=
            recorded.bounded.resolvesExactly.found _ _ resolves
          obtain ⟨first, firstMem, firstBase, -, firstSize⟩ :=
            recorded.contents found mem' buffer (owner.symm.trans holder)
          have ends := recorded.bounded.ends first firstMem
          rw [firstBase, firstSize] at ends
          have low := holds.1
          have high := holds.2
          have place : (buffer.contents + resolved.offset).toNat =
              buffer.contents.toNat + resolved.offset.toNat := by
            rw [BitVec.toNat_add]
            omega
          have inFirst : Contains first (buffer.contents + resolved.offset) := by
            rw [Contains, firstBase, firstSize, place]
            omega
          obtain rfl := recorded.bounded.eq_of_contains mem firstMem starts inFirst
          rw [not_or, BitVec.lt_def] at room
          rw [place, firstBase, firstSize]
          omega

theorem accepted_of_pointer (recorded : Recorded table)
    (base : block.side.base = hostAccessiblePointer table pointer count)
    (plain : block.array = none)
    (spans : block.Occupied → block.span < 2 ^ 64 → count.toNat = block.span) :
    block.Accepted table := by
  intro entry mem starts occupied counted
  rw [Block.Counted, plain] at counted
  rw [base] at starts ⊢
  rw [← spans occupied counted]
  exact hostAccessiblePointer_room recorded mem starts

variable {second lhs rhs product first height span elementSize : BitVec 64} {P : Block → Prop}
  {destination : Block} {call : PitchedCall} {transfer : Transfer}

theorem ofNat_pred (first : BitVec 64) (positive : 0 < second.toNat) :
    BitVec.ofNat 64 (first.toNat + second.toNat - 1) = first + second - 1 := by
  apply BitVec.eq_of_toNat_eq
  rw [BitVec.toNat_ofNat, BitVec.toNat_sub, BitVec.toNat_add]
  change _ = (2 ^ 64 - 1 + _) % 2 ^ 64
  omega

theorem blockSpan_eq {pos : Pos} {pitch ysize : BitVec 64}
    (height : 0 < extent.height.toNat) (depth : 0 < extent.depth.toNat) :
    blockSpan pos pitch ysize extent = BitVec.ofNat 64
      ((pos.z.toNat + extent.depth.toNat - 1) * (pitch.toNat * ysize.toNat) +
        (pos.y.toNat + extent.height.toNat - 1) * pitch.toNat + pos.x.toNat +
        extent.width.toNat) := by
  have tall : extent.height ≠ 0 := by
    rintro none
    rw [none] at height
    exact absurd height (lt_irrefl 0)
  have deep : extent.depth ≠ 0 := by
    rintro none
    rw [none] at depth
    exact absurd depth (lt_irrefl 0)
  rw [blockSpan, if_neg (not_or.mpr ⟨deep, tall⟩)]
  simp only [BitVec.ofNat_add, BitVec.ofNat_mul, ofNat_pred _ height, ofNat_pred _ depth,
    BitVec.ofNat_toNat, BitVec.setWidth_eq]
  ring

/-- A block behind a pointer, with the span that the calls compute for it. -/
theorem block_accepted (recorded : Recorded table) (side : BlockEnd) (extent : Extent)
    (base : side.base = hostAccessiblePointer table pointer
      (blockSpan ⟨side.x, side.y, side.z⟩ side.pitch side.height extent)) :
    (blockOf side extent.width extent none).Accepted table := by
  refine accepted_of_pointer recorded base rfl ?_
  intro occupied small
  rw [blockSpan_eq occupied.height occupied.depth, BitVec.toNat_ofNat, Nat.mod_eq_of_lt]
  · rfl
  · exact small

theorem rowSpan_eq (pitch width height : BitVec 64) :
    rowSpan pitch width height = blockSpan ⟨0, 0, 0⟩ pitch 0 ⟨width, height, 1⟩ := by
  rw [rowSpan, blockSpan]
  by_cases flat : height = 0
  · rw [if_pos flat, if_pos (.inr flat)]
  · rw [if_neg flat, if_neg (by simpa using flat)]
    ring

theorem rows_accepted (recorded : Recorded state.allocations)
    (pointer pitch width height : BitVec 64) :
    (rows state pointer pitch width height).Accepted state.allocations :=
  block_accepted recorded (rows state pointer pitch width height).side ⟨width, height, 1⟩
    (congrArg (hostAccessiblePointer state.allocations pointer) (rowSpan_eq pitch width height))

theorem planes_accepted (recorded : Recorded state.allocations)
    (pitched : PitchedPtr) (extent : Extent) :
    (planes state pitched extent).Accepted state.allocations :=
  block_accepted recorded (planes state pitched extent).side extent rfl

theorem pitchedEnd_accepted (recorded : Recorded state.allocations)
    (pointer : PitchedPtr) (position : Pos) (extent : Extent) :
    (blockOf (pitchedEnd state pointer position extent) extent.width extent none).Accepted
      state.allocations :=
  block_accepted recorded (pitchedEnd state pointer position extent) extent rfl

/-! ## Ends of a copy with an array -/

theorem checkedMultiply_eq_some :
    checkedMultiply lhs rhs = some product ↔
      lhs.toNat * rhs.toNat < 2 ^ 64 ∧ product = lhs * rhs := by
  have refuses : (lhs ≠ 0 ∧ maxAddress / lhs < rhs) ↔ ¬ lhs.toNat * rhs.toNat < 2 ^ 64 := by
    rcases eq_zero_or_pos lhs.toNat with zero | positive
    · have null : lhs = 0 := BitVec.eq_of_toNat_eq zero
      simp [null]
    · have named : lhs ≠ 0 := by
        rintro rfl
        exact absurd positive (lt_irrefl 0)
      rw [BitVec.lt_def, BitVec.toNat_udiv, maxAddress, BitVec.toNat_allOnes,
        Nat.div_lt_iff_lt_mul positive, Nat.mul_comm]
      simp only [ne_eq, named, not_false_eq_true, true_and]
      omega
  rw [checkedMultiply]
  by_cases wraps : lhs ≠ 0 ∧ maxAddress / lhs < rhs
  · rw [if_pos wraps]
    exact ⟨fun none => (by cases none), fun found => absurd found.1 (refuses.mp wraps)⟩
  · rw [if_neg wraps, some.injEq]
    exact ⟨fun same => ⟨not_not.mp (mt refuses.mpr wraps), same.symm⟩, fun found => found.2.symm⟩

theorem toNat_checkedMultiply (checked : checkedMultiply lhs rhs = some product) :
    product.toNat = lhs.toNat * rhs.toNat := by
  obtain ⟨small, rfl⟩ := checkedMultiply_eq_some.mp checked
  rw [BitVec.toNat_mul, Nat.mod_eq_of_lt small]

theorem toNat_checked_add (room : ¬ maxAddress - second < first) :
    (first + second).toNat = first.toNat + second.toNat := by
  have bound := second.isLt
  rw [BitVec.lt_def, BitVec.toNat_sub, maxAddress, BitVec.toNat_allOnes] at room
  rw [BitVec.toNat_add]
  omega

theorem toNat_last (positive : 0 < count.toNat) (room : ¬ maxAddress - (count - 1) < first) :
    (first + count - 1).toNat = first.toNat + count.toNat - 1 := by
  have pred : (count - 1).toNat = count.toNat - 1 := by
    rw [BitVec.toNat_sub]
    change (2 ^ 64 - 1 + _) % 2 ^ 64 = _
    omega
  rw [add_sub_assoc, toNat_checked_add room, pred]
  omega

theorem toNat_linear3dSpan {pointer : PitchedPtr} {depth : BitVec 64} (tall : 0 < height.toNat)
    (deep : 0 < depth.toNat)
    (checked : linear3dSpan pointer position widthBytes height depth = some span) :
    span.toNat = (position.z.toNat + depth.toNat - 1) *
        ((orElse pointer.pitch widthBytes).toNat * (orElse pointer.ysize height).toNat) +
      (position.y.toNat + height.toNat - 1) * (orElse pointer.pitch widthBytes).toNat +
      position.x.toNat + widthBytes.toNat := by
  unfold linear3dSpan at checked
  split at checked
  · cases checked
  dsimp only at checked
  split at checked
  · cases checked
  obtain ⟨planeSize, plane, checked⟩ := bind_eq_some_iff.mp checked
  split at checked
  · cases checked
  next lasts =>
  rw [not_or] at lasts
  obtain ⟨planeOffset, planes, checked⟩ := bind_eq_some_iff.mp checked
  obtain ⟨rowOffset, rows, checked⟩ := bind_eq_some_iff.mp checked
  split at checked
  · cases checked
  next sums =>
    cases checked
    simp only [not_or] at sums
    rw [toNat_checked_add sums.2.2, toNat_checked_add sums.2.1, toNat_checked_add sums.1,
      toNat_checkedMultiply planes, toNat_checkedMultiply rows, toNat_checkedMultiply plane,
      toNat_last deep lasts.1, toNat_last tall lasts.2]

/-- The rows of the first planes and of the last one up to the last row. -/
theorem rows_le {planes rows left width deep tall row : Nat} (plane : planes < deep)
    (line : rows < tall) (column : left + width ≤ row) :
    planes * (row * tall) + rows * row + left + width ≤ deep * (row * tall) := by
  have planes_le : (planes + 1) * (row * tall) ≤ deep * (row * tall) :=
    Nat.mul_le_mul_right _ plane
  have rows_le : (rows + 1) * row ≤ tall * row := Nat.mul_le_mul_right _ line
  rw [add_mul, one_mul] at planes_le rows_le
  rw [mul_comm tall row] at rows_le
  omega

theorem span_le_arrayBytes {array : CuMetalArray}
    (region : validArrayRegion array position extent = true)
    (element : arrayElementSize array = some elementSize) (size : arrayBytes array < 2 ^ 64)
    (height : 0 < extent.height.toNat) (depth : 0 < extent.depth.toNat) (base : BitVec 64)
    (other : Option CuMetalArray) :
    (blockOf ⟨base, array.width * elementSize, array.height, position.z, position.y,
      position.x * elementSize⟩ (extent.width * elementSize) extent other).span ≤
        arrayBytes array := by
  simp only [validArrayRegion, Bool.and_eq_true, decide_eq_true_iff, BitVec.le_def] at region
  obtain ⟨⟨⟨⟨⟨left, columns⟩, top⟩, lines⟩, front⟩, planes⟩ := region
  rw [BitVec.toNat_sub_of_le (BitVec.le_def.mpr left)] at columns
  rw [BitVec.toNat_sub_of_le (BitVec.le_def.mpr top)] at lines
  rw [BitVec.toNat_sub_of_le (BitVec.le_def.mpr front)] at planes
  have bytes : arrayBytes array = array.depth.toNat *
      (array.width.toNat * elementSize.toNat * array.height.toNat) := by
    rw [arrayBytes, element, getD_some]
    ring
  have part : (position.x.toNat + extent.width.toNat) * elementSize.toNat ≤
      array.width.toNat * elementSize.toNat := Nat.mul_le_mul_right _ (by omega)
  have row : array.width.toNat * elementSize.toNat ≤ arrayBytes array := by
    rw [bytes]
    calc array.width.toNat * elementSize.toNat
        ≤ array.width.toNat * elementSize.toNat * array.height.toNat :=
          Nat.le_mul_of_pos_right _ (by omega)
      _ ≤ _ := Nat.le_mul_of_pos_left _ (by omega)
  rw [add_mul] at part
  simp only [Block.span, blockOf, BitVec.toNat_mul]
  rw [Nat.mod_eq_of_lt (a := array.width.toNat * elementSize.toNat) (by omega),
    Nat.mod_eq_of_lt (a := position.x.toNat * elementSize.toNat) (by omega),
    Nat.mod_eq_of_lt (a := extent.width.toNat * elementSize.toNat) (by omega), bytes]
  exact rows_le (by omega) (by omega) part

theorem arrayEnd_accepted (recorded : Recorded state.allocations) {array : Option CuMetalArray}
    {pointer : PitchedPtr}
    (valid : validEnd array pointer position extent elementSize widthBytes = some span)
    (rows : checkedMultiply extent.width elementSize = some widthBytes) :
    (blockOf (arrayEnd state array pointer position extent widthBytes
      (widthBytes / extent.width) span) widthBytes extent array).Accepted state.allocations := by
  cases array with
  | none =>
    refine accepted_of_pointer recorded rfl rfl fun occupied _ => ?_
    exact toNat_linear3dSpan occupied.height occupied.depth valid
  | some array =>
    rw [validEnd] at valid
    split at valid
    next fits =>
      rw [Bool.and_eq_true, decide_eq_true_iff] at fits
      obtain ⟨region, element⟩ := fits
      obtain ⟨small, rfl⟩ := checkedMultiply_eq_some.mp rows
      intro entry mem starts occupied counted
      obtain ⟨start, room⟩ := counted
      have width : 0 < extent.width.toNat := by
        apply pos_of_ne_zero
        intro zero
        have bytes := occupied.width
        change 0 < (extent.width * elementSize).toNat at bytes
        rw [BitVec.toNat_mul, zero, Nat.zero_mul] at bytes
        exact absurd bytes (lt_irrefl 0)
      have unscaled : extent.width * elementSize / extent.width = elementSize := by
        apply BitVec.eq_of_toNat_eq
        rw [BitVec.toNat_udiv, BitVec.toNat_mul, Nat.mod_eq_of_lt small,
          Nat.mul_div_cancel_left _ width]
      have size := entry.2.size.isLt
      have inside := span_le_arrayBytes region element (by omega) occupied.height
        occupied.depth array.data (some array)
      rw [start]
      simp only [arrayEnd, unscaled]
      exact Nat.add_le_add_left (inside.trans room) _
    · cases valid

/-- What `validate_array_memcpy_3d` looked at, unless there is nothing to copy. -/
theorem validateArrayMemcpy3D_spec {params : ArrayMemcpy3DParms}
    {sourceSpan destinationSpan : BitVec 64}
    (valid : validateArrayMemcpy3D env params = .ok (widthBytes, sourceSpan, destinationSpan)) :
    widthBytes = 0 ∨ ∃ elementSize,
      checkedMultiply params.extent.width elementSize = some widthBytes ∧
        validEnd (env.resolveArrayHandle params.srcArray) params.srcPtr params.srcPos
          params.extent elementSize widthBytes = some sourceSpan ∧
        validEnd (env.resolveArrayHandle params.dstArray) params.dstPtr params.dstPos
          params.extent elementSize widthBytes = some destinationSpan := by
  unfold validateArrayMemcpy3D at valid
  dsimp only at valid
  split at valid
  · cases valid
  split at valid
  · cases valid
    exact .inl rfl
  next shape _ =>
    split at valid
    · cases valid
    next spans found =>
      cases valid
      obtain ⟨elementSize, _, found⟩ := bind_eq_some_iff.mp found
      obtain ⟨widthBytes', rows, found⟩ := bind_eq_some_iff.mp found
      obtain ⟨sourceSpan', source, found⟩ := bind_eq_some_iff.mp found
      obtain ⟨destinationSpan', destination, found⟩ := bind_eq_some_iff.mp found
      cases found
      exact .inr ⟨elementSize, rows, source, destination⟩

theorem accepted_of_empty (empty : block.width = 0) : block.Accepted table := by
  intro _ _ _ occupied _
  have bytes := occupied.width
  rw [empty] at bytes
  exact absurd bytes (lt_irrefl 0)

theorem forall_mem_copy {source : Block} :
    (∀ block ∈ (Transfer.copy destination source).blocks, P block) ↔ P destination ∧ P source := by
  simp [Transfer.blocks]

theorem forall_mem_fill {value : BitVec 32} :
    (∀ block ∈ (Transfer.fill destination value).blocks, P block) ↔ P destination := by
  simp [Transfer.blocks]

theorem transfer_accepted (recorded : Recorded state.allocations)
    (accepted : call.transfer env state = some transfer) :
    ∀ block ∈ transfer.blocks, block.Accepted state.allocations := by
  have copies : ∀ {params : Memcpy3DParms}, copyOfPlanes state params = some transfer →
      ∀ block ∈ transfer.blocks, block.Accepted state.allocations := by
    intro params found
    obtain ⟨-, rfl⟩ := guarded_iff.mp found
    exact forall_mem_copy.mpr
      ⟨pitchedEnd_accepted recorded _ _ _, pitchedEnd_accepted recorded _ _ _⟩
  have arrays : ∀ {params : ArrayMemcpy3DParms}, copyOf3D env state params = some transfer →
      ∀ block ∈ transfer.blocks, block.Accepted state.allocations := by
    intro params found
    unfold copyOf3D at found
    split at found
    · cases found
    split at found
    · unfold copyOfArrays at found
      split at found
      · cases found
      next valid =>
        obtain ⟨-, rfl⟩ := guarded_iff.mp found
        rw [forall_mem_copy]
        rcases validateArrayMemcpy3D_spec valid with rfl | ⟨elementSize, rows, source, target⟩
        · exact ⟨accepted_of_empty rfl, accepted_of_empty rfl⟩
        · exact ⟨arrayEnd_accepted recorded target rows, arrayEnd_accepted recorded source rows⟩
    · exact copies found
  cases call with
  | memcpy2D | memcpy2DAsync =>
    obtain ⟨-, rfl⟩ := guarded_iff.mp accepted
    exact forall_mem_copy.mpr ⟨rows_accepted recorded _ _ _ _, rows_accepted recorded _ _ _ _⟩
  | memset2D | memset2DAsync =>
    obtain ⟨-, rfl⟩ := guarded_iff.mp accepted
    exact forall_mem_fill.mpr (rows_accepted recorded _ _ _ _)
  | memset3D | memset3DAsync =>
    obtain ⟨-, rfl⟩ := guarded_iff.mp accepted
    exact forall_mem_fill.mpr (planes_accepted recorded _ _)
  | memcpy3D => exact arrays accepted
  | memcpy3DAsync =>
    simp only [PitchedCall.transfer] at accepted
    split at accepted
    · exact arrays accepted
    · exact copies accepted

/-- Every block of a transfer has this property. -/
def Transfer.InBounds (table : AllocationTable Buffer) (transfer : Transfer) : Prop :=
  ∀ block ∈ transfer.blocks, block.InBounds table

def Transfer.Fits (table : AllocationTable Buffer) (transfer : Transfer) : Prop :=
  ∀ block ∈ transfer.blocks, block.Fits table

/-- An accepted call stays in the allocations exactly if its blocks fit. -/
theorem transfer_inBounds_iff (recorded : Recorded state.allocations)
    (small : ∀ entry ∈ state.allocations.entries, entry.2.size.toNat ≤ 2 ^ 63)
    (accepted : call.transfer env state = some transfer) :
    transfer.InBounds state.allocations ↔ transfer.Fits state.allocations :=
  forall₂_congr fun block member =>
    Block.inBounds_iff recorded.bounded small (transfer_accepted recorded accepted block member)

/-! ## Allocations -/

/-- So many bytes are recorded from a pointer on. -/
def Holds (table : AllocationTable Buffer) (pointer : BitVec 64) (bytes : Nat) : Prop :=
  bytes = 0 ∨ ∃ entry ∈ table.entries, entry.1 = pointer ∧ bytes ≤ entry.2.size.toNat

variable {size width : BitVec 64}

theorem recordBuffer_mem {base aliasBase : BitVec 64} {kind : AllocationKind} {flags : BitVec 32}
    {buffer : Buffer} (fits : base.toNat + size.toNat < 2 ^ 64)
    (fitsAlias : aliasBase.toNat + size.toNat < 2 ^ 64)
    (succeeds : (recordBuffer table base aliasBase size kind flags buffer).1 = .success) :
    ∃ entry ∈ (recordBuffer table base aliasBase size kind flags buffer).2.entries,
      entry.1 = base ∧ entry.2.size = size := by
  unfold recordBuffer at succeeds ⊢
  cases inserted : table.insert base size kind flags (some buffer) false with
  | error _ =>
    rw [inserted] at succeeds
    cases succeeds
  | ok recorded =>
    have first := (mem_of_insert inserted fits _).mpr (.inl rfl)
    simp only [inserted] at succeeds ⊢
    split at succeeds
    next other =>
      rw [if_pos other]
      cases aliased : recorded.insert aliasBase size kind flags (some buffer) true with
      | error _ =>
        rw [aliased] at succeeds
        cases succeeds
      | ok next =>
        exact ⟨_, (mem_of_insert aliased fitsAlias _).mpr (.inr first), rfl, rfl⟩
    next same =>
      rw [if_neg same]
      exact ⟨_, first, rfl, rfl⟩

/-- A successful allocation is recorded under the pointer that it hands out. -/
theorem cudaMalloc_mem (fits : ∀ allocated ∈ buffer, allocated.Fits size)
    (succeeds : (cudaMalloc initialization status buffer mode table size).status = .success) :
    size ≠ 0 ∧
      ∃ entry ∈ (cudaMalloc initialization status buffer mode table size).allocations.entries,
        entry.1 = (cudaMalloc initialization status buffer mode table size).pointer ∧
          entry.2.size = size := by
  unfold cudaMalloc at succeeds ⊢
  split at succeeds
  · cases succeeds
  next nonempty =>
    rw [if_neg nonempty]
    split at succeeds
    next failed => exact absurd succeeds failed
    next initialised =>
      rw [if_neg initialised]
      cases status with
      | success =>
        cases buffer with
        | none => cases succeeds
        | some buffer =>
          simp only at succeeds ⊢
          split at succeeds
          · cases succeeds
          next valid =>
            rw [if_neg valid]
            have bases := Recorded.bases_of_mode mode fun zero => valid (.inl zero)
            obtain ⟨reach, reach'⟩ := Recorded.fits_of_bases (fits buffer rfl) bases
            exact ⟨nonempty, recordBuffer_mem reach reach' succeeds⟩
      | _ => cases succeeds

theorem alignPitch_spec (width : BitVec 64) :
    (alignPitch width).toNat = (width.toNat + 511) % 2 ^ 64 / 512 * 512 := by
  have masked : alignPitch width = (width + 511) >>> 9 <<< 9 := by
    have mask : ∀ i : Fin 64, (~~~(511 : BitVec 64)).getLsbD i = decide (9 ≤ (i : Nat)) := by decide
    apply BitVec.eq_of_getLsbD_eq
    intro i inside
    rw [alignPitch, BitVec.getLsbD_and, mask ⟨i, inside⟩, BitVec.getLsbD_shiftLeft,
      BitVec.getLsbD_ushiftRight]
    by_cases low : i < 9
    · simp [low, not_le.mpr low]
    · simp [low, inside, Nat.le_of_not_lt low]
  rw [masked, BitVec.toNat_shiftLeft, BitVec.toNat_ushiftRight, BitVec.toNat_add,
    Nat.shiftLeft_eq, Nat.shiftRight_eq_div_pow]
  change (width.toNat + 511) % 2 ^ 64 / 2 ^ 9 * 2 ^ 9 % 2 ^ 64 = _
  omega

theorem le_alignPitch (nonzero : alignPitch width ≠ 0) : width ≤ alignPitch width := by
  have positive : (alignPitch width).toNat ≠ 0 := fun zero => nonzero (BitVec.eq_of_toNat_eq zero)
  rw [BitVec.le_def]
  rw [alignPitch_spec] at positive ⊢
  omega

/-- The pitch holds a row, and all rows of all planes are allocated. -/
structure AllocatesRows (table : AllocationTable Buffer) (pointer pitch width height : BitVec 64)
    (depth : Nat) : Prop where
  row : width ≤ pitch
  rows : Holds table pointer (pitch.toNat * height.toNat * depth)

theorem Holds.lt {bytes : Nat} (holds : Holds table pointer bytes) :
    bytes < 2 ^ 64 := by
  rcases holds with rfl | ⟨entry, -, -, room⟩
  · decide
  · exact lt_of_le_of_lt room entry.2.size.isLt

/-- Pitched memory is allocated whole exactly if its exact size is a number of 64 bits. -/
theorem cudaMallocPitch_iff
    (fits : ∀ allocated ∈ buffer, allocated.Fits (alignPitch width * height))
    (succeeds : (cudaMallocPitch initialization status buffer mode table width height).2.status =
      .success) :
    AllocatesRows
        (cudaMallocPitch initialization status buffer mode table width height).2.allocations
        (cudaMallocPitch initialization status buffer mode table width height).2.pointer
        (cudaMallocPitch initialization status buffer mode table width height).1 width height 1 ↔
      (alignPitch width).toNat * height.toNat < 2 ^ 64 := by
  obtain ⟨nonempty, entry, mem, base, size⟩ := cudaMalloc_mem fits succeeds
  constructor
  · rintro ⟨-, holds⟩
    rw [← mul_one (_ * _)]
    exact holds.lt
  · intro small
    refine ⟨le_alignPitch ?_, .inr ⟨entry, mem, base, ?_⟩⟩
    · intro zero
      exact nonempty (by rw [zero, zero_mul])
    · rw [size, BitVec.toNat_mul, Nat.mod_eq_of_lt small, mul_one]
      exact le_rfl

theorem cudaMalloc3D_iff {given : PitchedPtr} {xsize : BitVec 64} (fits : ∀ allocated ∈ buffer,
      allocated.Fits (alignPitch extent.width * extent.height * extent.depth))
    (succeeds : (cudaMalloc3D initialization status buffer mode table given xsize extent).status =
      .success) :
    let made := cudaMalloc3D initialization status buffer mode table given xsize extent
    AllocatesRows made.allocations made.pitched.ptr made.pitched.pitch extent.width extent.height
        extent.depth.toNat ↔
      if extent.occupied then
        (alignPitch extent.width).toNat * extent.height.toNat * extent.depth.toNat < 2 ^ 64
      else extent.width = 0 := by
  have empty_iff : extent.occupied = true ↔
      ¬ (extent.width = 0 ∨ extent.height = 0 ∨ extent.depth = 0) := by
    rw [occupied_iff, pos_iff, pos_iff, pos_iff, not_or, not_or]
  unfold cudaMalloc3D at succeeds ⊢
  by_cases occupied : extent.occupied = true
  · rw [if_neg (empty_iff.mp occupied)] at succeeds ⊢
    simp only [occupied, if_true] at succeeds ⊢
    split at succeeds
    next failed => exact absurd succeeds failed
    next allocated =>
      simp only [if_neg allocated]
      obtain ⟨nonempty, entry, mem, base, size⟩ := cudaMalloc_mem fits (not_not.mp allocated)
      constructor
      · rintro ⟨-, holds⟩
        exact holds.lt
      · intro small
        have deep : 0 < extent.depth.toNat := (occupied_iff.mp occupied).2.2
        have planes : (alignPitch extent.width).toNat * extent.height.toNat < 2 ^ 64 :=
          lt_of_le_of_lt (Nat.le_mul_of_pos_right _ deep) small
        refine ⟨le_alignPitch ?_, .inr ⟨entry, mem, base, ?_⟩⟩
        · intro zero
          exact nonempty (by rw [zero, zero_mul, zero_mul])
        · rw [size, BitVec.toNat_mul, BitVec.toNat_mul, Nat.mod_eq_of_lt planes,
            Nat.mod_eq_of_lt small]
  · rw [if_pos (not_not.mp (mt empty_iff.mpr occupied)), if_neg occupied]
    constructor
    · rintro ⟨row, -⟩
      exact BitVec.eq_of_toNat_eq (Nat.le_zero.mp row)
    · intro none
      refine ⟨none.le, .inl ?_⟩
      change (0#64).toNat * _ * _ = 0
      rw [BitVec.toNat_zero, Nat.zero_mul, Nat.zero_mul]

/-- What a call does with memory is its transfer, and the calls stay in bounds and allocate what they
promise exactly where nothing wraps: an accepted call if each block is counted by its check or has
its corners in the allocation, an allocation if its exact size is a number of 64 bits and, in three
dimensions, it has bytes or no width. -/
theorem pitched_exact_iff {state : RuntimeState} (reachable : Reachable state.allocations)
    (small : ∀ entry ∈ state.allocations.entries, entry.2.size.toNat ≤ 2 ^ 63) :
    (∀ (env : Environment) (call : PitchedCall),
      (∀ session, call.Performs env session) ∧
      ∀ transfer, call.transfer env state = some transfer →
        (transfer.InBounds state.allocations ↔ transfer.Fits state.allocations)) ∧
    (∀ (initialization status : CudaError) (buffer : Option Buffer) (mode : Bool)
      (width height : BitVec 64),
      (∀ allocated ∈ buffer, allocated.Fits (alignPitch width * height)) →
      let made := cudaMallocPitch initialization status buffer mode state.allocations width height
      made.2.status = .success →
        (AllocatesRows made.2.allocations made.2.pointer made.1 width height 1 ↔
          (alignPitch width).toNat * height.toNat < 2 ^ 64)) ∧
    (∀ (initialization status : CudaError) (buffer : Option Buffer) (mode : Bool)
      (given : PitchedPtr) (xsize : BitVec 64) (extent : Extent),
      (∀ allocated ∈ buffer,
        allocated.Fits (alignPitch extent.width * extent.height * extent.depth)) →
      let made := cudaMalloc3D initialization status buffer mode state.allocations given xsize
        extent
      made.status = .success →
        (AllocatesRows made.allocations made.pitched.ptr made.pitched.pitch extent.width
            extent.height extent.depth.toNat ↔
          if extent.occupied then
            (alignPitch extent.width).toNat * extent.height.toNat * extent.depth.toNat < 2 ^ 64
          else extent.width = 0)) := by
  refine ⟨?_, ?_, ?_⟩
  · refine fun env call => ⟨fun session => call.performs env session, fun transfer accepted => ?_⟩
    exact transfer_inBounds_iff (.of_reachable reachable) small accepted
  · intro initialization status buffer mode width height fits made succeeds
    exact cudaMallocPitch_iff fits succeeds
  · intro initialization status buffer mode given xsize extent fits made succeeds
    exact cudaMalloc3D_iff fits succeeds

/-- An environment without arrays. -/
def arrayless : Environment where
  arrays := []
  device :=
    { backend := ⟨.success, .success, .success, .success⟩
      useMetalDeviceAddresses := false
      argumentSizes := fun _ => []
      submitKernel := fun _ _ => .refused .success
      lookupSymbol := fun _ => none }

theorem small_oneBufferTable : ∀ entry ∈ (holding []).allocations.entries,
    entry.2.size.toNat ≤ 2 ^ 63 := by
  decide

/-- Three rows of four bytes, next to each other, in an allocation of 16 bytes. -/
theorem pitched_exact_rows : ∃ transfer,
    (PitchedCall.memset2D 0x1000 4 0 4 3).transfer arrayless (holding []) = some transfer ∧
      transfer.InBounds (holding []).allocations := by
  refine ⟨_, rfl, (((@pitched_exact_iff (holding []) reachable_oneBufferTable
    small_oneBufferTable).1 arrayless (.memset2D 0x1000 4 0 4 3)).2 _ rfl).mpr ?_⟩
  refine forall_mem_fill.mpr fun entry _ _ _ => .inl ?_
  change (rows (holding []) 0x1000 4 4 3).span < 2 ^ 64
  decide

/-- A second row before the allocation, with a span that wraps to nothing. -/
theorem wrappedRows_outside : ¬ ∀ state : RuntimeState, Reachable state.allocations →
    (∀ entry ∈ state.allocations.entries, entry.2.size.toNat ≤ 2 ^ 63) →
      ∀ (env : Environment) (call : PitchedCall) (transfer : Transfer),
        call.transfer env state = some transfer → transfer.InBounds state.allocations := by
  intro always
  have inBounds := always (holding []) reachable_oneBufferTable small_oneBufferTable arrayless
    (.memset2D 0x1000 (BitVec.allOnes 64) 0 1 2) _ rfl
  have first := forall_mem_fill.mp inBounds (0x1000, ⟨16, .device, 0, _, false⟩) (.head _)
    ⟨by decide, by decide⟩ 0 (by decide) 1 (by decide) 0 (by decide)
  exact absurd first.1 (by decide)

end CuMetal.Runtime.Pitched
