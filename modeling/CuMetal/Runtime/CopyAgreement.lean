import CuMetal.Runtime.Copies

/-!
# The copies of one string

What `cudaMemcpy`, `cudaMemcpyAsync` and a row of `cudaMemcpy2D` leave at the destination, and when
they leave the same.
-/

namespace CuMetal.Runtime

open WordMap ByteMemory

def destination (dst count : BitVec 64) (state : RuntimeState) : List UInt8 :=
  state.memory.read (hostAccessiblePointer state.allocations dst count) count.toNat

def source (src count : BitVec 64) (state : RuntimeState) : List UInt8 :=
  state.memory.read (hostAccessiblePointer state.allocations src count) count.toNat

/-- The state with the source stored at the destination, rewritten. -/
def stored (rewrite : List UInt8 → List UInt8) (dst src count : BitVec 64) (state : RuntimeState) :
    RuntimeState :=
  { state with
    memory := state.memory.write (hostAccessiblePointer state.allocations dst count)
      (rewrite (source src count state)) }

@[simp] theorem length_stagedBytes (table : AllocationTable Buffer) (kind : MemcpyKind)
    (bytes : List UInt8) : (stagedBytes table kind bytes).length = bytes.length := by
  cases kind <;> simp [stagedBytes, relocateEmbeddedDevicePointers, restoreEmbeddedHostPointers]

section Store

variable {rewrite : List UInt8 → List UInt8} {dst src count : BitVec 64} {state : RuntimeState}

theorem destination_stored (sameLength : ∀ bytes, (rewrite bytes).length = bytes.length) :
    destination dst count (stored rewrite dst src count state) =
      rewrite (source src count state) := by
  have size : (rewrite (source src count state)).length = count.toNat := by
    rw [sameLength, source, length_read]
  have small := count.isLt
  have back := read_write state.memory
    (hostAccessiblePointer state.allocations dst count)
    (show (rewrite (source src count state)).length ≤ 2 ^ 64 by omega)
  rw [size] at back
  exact back

theorem stored_of_zero (sameLength : ∀ bytes, (rewrite bytes).length = bytes.length)
    (zero : ¬ 0 < count) : stored rewrite dst src count state = state := by
  have none : count = 0 := by
    apply BitVec.eq_of_toNat_eq
    rw [BitVec.lt_def] at zero
    simpa using zero
  have empty : rewrite (source src count state) = [] := by
    apply List.eq_nil_of_length_eq_zero
    rw [sameLength, source, length_read, none]
    rfl
  rw [stored, empty, write_nil]

end Store

/-- The kind that a copy is resolved to, if its ends allow it. -/
def kindOf (table : AllocationTable Buffer) (dst src : BitVec 64) : MemcpyKind → MemcpyKind
  | .default_ =>
    match isDevicePointer table dst, isDevicePointer table src with
    | true, true => .deviceToDevice
    | true, false => .hostToDevice
    | false, true => .deviceToHost
    | false, false => .hostToHost
  | kind => kind

variable {table : AllocationTable Buffer}

theorem resolveMemcpyKind_ok {dst src : BitVec 64} {kind resolvedKind : MemcpyKind}
    (result : resolveMemcpyKind table dst src kind = .ok resolvedKind) :
    resolvedKind = kindOf table dst src kind := by
  cases kind with
  | default_ =>
    cases first : isDevicePointer table dst <;> cases second : isDevicePointer table src <;>
      simp_all [resolveMemcpyKind, kindOf]
  | hostToHost | hostToDevice | deviceToHost | deviceToDevice =>
    simp only [resolveMemcpyKind] at result
    first
      | exact (Except.ok.inj result).symm
      | (split at result
         · cases result
         · exact (Except.ok.inj result).symm)

theorem resolveMemcpyKind_error {dst src : BitVec 64} {kind : MemcpyKind} {status : CudaError}
    (result : resolveMemcpyKind table dst src kind = .error status) :
    status = .invalidDevicePointer := by
  cases kind with
  | hostToHost => cases result
  | default_ =>
    cases first : isDevicePointer table dst <;> cases second : isDevicePointer table src <;>
      simp [resolveMemcpyKind, first, second] at result
  | hostToDevice | deviceToHost | deviceToDevice =>
    simp only [resolveMemcpyKind] at result
    split at result
    · exact (Except.error.inj result).symm
    · cases result

@[simp] theorem resolveMemcpyKind_default (table : AllocationTable Buffer) (dst src : BitVec 64) :
    resolveMemcpyKind table dst src .default_ = .ok (kindOf table dst src .default_) := by
  cases first : isDevicePointer table dst <;> cases second : isDevicePointer table src <;>
    simp [resolveMemcpyKind, kindOf, first, second]

/-- A pointer into an allocation of device memory, pinned host memory not counting as such. -/
def isDeviceAllocation (table : AllocationTable Buffer) (pointer : BitVec 64) : Bool :=
  match table.resolve pointer with
  | some resolved => resolved.kind = .device
  | none => false

/-- The explicit kind that `cudaMemcpyDefault` stands for at two pointers. -/
def standsFor (table : AllocationTable Buffer) (dst src : BitVec 64) : MemcpyKind :=
  match isDeviceAllocation table dst, isDeviceAllocation table src with
  | true, true => .deviceToDevice
  | true, false => .hostToDevice
  | false, true => .deviceToHost
  | false, false => .hostToHost

theorem isDevicePointer_of_allocation {pointer : BitVec 64}
    (device : isDeviceAllocation table pointer = true) : isDevicePointer table pointer = true := by
  unfold isDeviceAllocation at device
  split at device
  next resolved result =>
    have pointer_ne : pointer ≠ 0 := by
      rintro rfl
      cases result
    simpa [isDevicePointer, result] using pointer_ne
  · cases device

@[simp] theorem resolveMemcpyKind_standsFor (table : AllocationTable Buffer)
    (dst src : BitVec 64) :
    resolveMemcpyKind table dst src (standsFor table dst src) = .ok (standsFor table dst src) := by
  unfold standsFor
  split <;> simp_all [resolveMemcpyKind, isDevicePointer_of_allocation]

/-! ## Calls that are accepted -/

/-- What every accepted copy of a kind has checked. -/
structure Accepted (dst src count : BitVec 64) (kind : MemcpyKind) (state : RuntimeState) :
    Prop where
  named : ¬ ((dst = 0 ∨ src = 0) ∧ 0 < count)
  initialised : state.initStatus = .success
  kind : resolveMemcpyKind state.allocations dst src kind =
    .ok (kindOf state.allocations dst src kind)
  ends : 0 < count → hostAccessiblePointer state.allocations dst count ≠ 0 ∧
    hostAccessiblePointer state.allocations src count ≠ 0

section Calls

variable {synchronization : CudaError} {backend : StreamBackend}
  {dst dpitch src spitch count : BitVec 64} {kind : MemcpyKind} {state : RuntimeState}

theorem Accepted.of_kind (accepted : Accepted dst src count kind state) {other : MemcpyKind}
    (resolves : resolveMemcpyKind state.allocations dst src other =
      .ok (kindOf state.allocations dst src other)) : Accepted dst src count other state :=
  ⟨accepted.named, accepted.initialised, resolves, accepted.ends⟩

theorem accepted_of_cudaMemcpy
    (success : (cudaMemcpy synchronization dst src count kind state).1 = .success) :
    Accepted dst src count kind state ∧ synchronization = .success := by
  unfold cudaMemcpy at success
  split at success
  · cases success
  next named =>
    split at success
    next failed => exact absurd success failed
    next initialised =>
      split at success
      next status result =>
        rw [resolveMemcpyKind_error result] at success
        cases success
      next resolvedKind result =>
        have kinds := resolveMemcpyKind_ok result
        split at success
        next failed => exact absurd success failed
        next synchronised =>
          refine ⟨⟨named, by simpa using initialised, kinds ▸ result, fun positive => ?_⟩,
            by simpa using synchronised⟩
          rw [if_pos positive] at success
          dsimp only at success
          split at success
          · cases success
          next ends => exact not_or.mp ends

theorem cudaMemcpy_eq (accepted : Accepted dst src count kind state) :
    (cudaMemcpy .success dst src count kind state).2 =
      stored (stagedBytes state.allocations (kindOf state.allocations dst src kind)) dst src count
        state := by
  unfold cudaMemcpy
  rw [if_neg accepted.named, if_neg (by simp [accepted.initialised]), accepted.kind]
  dsimp only
  rw [if_neg (by simp)]
  by_cases positive : 0 < count
  · obtain ⟨hostDst_ne, hostSrc_ne⟩ := accepted.ends positive
    rw [if_pos positive, if_neg (not_or.mpr ⟨hostDst_ne, hostSrc_ne⟩)]
    rfl
  · rw [if_neg positive, stored_of_zero (length_stagedBytes _ _) positive]

theorem cudaMemcpy2D_row (accepted : Accepted dst src count kind state) :
    (cudaMemcpy2D .success dst dpitch src spitch count 1 kind state).2 =
      stored id dst src count state := by
  have one : rowSpan dpitch count 1 = count ∧ rowSpan spitch count 1 = count := by
    simp [rowSpan]
  have named : ¬ ((dst = 0 ∨ src = 0) ∧ 0 < count ∧ (0 : BitVec 64) < 1) := by
    have checked := accepted.named
    tauto
  unfold cudaMemcpy2D
  rw [if_neg named, if_neg (by simp [accepted.initialised]), accepted.kind, one.1, one.2]
  have rows : copyRows (hostAccessiblePointer state.allocations dst count) dpitch
      (hostAccessiblePointer state.allocations src count) spitch count 1 state.memory =
      if 0 < count then (stored id dst src count state).memory else state.memory := by
    simp [copyRows, stored, source]
  by_cases positive : 0 < count
  · have ends := accepted.ends positive
    rw [if_pos positive] at rows
    simp only [ite_self, ne_eq, not_true_eq_false, if_false, rows]
    rw [if_neg]
    · rfl
    · tauto
  · rw [if_neg positive] at rows
    simp only [positive, ite_self, ne_eq, not_true_eq_false, if_false, rows, false_and, and_false]
    exact (stored_of_zero (fun _ => rfl) positive).symm

def Blits (backend : StreamBackend) (table : AllocationTable Buffer) (dst src count : BitVec 64) :
    Prop :=
  (blitOf table dst src count).isSome = true ∧ backend.resolveStream = .success ∧
    backend.blitCopy = .success

instance (table : AllocationTable Buffer) : Decidable (Blits backend table dst src count) :=
  inferInstanceAs (Decidable (_ ∧ _))

/-- The backend takes what the call puts on the stream. -/
def Enqueues (backend : StreamBackend) (table : AllocationTable Buffer)
    (dst src count : BitVec 64) : Prop :=
  Blits backend table dst src count ∨
    (backend.resolveStream = .success ∧ backend.enqueue = .success)

theorem blitOf_run {blit : StreamCopy} (accepted : Accepted dst src count kind state)
    (found : blitOf state.allocations dst src count = some blit) :
    blit.run state.allocations state.memory = (stored id dst src count state).memory := by
  unfold blitOf at found
  split at found
  next positive =>
    split at found
    next dstAlloc srcAlloc dstFound srcFound =>
      split at found
      next dstBuffer srcBuffer dstOwner srcOwner =>
        split at found
        next room =>
          cases found
          obtain ⟨hostDst_ne, hostSrc_ne⟩ := accepted.ends positive
          -- both ends are accessible, so their contents are where the pointers are resolved to
          have dst_eq : hostAccessiblePointer state.allocations dst count =
              dstBuffer.contents + dstAlloc.offset := by
            unfold hostAccessiblePointer at hostDst_ne ⊢
            simp_all
          have src_eq : hostAccessiblePointer state.allocations src count =
              srcBuffer.contents + srcAlloc.offset := by
            unfold hostAccessiblePointer at hostSrc_ne ⊢
            simp_all
          simp only [StreamCopy.run, stored, source, dst_eq, src_eq, id]
        · cases found
      · cases found
    · cases found
  · cases found

theorem hostFunctionOf_run (resolvedKind : MemcpyKind) :
    (hostFunctionOf state.allocations state.memory resolvedKind
      (hostAccessiblePointer state.allocations dst count)
      (hostAccessiblePointer state.allocations src count) count).run state.allocations
        state.memory =
      (stored (stagedBytes state.allocations resolvedKind) dst src count state).memory := by
  unfold hostFunctionOf
  by_cases zero : count = 0
  · rw [if_pos zero, stored_of_zero (length_stagedBytes _ _) (by simp [zero])]
    rfl
  · rw [if_neg zero]
    cases resolvedKind <;> rfl

/-- `cudaMemcpyAsync` and the work left on the stream store the source: as it is when a blit does
it, else as its kind rewrites it. -/
theorem cudaMemcpyAsync_eq (accepted : Accepted dst src count kind state)
    (enqueues : Enqueues backend state.allocations dst src count) :
    synchronizeStream (cudaMemcpyAsync backend dst src count kind state) =
      stored (if Blits backend state.allocations dst src count then id
        else stagedBytes state.allocations (kindOf state.allocations dst src kind)) dst src count
        state := by
  unfold cudaMemcpyAsync
  rw [if_neg accepted.named, if_neg (by simp [accepted.initialised]), accepted.kind]
  dsimp only
  have ends : ¬ ((hostAccessiblePointer state.allocations dst count = 0 ∨
      hostAccessiblePointer state.allocations src count = 0) ∧ 0 < count) := by
    rintro ⟨null, positive⟩
    exact (not_or.mpr (accepted.ends positive)) null
  by_cases blits : Blits backend state.allocations dst src count
  · rw [if_pos blits]
    obtain ⟨found, resolved, copied⟩ := blits
    obtain ⟨blit, found⟩ := Option.isSome_iff_exists.mp found
    rw [found, resolved, copied]
    show { state with memory := blit.run state.allocations state.memory } =
      stored id dst src count state
    rw [blitOf_run accepted found]
    rfl
  · obtain ⟨resolved, enqueued⟩ := enqueues.resolve_left blits
    rw [if_neg blits]
    split
    next blit found taken =>
      exact absurd ⟨by rw [found]; rfl, by simpa using taken⟩ blits
    · rw [if_neg ends]
      simp only [resolved, enqueued, ne_eq, not_true_eq_false, if_false]
      split
      · show { state with memory := _ } = _
        rw [hostFunctionOf_run]
        rfl
      · show { state with memory := _ } = _
        rw [hostFunctionOf_run]
        rfl

theorem enqueues_of_cudaMemcpyAsync
    (success : (cudaMemcpyAsync backend dst src count kind state).1 = .success) :
    Enqueues backend state.allocations dst src count := by
  by_cases enqueues : Enqueues backend state.allocations dst src count
  · exact enqueues
  exfalso
  obtain ⟨unblitted, refused⟩ := not_or.mp enqueues
  unfold cudaMemcpyAsync at success
  split at success
  · cases success
  split at success
  next failed => exact failed success
  split at success
  next result =>
    rw [resolveMemcpyKind_error result] at success
    cases success
  split at success
  next blit found taken =>
    exact unblitted ⟨by rw [found]; rfl, by simpa using taken⟩
  · dsimp only at success
    split at success
    · cases success
    split at success
    next failed => exact failed success
    next resolved =>
      split at success
      next failed => exact failed success
      next enqueued => exact refused ⟨by simpa using resolved, by simpa using enqueued⟩

end Calls

/-! ## Agreement -/

/-- The four entry points and kinds leave the same bytes at the destination. -/
structure CopyPathsAgree (backend : StreamBackend) (dst dpitch src spitch count : BitVec 64)
    (kind : MemcpyKind) (state : RuntimeState) : Prop where
  async : destination dst count (synchronizeStream (cudaMemcpyAsync backend dst src count kind
      state)) = destination dst count (cudaMemcpy .success dst src count kind state).2
  standard : destination dst count (cudaMemcpy .success dst src count .default_ state).2 =
    destination dst count
      (cudaMemcpy .success dst src count (standsFor state.allocations dst src) state).2
  standardAsync : destination dst count
      (synchronizeStream (cudaMemcpyAsync backend dst src count .default_ state)) =
    destination dst count (synchronizeStream
      (cudaMemcpyAsync backend dst src count (standsFor state.allocations dst src) state))
  row : destination dst count
      (cudaMemcpy2D .success dst dpitch src spitch count 1 kind state).2 =
    destination dst count (cudaMemcpy .success dst src count kind state).2

/-- No whole word of the bytes is an address that a staged copy of a kind rewrites. -/
def Plain (table : AllocationTable Buffer) (kind : MemcpyKind) (bytes : List UInt8) : Prop :=
  match kind with
  | .hostToDevice => Untouched (relocatedPointer table) bytes
  | .deviceToHost => Untouched (restoredPointer table) bytes
  | _ => True

/-- Pinned memory at an end does not change the kind that the default stands for, or nothing is
rewritten under either kind. -/
def PlainDefault (table : AllocationTable Buffer) (dst src : BitVec 64) (bytes : List UInt8) :
    Prop :=
  kindOf table dst src .default_ = standsFor table dst src ∨
    (Plain table (kindOf table dst src .default_) bytes ∧
      Plain table (standsFor table dst src) bytes)

/-- When each of the agreements holds. -/
structure CopiesPlain (backend : StreamBackend) (dst src count : BitVec 64) (kind : MemcpyKind)
    (state : RuntimeState) : Prop where
  async : Blits backend state.allocations dst src count →
    Plain state.allocations (kindOf state.allocations dst src kind) (source src count state)
  standard : PlainDefault state.allocations dst src (source src count state)
  row : Plain state.allocations (kindOf state.allocations dst src kind) (source src count state)

theorem stagedBytes_eq_self_iff (table : AllocationTable Buffer) (kind : MemcpyKind)
    (bytes : List UInt8) : stagedBytes table kind bytes = bytes ↔ Plain table kind bytes := by
  cases kind with
  | hostToDevice => exact mapWords_eq_self_iff _ _
  | deviceToHost => exact mapWords_eq_self_iff _ _
  | hostToHost | deviceToDevice | default_ => exact ⟨fun _ => trivial, fun _ => rfl⟩

/-- Where the default and the kind it stands for differ, at most one of them rewrites. -/
theorem kinds_of_default (table : AllocationTable Buffer) (dst src : BitVec 64) :
    kindOf table dst src .default_ = standsFor table dst src ∨
      (∀ bytes, stagedBytes table (kindOf table dst src .default_) bytes = bytes) ∨
      ∀ bytes, stagedBytes table (standsFor table dst src) bytes = bytes := by
  have dstDevice : isDeviceAllocation table dst = true → isDevicePointer table dst = true :=
    isDevicePointer_of_allocation
  have srcDevice : isDeviceAllocation table src = true → isDevicePointer table src = true :=
    isDevicePointer_of_allocation
  unfold kindOf standsFor
  cases first : isDeviceAllocation table dst <;> cases second : isDeviceAllocation table src <;>
    cases third : isDevicePointer table dst <;> cases fourth : isDevicePointer table src <;>
    simp_all [stagedBytes]

theorem stagedBytes_default_iff (table : AllocationTable Buffer) (dst src : BitVec 64)
    (bytes : List UInt8) :
    stagedBytes table (kindOf table dst src .default_) bytes =
        stagedBytes table (standsFor table dst src) bytes ↔
      PlainDefault table dst src bytes := by
  unfold PlainDefault
  rw [← stagedBytes_eq_self_iff, ← stagedBytes_eq_self_iff]
  constructor
  · intro same
    rcases kinds_of_default table dst src with kinds | plain | plain
    · exact .inl kinds
    · refine .inr ⟨plain bytes, ?_⟩
      rw [← same]
      exact plain bytes
    · refine .inr ⟨?_, plain bytes⟩
      rw [same]
      exact plain bytes
  · rintro (kinds | ⟨plain, plain'⟩)
    · rw [kinds]
    · rw [plain, plain']

section Agreement

variable {backend : StreamBackend} {dst dpitch src spitch count : BitVec 64} {kind : MemcpyKind}
  {state : RuntimeState}

theorem destination_cudaMemcpy (accepted : Accepted dst src count kind state) :
    destination dst count (cudaMemcpy .success dst src count kind state).2 =
      stagedBytes state.allocations (kindOf state.allocations dst src kind)
        (source src count state) := by
  rw [cudaMemcpy_eq accepted, destination_stored (length_stagedBytes _ _)]

theorem destination_cudaMemcpyAsync (accepted : Accepted dst src count kind state)
    (enqueues : Enqueues backend state.allocations dst src count) :
    destination dst count
        (synchronizeStream (cudaMemcpyAsync backend dst src count kind state)) =
      if Blits backend state.allocations dst src count then source src count state
      else stagedBytes state.allocations (kindOf state.allocations dst src kind)
        (source src count state) := by
  rw [cudaMemcpyAsync_eq accepted enqueues]
  split
  · exact destination_stored fun _ => rfl
  · exact destination_stored (length_stagedBytes _ _)

variable (dpitch spitch) in
theorem destination_row (accepted : Accepted dst src count kind state) :
    destination dst count (cudaMemcpy2D .success dst dpitch src spitch count 1 kind state).2 =
      source src count state := by
  rw [cudaMemcpy2D_row accepted]
  exact destination_stored fun _ => rfl

/-- The copies of one string agree exactly when no whole word of it is an address that one of
them rewrites and another does not. -/
theorem copyPathsAgree_iff
    (accepted : (cudaMemcpy .success dst src count kind state).1 = .success)
    (acceptedAsync : (cudaMemcpyAsync backend dst src count kind state).1 = .success) :
    CopyPathsAgree backend dst dpitch src spitch count kind state ↔
      CopiesPlain backend dst src count kind state := by
  obtain ⟨checked, -⟩ := accepted_of_cudaMemcpy accepted
  have enqueues := enqueues_of_cudaMemcpyAsync acceptedAsync
  have checkedDefault := checked.of_kind (resolveMemcpyKind_default state.allocations dst src)
  have explicit : kindOf state.allocations dst src (standsFor state.allocations dst src) =
      standsFor state.allocations dst src := by
    unfold standsFor
    split <;> rfl
  have checkedExplicit : Accepted dst src count (standsFor state.allocations dst src) state := by
    apply checked.of_kind
    rw [explicit, resolveMemcpyKind_standsFor]
  have sync := destination_cudaMemcpy checked
  have syncDefault := destination_cudaMemcpy checkedDefault
  have syncExplicit := destination_cudaMemcpy checkedExplicit
  have async := destination_cudaMemcpyAsync checked enqueues
  have asyncDefault := destination_cudaMemcpyAsync checkedDefault enqueues
  have asyncExplicit := destination_cudaMemcpyAsync checkedExplicit enqueues
  have row := destination_row dpitch spitch checked
  rw [explicit] at syncExplicit asyncExplicit
  constructor
  · intro agree
    constructor
    · intro blits
      have same := agree.async
      rw [async, sync, if_pos blits] at same
      exact (stagedBytes_eq_self_iff _ _ _).mp same.symm
    · have same := agree.standard
      rw [syncDefault, syncExplicit] at same
      exact (stagedBytes_default_iff _ _ _ _).mp same
    · have same := agree.row
      rw [row, sync] at same
      exact (stagedBytes_eq_self_iff _ _ _).mp same.symm
  · intro plain
    have same := (stagedBytes_eq_self_iff _ _ _).mpr plain.row
    have sameDefault := (stagedBytes_default_iff _ _ _ _).mpr plain.standard
    constructor
    · rw [async, sync, same, ite_self]
    · rw [syncDefault, syncExplicit, sameDefault]
    · rw [asyncDefault, asyncExplicit, sameDefault]
    · rw [row, sync, same]

end Agreement

/-- A device allocation, a pinned one, and bytes in the pinned one. -/
def pinned (bytes : List UInt8) : RuntimeState where
  initStatus := .success
  allocations :=
    (cudaHostAlloc .success .success (some ⟨1, 0x2000, 0x200000⟩)
      (cudaMalloc .success .success (some ⟨0, 0x1000, 0x100000⟩) false AllocationTable.initial
        16).allocations 16 0).allocations
  memory := ByteMemory.write (fun _ => 0) 0x2000 bytes

def willing : StreamBackend := ⟨.success, .success, .success, .success⟩

def devicePointer : RuntimeState := pinned (bytesOf 0x1008)

/-- A device pointer in pinned memory, copied to the device: only the synchronous copy under the
explicit kind relocates it. -/
theorem copies_differ :
    (cudaMemcpy .success 0x1000 0x2000 8 .hostToDevice devicePointer).1 = .success ∧
    (cudaMemcpyAsync willing 0x1000 0x2000 8 .hostToDevice devicePointer).1 = .success ∧
    destination 0x1000 8 (synchronizeStream
        (cudaMemcpyAsync willing 0x1000 0x2000 8 .hostToDevice devicePointer)) ≠
      destination 0x1000 8
        (cudaMemcpy .success 0x1000 0x2000 8 .hostToDevice devicePointer).2 ∧
    destination 0x1000 8 (cudaMemcpy .success 0x1000 0x2000 8 .default_ devicePointer).2 ≠
      destination 0x1000 8 (cudaMemcpy .success 0x1000 0x2000 8
        (standsFor devicePointer.allocations 0x1000 0x2000) devicePointer).2 ∧
    destination 0x1000 8
        (cudaMemcpy2D .success 0x1000 8 0x2000 8 8 1 .hostToDevice devicePointer).2 ≠
      destination 0x1000 8
        (cudaMemcpy .success 0x1000 0x2000 8 .hostToDevice devicePointer).2 := by
  decide +kernel

/-- A device address, and the first half of the pointer that a copy would relocate. -/
def addressAndHalf : RuntimeState := pinned (bytesOf 0x100008 ++ (bytesOf 0x1008).take 4)

/-- Neither the whole word nor the rest of the string is rewritten by any of the copies. -/
theorem copies_agree :
    CopyPathsAgree willing 0x1000 16 0x2000 16 12 .hostToDevice addressAndHalf := by
  have untouched : Untouched (relocatedPointer addressAndHalf.allocations)
      (source 0x2000 12 addressAndHalf) := by
    intro position aligned inside
    have first : position = 0 := by
      rw [source, length_read] at inside
      have few : position + 8 ≤ 12 := inside
      omega
    rw [first]
    decide +kernel
  apply (copyPathsAgree_iff (by decide +kernel) (by decide +kernel)).mpr
  exact ⟨fun _ => untouched, .inr ⟨trivial, untouched⟩, untouched⟩

end CuMetal.Runtime
