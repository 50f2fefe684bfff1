import CuMetal.Driver.AbiSidecar
import CuMetal.Driver.MemoryCalls

/-!
# The two argument forms of a driver launch

`cuLaunchKernel` of `runtime/driver/cuda_driver.cpp:1622-1776`: it takes an array of argument
addresses, or a buffer with the arguments packed at their offsets, and hands `cudaLaunchKernel` a
description and an address for each argument. The first form describes the arguments as the sidecar
does; the second one cuts the buffer into words and guesses from their values.
-/

namespace CuMetal.Driver

open BitVec List Option ByteMemory

open ByteMemory (place read)
open CuMetal.Runtime (AllocationTable Buffer isDevicePointer)
open CuMetal.Runtime.Launch (ArgKind ArgInfo)
open WordMap (wordOf bytesOf)

/-- An argument that is handed on: its description, and the bytes that it describes. -/
structure HandedArgument where
  info : ArgInfo
  bytes : List UInt8
  deriving DecidableEq

/-- What is handed to `cudaLaunchKernel`, and the ranges of argument memory read on the way. -/
structure Handed where
  arguments : List HandedArgument := []
  reads : List (BitVec 64 × Nat) := []

/-- `is_runtime_device_pointer_word` (`cuda_driver.cpp:660-666`). -/
def isRuntimeDevicePointerWord (table : AllocationTable Buffer) (value : BitVec 64) : Bool :=
  value ≠ 0 && isDevicePointer table value

/-- The description guessed from a word (`1697-1709`, `1751-1759`). -/
def guessInfo (table : AllocationTable Buffer) (value : BitVec 64) : ArgInfo :=
  if isRuntimeDevicePointerWord table value then ⟨.buffer, 0⟩
  else ⟨.bytes, if value.toNat ≤ 0xFFFFFFFF then 4 else 8⟩

/-- What the entries of `extra` have given so far. -/
structure ExtraFields where
  buffer : Option (BitVec 64) := none
  size : Option (BitVec 64) := none

/-- The loop over `extra` (`1659-1682`); `none` past the end of the array. -/
def readExtra (memory : ByteMemory) :
    List (BitVec 64) → ExtraFields → Option (Except CuResult ExtraFields)
  | [], _ => none
  | key :: rest, fields =>
    if key = 0 then some (.ok fields)
    else if key = 1 then
      match rest with
      | [] => none
      | pointer :: rest =>
        if pointer = 0 then some (.error .invalidValue)
        else readExtra memory rest { fields with buffer := some pointer }
    else if key = 2 then
      match rest with
      | [] => none
      | pointer :: rest =>
        if pointer = 0 then some (.error .invalidValue)
        else readExtra memory rest { fields with size := some (wordOf (read memory pointer 8)) }
    else some (.error .invalidValue)

/-- The words of a packed buffer, each one described as its value suggests (`1684-1710`). -/
def packedArguments (table : AllocationTable Buffer) (memory : ByteMemory) (fields : ExtraFields) :
    Except CuResult Handed :=
  match fields.buffer, fields.size with
  | some buffer, some size =>
    if size.toNat % 8 ≠ 0 then .error .invalidValue
    else if 31 < size.toNat / 8 then .error .invalidValue
    else
      .ok
        { arguments := (List.range (size.toNat / 8)).map fun i =>
            let word := read memory (place buffer (8 * i)) 8
            let info := guessInfo table (wordOf word)
            { info, bytes := word.take info.sizeBytes }
          reads := (List.range (size.toNat / 8)).map fun i => (place buffer (8 * i), 8) }
  | _, _ => .error .invalidValue

/-- The number of arguments (`1712-1738`). -/
def paramCount (function : DriverFunction) (params : Nat → BitVec 64) : Except CuResult Nat :=
  if function.hasArgumentCount then .ok function.argumentCount
  else
    let scanned := ((List.range 31).takeWhile fun i => params i ≠ 0).length
    if scanned = 31 ∧ params 31 ≠ 0 then .error .invalidValue else .ok scanned

/-- The arguments of the array form (`1740-1762`). -/
def paramArguments (table : AllocationTable Buffer) (memory : ByteMemory)
    (function : DriverFunction) (params : Nat → BitVec 64) : Except CuResult Handed :=
  (paramCount function params).bind fun count =>
    if ∃ i < count, (params i).toNat < 4096 then .error .invalidValue
    else
      .ok
        { arguments := (List.range count).map fun i =>
            let info :=
              if function.argumentInfo.length = count then function.argumentInfo.getD i ⟨.bytes, 0⟩
              else guessInfo table (wordOf (read memory (params i) 8))
            { info, bytes := read memory (params i) info.sizeBytes }
          reads := (List.range count).map fun i => (params i, 8) }

/-- The arguments of `cuLaunchKernel`. -/
structure KernelLaunch where
  function : Option DriverFunction
  gridDim : Nat × Nat × Nat
  blockDim : Nat × Nat × Nat
  kernelParams : Option (Nat → BitVec 64) := none
  extra : Option (List (BitVec 64)) := none

def nonzero (dim : Nat × Nat × Nat) : Bool := dim.1 ≠ 0 && dim.2.1 ≠ 0 && dim.2.2 ≠ 0

/-- What `cuLaunchKernel` hands to `cudaLaunchKernel` (`1633-1762`), given the answer of the driver
state about its readiness and the function; `none` where it reads past the end of `extra`. -/
def cuLaunchKernel (table : AllocationTable Buffer) (memory : ByteMemory) (ready : CuResult)
    (launch : KernelLaunch) : Option (Except CuResult Handed) :=
  match launch.function with
  | none => some (.error .invalidValue)
  | some function =>
    if !nonzero launch.gridDim || !nonzero launch.blockDim then some (.error .invalidValue)
    else if launch.kernelParams.isSome && launch.extra.isSome then some (.error .invalidValue)
    else if ready ≠ .success then some (.error ready)
    else
      match launch.extra with
      | some extra =>
        (readExtra memory extra {}).map fun fields => fields.bind (packedArguments table memory)
      | none =>
        match launch.kernelParams with
        | some params => some (paramArguments table memory function params)
        | none => some (.ok {})

/-- The first multiple of the alignment from a position on. -/
def alignUp (position alignment : Nat) : Nat :=
  (position + (alignment - 1)) / alignment * alignment

/-- The offsets of fields of given sizes and alignments, from a position on. -/
def fieldOffsets : Nat → List (Nat × Nat) → List Nat
  | _, [] => []
  | position, (size, alignment) :: fields =>
    alignUp position alignment :: fieldOffsets (alignUp position alignment + size) fields

def fieldsEnd : Nat → List (Nat × Nat) → Nat
  | position, [] => position
  | position, (size, alignment) :: fields => fieldsEnd (alignUp position alignment + size) fields

theorem alignUp_of_dvd {position alignment : Nat} (positive : 0 < alignment)
    (aligned : alignment ∣ position) : alignUp position alignment = position := by
  obtain ⟨k, rfl⟩ := aligned
  have quotient : (alignment * k + (alignment - 1)) / alignment = k := by
    rw [Nat.mul_add_div positive, Nat.div_eq_of_lt (by omega), add_zero]
  rw [alignUp, quotient, mul_comm]

theorem fields_of_words : ∀ (fields : List (Nat × Nat)) (k : Nat),
    (∀ field ∈ fields, field.1 = 8 ∧ 0 < field.2 ∧ field.2 ∣ field.1) →
    fieldsEnd (8 * k) fields = 8 * (k + fields.length) ∧
      ∀ i < fields.length, (fieldOffsets (8 * k) fields)[i]? = some (8 * (k + i)) := by
  intro fields
  induction fields with
  | nil => exact fun k _ => ⟨rfl, fun i inside => absurd inside (Nat.not_lt_zero i)⟩
  | cons field fields ih =>
    intro k words
    obtain ⟨size, alignment⟩ := field
    obtain ⟨eight, positive, divides⟩ := words _ mem_cons_self
    simp only at eight positive divides
    subst eight
    have here : alignUp (8 * k) alignment = 8 * k :=
      alignUp_of_dvd positive (divides.trans (dvd_mul_right 8 k))
    have next : 8 * k + 8 = 8 * (k + 1) := by omega
    obtain ⟨ends, offsets⟩ := ih (k + 1) fun other member =>
      words other (mem_cons_of_mem _ member)
    rw [fieldsEnd, fieldOffsets, here, next]
    refine ⟨by rw [ends, length_cons]; omega, ?_⟩
    intro i inside
    cases i with
    | zero => simp
    | succ i =>
      rw [getElem?_cons_succ, offsets i (by simpa using inside)]
      congr 2
      omega

/-- One tuple of argument values in both forms: each value at an address of its own, and all of them
in a buffer, with the alignments of the CUDA types; and where the size of the buffer is stored. -/
structure ArgumentTuple where
  memory : ByteMemory
  params : Nat → BitVec 64
  alignments : List Nat
  packed : BitVec 64
  sizeSlot : BitVec 64

def ArgumentTuple.fields (tuple : ArgumentTuple) (info : List ArgInfo) : List (Nat × Nat) :=
  (info.map ArgInfo.sizeBytes).zip tuple.alignments

def ArgumentTuple.value (tuple : ArgumentTuple) (i size : Nat) : List UInt8 :=
  read tuple.memory (tuple.params i) size

/-- The two forms hold the same values: the buffer has them at their CUDA offsets. -/
structure ArgumentTuple.IsPacked (tuple : ArgumentTuple) (info : List ArgInfo) : Prop where
  count : tuple.alignments.length = info.length
  aligned : ∀ field ∈ tuple.fields info, 0 < field.2 ∧ field.2 ∣ field.1
  addressed : ∀ i < info.length, 4096 ≤ (tuple.params i).toNat
  buffer : tuple.packed ≠ 0 ∧ tuple.sizeSlot ≠ 0
  size : wordOf (read tuple.memory tuple.sizeSlot 8) =
    BitVec.ofNat 64 (fieldsEnd 0 (tuple.fields info))
  same : ∀ (i : Nat) (argument : ArgInfo) (offset : Nat), info[i]? = some argument →
    (fieldOffsets 0 (tuple.fields info))[i]? = some offset →
    read tuple.memory (place tuple.packed offset) argument.sizeBytes =
      tuple.value i argument.sizeBytes

/-- The `extra` array of the packed form. -/
def ArgumentTuple.extra (tuple : ArgumentTuple) : List (BitVec 64) :=
  [1, tuple.packed, 2, tuple.sizeSlot, 0]

/-- A launch that is valid but for its arguments. -/
structure LaunchShape where
  function : DriverFunction
  gridDim : Nat × Nat × Nat
  blockDim : Nat × Nat × Nat
  grid : nonzero gridDim = true
  block : nonzero blockDim = true

def LaunchShape.withParams (shape : LaunchShape) (tuple : ArgumentTuple) : KernelLaunch :=
  { function := some shape.function, gridDim := shape.gridDim, blockDim := shape.blockDim,
    kernelParams := some tuple.params }

def LaunchShape.withExtra (shape : LaunchShape) (tuple : ArgumentTuple) : KernelLaunch :=
  { function := some shape.function, gridDim := shape.gridDim, blockDim := shape.blockDim,
    extra := some tuple.extra }

/-- The arguments with exactly their declared kinds, sizes and bytes. -/
def declared (info : List ArgInfo) (tuple : ArgumentTuple) : List HandedArgument :=
  info.zipIdx.map fun argument =>
    ⟨argument.1, tuple.value argument.2 argument.1.sizeBytes⟩

/-- Both forms hand on the declared arguments, and the array form reads only bytes of them. -/
structure FormsAgree (table : AllocationTable Buffer) (shape : LaunchShape)
    (info : List ArgInfo) (tuple : ArgumentTuple) : Prop where
  byParams : ∃ handed, cuLaunchKernel table tuple.memory .success (shape.withParams tuple) =
    some (.ok handed) ∧ handed.arguments = declared info tuple ∧
    ∀ (i : Nat) argument range, info[i]? = some argument → handed.reads[i]? = some range →
      range.1 = tuple.params i ∧ range.2 ≤ argument.sizeBytes
  byExtra : ∃ handed, cuLaunchKernel table tuple.memory .success (shape.withExtra tuple) =
    some (.ok handed) ∧ handed.arguments = declared info tuple

/-- Every argument is a block of eight bytes whose value does not fit into four and is not an address
of an allocation. -/
def AllWideScalars (table : AllocationTable Buffer) (info : List ArgInfo)
    (tuple : ArgumentTuple) : Prop :=
  ∀ (i : Nat) argument, info[i]? = some argument → argument = ⟨.bytes, 8⟩ ∧
    0xFFFFFFFF < (wordOf (tuple.value i 8)).toNat ∧
    isRuntimeDevicePointerWord table (wordOf (tuple.value i 8)) = false

/-! ## When the forms agree -/

section Forms

variable {table : AllocationTable Buffer} {shape : LaunchShape} {info : List ArgInfo}
  {tuple : ArgumentTuple}

/-- The function record holds what the sidecar declares. -/
structure Described (shape : LaunchShape) (info : List ArgInfo) : Prop where
  counted : shape.function.hasArgumentCount = true
  count : shape.function.argumentCount = info.length
  info : shape.function.argumentInfo = info

theorem getElem?_declared {i : Nat} {argument : ArgInfo} (present : info[i]? = some argument) :
    (declared info tuple)[i]? = some ⟨argument, tuple.value i argument.sizeBytes⟩ := by
  simp [declared, present]

theorem length_declared : (declared info tuple).length = info.length := by simp [declared]

/-- The array form hands on the declared arguments, whatever their values are, and reads eight bytes
of each. -/
theorem cuLaunchKernel_params (described : Described shape info) (packed : tuple.IsPacked info) :
    cuLaunchKernel table tuple.memory .success (shape.withParams tuple) =
      some (.ok ⟨declared info tuple, (List.range info.length).map fun i => (tuple.params i, 8)⟩) := by
  have addressed : ¬ ∃ i < info.length, (tuple.params i).toNat < 4096 := by
    rintro ⟨i, inside, low⟩
    have := packed.addressed i inside
    omega
  have arguments : (range info.length).map (fun i =>
      (⟨info.getD i ⟨.bytes, 0⟩,
        read tuple.memory (tuple.params i) (info.getD i ⟨.bytes, 0⟩).sizeBytes⟩ :
          HandedArgument)) = declared info tuple := by
    refine ext_getElem? fun i => ?_
    by_cases inside : i < info.length
    · rw [getElem?_declared (getElem?_eq_getElem inside)]
      simp [inside, getD_eq_getElem?_getD, ArgumentTuple.value]
    · rw [List.getElem?_eq_none (by simp; omega),
        getElem?_eq_none (by rw [length_declared]; omega)]
  simp only [cuLaunchKernel, LaunchShape.withParams, shape.grid, shape.block, paramArguments,
    paramCount, described.counted, described.count, described.info]
  simp only [Bool.not_true, Bool.or_self, Bool.false_eq_true, if_false, Option.isSome_none,
    Bool.and_false, ne_eq, not_true_eq_false, if_true, Except.bind, if_neg addressed]
  rw [arguments]

theorem cuLaunchKernel_extra (packed : tuple.IsPacked info) :
    cuLaunchKernel table tuple.memory .success (shape.withExtra tuple) =
      some (packedArguments table tuple.memory
        ⟨some tuple.packed, some (BitVec.ofNat 64 (fieldsEnd 0 (tuple.fields info)))⟩) := by
  have entries : readExtra tuple.memory tuple.extra {} = some (.ok
      ⟨some tuple.packed, some (BitVec.ofNat 64 (fieldsEnd 0 (tuple.fields info)))⟩) := by
    have buffer : ¬ tuple.packed = 0#64 := packed.buffer.1
    have slot : ¬ tuple.sizeSlot = 0#64 := packed.buffer.2
    simp [readExtra, ArgumentTuple.extra, buffer, slot, packed.size]
  simp only [cuLaunchKernel, LaunchShape.withExtra, shape.grid, shape.block, entries]
  rfl

/-- A description of eight bytes or more is guessed only for a wide scalar. -/
theorem guessInfo_wide {value : BitVec 64} (wide : 8 ≤ (guessInfo table value).sizeBytes) :
    guessInfo table value = ⟨.bytes, 8⟩ ∧ 0xFFFFFFFF < value.toNat ∧
      isRuntimeDevicePointerWord table value = false := by
  unfold guessInfo at wide ⊢
  by_cases device : isRuntimeDevicePointerWord table value = true
  · rw [if_pos device] at wide
    exact absurd wide (by decide)
  · rw [if_neg device] at wide ⊢
    by_cases small : value.toNat ≤ 0xFFFFFFFF
    · rw [if_pos small] at wide
      exact absurd wide (by decide)
    · exact ⟨by rw [if_neg small], Nat.lt_of_not_le small, Bool.eq_false_iff.mpr device⟩

theorem guessInfo_of_wide {value : BitVec 64} (large : 0xFFFFFFFF < value.toNat)
    (scalar : isRuntimeDevicePointerWord table value = false) :
    guessInfo table value = ⟨.bytes, 8⟩ := by
  rw [guessInfo, scalar, if_neg Bool.false_ne_true, if_neg (Nat.not_le_of_lt large)]

theorem words_of_buffer (packed : tuple.IsPacked info)
    (words : ∀ argument ∈ info, argument.sizeBytes = 8) :
    fieldsEnd 0 (tuple.fields info) = 8 * info.length ∧
      ∀ i < info.length, read tuple.memory (place tuple.packed (8 * i)) 8 = tuple.value i 8 := by
  have lengths : (tuple.fields info).length = info.length := by
    simp [ArgumentTuple.fields, packed.count]
  have eight : ∀ field ∈ tuple.fields info, field.1 = 8 ∧ 0 < field.2 ∧ field.2 ∣ field.1 := by
    intro field member
    obtain ⟨argument, present, size⟩ := mem_map.mp (of_mem_zip member).1
    exact ⟨size ▸ words argument present, packed.aligned field member⟩
  obtain ⟨ends, offsets⟩ := fields_of_words (tuple.fields info) 0 eight
  rw [Nat.mul_zero, zero_add, lengths] at ends
  refine ⟨ends, fun i inside => ?_⟩
  have offset := offsets i (lengths.symm ▸ inside)
  rw [Nat.mul_zero, zero_add] at offset
  have present : info[i]? = some info[i] := getElem?_eq_getElem inside
  have bytes := packed.same i _ _ present offset
  rwa [words _ (getElem_mem inside)] at bytes

theorem formsAgree_iff (described : Described shape info) (accepted : AcceptedInfo info)
    (packed : tuple.IsPacked info) :
    FormsAgree table shape info tuple ↔ AllWideScalars table info tuple := by
  constructor
  · rintro ⟨⟨byParams, params, _, reads⟩, byExtra, extra, words⟩
    -- the array form reads eight bytes of each argument
    have wide : ∀ (i : Nat) argument, info[i]? = some argument → 8 ≤ argument.sizeBytes := by
      intro i argument present
      rw [cuLaunchKernel_params described packed] at params
      obtain rfl := Except.ok.inj (some.inj params)
      have inside : i < info.length := (List.getElem?_eq_some_iff.mp present).1
      exact (reads i argument (tuple.params i, 8) present (by simp [inside])).2
    -- so the descriptions that are guessed are those of wide scalars
    rw [cuLaunchKernel_extra packed] at extra
    have handed := some.inj extra
    unfold packedArguments at handed
    simp only at handed
    split at handed
    · cases handed
    · split at handed
      · cases handed
      · cases handed
        simp only at words
        have guessed : ∀ (i : Nat) argument, info[i]? = some argument →
            guessInfo table (wordOf (read tuple.memory (place tuple.packed (8 * i)) 8)) =
              argument := by
          intro i argument present
          have at_i := congrArg (fun list => (list[i]?).map HandedArgument.info) words
          simp only [getElem?_declared present, getElem?_map] at at_i
          cases inRange : (range _)[i]? with
          | none => rw [inRange] at at_i; cases at_i
          | some j =>
            rw [inRange] at at_i
            obtain ⟨inside, rfl⟩ := List.getElem?_eq_some_iff.mp inRange
            simpa using at_i
        have eight : ∀ argument ∈ info, argument.sizeBytes = 8 := by
          intro argument member
          obtain ⟨i, present⟩ := getElem?_of_mem member
          have same := guessed i argument present
          have large := wide i argument present
          rw [← same] at large ⊢
          rw [(guessInfo_wide large).1]
        intro i argument present
        have inside : i < info.length := (List.getElem?_eq_some_iff.mp present).1
        have same := guessed i argument present
        have large := wide i argument present
        rw [(words_of_buffer packed eight).2 i inside] at same
        rw [← same] at large ⊢
        exact guessInfo_wide large
  · intro scalars
    refine ⟨⟨_, cuLaunchKernel_params described packed, rfl, ?_⟩, ?_⟩
    · intro i argument range present read
      have inside : i < info.length := (List.getElem?_eq_some_iff.mp present).1
      have size : argument.sizeBytes = 8 := by rw [(scalars i argument present).1]
      simp only [getElem?_map, getElem?_range inside, map_some,
        some.injEq] at read
      exact ⟨read ▸ rfl, read ▸ size.symm.le⟩
    · have eight : ∀ argument ∈ info, argument.sizeBytes = 8 := by
        intro argument member
        obtain ⟨i, present⟩ := getElem?_of_mem member
        rw [(scalars i argument present).1]
      obtain ⟨ends, words⟩ := words_of_buffer packed eight
      have few := accepted.count
      have size : (BitVec.ofNat 64 (8 * info.length)).toNat = 8 * info.length := by
        rw [toNat_ofNat]
        omega
      have whole : ¬ 8 * info.length % 8 ≠ 0 := by omega
      have count : 8 * info.length / 8 = info.length := by omega
      rw [cuLaunchKernel_extra packed, ends, packedArguments]
      simp only [size, if_neg whole, count, if_neg (Nat.not_lt_of_le few)]
      refine ⟨_, rfl, ext_getElem? fun i => ?_⟩
      by_cases inside : i < info.length
      · have present : info[i]? = some info[i] := getElem?_eq_getElem inside
        obtain ⟨description, large, scalar⟩ := scalars i _ present
        have word := words i inside
        have guessed := guessInfo_of_wide large scalar
        rw [getElem?_declared present, description]
        simp only [getElem?_map, getElem?_range inside, map_some, word, guessed]
        rw [take_of_length_le (by simp [ArgumentTuple.value])]
      · rw [List.getElem?_eq_none (by simp; omega),
          getElem?_eq_none (by rw [length_declared]; omega)]

end Forms

/-! ## A tuple of zeros -/

/-- Zero for every argument, with the arguments packed without gaps. -/
def zeroTuple (info : List ArgInfo) : ArgumentTuple where
  memory := ByteMemory.write (fun _ => 0) 8
    (bytesOf (BitVec.ofNat 64 (fieldsEnd 0 (info.map fun argument => (argument.sizeBytes, 1)))))
  params := fun _ => 4096
  alignments := info.map fun _ => 1
  packed := 8192
  sizeSlot := 8

theorem zeroTuple_fields (info : List ArgInfo) :
    (zeroTuple info).fields info = info.map fun argument => (argument.sizeBytes, 1) := by
  induction info with
  | nil => rfl
  | cons argument info ih =>
    rw [map_cons, ← ih]
    rfl

theorem zeroTuple_memory (info : List ArgInfo) {address : BitVec 64} (high : 16 ≤ address.toNat) :
    (zeroTuple info).memory address = 0 := by
  show write (fun _ => 0) 8 _ address = (fun _ => (0 : UInt8)) address
  refine write_outside fun i inside same => ?_
  have slot : BitVec.toNat (8 : BitVec 64) = 8 := rfl
  rw [WordMap.length_bytesOf] at inside
  rw [same, place, toNat_add, slot, toNat_ofNat] at high
  omega

theorem zeroTuple_read (info : List ArgInfo) (address : BitVec 64) (start count : Nat)
    (high : 16 ≤ address.toNat) (below : address.toNat + start + count < 2 ^ 64) :
    read (zeroTuple info).memory (place address start) count = List.replicate count 0 := by
  refine ext_getElem? fun i => ?_
  by_cases inside : i < count
  · rw [getElem?_read inside, zeroTuple_memory info]
    · simp [inside]
    · rw [place_add, place, toNat_add, toNat_ofNat]
      omega
  · rw [List.getElem?_eq_none (by simp; omega), List.getElem?_eq_none (by simp; omega)]

/-- Fields of bounded sizes without alignment lie within the product of the bounds. -/
theorem fieldOffsets_le : ∀ (sizes : List Nat) (position bound : Nat), (∀ size ∈ sizes, size ≤ bound) →
    ∀ (i offset : Nat), (fieldOffsets position (sizes.map fun size => (size, 1)))[i]? = some offset →
      offset ≤ position + sizes.length * bound := by
  intro sizes
  induction sizes with
  | nil => intro position bound _ i offset present; cases present
  | cons size sizes ih =>
    intro position bound small i offset present
    have here : alignUp position 1 = position := alignUp_of_dvd one_pos (one_dvd _)
    rw [map_cons, fieldOffsets, here] at present
    have first := small size mem_cons_self
    rw [length_cons, Nat.succ_mul]
    cases i with
    | zero =>
      cases present
      omega
    | succ i =>
      have later := ih (position + size) bound
        (fun other member => small other (mem_cons_of_mem _ member)) i offset present
      omega

theorem zeroTuple_isPacked {info : List ArgInfo} (accepted : AcceptedInfo info) :
    (zeroTuple info).IsPacked info where
  count := by simp [zeroTuple]
  aligned := by
    rw [zeroTuple_fields]
    intro field member
    obtain ⟨argument, _, rfl⟩ := mem_map.mp member
    exact ⟨one_pos, one_dvd _⟩
  addressed _ _ := by
    show 4096 ≤ BitVec.toNat 4096#64
    decide
  buffer := by
    constructor
    · show ¬ 8192#64 = 0#64
      decide
    · show ¬ 8#64 = 0#64
      decide
  size := by
    rw [zeroTuple_fields]
    exact (congrArg wordOf (read_write _ _ (by rw [WordMap.length_bytesOf]; decide))).trans
      (WordMap.wordOf_bytesOf _)
  same i argument offset present packed := by
    have member : argument ∈ info := mem_of_getElem? present
    have sizes : (zeroTuple info).fields info =
        (info.map ArgInfo.sizeBytes).map fun size => (size, 1) := by
      rw [zeroTuple_fields, List.map_map]
      rfl
    rw [sizes] at packed
    have low := fieldOffsets_le (info.map ArgInfo.sizeBytes) 0 4096 (by
      intro size inside
      obtain ⟨other, inInfo, rfl⟩ := mem_map.mp inside
      exact (accepted.sizes other inInfo).2) i offset packed
    rw [length_map] at low
    have few := accepted.count
    have small := (accepted.sizes argument member).2
    have inBuffer := zeroTuple_read info 8192#64 offset argument.sizeBytes (by decide) (by
        show 8192 + offset + argument.sizeBytes < 2 ^ 64
        omega)
    have atParam := zeroTuple_read info 4096#64 0 argument.sizeBytes (by decide) (by
        show 4096 + 0 + argument.sizeBytes < 2 ^ 64
        omega)
    rw [place_zero] at atParam
    exact inBuffer.trans atParam.symm

/-- For every kernel that a sidecar describes, the two forms agree exactly on tuples of wide scalars,
and so not on all tuples. -/
theorem launch_forms_agree_iff {table : AllocationTable Buffer} {sidecar : Sidecar}
    {recorded : Option Nat} {kernelName : String} {info : List ArgInfo} {shape : LaunchShape}
    (loaded : shape.function =
      loadFunctionArgumentCount (some sidecar) recorded { kernelName := kernelName })
    (declares : sidecar.arguments kernelName = some info) :
    (∀ tuple : ArgumentTuple, tuple.IsPacked info →
        (FormsAgree table shape info tuple ↔ AllWideScalars table info tuple)) ∧
      ∃ tuple : ArgumentTuple, tuple.IsPacked info ∧ ¬ FormsAgree table shape info tuple := by
  obtain ⟨accepted, nonempty⟩ := sidecar.arguments_accepted declares
  have described : Described shape info := by
    simp only [loadFunctionArgumentCount, bind_some, declares] at loaded
    constructor <;> rw [loaded]
  have agree : ∀ tuple : ArgumentTuple, tuple.IsPacked info →
      (FormsAgree table shape info tuple ↔ AllWideScalars table info tuple) :=
    fun _ packed => formsAgree_iff described accepted packed
  refine ⟨agree, zeroTuple info, zeroTuple_isPacked accepted, fun forms => ?_⟩
  obtain ⟨argument, rest, rfl⟩ := exists_cons_of_ne_nil nonempty
  obtain ⟨_, large, _⟩ := (agree _ (zeroTuple_isPacked accepted)).mp forms 0 argument rfl
  have zeros := zeroTuple_read (argument :: rest) 4096#64 0 8 (by decide) (by decide)
  rw [place_zero] at zeros
  have value : (zeroTuple (argument :: rest)).value 0 8 = List.replicate 8 0 := zeros
  rw [value] at large
  exact absurd large (by decide)

/-- One small scalar of eight bytes, declared as such. -/
def scalarSidecar : Sidecar :=
  { header := "CUMETAL_ABI_V1", words := ["kernel", "k", "arg", "bytes", "8"] }

def scalarLaunch : LaunchShape where
  function := loadFunctionArgumentCount (some scalarSidecar) none { kernelName := "k" }
  gridDim := (1, 1, 1)
  blockDim := (32, 1, 1)
  grid := rfl
  block := rfl

theorem scalarLaunch_forms :
    (∀ tuple : ArgumentTuple, tuple.IsPacked [⟨.bytes, 8⟩] →
        (FormsAgree .initial scalarLaunch [⟨.bytes, 8⟩] tuple ↔
          AllWideScalars .initial [⟨.bytes, 8⟩] tuple)) ∧
      ∃ tuple : ArgumentTuple, tuple.IsPacked [⟨.bytes, 8⟩] ∧
        ¬ FormsAgree .initial scalarLaunch [⟨.bytes, 8⟩] tuple :=
  have loaded : scalarLaunch.function =
      loadFunctionArgumentCount (some scalarSidecar) none { kernelName := "k" } := rfl
  launch_forms_agree_iff loaded (by decide)

/-- Of a zero, the array form hands on the eight bytes that are declared, and the packed form four. -/
theorem scalarLaunch_differs :
    (cuLaunchKernel .initial (zeroTuple [⟨.bytes, 8⟩]).memory .success
        (scalarLaunch.withParams (zeroTuple [⟨.bytes, 8⟩]))).map
          (Except.map Handed.arguments) =
        some (.ok [⟨⟨.bytes, 8⟩, List.replicate 8 0⟩]) ∧
      (cuLaunchKernel .initial (zeroTuple [⟨.bytes, 8⟩]).memory .success
        (scalarLaunch.withExtra (zeroTuple [⟨.bytes, 8⟩]))).map
          (Except.map Handed.arguments) =
        some (.ok [⟨⟨.bytes, 4⟩, List.replicate 4 0⟩]) := by
  constructor <;> rfl

end CuMetal.Driver
