import CuMetal.Runtime.CudaArrays

/-!
# Arrays and their allocations

Every array of the registry keeps the allocation under it, as long as nothing else frees that
allocation and the device is not reset.
-/

namespace CuMetal.Runtime.Arrays

open AllocationTable CuMetal.Runtime.Stream CuMetal.Runtime.Sync CuMetal.Runtime.Pitched
open List AssocMap OrderedMap CuMetalArray Option State
open CuMetal.Guarded

variable {table : AllocationTable Buffer} {s s' : State} {useMetalDeviceAddresses : Bool}

/-- The recorded range has the bytes of the array from its data on, and with them all that a copy
goes over that passes its check of the array. -/
structure Covers (entry : BitVec 64 × Entry Buffer) (array : CuMetalArray) : Prop where
  starts : Contains entry array.data
  bytes : array.data.toNat + arrayBytes array ≤ entry.1.toNat + entry.2.size.toNat
  region : ∀ position extent elementSize, validArrayRegion array position extent = true →
    arrayElementSize array = some elementSize →
    ∀ z < extent.depth.toNat, ∀ y < extent.height.toNat, ∀ c < (extent.width * elementSize).toNat,
      Contains entry ((regionBlock array position extent elementSize).byte z y c)
  rows : ∀ wOffset hOffset pitch width height,
    array.fitsRows wOffset hOffset pitch width height = true →
    ∀ y < height.toNat, ∀ c < width.toNat, Contains entry (rowByte array wOffset hOffset y c)
  string : ∀ wOffset hOffset count, array.fitsBytes wOffset hOffset count = true →
    ∀ i < count.toNat, Contains entry (array.byteAt wOffset hOffset + BitVec.ofNat 64 i)

/-- Every handle that is accepted is of an array that a live allocation covers. -/
def Backed (s : State) : Prop :=
  ∀ handle array, s.resolveArrayHandle handle = some array →
    ∃ entry ∈ s.allocations.entries, Covers entry array

/-- The step frees no allocation under an array, except with the array. -/
def Spares (s : State) : Action → Prop
  | .free pointer answers => answers.initialization = .success →
      answers.synchronization = .success → ∀ found, s.allocations.find pointer = some found →
      ∀ binding ∈ s.arrays, ∀ entry ∈ s.allocations.entries, entry.1 = binding.2.data →
        entry.2.buffer ≠ found.2.buffer
  | .deviceReset answers => answers.initialization = .success →
      answers.synchronization = .success → s.arrays = []
  | _ => True

/-! ## What the checks of an array give -/

variable {v : BitVec 32}

theorem toNat_of_not_slt (signed : v.slt 0 = false) : v.toNat < 2 ^ 31 := by
  have nonneg : v.msb = false := by
    simpa [BitVec.slt_zero_eq_msb] using signed
  have small := BitVec.msb_eq_false_iff_two_mul_lt.mp nonneg
  omega

theorem toNat_eighth (small : v.toNat < 2 ^ 31) :
    ((v.sdiv 8).signExtend 64).toNat = v.toNat / 8 := by
  have eight : (8 : BitVec 32).toNat = 8 := rfl
  have positive : v.msb = false := BitVec.msb_eq_false_iff_two_mul_lt.mpr (by omega)
  have divided : v.sdiv 8 = v / 8 := by
    rw [BitVec.sdiv_eq, positive]
    rfl
  have quotient : (v / 8).toNat = v.toNat / 8 := by rw [BitVec.toNat_udiv, eight]
  have signed : (v / 8).msb = false :=
    BitVec.msb_eq_false_iff_two_mul_lt.mpr (by rw [quotient]; omega)
  rw [divided, BitVec.signExtend_eq_setWidth_of_msb_false signed, BitVec.toNat_setWidth, quotient]
  omega

variable {array : CuMetalArray} {elementSize : BitVec 64}

theorem elementBytes_eq (element : arrayElementSize array = some elementSize) :
    elementBytes array.desc = elementSize := by
  simp only [arrayElementSize, Bool.or_eq_true] at element
  split at element
  next => cases element
  next signed =>
    simp only [not_or, Bool.not_eq_true] at signed
    obtain ⟨⟨⟨x, y⟩, z⟩, w⟩ := signed
    have x := toNat_of_not_slt x
    have y := toNat_of_not_slt y
    have z := toNat_of_not_slt z
    have w := toNat_of_not_slt w
    split at element
    next => cases element
    next sized =>
      cases element
      simp only [not_or, not_not, BitVec.not_lt, BitVec.le_def] at sized
      obtain ⟨-, most, whole⟩ := sized
      have bits : (array.desc.x.zeroExtend 64 + array.desc.y.zeroExtend 64 +
          array.desc.z.zeroExtend 64 + array.desc.w.zeroExtend 64).toNat =
          array.desc.x.toNat + array.desc.y.toNat + array.desc.z.toNat + array.desc.w.toNat := by
        simp only [BitVec.toNat_add, BitVec.toNat_setWidth]
        omega
      have bits128 : (128 : BitVec 64).toNat = 128 := rfl
      have bits8 : (8 : BitVec 64).toNat = 8 := rfl
      have bits7 : (7 : BitVec 32).toNat = 7 := rfl
      rw [bits, bits128] at most
      have total : (array.desc.x + array.desc.y + array.desc.z + array.desc.w + 7).toNat =
          array.desc.x.toNat + array.desc.y.toNat + array.desc.z.toNat + array.desc.w.toNat +
            7 := by
        simp only [BitVec.toNat_add, bits7]
        omega
      have whole := congrArg BitVec.toNat whole
      rw [BitVec.toNat_umod, bits, bits8, BitVec.ofNat_eq_ofNat, BitVec.toNat_ofNat,
        Nat.zero_mod] at whole
      apply BitVec.eq_of_toNat_eq
      rw [elementBytes, toNat_eighth (by omega), total, BitVec.toNat_udiv, bits, bits8]
      omega
theorem toNat_rowBytes
    (element : arrayElementSize array = some elementSize) (some_ : 0 < arrayBytes array)
    (small : arrayBytes array < 2 ^ 64) :
    arrayBytes array = array.rowBytes.toNat * array.height.toNat * array.depth.toNat ∧
      array.rowBytes.toNat * array.height.toNat ≤ arrayBytes array ∧ 0 < array.rowBytes.toNat := by
  have bytes : arrayBytes array = array.width.toNat * elementSize.toNat * array.height.toNat *
      array.depth.toNat := by
    rw [arrayBytes, element, getD_some]
    ring
  rw [bytes] at some_ small
  have plane : array.width.toNat * elementSize.toNat * array.height.toNat ≤
      array.width.toNat * elementSize.toNat * array.height.toNat * array.depth.toNat :=
    Nat.le_mul_of_pos_right _ (Nat.pos_of_mul_pos_left some_)
  have line : array.width.toNat * elementSize.toNat ≤
      array.width.toNat * elementSize.toNat * array.height.toNat :=
    Nat.le_mul_of_pos_right _ (Nat.pos_of_mul_pos_left (Nat.pos_of_mul_pos_right some_))
  have row : array.rowBytes.toNat = array.width.toNat * elementSize.toNat := by
    rw [rowBytes, elementBytes_eq element, BitVec.toNat_mul, Nat.mod_eq_of_lt]
    omega
  rw [bytes, row]
  exact ⟨rfl, plane, Nat.pos_of_mul_pos_right (Nat.pos_of_mul_pos_right some_)⟩

variable {entry : BitVec 64 × Entry Buffer}

/-- A range that starts at the data and is as long as the array covers it. -/
theorem covers_of_base (ends : entry.1.toNat + entry.2.size.toNat < 2 ^ 64)
    (base : entry.1 = array.data) (size : entry.2.size.toNat = arrayBytes array)
    (element : arrayElementSize array = some elementSize) (some_ : 0 < arrayBytes array) :
    Covers entry array := by
  rw [size] at ends
  obtain ⟨bytes, plane, positive⟩ := toNat_rowBytes element some_ (by omega)
  constructor
  case starts => exact ⟨by rw [base], by rw [base, size]; omega⟩
  case bytes => rw [base, size]
  case region =>
    intro position extent other region sized z front y line c column
    rw [element] at sized
    cases sized
    have inside := span_le_arrayBytes region element (by omega) (by omega) (by omega) array.data
      (some array)
    exact toNat_byte (le_of_eq (congrArg BitVec.toNat base))
      (by rw [size, base]; exact Nat.add_le_add_left inside _) (by rw [size]; exact ends) front
      line column
  case rows =>
    intro wOffset hOffset pitch width height fits y line c column
    simp only [fitsRows, Bool.and_eq_true, decide_eq_true_iff, BitVec.le_def] at fits
    obtain ⟨⟨⟨⟨left, columns⟩, top⟩, lines⟩, -⟩ := fits
    rw [BitVec.toNat_sub_of_le (BitVec.le_def.mpr left)] at columns
    rw [BitVec.toNat_sub_of_le (BitVec.le_def.mpr top)] at lines
    have before : (hOffset.toNat + y + 1) * array.rowBytes.toNat ≤
        array.height.toNat * array.rowBytes.toNat := Nat.mul_le_mul_right _ (by omega)
    rw [add_mul, one_mul, mul_comm array.height.toNat] at before
    have whole : rowByte array wOffset hOffset y c = BitVec.ofNat 64 (array.data.toNat +
        (hOffset.toNat + y) * array.rowBytes.toNat + wOffset.toNat + c) := by
      simp only [rowByte, byteAt, BitVec.ofNat_add, BitVec.ofNat_mul,
        BitVec.ofNat_toNat, BitVec.setWidth_eq]
      ring
    rw [Contains, whole, BitVec.toNat_ofNat, Nat.mod_eq_of_lt (by rw [base] at ends; omega), base,
      size]
    omega
  case string =>
    intro wOffset hOffset count fits i inside
    simp only [fitsBytes, Bool.and_eq_true, decide_eq_true_iff, BitVec.le_def,
      BitVec.lt_def] at fits
    obtain ⟨⟨⟨⟨top, left⟩, -⟩, room⟩, fits⟩ := fits
    have before : (hOffset.toNat + 1) * array.rowBytes.toNat ≤
        array.height.toNat * array.rowBytes.toNat := Nat.mul_le_mul_right _ top
    rw [add_mul, one_mul, mul_comm array.height.toNat] at before
    have total : (array.rowBytes * array.height * array.depth).toNat = arrayBytes array := by
      rw [BitVec.toNat_mul, BitVec.toNat_mul, Nat.mod_eq_of_lt (a := _ * array.height.toNat)
        (by omega), ← bytes, Nat.mod_eq_of_lt (by omega)]
    have lines : (hOffset * array.rowBytes).toNat = hOffset.toNat * array.rowBytes.toNat := by
      rw [BitVec.toNat_mul, Nat.mod_eq_of_lt (by omega)]
    have start : (hOffset * array.rowBytes + wOffset).toNat =
        hOffset.toNat * array.rowBytes.toNat + wOffset.toNat := by
      rw [BitVec.toNat_add, lines, Nat.mod_eq_of_lt (by omega)]
    rw [BitVec.toNat_sub_of_le (BitVec.le_def.mpr (by rw [start, total]; omega)), start,
      total] at fits
    have whole : array.byteAt wOffset hOffset + BitVec.ofNat 64 i = BitVec.ofNat 64
        (array.data.toNat + hOffset.toNat * array.rowBytes.toNat + wOffset.toNat + i) := by
      simp only [byteAt, BitVec.ofNat_add, BitVec.ofNat_mul, BitVec.ofNat_toNat,
        BitVec.setWidth_eq]
    rw [Contains, whole, BitVec.toNat_ofNat, Nat.mod_eq_of_lt (by rw [base] at ends; omega), base,
      size]
    omega

section Record

variable {base aliasBase size : BitVec 64} {buffer : Buffer}

/-- What a new buffer leaves: the old ranges stay, the new ones are its own. -/
structure Adds (table next : AllocationTable Buffer) (buffer : Buffer) : Prop where
  kept : ∀ entry ∈ table.entries, entry ∈ next.entries
  new : ∀ entry ∈ next.entries, entry ∈ table.entries ∨ entry.2.buffer = some buffer

/-- The ranges of a new buffer are recorded, or the call fails and takes back what it recorded. -/
theorem recordBuffer_adds (kind : AllocationKind) (flags : BitVec 32)
    (fresh : ∀ entry ∈ table.entries, entry.2.buffer ≠ some buffer)
    (fits : base.toNat + size.toNat < 2 ^ 64) (fitsAlias : aliasBase.toNat + size.toNat < 2 ^ 64) :
    Adds table (recordBuffer table base aliasBase size kind flags buffer).2 buffer ∧
      ((recordBuffer table base aliasBase size kind flags buffer).1 = .success →
        ∃ entry ∈ (recordBuffer table base aliasBase size kind flags buffer).2.entries,
          entry.1 = base ∧ entry.2.size = size ∧ entry.2.buffer = some buffer) := by
  unfold recordBuffer
  cases inserted : table.insert base size kind flags (some buffer) false with
  | error _ => exact ⟨⟨fun _ mem => mem, fun _ mem => .inl mem⟩, fun failed => by cases failed⟩
  | ok recorded =>
    have mem_recorded := mem_of_insert inserted fits
    have first : Adds table recorded buffer := by
      refine ⟨fun entry mem => (mem_recorded entry).mpr (.inr mem), fun entry mem => ?_⟩
      rcases (mem_recorded entry).mp mem with rfl | before
      · exact .inr rfl
      · exact .inl before
    have here := (mem_recorded _).mpr (.inl rfl)
    dsimp only
    split
    next other =>
      cases aliased : recorded.insert aliasBase size kind flags (some buffer) true with
      | error _ =>
        -- the range under the other base is taken back
        have nonzero : base ≠ 0 := by
          intro zero
          obtain ⟨accepted, -⟩ := insert_ok_iff.mp inserted
          exact accepted (.inl zero)
        have erased := erase_of_mem here nonzero
        dsimp only at erased ⊢
        rw [erased, getD_some]
        refine ⟨⟨fun entry mem => ?_, fun entry mem => ?_⟩, fun failed => by cases failed⟩
        · refine OrderedMap.mem_filter.mpr ⟨first.kept entry mem, ?_⟩
          simpa using fresh entry mem
        · exact first.new entry (OrderedMap.mem_filter.mp mem).1
      | ok next =>
        have mem_next := mem_of_insert aliased fitsAlias
        refine ⟨⟨fun entry mem => (mem_next entry).mpr (.inr (first.kept entry mem)),
          fun entry mem => ?_⟩, fun _ => ⟨_, (mem_next _).mpr (.inr here), rfl, rfl, rfl⟩⟩
        rcases (mem_next entry).mp mem with rfl | before
        · exact .inr rfl
        · exact first.new entry before
    next same => exact ⟨first, fun _ => ⟨_, here, rfl, rfl, rfl⟩⟩

end Record

variable {answers : Answers} {pointer : BitVec 64} {status : CudaError}

/-- What `cudaMalloc` leaves: the table as it was, or with what it recorded of a new buffer. -/
theorem malloc_cases (size : BitVec 64) (possible : answers.Possible s)
    (recorded : Recorded s.allocations)
    (made : s.malloc useMetalDeviceAddresses size answers = (status, pointer, s')) :
    Recorded s'.allocations ∧ s'.arrays = s.arrays ∧
      (status ≠ .success ∧ s'.allocations = s.allocations ∨
        ∃ buffer, (∀ entry ∈ s.allocations.entries, entry.2.buffer ≠ some buffer) ∧
          Adds s.allocations s'.allocations buffer ∧
          (status = .success → size ≠ 0 ∧ ∃ entry ∈ s'.allocations.entries,
            entry.1 = pointer ∧ entry.2.size = size ∧ entry.2.buffer = some buffer)) := by
  have bounded : Recorded
      (s.malloc useMetalDeviceAddresses size answers).2.2.allocations :=
    recorded.malloc (possible.fits size)
  rw [made] at bounded
  refine ⟨bounded, ?_⟩
  unfold malloc cudaMalloc at made
  split at made
  next => cases made; exact ⟨rfl, .inl ⟨(by simp), rfl⟩⟩
  next nonempty =>
    split at made
    next failed => cases made; exact ⟨rfl, .inl ⟨failed, rfl⟩⟩
    next =>
      split at made
      next _ _ buffer status_ given =>
        split at made
        next => cases made; exact ⟨rfl, .inl ⟨(by simp), rfl⟩⟩
        next valid =>
          have mem : buffer ∈ answers.buffer size := given
          have bases := Recorded.bases_of_mode useMetalDeviceAddresses fun zero =>
            valid (.inl zero)
          obtain ⟨reach, reach'⟩ := Recorded.fits_of_bases (possible.fits size buffer mem) bases
          obtain ⟨adds, success⟩ := recordBuffer_adds .device 0
            (possible.fresh size buffer mem) reach reach'
          cases made
          exact ⟨rfl, .inr ⟨buffer, possible.fresh size buffer mem, adds,
            fun done => ⟨nonempty, success done⟩⟩⟩
      next => cases made; exact ⟨rfl, .inl ⟨(by simp), rfl⟩⟩
      next given missing =>
        cases made
        refine ⟨rfl, .inl ⟨fun same => ?_, rfl⟩⟩
        cases answered : answers.buffer size with
        | none => exact missing same answered
        | some buffer => exact given buffer same answered

/-! ## The invariant -/

/-- Every array has an allocation of its own, as long as its elements. -/
structure Sound (s : State) : Prop where
  recorded : Recorded s.allocations
  keys : (s.arrays.map Prod.fst).Nodup
  named : ∀ binding ∈ s.arrays, binding.1 ≠ 0
  backed : ∀ binding ∈ s.arrays, ∃ entry ∈ s.allocations.entries, entry.1 = binding.2.data ∧
    entry.2.size.toNat = arrayBytes binding.2
  shaped : ∀ binding ∈ s.arrays, 0 < arrayBytes binding.2 ∧
    ∃ elementSize, arrayElementSize binding.2 = some elementSize
  apart : ∀ binding ∈ s.arrays, ∀ other ∈ s.arrays, binding.1 ≠ other.1 →
    ∀ entry ∈ s.allocations.entries, ∀ entry' ∈ s.allocations.entries,
      entry.1 = binding.2.data → entry'.1 = other.2.data → entry.2.buffer ≠ entry'.2.buffer

theorem sound_initial : Sound initial where
  recorded := .initial
  keys := nodup_nil
  named := fun _ mem => by cases mem
  backed := fun _ mem => by cases mem
  shaped := fun _ mem => by cases mem
  apart := fun _ mem => by cases mem

theorem Sound.isBacked (sound : Sound s) : Backed s := by
  intro handle array resolved
  unfold resolveArrayHandle at resolved
  split at resolved
  · cases resolved
  · have mem := mem_of_find? resolved
    obtain ⟨entry, live, base, size⟩ := sound.backed _ mem
    obtain ⟨some_, elementSize, element⟩ := sound.shaped _ mem
    exact ⟨entry, live, covers_of_base (sound.recorded.bounded.ends entry live) base size element
      some_⟩

variable {allocations : AllocationTable Buffer} {action : Action}

section

variable (sound : Sound s)
include sound

/-- The allocation under an array stays what it is when the table grows. -/
theorem Sound.grow {buffer : Buffer} (recorded : Recorded allocations)
    (adds : Adds s.allocations allocations buffer) : Sound { s with allocations } :=
  { sound with
    recorded := recorded
    backed := by
      intro binding mem
      obtain ⟨entry, live, rest⟩ := sound.backed binding mem
      exact ⟨entry, adds.kept entry live, rest⟩
    apart := by
      have old : ∀ binding ∈ s.arrays, ∀ entry ∈ allocations.entries, entry.1 = binding.2.data →
          entry ∈ s.allocations.entries := by
        intro binding mem entry live base
        obtain ⟨before, live', base', -⟩ := sound.backed binding mem
        have same := eq_of_key live (adds.kept before live') (base.trans base'.symm)
        rwa [same]
      intro binding mem other mem' different entry live entry' live' base base'
      exact sound.apart binding mem other mem' different entry (old binding mem entry live base)
        entry' (old other mem' entry' live' base') base base' }

theorem Sound.malloc {size : BitVec 64} (possible : answers.Possible s)
    (made : s.malloc useMetalDeviceAddresses size answers = (status, pointer, s')) : Sound s' := by
  obtain ⟨recorded, same, outcome⟩ := malloc_cases size possible sound.recorded made
  obtain ⟨allocations, arrays⟩ := s'
  obtain rfl : arrays = s.arrays := same
  rcases outcome with ⟨-, same⟩ | ⟨buffer, -, adds, -⟩
  · obtain rfl : allocations = s.allocations := same
    exact sound
  · exact sound.grow recorded adds

/-- An array comes into the registry whose allocation no other one has. -/
theorem Sound.register {handle : BitVec 64} {array : CuMetalArray} {elementSize : BitVec 64}
    {buffer : Buffer} (named : handle ≠ 0) (new : s.arrays.find? handle = none)
    (element : arrayElementSize array = some elementSize)
    (size : entry.2.size.toNat = array.width.toNat * array.height.toNat * array.depth.toNat *
      elementSize.toNat) (some_ : entry.2.size.toNat ≠ 0) (live : entry ∈ s.allocations.entries)
    (base : entry.1 = array.data) (owner : entry.2.buffer = some buffer)
    (own : ∀ binding ∈ s.arrays, ∀ other ∈ s.allocations.entries, other.1 = binding.2.data →
      other.2.buffer ≠ some buffer) : Sound { s with arrays := s.arrays ++ [(handle, array)] } := by
  have bytes : entry.2.size.toNat = arrayBytes array := by
    rw [arrayBytes, element, getD_some, size]
  have absent := find?_eq_none_iff.mp new
  constructor
  case recorded => exact sound.recorded
  case keys =>
    rw [map_append, nodup_append]
    refine ⟨sound.keys, nodup_singleton _, ?_⟩
    rintro _ before _ added rfl
    obtain ⟨binding, mem, same⟩ := mem_map.mp before
    simp only [map_cons, map_nil, mem_singleton] at added
    apply absent binding.2
    rwa [← added, ← same]
  case named =>
    intro binding mem
    rcases mem_append.mp mem with before | added
    · exact sound.named binding before
    · rw [mem_singleton.mp added]
      exact named
  case backed =>
    intro binding mem
    rcases mem_append.mp mem with before | added
    · exact sound.backed binding before
    · rw [mem_singleton.mp added]
      exact ⟨entry, live, base, bytes⟩
  case shaped =>
    intro binding mem
    rcases mem_append.mp mem with before | added
    · exact sound.shaped binding before
    · rw [mem_singleton.mp added]
      exact ⟨by rw [← bytes]; omega, elementSize, element⟩
  case apart =>
    have here : ∀ other ∈ s.allocations.entries, other.1 = array.data →
        other.2.buffer = some buffer := by
      intro other mem same
      rw [eq_of_key mem live (same.trans base.symm), owner]
    intro binding mem other mem' different first firstLive second secondLive firstBase secondBase
    rcases mem_append.mp mem with before | added <;>
      rcases mem_append.mp mem' with before' | added'
    · exact sound.apart binding before other before' different first firstLive second secondLive
        firstBase secondBase
    · rw [mem_singleton.mp added'] at secondBase
      rw [here second secondLive secondBase]
      exact own binding before first firstLive firstBase
    · rw [mem_singleton.mp added] at firstBase
      rw [here first firstLive firstBase]
      exact (own other before' second secondLive secondBase).symm
    · rw [mem_singleton.mp added, mem_singleton.mp added'] at different
      exact absurd rfl different

theorem Sound.createArray {desc : ChannelFormatDesc}
    {width height depth allocationSize elementSize : BitVec 64} (possible : answers.Possible s)
    (element : arrayElementSize ⟨0, 0, 0, 0, desc⟩ = some elementSize)
    (bytes : allocationSize.toNat = width.toNat * height.toNat * depth.toNat * elementSize.toNat) :
    Sound (s.createArray useMetalDeviceAddresses desc width height depth allocationSize
      answers).2 := by
  unfold State.createArray
  cases object : answers.object with
  | none => exact sound
  | some handle =>
    obtain ⟨named, new⟩ := possible.object handle object
    cases made : s.malloc useMetalDeviceAddresses allocationSize answers with
    | mk status rest =>
      obtain ⟨data, after⟩ := rest
      obtain ⟨recorded, same, outcome⟩ := malloc_cases allocationSize possible
        sound.recorded made
      have grown := sound.malloc possible made
      obtain ⟨allocations, arrays⟩ := after
      obtain rfl : arrays = s.arrays := same
      dsimp only
      split
      next => exact grown
      next done =>
        rcases outcome with ⟨failed, -⟩ | ⟨buffer, fresh, adds, success⟩
        · exact absurd failed done
        · obtain ⟨some_, entry, live, base, size, owner⟩ := success (not_not.mp done)
          exact grown.register named new element
            (by rw [size]; exact bytes) (fun zero => some_ (BitVec.eq_of_toNat_eq (by
              rw [← size, zero]; rfl))) live base owner fun binding mem entry live base => by
            obtain ⟨before, live', base', -⟩ := sound.backed binding mem
            have same := eq_of_key live (adds.kept before live')
              (base.trans base'.symm)
            rw [same]
            exact fresh before live'

theorem Sound.mallocArray (desc : Option ChannelFormatDesc) (width height : BitVec 64)
    (possible : answers.Possible s) :
    Sound (s.cudaMallocArray useMetalDeviceAddresses desc width height answers).2 := by
  unfold cudaMallocArray
  cases desc with
  | none => exact sound
  | some desc =>
    dsimp only
    split
    next => exact sound
    next =>
      split
      next => exact sound
      next allocationSize bytes =>
        obtain ⟨elementSize, element, bytes⟩ := bind_eq_some_iff.mp bytes
        obtain ⟨elements, product, bytes⟩ := bind_eq_some_iff.mp bytes
        obtain ⟨small, rfl⟩ := checkedMultiply_eq_some.mp product
        obtain ⟨small', rfl⟩ := checkedMultiply_eq_some.mp bytes
        refine sound.createArray possible element ?_
        rw [BitVec.toNat_mul, Nat.mod_eq_of_lt small', BitVec.toNat_mul, Nat.mod_eq_of_lt small]
        simp

theorem Sound.malloc3DArray (desc : Option ChannelFormatDesc) (extent : Extent)
    (possible : answers.Possible s) :
    Sound (s.cudaMalloc3DArray useMetalDeviceAddresses desc extent answers).2 := by
  unfold cudaMalloc3DArray
  cases desc with
  | none => exact sound
  | some desc =>
    dsimp only
    split
    next => exact sound
    next =>
      split
      next => exact sound
      next allocationSize bytes =>
        obtain ⟨elementSize, element, bytes⟩ := bind_eq_some_iff.mp bytes
        obtain ⟨plane, product, bytes⟩ := bind_eq_some_iff.mp bytes
        obtain ⟨elements, product', bytes⟩ := bind_eq_some_iff.mp bytes
        obtain ⟨small, rfl⟩ := checkedMultiply_eq_some.mp product
        obtain ⟨small', rfl⟩ := checkedMultiply_eq_some.mp product'
        obtain ⟨small'', rfl⟩ := checkedMultiply_eq_some.mp bytes
        refine sound.createArray possible element ?_
        rw [BitVec.toNat_mul, Nat.mod_eq_of_lt small'', BitVec.toNat_mul,
          Nat.mod_eq_of_lt small', BitVec.toNat_mul, Nat.mod_eq_of_lt small]

end

theorem erase_eq_some {next : AllocationTable Buffer}
    (erased : table.erase pointer = some next) : ∃ found, table.find pointer = some found ∧
      next = table.filter fun entry => entry.2.buffer ≠ found.2.buffer := by
  unfold erase at erased
  split at erased
  · cases erased
  · split at erased
    · cases erased
    next found there => exact ⟨found, there, (some.inj erased).symm⟩

section

variable (sound : Sound s)
include sound

theorem Sound.without {gone : Option Buffer}
    (spares : ∀ binding ∈ s.arrays, ∀ entry ∈ s.allocations.entries, entry.1 = binding.2.data →
      entry.2.buffer ≠ gone) :
    Sound { s with allocations := s.allocations.filter fun entry => entry.2.buffer ≠ gone } :=
  { sound with
    recorded := sound.recorded.without gone
    backed := by
      intro binding mem
      obtain ⟨entry, live, base, size⟩ := sound.backed binding mem
      refine ⟨entry, OrderedMap.mem_filter.mpr ⟨live, ?_⟩, base, size⟩
      simpa using spares binding mem entry live base
    apart := fun binding mem other mem' different entry live entry' live' =>
      sound.apart binding mem other mem' different entry (OrderedMap.mem_filter.mp live).1 entry'
        (OrderedMap.mem_filter.mp live').1 }

theorem Sound.unregister (handle : BitVec 64) :
    Sound { s with arrays := AssocMap.remove s.arrays handle } where
  recorded := sound.recorded
  keys := nodup_remove sound.keys
  named := fun binding mem => sound.named binding (mem_remove.mp mem).1
  backed := fun binding mem => sound.backed binding (mem_remove.mp mem).1
  shaped := fun binding mem => sound.shaped binding (mem_remove.mp mem).1
  apart := fun binding mem other mem' => sound.apart binding (mem_remove.mp mem).1 other
    (mem_remove.mp mem').1

theorem Sound.free (pointer : BitVec 64) (answers : Answers)
    (spares : Spares s (.free pointer answers)) : Sound (s.cudaFree pointer answers).2 := by
  unfold cudaFree
  split
  next => exact sound
  next =>
    split
    next => exact sound
    next ready =>
      split
      next => exact sound
      next synchronized =>
        cases erased : s.allocations.erase pointer with
        | none => exact sound
        | some allocations =>
          obtain ⟨found, there, rfl⟩ := erase_eq_some erased
          exact sound.without (spares (not_not.mp ready) (not_not.mp synchronized) found there)

theorem Sound.freeArray (handle : BitVec 64) (answers : Answers) :
    Sound (s.cudaFreeArray handle answers).2 := by
  unfold cudaFreeArray
  split
  next => exact sound
  next =>
    cases known : s.arrays.find? handle with
    | none => exact sound
    | some array =>
      refine (sound.unregister handle).free array.data answers ?_
      rintro - - found there binding mem entry live base
      obtain ⟨mem, different⟩ := mem_remove.mp mem
      obtain ⟨live', base'⟩ := find_eq_some_iff.mp there
      exact sound.apart binding mem (handle, array) (mem_of_find? known) different entry
        live found live' base base'

theorem Sound.deviceReset (answers : Answers) (spares : Spares s (.deviceReset answers)) :
    Sound (s.cudaDeviceReset answers).2 := by
  unfold cudaDeviceReset
  split
  next => exact sound
  next ready =>
    split
    next => exact sound
    next synchronized =>
      have none := spares (not_not.mp ready) (not_not.mp synchronized)
      dsimp only
      rw [none]
      exact sound_initial

theorem step_sound (spares : Spares s action)
    (stepped : Steps useMetalDeviceAddresses s action s') : Sound s' := by
  obtain ⟨possible, rfl⟩ := stepped
  cases action with
  | malloc size answers =>
    exact sound.malloc possible (rfl : s.malloc useMetalDeviceAddresses size answers = _)
  | mallocArray desc width height answers => exact sound.mallocArray desc width height possible
  | malloc3DArray desc extent answers => exact sound.malloc3DArray desc extent possible
  | freeArray handle answers => exact sound.freeArray handle answers
  | free pointer answers => exact sound.free pointer answers spares
  | deviceReset answers => exact sound.deviceReset answers spares

theorem Sound.not_backed {binding : BitVec 64 × CuMetalArray} (mem : binding ∈ s.arrays)
    (old : ∀ entry ∈ allocations.entries, entry ∈ s.allocations.entries)
    (gone : ∀ entry ∈ allocations.entries, entry.1 ≠ binding.2.data) :
    ¬ Backed { s with allocations } := by
  intro backed
  obtain ⟨under, live, base, size⟩ := sound.backed binding mem
  obtain ⟨some_, -⟩ := sound.shaped binding mem
  have resolved : resolveArrayHandle { s with allocations } binding.1 = some binding.2 := by
    rw [resolveArrayHandle, if_neg (sound.named binding mem)]
    exact (find?_eq_some_iff sound.keys).mpr mem
  obtain ⟨entry, there, covers⟩ := backed _ _ resolved
  have starts : Contains under binding.2.data :=
    ⟨by rw [base], by rw [base, size]; omega⟩
  have same := sound.recorded.bounded.eq_of_contains live (old entry there) starts covers.starts
  exact gone entry there (by rw [same, base])

/-- A free of what is under an array, and a reset with arrays, leave an array that is not backed. -/
theorem step_not_backed (bad : ¬ Spares s action)
    (stepped : Steps useMetalDeviceAddresses s action s') : ¬ Backed s' := by
  obtain ⟨-, rfl⟩ := stepped
  cases action with
  | malloc | mallocArray | malloc3DArray | freeArray => exact absurd trivial bad
  | free pointer answers =>
    simp only [Spares, not_forall, not_not] at bad
    obtain ⟨ready, synchronized, found, there, binding, mem, entry, live, base, owner⟩ := bad
    obtain ⟨found_mem, key⟩ := find_eq_some_iff.mp there
    have nonzero : pointer ≠ 0 := key ▸ sound.recorded.bounded.base found found_mem
    have erased := erase_of_mem found_mem (sound.recorded.bounded.base found found_mem)
    rw [key] at erased
    simp only [State.call, State.cudaFree, nonzero, if_false, ready, synchronized, erased,
      ne_eq, not_true_eq_false]
    refine sound.not_backed mem (fun other there => (OrderedMap.mem_filter.mp there).1) ?_
    intro other there same
    obtain ⟨live', different⟩ := OrderedMap.mem_filter.mp there
    rw [eq_of_key live' live (same.trans base.symm)] at different
    simp [owner] at different
  | deviceReset answers =>
    simp only [Spares, not_forall] at bad
    obtain ⟨ready, synchronized, some_⟩ := bad
    obtain ⟨binding, mem⟩ := exists_mem_of_ne_nil s.arrays some_
    simp only [State.call, State.cudaDeviceReset, ready, synchronized, ne_eq,
      not_true_eq_false, if_false]
    exact sound.not_backed mem (fun entry there => absurd there mem_empty)
      fun entry there => absurd there mem_empty

end

/-- The arrays of a run stay backed exactly if no step but `cudaFreeArray` frees what is under an
array. -/
theorem arrays_backed_iff {trail : List (State × Action)} {u : State}
    (run : Run (Steps useMetalDeviceAddresses) initial trail u) :
    Always Backed trail u ↔ ∀ visited ∈ trail, Spares visited.1 visited.2 :=
  run.always_iff (fun s (sound : Sound s) => sound.isBacked)
    (fun _ _ _ sound spares stepped => step_sound sound spares stepped)
    (fun _ _ _ sound bad stepped => step_not_backed sound bad stepped) sound_initial

def quiet : Answers where
  initialization := .success
  allocation := .success
  buffer := fun _ => none
  synchronization := .success
  object := none

/-- A buffer for up to a page, and memory for an array. -/
def page : Answers where
  initialization := .success
  allocation := .success
  buffer := fun size => if size ≤ 0x1000 then some ⟨0, 0x10000, 0x20000⟩ else none
  synchronization := .success
  object := some 0x30000

def makeArray : Action := .mallocArray (some ⟨32, 0, 0, 0⟩) 4 4 page

theorem quiet_possible (s : State) : quiet.Possible s where
  fits := fun _ _ mem => by cases mem
  fresh := fun _ _ mem => by cases mem
  object := fun _ mem => by cases mem

theorem page_possible : page.Possible initial where
  fits := by
    intro size buffer mem
    have given : (if size ≤ 0x1000 then some ⟨0, 0x10000, 0x20000⟩ else none) = some buffer := mem
    split at given
    next small =>
      cases given
      have small : size.toNat ≤ 0x1000 := small
      refine ⟨?_, ?_⟩
      · change 0x10000 + size.toNat < 2 ^ 64
        omega
      · change 0x20000 + size.toNat < 2 ^ 64
        omega
    next => cases given
  fresh := fun _ _ _ _ mem => absurd mem mem_empty
  object := by
    intro handle mem
    cases mem
    exact ⟨by decide, rfl⟩

/-- What a run that makes an array and then takes another step goes through. -/
def afterArray (action : Action) : List (State × Action) :=
  [(initial, makeArray), ((initial.call false makeArray).2, action)]

theorem run_afterArray (action : Action) (quietly : action.answers = quiet) :
    Run (Steps false) initial (afterArray action)
      (((initial.call false makeArray).2).call false action).2 :=
  .cons ⟨page_possible, rfl⟩ (.cons ⟨by rw [quietly]; exact quiet_possible _, rfl⟩ (.nil _))

theorem arrays_backed_iff_freeArray : ∃ (trail : List (State × Action)) (u : State),
    trail.map Prod.snd = [makeArray, .freeArray 0x30000 quiet] ∧ u.arrays.length = 0 ∧
      Always Backed trail u := by
  refine ⟨_, _, rfl, ?_, (arrays_backed_iff (run_afterArray _ rfl)).mpr ?_⟩
  · decide
  · intro visited mem
    rcases mem_cons.mp mem with rfl | mem
    · trivial
    · rw [mem_singleton.mp mem]
      trivial

/-- After a reset the handle is still accepted, and its array has no allocation. -/
theorem reset_not_backed : ¬ ∀ (trail : List (State × Action)) (u : State),
    Run (Steps false) initial trail u → Always Backed trail u := by
  intro always
  have backed := (always _ _ (run_afterArray (.deviceReset quiet) rfl)).2
  obtain ⟨entry, mem, -⟩ := backed 0x30000 ⟨0x10000, 4, 4, 1, ⟨32, 0, 0, 0⟩⟩ rfl
  exact mem_empty mem

end CuMetal.Runtime.Arrays
