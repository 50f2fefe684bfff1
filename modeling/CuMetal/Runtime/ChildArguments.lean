import CuMetal.Driver.LaunchForms
import CuMetal.Ptx.LaunchRecords
import CuMetal.Runtime.EntryParameters

/-!
# The arguments of a device-launched kernel

The drain of the device launch queue has the parameter bytes of a record and the sizes that the scan
of the kernel's parameter list has written down (`runtime/rt/cuda_runtime.cpp:6841-6854`). The
caller has filled the bytes by the layout of the parameters.
-/

namespace CuMetal.Registration.Entries

open BitVec List Parameter

open CuMetal.Driver (alignUp fieldOffsets fieldsEnd)
open CuMetal.Ptx.LaunchQueue (packArguments packArguments_inside queueBytes recordAreaBytes)
open CuMetal.Runtime (CudaError)

/-- The parameters as the fields of a parameter buffer. -/
def fields (params : List Parameter) : List (Nat × Nat) :=
  params.map fun p => (p.size, p.alignment)

/-- The parameter area of a record that has passed the checks (`6823-6830`), and that the caller
has filled. -/
structure ParameterArea (params : List Parameter) where
  offset : Nat
  size : Nat
  past : recordAreaBytes ≤ offset
  inside : offset + size ≤ queueBytes
  filled : fieldsEnd 0 (fields params) ≤ size

/-- What the loop makes of the sizes that the scan has found. -/
def childArguments (params : List Parameter) (area : ParameterArea params) :
    Except CudaError (List (Nat × Nat)) :=
  packArguments area.size 0 ((scanPtxEntryParams (printed params)).map KernelArgInfo.sizeBytes)

/-- The child gets an argument pointer for every parameter, at the offset of the parameter, and
every argument lies in the queue. -/
def Delivered (params : List Parameter) (area : ParameterArea params) : Prop :=
  ∃ places, childArguments params area = .ok places ∧
    places.map Prod.fst = fieldOffsets 0 (fields params) ∧
    ∀ part ∈ places, area.offset + part.1 + part.2 ≤ queueBytes

/-! ## The declarations that the loop gets right -/

/-- The bytes of one value, as far as the scan knows the type (`registration.cpp:672-683`). -/
def PtxType.knownBytes : PtxType → Nat
  | .f16 | .b128 => 4
  | type => type.bytes

/-- How many bytes the declaration is read as: eight for a pointer and for a type that can be one,
the number in the brackets for an array, and else the width of the type. -/
def Parameter.width (p : Parameter) : Nat :=
  if p.pointee.isSome || p.type.pointerWide then 8
  else
    match p.count with
    | none => p.type.knownBytes
    | some n => if n % 2 ^ 32 = 0 then p.type.knownBytes else n % 2 ^ 32

/-- Where the parameters end in the buffer. -/
def bufferEnd (params : List Parameter) : Nat := fieldsEnd 0 (fields params)

/-- The offset of a parameter that comes after these. -/
def bufferOffset (before : List Parameter) (p : Parameter) : Nat :=
  alignUp (bufferEnd before) p.alignment

/-- The padding in front of a parameter, less the bytes that the parameter before it is read as
without having them. -/
def gap (before : List Parameter) (p : Parameter) : Int :=
  bufferOffset before p - bufferEnd before -
    before.getLast?.elim 0 fun last => (last.width - last.size : Int)

/-- The offsets modulo eight, and the gaps, at which a parameter of so many bytes is found. Three,
five, six and seven bytes are taken for an alignment too. -/
def places : Nat → List Nat × List Int
  | 0 | 1 => ([0, 1, 2, 3, 4, 5, 6, 7], [0])
  | 2 => ([0, 2, 4, 6], [0, 1])
  | 3 => ([0, 1, 4, 5], [0, 2])
  | 4 => ([0, 4], [0, 1, 2, 3])
  | 5 => ([0, 1, 2, 3], [0, 4])
  | 6 => ([0, 2], [0, 1, 4, 5])
  | 7 => ([0, 1], [0, 2, 4, 6])
  | _ => ([0], [0, 1, 2, 3, 4, 5, 6, 7])

def Spaced (width offset : Nat) (gap : Int) : Prop :=
  offset % 8 ∈ (places width).1 ∧ gap ∈ (places width).2

instance (width offset : Nat) (gap : Int) : Decidable (Spaced width offset gap) :=
  inferInstanceAs (Decidable (_ ∧ _))

/-- The declaration suits its place: its offset and its gap are among those of its width, and the
area has room for the width. -/
structure Parameter.Suits (p : Parameter) (before : List Parameter) (room : Nat) : Prop where
  spaced : Spaced p.width (bufferOffset before p) (gap before p)
  fits : bufferOffset before p + p.width ≤ room

/-! ## The loop -/

/-- The offset is within the reach of a mask from a position on, and has none of its bits; what is
left of the reach has no other bits. -/
def Lands (position mask offset : Nat) : Prop :=
  position ≤ offset ∧ offset ≤ position + mask ∧ offset &&& mask = 0 ∧
    (position + mask - offset) &&& mask = position + mask - offset

instance (position mask offset : Nat) : Decidable (Lands position mask offset) :=
  inferInstanceAs (Decidable (_ ∧ _ ∧ _ ∧ _))

/-- The sizes lead to the offsets: the previous parameter ends at `seen` by the sizes of the scan,
and at `finish` in the parameter buffer. -/
def Agrees (room : Nat) : Nat → Nat → List Parameter → Prop
  | _, _, [] => True
  | seen, finish, p :: rest =>
    Lands seen (min 8 p.width - 1) (alignUp finish p.alignment) ∧
      alignUp finish p.alignment + p.width ≤ room ∧
      Agrees room (alignUp finish p.alignment + p.width) (alignUp finish p.alignment + p.size)
        rest

theorem Parameter.toNat_scanned (p : Parameter) : p.scanned.sizeBytes.toNat = p.width := by
  have known : (scalarSizeBytesForPtxType p.type.text).toNat = p.type.knownBytes := by
    cases p.type <;> rfl
  rw [scanned, width]
  cases pointer : p.pointee.isSome || p.type.pointerWide with
  | true => rfl
  | false =>
    cases p.count with
    | none => exact known
    | some n =>
      have positive : (0 < BitVec.ofNat 32 n) = (n % 2 ^ 32 ≠ 0) := by
        rw [BitVec.lt_def, toNat_ofNat, ← Nat.pos_iff_ne_zero]
        rfl
      simp only [Option.getD_some, Bool.false_eq_true, if_false, positive]
      by_cases none_ : n % 2 ^ 32 = 0
      · rw [if_neg (not_not.mpr none_), if_pos none_, known]
      · rw [if_pos none_, if_neg none_, toNat_ofNat]

theorem toNat_clear (x mask : BitVec 64) :
    (x &&& ~~~mask).toNat + (x &&& mask).toNat = x.toNat := by
  have apart : (x &&& ~~~mask) &&& (x &&& mask) = 0#64 := by
    ext i inside
    simp only [BitVec.getElem_and, BitVec.getElem_not, BitVec.getElem_zero]
    cases x[i] <;> cases mask[i] <;> rfl
  have whole : (x &&& ~~~mask) ||| (x &&& mask) = x := by
    ext i inside
    simp only [getElem_or, getElem_and, getElem_not]
    cases x[i] <;> cases mask[i] <;> rfl
  rw [← toNat_add_of_and_eq_zero apart, add_eq_or_of_and_eq_zero _ _ apart, whole]

theorem toNat_ofNat_small {n : Nat} (small : n < 2 ^ 64) : (BitVec.ofNat 64 n).toNat = n := by
  rw [toNat_ofNat, Nat.mod_eq_of_lt small]

theorem clear_eq_iff_lands {position mask offset : Nat} (small : position + mask < 2 ^ 64) :
    (BitVec.ofNat 64 (position + mask) &&& ~~~(BitVec.ofNat 64 mask)).toNat = offset ↔
      Lands position mask offset := by
  have sum := toNat_clear (BitVec.ofNat 64 (position + mask)) (BitVec.ofNat 64 mask)
  rw [toNat_ofNat_small small] at sum
  constructor
  · rintro rfl
    generalize cleared : BitVec.ofNat 64 (position + mask) &&& ~~~(BitVec.ofNat 64 mask) = rest
      at sum
    have taken : position + mask - rest.toNat = (position + mask) &&& mask := by
      rw [toNat_and, toNat_ofNat_small small, toNat_ofNat_small (by omega)] at sum
      omega
    have most : (position + mask) &&& mask ≤ mask := Nat.and_le_right
    have none_ : rest.toNat &&& mask = 0 := by
      have word : rest &&& BitVec.ofNat 64 mask = 0#64 := by
        rw [← cleared]
        ext i inside
        simp only [BitVec.getElem_and, BitVec.getElem_not, BitVec.getElem_zero]
        cases (BitVec.ofNat 64 mask)[i] <;> simp
      have nat := congrArg BitVec.toNat word
      rwa [toNat_and, toNat_ofNat_small (by omega)] at nat
    refine ⟨by omega, by omega, none_, ?_⟩
    rw [taken, Nat.and_assoc, Nat.and_self]
  · rintro ⟨after, within, none_, only⟩
    obtain ⟨left, whole⟩ : ∃ left, position + mask = offset + left :=
      ⟨position + mask - offset, by omega⟩
    rw [whole, Nat.add_sub_cancel_left] at only
    have apart : BitVec.ofNat 64 offset &&& BitVec.ofNat 64 left = 0#64 := by
      apply eq_of_toNat_eq
      rw [toNat_and, toNat_ofNat_small (by omega), toNat_ofNat_small (by omega), ← only,
        Nat.and_comm left, ← Nat.and_assoc, none_, Nat.zero_and]
      rfl
    have kept : (BitVec.ofNat 64 (position + mask) &&& BitVec.ofNat 64 mask).toNat = left := by
      rw [whole, ofNat_add, add_eq_or_of_and_eq_zero _ _ apart, toNat_and,
        toNat_or, toNat_ofNat_small (by omega), toNat_ofNat_small (by omega),
        toNat_ofNat_small (by omega), Nat.and_or_distrib_right, none_, only, Nat.zero_or]
    omega

variable {room : Nat}

theorem packArguments_cons {seen : Nat} (small : room < 2 ^ 63) (before : seen ≤ room)
    (p : Parameter) (rest : List Parameter) (offset : Nat) (offsets : List Nat) :
    (∃ places, packArguments room seen ((p :: rest).map fun p => p.scanned.sizeBytes) = .ok places ∧
      places.map Prod.fst = offset :: offsets) ↔
      Lands seen (min 8 p.width - 1) offset ∧ offset + p.width ≤ room ∧
        ∃ places, packArguments room (offset + p.width)
            (rest.map fun p => p.scanned.sizeBytes) = .ok places ∧
          places.map Prod.fst = offsets := by
  have reach : seen + max 1 (min 8 p.width) - 1 = seen + (min 8 p.width - 1) := by omega
  have mask : max 1 (min 8 p.width) - 1 = min 8 p.width - 1 := by omega
  have lands : _ = offset ↔ Lands seen (min 8 p.width - 1) offset :=
    clear_eq_iff_lands (by omega)
  rw [← lands, map_cons, packArguments, p.toNat_scanned, reach, mask]
  generalize (BitVec.ofNat 64 (seen + (min 8 p.width - 1)) &&&
    ~~~(BitVec.ofNat 64 (min 8 p.width - 1))).toNat = start
  constructor
  · rintro ⟨places, packed, starts⟩
    split at packed
    · cases packed
    · obtain ⟨places', packed', done⟩ := bind_eq_ok packed
      cases done
      obtain ⟨rfl, starts'⟩ := cons.inj starts
      exact ⟨rfl, by omega, places', packed', starts'⟩
  · rintro ⟨rfl, fits, places, packed, starts⟩
    refine ⟨(start, p.width) :: places, ?_, congrArg (start :: ·) starts⟩
    rw [if_neg (by omega), packed]
    rfl

theorem packArguments_iff (small : room < 2 ^ 63) (params : List Parameter) {seen finish : Nat}
    (before : seen ≤ room) :
    (∃ places, packArguments room seen (params.map fun p => p.scanned.sizeBytes) = .ok places ∧
      places.map Prod.fst = fieldOffsets finish (fields params)) ↔
      Agrees room seen finish params := by
  induction params generalizing seen finish with
  | nil => simp [packArguments, fields, fieldOffsets, Agrees]
  | cons p rest ih =>
    have step := packArguments_cons small before p rest (alignUp finish p.alignment)
      (fieldOffsets (alignUp finish p.alignment + p.size) (fields rest))
    rw [Agrees]
    refine step.trans (and_congr_right fun _ => and_congr_right fun fits => ?_)
    exact ih (by omega)

/-- The arguments are delivered exactly when the sizes lead to the offsets. -/
theorem delivered_iff_packed (params : List Parameter) (area : ParameterArea params) :
    Delivered params area ↔
      ∃ places, packArguments area.size 0 (params.map fun p => p.scanned.sizeBytes) = .ok places ∧
        places.map Prod.fst = fieldOffsets 0 (fields params) := by
  have sizes : (scanPtxEntryParams (printed params)).map KernelArgInfo.sizeBytes =
      params.map fun p => p.scanned.sizeBytes := by
    rw [scanPtxEntryParams_printed, map_map]
    rfl
  have inside := area.inside
  rw [Delivered, childArguments, sizes]
  constructor
  · rintro ⟨places, packed, starts, -⟩
    exact ⟨places, packed, starts⟩
  · rintro ⟨places, packed, starts⟩
    refine ⟨places, packed, starts, fun part mem => ?_⟩
    have within := packArguments_inside packed part mem
    omega

/-! ## The loop and the declarations -/

/-- A short mask sees an offset modulo eight. -/
theorem and_mask {mask : Nat} (short : mask < 8) (offset : Nat) :
    offset &&& mask = (offset % 8) &&& mask := by
  have whole : 7 &&& mask = mask := by
    revert short
    revert mask
    decide
  rw [← Nat.and_two_pow_sub_one_eq_mod offset 3, Nat.and_assoc]
  exact congrArg (offset &&& ·) whole.symm

theorem places_min (width : Nat) : places (min 8 width) = places width := by
  by_cases small : width ≤ 8
  · rw [Nat.min_eq_right small]
  · obtain ⟨more, rfl⟩ : ∃ more, width = more + 8 := ⟨width - 8, by omega⟩
    rw [Nat.min_eq_left (by omega)]
    rfl

/-- The offsets and gaps of a width are those that its mask leaves. -/
theorem spaced_table : ∀ (width : Fin 9) (place gap : Fin 8),
    (gap.val ≤ width.val - 1 ∧ place.val &&& (width.val - 1) = 0 ∧
        (width.val - 1 - gap.val) &&& (width.val - 1) = width.val - 1 - gap.val) ↔
      (place.val ∈ (places width).1 ∧ (gap.val : Int) ∈ (places width).2) := by
  decide

theorem gap_of_mem {width : Nat} {gap : Int} (mem : gap ∈ (places width).2) :
    0 ≤ gap ∧ gap < 8 := by
  unfold places at mem
  split at mem <;> simp at mem <;> omega

theorem lands_iff_spaced (position width offset : Nat) :
    Lands position (min 8 width - 1) offset ↔
      Spaced width offset ((offset : Int) - position) := by
  have table := fun gap => spaced_table ⟨min 8 width, by omega⟩ ⟨offset % 8, by omega⟩ gap
  simp only [places_min] at table
  rw [Lands, and_mask (by omega), Spaced]
  constructor
  · rintro ⟨after, within, none_, only⟩
    obtain ⟨gap, rfl⟩ := Nat.exists_eq_add_of_le after
    have short : gap ≤ min 8 width - 1 := by omega
    have left : position + (min 8 width - 1) - (position + gap) = min 8 width - 1 - gap := by omega
    rw [left] at only
    have spaced := (table ⟨gap, by omega⟩).mp ⟨short, none_, only⟩
    rwa [show ((position + gap : Nat) : Int) - position = gap by omega]
  · intro spaced
    obtain ⟨least, most⟩ := gap_of_mem spaced.2
    obtain ⟨gap, rfl⟩ := Nat.exists_eq_add_of_le (show position ≤ offset by omega)
    rw [show ((position + gap : Nat) : Int) - position = gap by omega] at spaced most
    obtain ⟨short, none_, only⟩ := (table ⟨gap, by omega⟩).mpr spaced
    have left : position + (min 8 width - 1) - (position + gap) = min 8 width - 1 - gap := by omega
    dsimp only at short
    refine ⟨by omega, by omega, none_, ?_⟩
    rw [left]
    exact only

theorem bufferEnd_concat (before : List Parameter) (p : Parameter) :
    bufferEnd (before ++ [p]) = bufferOffset before p + p.size := by
  have concat : ∀ position, fieldsEnd position (fields (before ++ [p])) =
      alignUp (fieldsEnd position (fields before)) p.alignment + p.size := by
    induction before with
    | nil => exact fun _ => rfl
    | cons first before ih => exact fun position => ih _
  exact concat 0

/-- The sizes lead to the offsets when every parameter suits its place. -/
theorem agrees_iff_suits {seen : Nat} (before params : List Parameter)
    (reached : (seen : Int) = bufferEnd before +
      before.getLast?.elim 0 fun last => (last.width - last.size : Int)) :
    Agrees room seen (bufferEnd before) params ↔
      ∀ earlier p later, params = earlier ++ p :: later → p.Suits (before ++ earlier) room := by
  induction params generalizing seen before with
  | nil => simp [Agrees]
  | cons p rest ih =>
    have lands : Lands seen (min 8 p.width - 1) (bufferOffset before p) ↔
        Spaced p.width (bufferOffset before p) (gap before p) := by
      rw [lands_iff_spaced, reached, gap, Int.sub_sub]
    have others := @ih (bufferOffset before p + p.width) (before ++ [p]) (by
      rw [bufferEnd_concat, getLast?_concat]
      simp only [Option.elim_some]
      omega)
    rw [bufferEnd_concat] at others
    rw [Agrees]
    constructor
    · rintro ⟨lands_, fits, agrees⟩ earlier q later whole
      cases earlier with
      | nil =>
        obtain ⟨rfl, rfl⟩ := cons.inj whole
        rw [append_nil]
        exact ⟨lands.mp lands_, fits⟩
      | cons first earlier =>
        obtain ⟨rfl, rfl⟩ := cons.inj whole
        have suits := others.mp agrees earlier q later rfl
        rwa [List.append_assoc, singleton_append] at suits
    · intro suits
      obtain ⟨spaced, fits⟩ := suits [] p rest rfl
      rw [append_nil] at spaced fits
      refine ⟨lands.mpr spaced, fits, others.mpr fun earlier q later whole => ?_⟩
      rw [List.append_assoc, singleton_append]
      exact suits (p :: earlier) q later (congrArg (p :: ·) whole)

/-- The child gets its arguments exactly when every parameter's declaration suits its place. -/
theorem delivered_iff (params : List Parameter) (area : ParameterArea params) :
    Delivered params area ↔
      ∀ before p after, params = before ++ p :: after → p.Suits before area.size := by
  have inside := area.inside
  have bytes : queueBytes = 1048576 := rfl
  exact ((delivered_iff_packed params area).trans
    (packArguments_iff (by omega) params (Nat.zero_le area.size))).trans
    (agrees_iff_suits [] params rfl)

/-- A byte array after a number: the sizes lead to the next multiple of eight. -/
def structAfterNumber : List Parameter :=
  [{ type := .u32, align := none, pointee := none, name := "a".toList, count := none
     named := ⟨by simp, List.all_eq_true.mp rfl⟩
     space := by simp },
   { type := .b8, align := some 4, pointee := none, name := "b".toList, count := some 12
     named := ⟨by simp, List.all_eq_true.mp rfl⟩
     space := by simp }]

theorem struct_not_delivered :
    ¬ ∀ (params : List Parameter) (area : ParameterArea params), Delivered params area := by
  intro always
  obtain ⟨places, packed, starts⟩ := (delivered_iff_packed _ _).mp (always structAfterNumber
    { offset := recordAreaBytes, size := 20, past := le_refl _
      inside := Nat.le_of_ble_eq_true rfl
      filled := Nat.le_of_ble_eq_true rfl })
  have other : packArguments 20 0 (structAfterNumber.map fun p => p.scanned.sizeBytes) =
      .ok [(0, 4), (8, 12)] := rfl
  obtain rfl := Except.ok.inj (other.symm.trans packed)
  exact absurd starts (by decide)

/-- The scan takes the parameter for what it is, and its alignment is what the loop makes of the
size. -/
structure Parameter.Natural (p : Parameter) : Prop where
  read : p.width = p.size
  aligned : p.alignment = min 8 p.size
  power : ∃ k, p.alignment = 2 ^ k

theorem lands_alignUp (position k : Nat) :
    Lands position (2 ^ k - 1) (alignUp position (2 ^ k)) := by
  have positive : 0 < 2 ^ k := Nat.two_pow_pos k
  have multiple : alignUp position (2 ^ k) % 2 ^ k = 0 := Nat.mul_mod_left _ _
  have split_ : alignUp position (2 ^ k) + (position + (2 ^ k - 1)) % 2 ^ k =
      position + (2 ^ k - 1) := by
    rw [alignUp, mul_comm]
    exact Nat.div_add_mod _ _
  have short := Nat.mod_lt (position + (2 ^ k - 1)) positive
  refine ⟨by omega, by omega, ?_, ?_⟩
  · rw [Nat.and_two_pow_sub_one_eq_mod, multiple]
  · exact Nat.and_two_pow_sub_one_of_lt_two_pow (by omega)

theorem le_alignUp (position k : Nat) : position ≤ alignUp position (2 ^ k) :=
  (lands_alignUp position k).1

variable {params : List Parameter}

theorem le_fieldsEnd (natural : ∀ p ∈ params, p.Natural) (position : Nat) :
    position ≤ fieldsEnd position (fields params) := by
  induction params generalizing position with
  | nil => exact le_refl _
  | cons p rest ih =>
    obtain ⟨k, power⟩ := (natural p mem_cons_self).power
    have here := le_alignUp position k
    have later := ih (fun q mem => natural q (mem_cons_of_mem _ mem))
      (alignUp position p.alignment + p.size)
    rw [← power] at here
    change position ≤ fieldsEnd (alignUp position p.alignment + p.size) (fields rest)
    omega

theorem agrees_of_natural (natural : ∀ p ∈ params, p.Natural) (position : Nat)
    (filled : fieldsEnd position (fields params) ≤ room) :
    Agrees room position position params := by
  induction params generalizing position with
  | nil => trivial
  | cons p rest ih =>
    obtain ⟨read, aligned, k, power⟩ := natural p mem_cons_self
    have others : ∀ q ∈ rest, q.Natural := fun q mem => natural q (mem_cons_of_mem _ mem)
    change fieldsEnd (alignUp position p.alignment + p.size) (fields rest) ≤ room at filled
    have short := le_fieldsEnd others (alignUp position p.alignment + p.size)
    rw [Agrees, read]
    refine ⟨?_, by omega, ih others _ filled⟩
    rw [← aligned, power]
    exact lands_alignUp position k

theorem natural_of_scalar {p : Parameter} (single : p.count = none) (plain : p.align = none)
    (wide : p.pointee.isSome = true → p.type.bytes = 8)
    (known : p.type ≠ .f16 ∧ p.type ≠ .b128) : p.Natural := by
  have size : p.size = p.type.bytes := by rw [size, single]; exact mul_one _
  have alignment : p.alignment = p.type.bytes := by rw [alignment, plain]; rfl
  have power : ∃ k ≤ 3, p.type.bytes = 2 ^ k := by
    obtain ⟨half, double⟩ := known
    cases type : p.type with
    | f16 => exact absurd type half
    | b128 => exact absurd type double
    | b8 | u8 | s8 => exact ⟨0, by decide, rfl⟩
    | b16 | u16 | s16 => exact ⟨1, by decide, rfl⟩
    | b32 | u32 | s32 | f32 | f16x2 => exact ⟨2, by decide, rfl⟩
    | b64 | u64 | s64 | f64 => exact ⟨3, by decide, rfl⟩
  obtain ⟨k, small, power⟩ := power
  have read : p.width = p.type.bytes := by
    rw [width, single]
    cases pointee : p.pointee.isSome with
    | true => exact (wide pointee).symm
    | false =>
      revert known
      cases p.type <;> simp [PtxType.pointerWide, PtxType.knownBytes, PtxType.bytes]
  refine ⟨read.trans size.symm, ?_, k, alignment.trans power⟩
  have most : p.type.bytes ≤ 8 := power ▸ Nat.pow_le_pow_right (by decide) small
  rw [alignment, size]
  omega

/-- Scalars, and pointers of eight bytes, are delivered in any number and order. -/
theorem delivered_of_scalars (scalars : ∀ p ∈ params, p.count = none ∧ p.align = none ∧
      (p.pointee.isSome = true → p.type.bytes = 8) ∧ p.type ≠ .f16 ∧ p.type ≠ .b128)
    (area : ParameterArea params) : Delivered params area := by
  have inside := area.inside
  have bytes : queueBytes = 1048576 := rfl
  refine (delivered_iff_packed params area).mpr
    ((packArguments_iff (by omega) params (Nat.zero_le _)).mpr ?_)
  refine agrees_of_natural (fun p mem => ?_) 0 area.filled
  obtain ⟨single, plain, wide, known⟩ := scalars p mem
  exact natural_of_scalar single plain wide known

def scalar (type : PtxType) (name : String)
    (named : name.toList ≠ [] ∧ ∀ c ∈ name.toList, isNameChar c = true) : Parameter where
  type := type
  align := none
  pointee := none
  name := name.toList
  count := none
  named := named
  space := nofun

/-- Numbers of four, eight and two bytes. -/
def mixedNumbers : List Parameter :=
  [scalar .u32 "a" ⟨by simp, all_eq_true.mp rfl⟩, scalar .u64 "b" ⟨by simp, all_eq_true.mp rfl⟩,
    scalar .u16 "c" ⟨by simp, all_eq_true.mp rfl⟩]

theorem delivered_mixed : Delivered mixedNumbers
    ⟨recordAreaBytes, 18, le_refl _, Nat.le_of_ble_eq_true rfl, Nat.le_of_ble_eq_true rfl⟩ :=
  delivered_of_scalars (by decide) _

end CuMetal.Registration.Entries
