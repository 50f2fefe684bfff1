import CuMetal.Ptx.LaunchDrain

/-!
# The memory of the launch queue

What a store changes, in offsets from the start of the queue, and what the words of a reservation
are when none of them wraps.
-/

namespace CuMetal.Ptx.LaunchQueue

open BitVec ByteMemory WordMap

open ByteMemory (place read write)

variable {queue : BitVec 64} {memory memory' : ByteMemory}

/-- Nothing of the memory changes but some bytes, which start and end at these offsets. -/
def Untouched (queue : BitVec 64) (memory memory' : ByteMemory) (start finish : Nat) : Prop :=
  ∀ i < 2 ^ 64, i < start ∨ finish ≤ i → memory' (place queue i) = memory (place queue i)

theorem untouched_write (queue : BitVec 64) (memory : ByteMemory) (offset : Nat)
    (bytes : List UInt8)
    (small : offset + bytes.length ≤ 2 ^ 64) :
    Untouched queue memory (write memory (place queue offset) bytes) offset
      (offset + bytes.length) := by
  intro i bound outside
  apply write_outside
  intro j inside same
  rw [place_add] at same
  have := place_inj queue bound (by omega) same
  omega

theorem untouched_storeWord (queue : BitVec 64) (memory : ByteMemory) (offset : Nat)
    (word : BitVec 32) (small : offset + 4 ≤ 2 ^ 64) :
    Untouched queue memory (storeWord memory (place queue offset) word) offset (offset + 4) := by
  have length := length_toLittleEndian 4 word.toNat
  have untouched := untouched_write queue memory offset (toLittleEndian 4 word.toNat)
    (by omega)
  rwa [length] at untouched

variable {finish : Nat} {offset : BitVec 32}

theorem Untouched.read {start : Nat} (untouched : Untouched queue memory memory' start finish)
    (offset count : Nat) (small : offset + count ≤ 2 ^ 64)
    (apart : offset + count ≤ start ∨ finish ≤ offset) :
    read memory' (place queue offset) count = read memory (place queue offset) count := by
  apply read_congr
  intro i inside
  rw [place_add]
  exact untouched (offset + i) (by omega) (by omega)

theorem Untouched.loadWord {start : Nat} (untouched : Untouched queue memory memory' start finish)
    (offset : Nat) (small : offset + 4 ≤ 2 ^ 64) (apart : offset + 4 ≤ start ∨ finish ≤ offset) :
    loadWord memory' (place queue offset) = loadWord memory (place queue offset) := by
  rw [LaunchQueue.loadWord, untouched.read offset 4 small apart, LaunchQueue.loadWord]

theorem loadWord_storeWord (address : BitVec 64) (word : BitVec 32) :
    loadWord (storeWord memory address word) address = word := by
  have length := length_toLittleEndian 4 word.toNat
  have short : (toLittleEndian 4 word.toNat).length ≤ 2 ^ 64 := by omega
  have stored := read_write memory address short
  rw [length] at stored
  have bound := word.isLt
  rw [loadWord, storeWord, stored, littleEndian_toLittleEndian]
  apply eq_of_toNat_eq
  rw [toNat_ofNat]
  omega

theorem byteAddress_eq (small : offset.toNat < 2 ^ 31) :
    byteAddress queue offset = place queue offset.toNat := by
  have clear : offset.msb = false := by
    rw [msb_eq_decide]
    simpa using small
  rw [byteAddress, place, signExtend_eq_setWidth_of_msb_false clear]
  congr 1
  apply eq_of_toNat_eq
  rw [toNat_setWidth, toNat_ofNat]

/-- The size of a buffer stands eight bytes before it, for the thread that stores it and for the
thread that loads it. -/
theorem headerAddress_eq (queue : BitVec 64) (large : 8 ≤ offset.toNat)
    (small : offset.toNat < 2 ^ 31) :
    byteAddress queue (offset - 8) = place queue (offset.toNat - 8) ∧
      byteAddress queue offset - 8 = place queue (offset.toNat - 8) := by
  have before : (offset - 8).toNat = offset.toNat - 8 :=
    toNat_sub_of_le (by simpa [le_def] using large)
  constructor
  · rw [byteAddress_eq (by omega), before]
  · rw [byteAddress_eq small]
    have split := place_add queue (offset.toNat - 8) 8
    rw [Nat.sub_add_cancel large] at split
    rw [← split, place]
    exact add_sub_cancel _ _

theorem parameterOffset_eq : (byteAddress queue offset - queue).setWidth 32 = offset := by
  have cancel : byteAddress queue offset - queue = offset.signExtend 64 := by
    rw [byteAddress, BitVec.add_comm, BitVec.add_sub_cancel]
  rw [cancel]
  apply eq_of_getLsbD_eq
  intro i small
  rw [getLsbD_setWidth, getLsbD_signExtend, if_pos small]
  simp [small, lt_trans small (show 32 < 64 by decide)]

theorem wide_halves (value : BitVec 64) : wide (low value) (high value) = value := by
  apply eq_of_getLsbD_eq
  intro i bound
  rw [wide, low, high, getLsbD_or, getLsbD_setWidth, getLsbD_setWidth,
    getLsbD_shiftLeft, getLsbD_setWidth, getLsbD_setWidth,
    getLsbD_ushiftRight]
  by_cases lower : i < 32
  · simp [lower, bound]
  · have back : 32 + (i - 32) = i := by omega
    have inside : i - 32 < 32 := by omega
    have inside' : i - 32 < 64 := by omega
    simp [lower, bound, back, inside, inside']

/-- The bits of the negation of a power of two are those from its own on. -/
theorem getLsbD_neg_twoPow {k i : Nat} (small : i < 32) :
    (-BitVec.twoPow 32 k).getLsbD i = decide (k ≤ i) := by
  simp only [getLsbD_neg, getLsbD_twoPow]
  rcases Nat.lt_trichotomy k i with below | rfl | above
  · simp [small, below, ne_of_lt below, le_of_lt below]
    omega
  · simp [small]
  · simp [small, not_lt_of_gt above, ne_of_gt above, not_le_of_gt above]

/-- What is left of a word when the bits below a power of two are cleared. -/
theorem toNat_and_neg_twoPow (x : BitVec 32) (k : Nat) :
    (x &&& (0 - BitVec.twoPow 32 k)).toNat = x.toNat / 2 ^ k * 2 ^ k := by
  have cleared : x &&& (0 - twoPow 32 k) = x >>> k <<< k := by
    apply eq_of_getLsbD_eq
    intro i small
    have negated : (0 : BitVec 32) - BitVec.twoPow 32 k = -BitVec.twoPow 32 k := BitVec.zero_sub _
    rw [negated, getLsbD_and, getLsbD_neg_twoPow small, getLsbD_shiftLeft,
      getLsbD_ushiftRight]
    by_cases above : k ≤ i
    · have back : k + (i - k) = i := by omega
      simp [small, above, back]
    · simp [small, above]
  rw [cleared, toNat_shiftLeft, toNat_ushiftRight, Nat.shiftLeft_eq,
    Nat.shiftRight_eq_div_pow]
  exact Nat.mod_eq_of_lt (lt_of_le_of_lt (Nat.div_mul_le_self _ _) x.isLt)

/-- The words of a reservation that does not wrap. -/
structure Reservation (raw : BitVec 32) (alignment size : BitVec 64) : Prop where
  aligned : alignment.toNat ∣ (alignedOf raw alignment).toNat
  past : raw.toNat + 8 ≤ (alignedOf raw alignment).toNat
  exact : (size.setWidth 32).toNat = size.toNat
  finish : (alignedOf raw alignment + size.setWidth 32).toNat =
    (alignedOf raw alignment).toNat + size.toNat
  cursor : (alignedOf raw alignment).toNat + size.toNat ≤ (raw + reserveOf alignment size).toNat

theorem reservation_of_steady {raw count : BitVec 32} {alignment size : BitVec 64}
    (power : PowerOfTwo alignment) (steady : SteadyReservation raw count alignment size) :
    Reservation raw alignment size := by
  obtain ⟨k, bound, rfl⟩ := power
  obtain ⟨alignmentSmall, sizeSmall, room, -, -⟩ := steady
  have power : (twoPow 64 k).toNat = 2 ^ k := by
    rw [toNat_twoPow]
    exact Nat.mod_eq_of_lt (Nat.pow_lt_pow_right (by decide) bound)
  rw [power] at alignmentSmall room
  have positive : 0 < 2 ^ k := Nat.two_pow_pos k
  have exponent : k < 32 := (Nat.pow_lt_pow_iff_right (by decide)).mp alignmentSmall
  have narrow : alignmentOf (twoPow 64 k) = twoPow 32 k := by
    have cut : (twoPow 64 k).setWidth 32 = twoPow 32 k := by
      apply eq_of_toNat_eq
      rw [toNat_setWidth, power, toNat_twoPow]
    have some_ : twoPow 32 k ≠ 0 := by
      intro zero
      have := congrArg BitVec.toNat zero
      rw [toNat_twoPow, Nat.mod_eq_of_lt alignmentSmall] at this
      simp at this
    rw [alignmentOf, cut, if_pos some_]
  have value : (twoPow 32 k).toNat = 2 ^ k := by
    rw [toNat_twoPow, Nat.mod_eq_of_lt alignmentSmall]
  have exact_ : (size.setWidth 32).toNat = size.toNat := by
    rw [toNat_setWidth, Nat.mod_eq_of_lt sizeSmall]
  have less : (twoPow 32 k - 1).toNat = 2 ^ k - 1 := by
    rw [toNat_sub_of_le (by simp only [le_def, value]; exact positive), value]
    rfl
  have sum : (raw + 8 + (twoPow 32 k - 1)).toNat = raw.toNat + 8 + (2 ^ k - 1) := by
    rw [toNat_add, toNat_add, less]
    have eight : (8 : BitVec 32).toNat = 8 := rfl
    omega
  have reserved : (reserveOf (twoPow 64 k) size).toNat = size.toNat + 8 + (2 ^ k - 1) := by
    rw [reserveOf, narrow, toNat_add, toNat_add, less, exact_]
    have eight : (8 : BitVec 32).toNat = 8 := rfl
    omega
  have cursor : (raw + reserveOf (twoPow 64 k) size).toNat =
      raw.toNat + (size.toNat + 8 + (2 ^ k - 1)) := by
    rw [toNat_add, reserved, Nat.mod_eq_of_lt room]
  have aligned : (alignedOf raw (twoPow 64 k)).toNat =
      (raw.toNat + 8 + (2 ^ k - 1)) / 2 ^ k * 2 ^ k := by
    rw [alignedOf, narrow, toNat_and_neg_twoPow, sum]
  have upper := Nat.div_mul_le_self (raw.toNat + 8 + (2 ^ k - 1)) (2 ^ k)
  have lower := Nat.lt_div_mul_add positive (a := raw.toNat + 8 + (2 ^ k - 1))
  rw [← aligned] at upper lower
  refine ⟨by rw [power, aligned]; exact dvd_mul_left .., by omega, exact_, ?_, by omega⟩
  rw [toNat_add, exact_]
  omega

end CuMetal.Ptx.LaunchQueue
