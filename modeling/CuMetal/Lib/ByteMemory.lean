import CuMetal.Lib.WordMap

/-!
# A memory of bytes

Strings of bytes read from and written to a memory that a machine word addresses, and transfers
from one part of it to another in pieces.
-/

namespace CuMetal

open List WordMap

abbrev ByteMemory := BitVec 64 → UInt8

namespace ByteMemory

/-- The address that lies so many bytes after another. -/
def place (address : BitVec 64) (i : Nat) : BitVec 64 := address + BitVec.ofNat 64 i

def read (memory : ByteMemory) (address : BitVec 64) (count : Nat) : List UInt8 :=
  (List.range count).map fun i => memory (place address i)

/-- The memory with a string of bytes stored from an address on. -/
def write (memory : ByteMemory) (address : BitVec 64) (bytes : List UInt8) : ByteMemory :=
  fun other => (bytes[(other - address).toNat]?).getD (memory other)

variable {memory : ByteMemory} {address : BitVec 64}

@[simp] theorem place_zero (address : BitVec 64) : place address 0 = address := by
  simp [place]

theorem place_add (address : BitVec 64) (i j : Nat) :
    place (place address i) j = place address (i + j) := by
  rw [place, place, place, BitVec.ofNat_add, BitVec.add_assoc]

variable {i : Nat} {bytes : List UInt8} {other : BitVec 64}

theorem toNat_place_sub (address : BitVec 64) (small : i < 2 ^ 64) :
    (place address i - address).toNat = i := by
  have cancel : place address i - address = BitVec.ofNat 64 i := by
    rw [place, BitVec.add_comm, BitVec.add_sub_cancel]
  rw [cancel, BitVec.toNat_ofNat, Nat.mod_eq_of_lt small]

theorem place_inj (address : BitVec 64) {j : Nat} (small : i < 2 ^ 64) (small' : j < 2 ^ 64)
    (same : place address i = place address j) : i = j := by
  rw [← toNat_place_sub address small, same, toNat_place_sub address small']

@[simp] theorem length_read (memory : ByteMemory) (address : BitVec 64) (count : Nat) :
    (read memory address count).length = count := by
  rw [read, length_map, length_range]

theorem getElem?_read {count : Nat} (inside : i < count) :
    (read memory address count)[i]? = some (memory (place address i)) := by
  rw [read, getElem?_map, getElem?_range inside]
  rfl

theorem bytesAt_read {count start length : Nat} (inside : start + length ≤ count) :
    bytesAt (read memory address count) start length =
      read memory (place address start) length := by
  apply ext_getElem?
  intro i
  rcases lt_or_ge i length with within | beyond
  · rw [bytesAt, getElem?_take_of_lt within, getElem?_drop,
      getElem?_read (by omega), getElem?_read within, place_add]
  · have short : (bytesAt (read memory address count) start length).length ≤ i := by
      rw [bytesAt, length_take]
      omega
    rw [getElem?_eq_none short,
      getElem?_eq_none (by rw [length_read]; exact beyond)]

theorem read_congr {other : ByteMemory} {count : Nat}
    (same : ∀ i, i < count → other (place address i) = memory (place address i)) :
    read other address count = read memory address count := by
  apply map_congr_left
  intro i mem
  exact same i (mem_range.mp mem)

theorem write_inside (small : i < 2 ^ 64) (inside : i < bytes.length) :
    some (write memory address bytes (place address i)) = bytes[i]? := by
  rw [write, toNat_place_sub address small, getElem?_eq_getElem inside]
  rfl

theorem write_outside (outside : ∀ i, i < bytes.length → other ≠ place address i) :
    write memory address bytes other = memory other := by
  have beyond : bytes.length ≤ (other - address).toNat := by
    by_contra inside
    apply outside (other - address).toNat (by omega)
    rw [place, BitVec.ofNat_toNat, BitVec.setWidth_eq, BitVec.add_comm, BitVec.sub_add_cancel]
  rw [write, getElem?_eq_none beyond]
  rfl

@[simp] theorem write_nil : write memory address [] = memory := by
  funext other
  exact write_outside fun i inside => absurd inside (Nat.not_lt_zero i)

theorem read_write (memory : ByteMemory) (address : BitVec 64) (small : bytes.length ≤ 2 ^ 64) :
    read (write memory address bytes) address bytes.length = bytes := by
  apply ext_getElem?
  intro i
  rcases lt_or_ge i bytes.length with inside | beyond
  · rw [getElem?_read inside, write_inside (by omega) inside]
  · rw [getElem?_eq_none (by rw [length_read]; exact beyond),
      getElem?_eq_none beyond]

/-- A piece of a part of the memory, rewritten and stored at the same place of another part. -/
def transferPiece (rewrite : List UInt8 → List UInt8) (target source : BitVec 64)
    (memory : ByteMemory) (piece : Nat × Nat) : ByteMemory :=
  write memory (place target piece.1) (rewrite (read memory (place source piece.1) piece.2))

def transfer (rewrite : List UInt8 → List UInt8) (target source : BitVec 64)
    (calls : List (Nat × Nat)) (memory : ByteMemory) : ByteMemory :=
  calls.foldl (transferPiece rewrite target source) memory

section Transfers

variable {rewrite : List UInt8 → List UInt8} {target source : BitVec 64} {count : Nat}

theorem transferPiece_outside (sameLength : ∀ bytes, (rewrite bytes).length = bytes.length)
    {piece : Nat × Nat}
    (outside : ∀ i, piece.1 ≤ i → i < piece.1 + piece.2 → other ≠ place target i) :
    transferPiece rewrite target source memory piece other = memory other := by
  apply write_outside
  intro i inside
  rw [sameLength, length_read] at inside
  rw [place_add]
  exact outside _ (by omega) (by omega)

variable {calls : List (Nat × Nat)}

theorem transfer_spec (sameLength : ∀ bytes, (rewrite bytes).length = bytes.length)
    (small : count ≤ 2 ^ 64)
    (apart : ∀ i j, i < count → j < count → place source i ≠ place target j)
    (bounds : ∀ piece ∈ calls, piece.1 + piece.2 ≤ count)
    (disjoint : calls.Pairwise WordMap.Apart) (memory : ByteMemory) :
    (∀ piece ∈ calls, ∀ i, piece.1 ≤ i → i < piece.1 + piece.2 →
      some (transfer rewrite target source calls memory (place target i)) =
        (rewrite (read memory (place source piece.1) piece.2))[i - piece.1]?) ∧
    ∀ other, (∀ piece ∈ calls, ∀ i, piece.1 ≤ i → i < piece.1 + piece.2 →
        other ≠ place target i) →
      transfer rewrite target source calls memory other = memory other := by
  induction calls generalizing memory with
  | nil => exact ⟨fun _ mem => absurd mem not_mem_nil, fun _ _ => rfl⟩
  | cons first rest ih =>
    rw [pairwise_cons] at disjoint
    obtain ⟨arrives, kept⟩ := ih (fun piece mem => bounds piece (mem_cons_of_mem _ mem))
      disjoint.2 (transferPiece rewrite target source memory first)
    have room := bounds first mem_cons_self
    constructor
    · intro piece mem i low high
      rcases mem_cons.mp mem with rfl | later
      · -- the later pieces lie elsewhere, so what this one stored stays
        rw [transfer, foldl_cons]
        rw [transfer] at kept
        rw [kept (place target i), transferPiece]
        · have shift : place target i = place (place target piece.1) (i - piece.1) := by
            rw [place_add]
            congr 1
            omega
          rw [shift, write_inside (by omega)]
          rw [sameLength, length_read]
          omega
        · intro other mem' j below above same
          have distinct := disjoint.1 other mem'
          have room' := bounds other (mem_cons_of_mem _ mem')
          have one := place_inj target (by omega) (by omega) same
          unfold WordMap.Apart at distinct
          omega
      · rw [transfer, foldl_cons]
        rw [transfer] at arrives
        rw [arrives piece later i low high]
        have room' := bounds piece mem
        congr 2
        apply read_congr
        intro j inside
        rw [place_add]
        apply transferPiece_outside sameLength
        intro k _ above
        exact apart _ _ (by omega) (by omega)
    · intro other outside
      rw [transfer, foldl_cons]
      rw [transfer] at kept
      rw [kept other fun piece mem => outside piece (mem_cons_of_mem _ mem)]
      exact transferPiece_outside sameLength (outside first mem_cons_self)

/-- A part transferred in pieces, in any order, is its bytes with the words of the pieces
rewritten. -/
theorem read_transfer {rewriteWord : BitVec 64 → BitVec 64} (small : count ≤ 2 ^ 64)
    (apart : ∀ i j, i < count → j < count → place source i ≠ place target j) {lengths : List Nat}
    (whole : lengths.sum = count) (order : calls.Perm (pieces 0 lengths))
    (memory : ByteMemory) :
    read (transfer (mapWords rewriteWord) target source calls memory) target count =
      mapPieces rewriteWord lengths (read memory source count) := by
  have bounds : ∀ piece ∈ calls, piece.1 + piece.2 ≤ count := by
    intro piece mem
    have limits := (pieces_bounds (order.mem_iff.mp mem)).2
    omega
  have symmetric : ∀ {first second : Nat × Nat}, WordMap.Apart first second →
      WordMap.Apart second first := Or.symm
  have disjoint : calls.Pairwise WordMap.Apart :=
    (order.pairwise_iff symmetric).mpr (pieces_apart 0 lengths)
  obtain ⟨arrives, -⟩ := transfer_spec (length_mapWords rewriteWord) small apart bounds
    disjoint memory
  apply ext_getElem?
  intro i
  rcases lt_or_ge i count with within | beyond
  · have room : lengths.sum ≤ (read memory source count).length := by
      rw [length_read, whole]
    obtain ⟨piece, mem, low, high, byte⟩ :=
      piece_of_position rewriteWord room 0 (i := i) (by omega)
    rw [zero_add] at low high byte
    rw [getElem?_read within, arrives piece (order.mem_iff.mpr mem) i low high, byte,
      Nat.sub_zero, bytesAt_read (bounds piece (order.mem_iff.mpr mem))]
  · rw [getElem?_eq_none (by rw [length_read]; exact beyond),
      getElem?_eq_none (by rw [length_mapPieces, length_read]; exact beyond)]

end Transfers

end ByteMemory

end CuMetal
