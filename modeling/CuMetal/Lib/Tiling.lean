import Mathlib.Tactic.Positivity
import Mathlib.Tactic.Ring

/-!
# Tilings of a range

Pieces with an offset and a length that cover a range of bytes, each byte once, and the tilings by
pieces of one length.
-/

namespace CuMetal.Tiling

open List

def Holds (piece : Int × Nat) (byte : Int) : Prop := piece.1 ≤ byte ∧ byte < piece.1 + piece.2

/-- The pieces lie in the range, leave no gap and do not overlap. -/
structure Tiles (size : Nat) (pieces : List (Int × Nat)) : Prop where
  inside : ∀ piece ∈ pieces, 0 ≤ piece.1 ∧ piece.1 + piece.2 ≤ size
  covered : ∀ byte : Int, 0 ≤ byte → byte < size → ∃ piece ∈ pieces, Holds piece byte
  apart : ∀ piece ∈ pieces, ∀ other ∈ pieces, ∀ byte, Holds piece byte → Holds other byte →
    piece = other

variable {pieces : List (Int × Nat)} {width count : Nat}

def evenPieces (width count : Nat) : List (Int × Nat) :=
  (List.range count).map fun i : Nat => ((i : Int) * width, width)

theorem mem_evenPieces {piece : Int × Nat} :
    piece ∈ evenPieces width count ↔ ∃ i < count, ((i : Int) * width, width) = piece := by
  simp [evenPieces]

/-- The pieces of a tiling by one width start at the multiples of the width: the one that holds the
next multiple cannot start before it, where an earlier piece ends. -/
theorem Tiles.even_mem (tiles : Tiles (count * width) pieces) (positive : 0 < width)
    (even : ∀ piece ∈ pieces, piece.2 = width) {i : Nat} (below : i < count) :
    ((i : Int) * width, width) ∈ pieces := by
  induction i with
  | zero =>
    have room : 0 < count * width := mul_pos below positive
    obtain ⟨⟨offset, length⟩, mem, low, high⟩ := tiles.covered 0 le_rfl (by exact_mod_cast room)
    have start := (tiles.inside _ mem).1
    obtain rfl : length = width := even _ mem
    obtain rfl : offset = 0 := le_antisymm low start
    simpa using mem
  | succ i ih =>
    have before := ih (Nat.lt_of_succ_lt below)
    have room : ((i : Int) + 1) * width < count * width := by
      exact_mod_cast mul_lt_mul_of_pos_right below positive
    have next : ((i : Int) + 1) * width = i * width + width := by ring
    obtain ⟨⟨offset, length⟩, mem, low, high⟩ := tiles.covered (((i : Int) + 1) * width)
      (by positivity) (by exact_mod_cast room)
    obtain rfl : length = width := even _ mem
    simp only at low high
    have start : offset = ((i : Int) + 1) * length := by
      by_contra early
      have shared := tiles.apart _ mem _ before (i * length + length - 1)
        ⟨by simp only; omega, by simp only; omega⟩ ⟨by simp only; omega, by simp only; omega⟩
      have same : offset = i * length := congrArg Prod.fst shared
      omega
    rw [start] at mem
    exact_mod_cast mem

theorem exists_multiple (positive : 0 < width) {byte : Int} (low : 0 ≤ byte)
    (high : byte < count * width) :
    ∃ i < count, Holds ((i : Int) * width, width) byte := by
  have width_pos : (0 : Int) < width := by exact_mod_cast positive
  have quotient : ((byte / width).toNat : Int) = byte / width :=
    Int.toNat_of_nonneg (Int.ediv_nonneg low width_pos.le)
  have remainder := Int.emod_nonneg byte width_pos.ne'
  have small := Int.emod_lt_of_pos byte width_pos
  have whole := Int.mul_ediv_add_emod byte width
  rw [Int.mul_comm] at whole
  refine ⟨(byte / width).toNat, ?_, ?_, ?_⟩
  · have below : byte / width < count := Int.ediv_lt_of_lt_mul width_pos high
    omega
  · simp only [quotient]
    omega
  · simp only [quotient]
    omega

theorem nodup_evenPieces (positive : 0 < width) : (evenPieces width count).Nodup := by
  refine (nodup_range (n := count)).map fun i j same => ?_
  have product : (i : Int) * width = j * width := congrArg Prod.fst same
  exact_mod_cast Int.eq_of_mul_eq_mul_right (by omega) product

theorem tiles_evenPieces (positive : 0 < width) :
    Tiles (count * width) (evenPieces width count) := by
  have ends : ∀ {i j : Nat}, i < j → (i : Int) * width + width ≤ j * width := by
    intro i j less
    have next : (i + 1) * width ≤ j * width := Nat.mul_le_mul_right _ less
    rw [add_mul, one_mul] at next
    exact_mod_cast next
  constructor
  · intro piece mem
    obtain ⟨i, below, rfl⟩ := mem_evenPieces.mp mem
    refine ⟨by positivity, ?_⟩
    push_cast
    exact ends below
  · intro byte low high
    obtain ⟨i, below, holds⟩ := exists_multiple positive low (by exact_mod_cast high)
    exact ⟨_, mem_evenPieces.mpr ⟨i, below, rfl⟩, holds⟩
  · intro piece mem other mem' byte holds holds'
    obtain ⟨i, -, rfl⟩ := mem_evenPieces.mp mem
    obtain ⟨j, -, rfl⟩ := mem_evenPieces.mp mem'
    simp only [Holds] at holds holds'
    rcases lt_trichotomy i j with less | rfl | greater
    · have apart := ends less
      omega
    · rfl
    · have apart := ends greater
      omega

/-- The numbers below a bound, one piece after the other. -/
theorem range_pieces (width size count : Nat) :
    ((List.range count).flatMap fun i =>
      (List.range (min width (size - width * i))).map (width * i + ·)) =
      List.range (min size (width * count)) := by
  induction count with
  | zero => simp
  | succ count ih =>
    rw [range_succ, flatMap_append, ih, flatMap_singleton]
    rcases le_total size (width * count) with past | room
    · have whole : size ≤ width * (count + 1) := past.trans (Nat.mul_le_mul_left _ (by omega))
      rw [Nat.sub_eq_zero_of_le past, min_eq_left past, min_eq_left whole]
      simp
    · have next : min size (width * (count + 1)) =
          width * count + min width (size - width * count) := by
        rw [Nat.mul_succ]
        omega
      rw [min_eq_right room, next, range_add]

theorem Tiles.of_perm {size : Nat} {others : List (Int × Nat)} (tiles : Tiles size pieces)
    (same : ∀ piece, piece ∈ others ↔ piece ∈ pieces) : Tiles size others where
  inside := fun piece mem => tiles.inside piece ((same piece).mp mem)
  covered := fun byte low high => by
    obtain ⟨piece, mem, holds⟩ := tiles.covered byte low high
    exact ⟨piece, (same piece).mpr mem, holds⟩
  apart := fun piece mem other mem' =>
    tiles.apart piece ((same piece).mp mem) other ((same other).mp mem')

theorem perm_evenPieces (positive : 0 < width) (length : pieces.length = count)
    (all : ∀ i < count, ((i : Int) * width, width) ∈ pieces) :
    (evenPieces width count).Perm pieces := by
  have contains : evenPieces width count ⊆ pieces := by
    intro piece mem
    obtain ⟨i, below, rfl⟩ := mem_evenPieces.mp mem
    exact all i below
  refine ((nodup_evenPieces positive).subperm contains).perm_of_length_le ?_
  rw [length, evenPieces, length_map, length_range]

theorem tiles_even_iff (positive : 0 < width) (distinct : (pieces.map Prod.fst).Nodup)
    (even : ∀ piece ∈ pieces, piece.2 = width) :
    Tiles (count * width) pieces ↔
      pieces.length = count ∧ ∀ i < count, ((i : Int) * width, width) ∈ pieces := by
  have nodup : pieces.Nodup := distinct.of_map _
  have length : (evenPieces width count).length = count := by simp [evenPieces]
  constructor
  · intro tiles
    have contains : evenPieces width count ⊆ pieces := by
      intro piece mem
      obtain ⟨i, below, rfl⟩ := mem_evenPieces.mp mem
      exact tiles.even_mem positive even below
    have within : pieces ⊆ evenPieces width count := by
      rintro ⟨offset, long⟩ mem
      obtain rfl : long = width := even _ mem
      obtain ⟨low, high⟩ := tiles.inside _ mem
      push_cast at low high
      obtain ⟨i, below, holds⟩ := exists_multiple positive low
        (show offset < (count : Int) * long by omega)
      have same := tiles.apart _ mem _ (tiles.even_mem positive even below) offset
        ⟨le_rfl, by simp only; omega⟩ holds
      exact mem_evenPieces.mpr ⟨i, below, same.symm⟩
    refine ⟨?_, fun i below => tiles.even_mem positive even below⟩
    have shorter := (nodup.subperm within).length_le
    have longer := ((nodup_evenPieces positive).subperm contains).length_le
    omega
  · rintro ⟨pieces_length, all⟩
    have perm := perm_evenPieces positive pieces_length all
    exact (tiles_evenPieces positive).of_perm fun piece => perm.symm.mem_iff

end CuMetal.Tiling
