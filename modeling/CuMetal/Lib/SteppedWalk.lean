import Mathlib.Tactic.Positivity
import Mathlib.Tactic.Ring

/-!
# Walks through an address space

Addresses of `w` bits that go on by a step. As long as they stay in a range of at most half of the
address space they do not wrap: the step, read as a signed number, is added exactly.
-/

namespace CuMetal.SteppedWalk

open BitVec

variable {w : Nat}

theorem toNat_ofInt (value : Int) (low : 0 ≤ value) (high : value < 2 ^ w) :
    ((BitVec.ofInt w value).toNat : Int) = value := by
  have modulus : ((2 ^ w : Nat) : Int) = 2 ^ w := by push_cast; rfl
  rw [BitVec.toNat_ofInt, modulus, Int.toNat_of_nonneg (Int.emod_nonneg _ (by positivity))]
  exact Int.emod_eq_of_lt low high

theorem add_eq_ofInt (address step : BitVec w) :
    address + step = BitVec.ofInt w (address.toNat + step.toInt) := by
  rw [ofInt_add, ofInt_toInt, ofInt_natCast, ofNat_toNat,
    setWidth_eq]

theorem toNat_step {address step : BitVec (w + 1)} {size : Nat} (small : size ≤ 2 ^ w)
    (before : address.toNat < size) (after : (address + step).toNat < size) :
    ((address + step).toNat : Int) = address.toNat + step.toInt := by
  have half : (2 : Int) ^ (w + 1) = 2 * 2 ^ w := by rw [pow_succ]; ring
  have low := le_toInt step
  have high := toInt_lt (x := step)
  rw [Nat.add_sub_cancel] at low high
  have bound : (size : Int) ≤ 2 ^ w := by exact_mod_cast small
  rcases lt_or_ge ((address.toNat : Int) + step.toInt) 0 with negative | positive
  · -- a step below the range comes out above it
    have above : ((address + step).toNat : Int) = address.toNat + step.toInt + 2 ^ (w + 1) := by
      have turned : address + step =
          BitVec.ofInt (w + 1) (address.toNat + step.toInt + (2 ^ (w + 1) : Nat)) := by
        apply eq_of_toNat_eq
        rw [add_eq_ofInt, BitVec.toNat_ofInt, BitVec.toNat_ofInt, Int.add_emod_right]
      rw [turned, toNat_ofInt] <;> push_cast <;> omega
    omega
  · rw [add_eq_ofInt]
    exact toNat_ofInt _ positive (by omega)

theorem toNat_walk (start step : BitVec (w + 1)) {size : Nat} (small : size ≤ 2 ^ w) (n : Nat)
    (inside : ∀ i ≤ n, (start + BitVec.ofNat (w + 1) i * step).toNat < size) :
    ((start + BitVec.ofNat (w + 1) n * step).toNat : Int) = start.toNat + n * step.toInt := by
  induction n with
  | zero => simp
  | succ n ih =>
    have next : start + BitVec.ofNat (w + 1) (n + 1) * step =
        start + BitVec.ofNat (w + 1) n * step + step := by
      rw [BitVec.ofNat_add, BitVec.add_mul, BitVec.add_assoc]
      simp
    have earlier := ih fun i le => inside i (Nat.le_succ_of_le le)
    have last := inside (n + 1) le_rfl
    rw [next] at last ⊢
    rw [toNat_step small (inside n (Nat.le_succ n)) last, earlier]
    push_cast
    ring

theorem multiple_bounds (step : Int) {i n : Nat} (le : i ≤ n) :
    min 0 (n * step) ≤ i * step ∧ i * step ≤ max 0 (n * step) := by
  have le' : (i : Int) ≤ n := by exact_mod_cast le
  have positive : (0 : Int) ≤ i := Int.natCast_nonneg i
  rcases le_total 0 step with up | down
  · have grows := mul_le_mul_of_nonneg_right le' up
    have above := mul_nonneg positive up
    omega
  · have falls := mul_le_mul_of_nonpos_right le' down
    have below := mul_nonpos_of_nonneg_of_nonpos positive down
    omega

theorem exists_extremes (step : Int) (n : Nat) :
    (∃ i ≤ n, (i : Int) * step = min 0 (n * step)) ∧
      ∃ i ≤ n, (i : Int) * step = max 0 (n * step) := by
  rcases le_total 0 ((n : Int) * step) with up | down
  · exact ⟨⟨0, Nat.zero_le n, by simp [min_eq_left up]⟩, n, le_rfl, by rw [max_eq_right up]⟩
  · exact ⟨⟨n, le_rfl, by rw [min_eq_right down]⟩, 0, Nat.zero_le n, by simp [max_eq_left down]⟩

/-- The bytes of `depth` planes of `height` rows of `width` bytes. -/
structure Grid (w : Nat) where
  start : BitVec w
  plane : BitVec w
  pitch : BitVec w
  depth : Nat
  height : Nat
  width : Nat

namespace Grid

def byte (grid : Grid w) (z y c : Nat) : BitVec w :=
  grid.start + BitVec.ofNat w z * grid.plane + BitVec.ofNat w y * grid.pitch + BitVec.ofNat w c

def Inside (grid : Grid w) (size : Nat) : Prop :=
  ∀ z < grid.depth, ∀ y < grid.height, ∀ c < grid.width, (grid.byte z y c).toNat < size

/-- With the strides read as signed numbers, the lowest and the highest byte lie between 0 and a
bound. -/
def Corners (grid : Grid w) (size : Nat) : Prop :=
  0 ≤ grid.start.toNat + min 0 (((grid.depth - 1 : Nat) : Int) * grid.plane.toInt) +
      min 0 (((grid.height - 1 : Nat) : Int) * grid.pitch.toInt) ∧
    grid.start.toNat + max 0 (((grid.depth - 1 : Nat) : Int) * grid.plane.toInt) +
      max 0 (((grid.height - 1 : Nat) : Int) * grid.pitch.toInt) + grid.width ≤ (size : Int)

instance (grid : Grid w) (size : Nat) : Decidable (grid.Corners size) :=
  inferInstanceAs (Decidable (_ ∧ _))

/-- No row is empty, and there is one. -/
structure Occupied (grid : Grid w) : Prop where
  depth : 0 < grid.depth
  height : 0 < grid.height
  width : 0 < grid.width

theorem byte_eq_ofInt (grid : Grid w) (z y c : Nat) :
    grid.byte z y c =
      BitVec.ofInt w (grid.start.toNat + z * grid.plane.toInt + y * grid.pitch.toInt + c) := by
  simp only [byte, ofInt_add, ofInt_mul, ofInt_natCast, ofInt_toInt,
    ofNat_toNat, setWidth_eq]

variable {grid : Grid (w + 2)} {size : Nat}

theorem Inside.toNat_byte (inside : grid.Inside size) (small : size ≤ 2 ^ (w + 1)) {z y c : Nat}
    (plane : z < grid.depth) (row : y < grid.height) (column : c < grid.width) :
    ((grid.byte z y c).toNat : Int) =
      grid.start.toNat + z * grid.plane.toInt + y * grid.pitch.toInt + c := by
  have planes := toNat_walk grid.start grid.plane small z fun i le => by
    simpa [byte] using inside i (by omega) 0 (by omega) 0 (by omega)
  have rows := toNat_walk (grid.start + BitVec.ofNat (w + 2) z * grid.plane) grid.pitch small y
    fun i le => by simpa [byte] using inside z plane i (by omega) 0 (by omega)
  have columns := toNat_walk (grid.start + BitVec.ofNat (w + 2) z * grid.plane +
      BitVec.ofNat (w + 2) y * grid.pitch) 1#(w + 2) small c
    fun i le => by simpa [byte] using inside z plane y row i (by omega)
  have one : (1#(w + 2)).toInt = 1 := toInt_one (by omega)
  rw [BitVec.mul_one] at columns
  rw [byte, columns, rows, planes, one, mul_one]

theorem inside_iff (occupied : grid.Occupied) (small : size ≤ 2 ^ (w + 1)) :
    grid.Inside size ↔ grid.Corners size := by
  obtain ⟨depth, height, width⟩ := occupied
  constructor
  · intro inside
    obtain ⟨⟨lowPlane, lowPlane_le, lowestPlane⟩, highPlane, highPlane_le, highestPlane⟩ :=
      exists_extremes grid.plane.toInt (grid.depth - 1)
    obtain ⟨⟨lowRow, lowRow_le, lowestRow⟩, highRow, highRow_le, highestRow⟩ :=
      exists_extremes grid.pitch.toInt (grid.height - 1)
    have lowest := inside.toNat_byte small (z := lowPlane) (y := lowRow) (c := 0) (by omega)
      (by omega) width
    have highest := inside.toNat_byte small (z := highPlane) (y := highRow)
      (c := grid.width - 1) (by omega) (by omega) (by omega)
    have below := inside highPlane (by omega) highRow (by omega) (grid.width - 1) (by omega)
    rw [lowestPlane, lowestRow] at lowest
    rw [highestPlane, highestRow] at highest
    rw [Corners]
    omega
  · rintro ⟨low, high⟩ z plane y row c column
    obtain ⟨lowPlane, highPlane⟩ :=
      multiple_bounds grid.plane.toInt (show z ≤ grid.depth - 1 by omega)
    obtain ⟨lowRow, highRow⟩ :=
      multiple_bounds grid.pitch.toInt (show y ≤ grid.height - 1 by omega)
    have bound : (size : Int) ≤ 2 ^ (w + 1) := by exact_mod_cast small
    have half : (2 : Int) ^ (w + 2) = 2 * 2 ^ (w + 1) := by rw [pow_succ]; ring
    have value := toNat_ofInt (w := w + 2)
      (grid.start.toNat + z * grid.plane.toInt + y * grid.pitch.toInt + c) (by omega) (by omega)
    rw [← byte_eq_ofInt] at value
    omega

end Grid

end CuMetal.SteppedWalk
