import CuMetal.Runtime.Buffers
import Mathlib.Data.List.Basic

/-!
# Batched matrix products

`gemm_strided_batched_f32` (`runtime/metal_backend/metal_backend.mm:2490-2640`), but for its error
texts. The product of one batch is that of Metal, which reads matrices by rows: as they lie by
columns, it is given the transposed product.
-/

namespace CuMetal.Runtime.Gemm

open List

/-- A matrix for each batch, in a buffer with so many bytes. -/
structure Operand where
  buffer : Option (Nat × BitVec 64)
  offset : Nat
  ld : Int
  stride : Nat

structure Request where
  (transa transb : Bool)
  (m n k batchCount : Int)
  (a b c : Operand)

/-- What Metal answers to a call. -/
structure Answers where
  initialized : Bool
  bufferImpls : Bool
  queue : CudaError
  commandBuffer : Bool
  multiplication : Bool
  completion : CudaError

/-- `MPSMatrix`. -/
structure Matrix where
  (buffer offset rowBytes : Nat)

/-- The buffer and the byte at which a float starts. -/
def Matrix.place (matrix : Matrix) (row column : Nat) : Nat × Nat :=
  (matrix.buffer, matrix.offset + row * matrix.rowBytes + column * 4)

abbrev Memory (F : Type) := Nat × Nat → F

namespace Operand

/-- The length of the buffer. -/
def length (operand : Operand) : Nat := (operand.buffer.map fun buffer => buffer.2.toNat).getD 0

/-- The matrix of a batch, where offsets do not wrap around. -/
def exact (operand : Operand) (batch : Nat) : Matrix where
  buffer := (operand.buffer.map Prod.fst).getD 0
  offset := operand.offset + batch * operand.stride
  rowBytes := operand.ld.toNat * 4

/-- The matrix of a batch, with its offset in a machine word. -/
def matrix (operand : Operand) (batch : Nat) : Matrix :=
  { operand.exact batch with offset := (operand.offset + batch * operand.stride) % 2 ^ 64 }

end Operand

namespace Request

variable {F : Type} (request : Request) (answers : Answers) (memory : Memory F)

/-- `A` with its rows and columns. -/
def partA : Operand × Nat × Nat :=
  (request.a, if request.transa then (request.k.toNat, request.m.toNat)
    else (request.m.toNat, request.k.toNat))

/-- `B` with its rows and columns. -/
def partB : Operand × Nat × Nat :=
  (request.b, if request.transb then (request.n.toNat, request.k.toNat)
    else (request.k.toNat, request.n.toNat))

/-- `C` with its rows and columns. -/
def partC : Operand × Nat × Nat := (request.c, request.m.toNat, request.n.toNat)

/-- The operands with their rows and columns. -/
def operands : List (Operand × Nat × Nat) := [request.partA, request.partB, request.partC]

/-- The span from the first batch to the last one, without wrapping around. -/
def span (part : Operand × Nat × Nat) : Nat :=
  (request.batchCount.toNat - 1) * part.1.stride + part.1.ld.toNat * part.2.2 * 4

/-- `checked_matrix_span_bytes` (`1581-1593`) of the total span. -/
def checked (part : Operand × Nat × Nat) : Bool :=
  part.1.offset ≤ part.1.length && request.span part % 2 ^ 64 ≤ part.1.length - part.1.offset

/-- What the call returns before it commits its command buffer. -/
def refusal : Option CudaError :=
  if request.batchCount < 0 then some .invalidValue
  else if request.batchCount = 0 ∨ request.m = 0 ∨ request.n = 0 ∨ request.k = 0 then
    some .success
  else if request.m < 0 ∨ request.n < 0 ∨ request.k < 0 ∨ request.a.ld ≤ 0 ∨ request.b.ld ≤ 0 ∨
      request.c.ld ≤ 0 ∨ request.a.buffer = none ∨ request.b.buffer = none ∨
      request.c.buffer = none then some .invalidValue
  else if answers.initialized = false then some .initializationError
  else if answers.bufferImpls = false then some .invalidValue
  else if ¬ ∀ part ∈ request.operands, request.checked part = true then some .invalidValue
  else if answers.queue ≠ .success then some answers.queue
  else if answers.commandBuffer = false ∨ answers.multiplication = false then some .unknown
  else none

variable (multiply : Request → Matrix → Matrix → Matrix → Memory F → Memory F)

/-- The status, and memory when the work has completed. -/
def gemmStridedBatchedF32 : CudaError × Memory F :=
  match request.refusal answers with
  | some status => (status, memory)
  | none => (answers.completion, (List.range request.batchCount.toNat).foldl
      (fun memory batch => multiply request (request.b.matrix batch) (request.a.matrix batch)
        (request.c.matrix batch) memory) memory)

/-! ## Products -/

/-- The factors in a row of `op(A)` and in a column of `op(B)`. -/
def right (matrix : Matrix) (i l : Nat) : Nat × Nat :=
  if request.transa then matrix.place i l else matrix.place l i

def left (matrix : Matrix) (l j : Nat) : Nat × Nat :=
  if request.transb then matrix.place l j else matrix.place j l

/-- The pairs of factors that are added up in an element. -/
def factors (left right : Matrix) (i j : Nat) : List (F × F) :=
  (List.range request.k.toNat).map fun l =>
    (memory (request.right right i l), memory (request.left left l j))

/-- An element of a product, when `combine` adds up products and a number, with `alpha` and
`beta`. -/
def product (combine : List (F × F) → F → F) (left right result : Matrix) (i j : Nat) : F :=
  combine (request.factors memory left right i j) (memory (result.place j i))

/-- What holds of all elements of `C`, by batch, row and column. -/
def Each (holds : Nat → Nat → Nat → Prop) : Prop :=
  ∀ batch < request.batchCount.toNat, ∀ i < request.m.toNat, ∀ j < request.n.toNat,
    holds batch i j

/-- Floats at these places share no byte. -/
def Apart (p q : Nat × Nat) : Prop := p.1 = q.1 → p.2 + 4 ≤ q.2 ∨ q.2 + 4 ≤ p.2

/-- An element is apart from the factors of a product. -/
def ApartFrom (left right : Matrix) (place : Nat × Nat) : Prop :=
  ∀ l < request.k.toNat, (∀ i < request.m.toNat, Apart place (request.right right i l)) ∧
    ∀ j < request.n.toNat, Apart place (request.left left l j)

/-- A matrix in the buffer of an operand, of its shape: its rows, the operand's columns, do not
overlap and end in the buffer. -/
def Holds (part : Operand × Nat × Nat) (matrix : Matrix) : Prop :=
  matrix.buffer = (part.1.exact 0).buffer ∧ part.2.1 * 4 ≤ matrix.rowBytes ∧
    matrix.offset + part.2.2 * matrix.rowBytes ≤ part.1.length

/-- The product of Metal. Of matrices that lie in their buffers, with a result that overlaps
neither itself nor a factor, each element of the result is written; nothing else ever is. -/
structure Multiplies (combine : List (F × F) → F → F) : Prop where
  written : ∀ left right result memory, Holds request.partB left → Holds request.partA right →
    Holds request.partC result →
    (∀ i < request.m.toNat, ∀ j < request.n.toNat,
      request.ApartFrom left right (result.place j i)) →
    ∀ i < request.m.toNat, ∀ j < request.n.toNat,
      multiply request left right result memory (result.place j i) =
        request.product memory combine left right result i j
  kept : ∀ left right result memory place,
    (∀ i < request.m.toNat, ∀ j < request.n.toNat, Apart (result.place j i) place) →
    multiply request left right result memory place = memory place

variable {multiply} (combine : List (F × F) → F → F)

/-- The rows of the columns lie in the buffer, for every batch. -/
def InBounds (part : Operand × Nat × Nat) : Prop :=
  ∀ batch < request.batchCount.toNat, ∀ row < part.2.1, ∀ column < part.2.2,
    ((part.1.exact batch).place column row).2 + 4 ≤ part.1.length

/-- What is submitted is in bounds, and after a success the products of all batches stand in
`C`. -/
def Correct (multiply : Request → Matrix → Matrix → Matrix → Memory F → Memory F) : Prop :=
  (request.refusal answers = none → ∀ part ∈ request.operands, request.InBounds part) ∧
  ((request.gemmStridedBatchedF32 answers memory multiply).1 = .success →
    request.Each fun batch i j =>
      (request.gemmStridedBatchedF32 answers memory multiply).2
          ((request.c.exact batch).place j i) =
        request.product memory combine (request.b.exact batch) (request.a.exact batch)
          (request.c.exact batch) i j)

/-- Rows do not overlap, and the span does not wrap around. -/
def Fits (part : Operand × Nat × Nat) : Prop :=
  part.2.1 ≤ part.1.ld.toNat ∧ request.span part < 2 ^ 64

/-- Elements of `C` of two batches are apart, or they are one place that gets the same number from
both: `beta` is 0, so that what stood there does not count, and the factors are equal. -/
def Agree (batch i j other i' j' : Nat) : Prop :=
  let (place, place') := ((request.c.exact batch).place j i, (request.c.exact other).place j' i')
  Apart place place' ∨
    place = place' ∧ (∀ terms old old', combine terms old = combine terms old') ∧
      request.factors memory (request.b.exact batch) (request.a.exact batch) i j =
        request.factors memory (request.b.exact other) (request.a.exact other) i' j'

/-- The elements of `C` agree with those of other batches, and are apart from the factors of
all. -/
def Disjoint : Prop :=
  request.Each fun batch i j => ∀ other < request.batchCount.toNat,
    (other ≠ batch → ∀ i' < request.m.toNat, ∀ j' < request.n.toNat,
      request.Agree memory combine batch i j other i' j') ∧
    request.ApartFrom (request.b.exact other) (request.a.exact other)
      ((request.c.exact batch).place j i)

/-- What keeps a call correct: no sum is empty, unless `C` stays the same anyway, and what is
submitted fits. -/
def Sound : Prop :=
  (request.k = 0 → request.Each fun batch i j =>
    combine [] (memory ((request.c.exact batch).place j i)) =
      memory ((request.c.exact batch).place j i)) ∧
  (request.refusal answers = none →
    request.Disjoint memory combine ∧ ∀ part ∈ request.operands, request.Fits part)

variable {request answers memory combine} {part : Operand × Nat × Nat} {batch : Nat}

theorem offset_le (fits : request.Fits part) (checked : request.checked part = true)
    (inside : batch < request.batchCount.toNat) :
    part.1.offset + batch * part.1.stride + part.1.ld.toNat * part.2.2 * 4 ≤ part.1.length := by
  obtain ⟨-, small⟩ := fits
  simp only [Request.checked, Nat.mod_eq_of_lt small, Bool.and_eq_true, decide_eq_true_eq] at checked
  have earlier : batch * part.1.stride ≤ (request.batchCount.toNat - 1) * part.1.stride :=
    Nat.mul_le_mul_right _ (by omega)
  unfold span at checked
  omega

theorem matrix_eq (fits : request.Fits part) (checked : request.checked part = true)
    (inside : batch < request.batchCount.toNat) : part.1.matrix batch = part.1.exact batch := by
  have bound := offset_le fits checked inside
  have small : part.1.length < 2 ^ 64 := by
    unfold Operand.length
    cases part.1.buffer with
    | none => decide
    | some buffer => exact buffer.2.isLt
  rw [Operand.matrix, Nat.mod_eq_of_lt (by omega)]
  rfl

theorem inBounds (fits : request.Fits part) (checked : request.checked part = true) :
    request.InBounds part := by
  intro batch inside row less column within
  have bound := offset_le fits checked inside
  have columns : (column + 1) * part.1.ld.toNat ≤ part.2.2 * part.1.ld.toNat :=
    Nat.mul_le_mul_right _ within
  have rows := fits.1
  rw [mul_comm part.1.ld.toNat] at bound
  rw [Nat.add_mul, Nat.one_mul] at columns
  simp only [Operand.exact, Matrix.place, ← mul_assoc]
  omega

theorem holds_exact (fits : request.Fits part) (checked : request.checked part = true)
    (inside : batch < request.batchCount.toNat) : Holds part (part.1.exact batch) := by
  refine ⟨rfl, Nat.mul_le_mul_right 4 fits.1, ?_⟩
  have bound := offset_le fits checked inside
  rw [mul_comm part.1.ld.toNat, mul_assoc] at bound
  exact bound

/-- Factors that no write reaches stay as they were. -/
theorem factors_congr {left right : Matrix} {other : Memory F} {i j : Nat}
    (kept : ∀ place, (∀ l < request.k.toNat, place = request.right right i l ∨
      place = request.left left l j → other place = memory place)) :
    request.factors other left right i j = request.factors memory left right i j := by
  apply map_congr_left
  intro l member
  have less := mem_range.mp member
  rw [kept _ l less (.inl rfl), kept _ l less (.inr rfl)]

/-- After some batches their products stand in `C`, and what is apart from them is as it was. -/
theorem fold_batches (mps : request.Multiplies multiply combine)
    (disjoint : request.Disjoint memory combine)
    (held : ∀ batch < request.batchCount.toNat, Holds request.partA (request.a.exact batch) ∧
      Holds request.partB (request.b.exact batch) ∧ Holds request.partC (request.c.exact batch))
    (count : Nat) (few : count ≤ request.batchCount.toNat) :
    let result := (range count).foldl (fun memory batch =>
      multiply request (request.b.exact batch) (request.a.exact batch) (request.c.exact batch)
        memory) memory
    (∀ batch < count, ∀ i < request.m.toNat, ∀ j < request.n.toNat,
      result ((request.c.exact batch).place j i) =
        request.product memory combine (request.b.exact batch) (request.a.exact batch)
          (request.c.exact batch) i j) ∧
    ∀ place, (∀ batch < count, ∀ i < request.m.toNat, ∀ j < request.n.toNat,
      Apart ((request.c.exact batch).place j i) place) → result place = memory place := by
  induction count with
  | zero => exact ⟨nofun, fun _ _ => rfl⟩
  | succ count ih =>
    obtain ⟨written, kept⟩ := ih (Nat.le_of_succ_le few)
    simp only [range_succ, foldl_append, foldl_cons, foldl_nil]
    generalize foldl _ memory (range count) = result at written kept ⊢
    have fresh : ∀ i < request.m.toNat, ∀ j < request.n.toNat,
        multiply request (request.b.exact count) (request.a.exact count) (request.c.exact count)
            result ((request.c.exact count).place j i) =
          request.product memory combine (request.b.exact count) (request.a.exact count)
            (request.c.exact count) i j := by
      intro i hi j hj
      obtain ⟨inA, inB, inC⟩ := held count few
      have earlier := fun other (less : other < count) i' hi' j' hj' =>
        disjoint other (by omega) i' hi' j' hj' count few
      rw [mps.written _ _ _ _ inB inA inC
        (fun i hi j hj => (disjoint count few i hi j hj count few).2) i hi j hj, product, product,
        factors_congr fun place l less factor => kept place fun other less' i' hi' j' hj' => by
          have apart := (earlier other less' i' hi' j' hj').2 l less
          rcases factor with rfl | rfl
          · exact apart.1 i hi
          · exact apart.2 j hj]
      by_cases untouched : ∀ other < count, ∀ i' < request.m.toNat, ∀ j' < request.n.toNat,
          Apart ((request.c.exact other).place j' i') ((request.c.exact count).place j i)
      · rw [kept _ untouched]
      · push Not at untouched
        obtain ⟨other, less, i', hi', j', hj', touched⟩ := untouched
        obtain apart | ⟨-, overwrites, -⟩ :=
          (earlier other less i' hi' j' hj').1 (by omega) i hi j hj
        · exact absurd apart touched
        · exact overwrites _ _ _
    constructor
    · intro batch inside i hi j hj
      obtain earlier | rfl := Nat.lt_succ_iff_lt_or_eq.mp inside
      · by_cases untouched : ∀ i' < request.m.toNat, ∀ j' < request.n.toNat,
            Apart ((request.c.exact count).place j' i') ((request.c.exact batch).place j i)
        · rw [mps.kept _ _ _ _ _ untouched, written batch earlier i hi j hj]
        · push Not at untouched
          obtain ⟨i', hi', j', hj', touched⟩ := untouched
          obtain apart | ⟨same, overwrites, factors⟩ :=
            (disjoint count few i' hi' j' hj' batch (by omega)).1 (by omega) i hi j hj
          · exact absurd apart touched
          · rw [← same, fresh i' hi' j' hj', product, product, factors]
            exact overwrites _ _ _
      · exact fresh i hi j hj
    · intro place apart
      rw [mps.kept _ _ _ _ _ (apart count (Nat.lt_succ_self _)),
        kept place fun batch inside => apart batch (Nat.lt_succ_of_lt inside)]

theorem checked_of_submits (submits : request.refusal answers = none) :
    ∀ part ∈ request.operands, request.checked part = true := by
  unfold refusal at submits
  split_ifs at submits with _ _ _ _ _ checks
  exact checks

theorem degenerate_of_returns (returns : request.refusal answers = some .success) :
    request.batchCount = 0 ∨ request.m = 0 ∨ request.n = 0 ∨ request.k = 0 := by
  unfold refusal at returns
  split_ifs at returns <;> simp_all

/-- A product of numbers with `alpha` 1 and `beta` 0. -/
def sum (terms : List (Nat × Nat)) (_ : Nat) : Nat := (terms.map fun term => term.1 * term.2).sum

/-- The elements of a result one by one, from what stood in memory before. -/
def multiplied (request : Request) (left right result : Matrix) (memory : Memory Nat)
    (place : Nat × Nat) : Nat :=
  match ((range request.m.toNat).product (range request.n.toNat)).find?
      fun element => place = result.place element.2 element.1 with
  | some (i, j) => request.product memory sum left right result i j
  | none => memory place

theorem place_inj {matrix : Matrix} {rowLength row row' column column' : Nat}
    (wide : rowLength * 4 ≤ matrix.rowBytes) (less : column < rowLength) (less' : column' < rowLength)
    (same : matrix.place row column = matrix.place row' column') : row = row' ∧ column = column' := by
  have sums : row * matrix.rowBytes + column * 4 = row' * matrix.rowBytes + column' * 4 := by
    have := (Prod.mk.inj same).2
    omega
  have rows : row = row' := by
    have quotients := congrArg (· / matrix.rowBytes) sums
    simp only [Nat.add_comm (_ * matrix.rowBytes)] at quotients
    rwa [Nat.add_mul_div_right _ _ (by omega), Nat.add_mul_div_right _ _ (by omega),
      Nat.div_eq_of_lt (by omega), Nat.div_eq_of_lt (by omega), Nat.zero_add, Nat.zero_add]
      at quotients
  subst rows
  exact ⟨rfl, by omega⟩

theorem multiplies_multiplied (request : Request) : request.Multiplies multiplied sum where
  written left right result memory _ _ inC _ i hi j hj := by
    have found : ((range request.m.toNat).product (range request.n.toNat)).find?
        (fun element => result.place j i = result.place element.2 element.1) = some (i, j) := by
      cases found : ((range request.m.toNat).product (range request.n.toNat)).find?
          (fun element => result.place j i = result.place element.2 element.1) with
      | none =>
        have missing := find?_eq_none.mp found (i, j)
          (List.pair_mem_product.mpr ⟨mem_range.mpr hi, mem_range.mpr hj⟩)
        simp at missing
      | some element =>
        have listed := List.pair_mem_product.mp (mem_of_find?_eq_some found)
        obtain ⟨rows, columns⟩ := place_inj inC.2.1 hi (mem_range.mp listed.1)
          (by simpa using find?_some found)
        rw [rows, columns]
    simp only [multiplied, found]
  kept left right result memory place apart := by
    unfold multiplied
    split
    · rename_i i j found
      have listed := List.pair_mem_product.mp (mem_of_find?_eq_some found)
      have same : place = result.place j i := by simpa using find?_some found
      have self := apart i (mem_range.mp listed.1) j (mem_range.mp listed.2) (by rw [same])
      rw [same] at self
      omega
    · rfl

/-- Two products of matrices of two rows and two columns, one batch after the other. -/
def pair : Request :=
  ⟨true, false, 2, 2, 2, 2, ⟨some (0, 32), 0, 2, 16⟩, ⟨some (1, 32), 0, 2, 16⟩,
    ⟨some (2, 32), 0, 2, 16⟩⟩

def ready : Answers := ⟨true, true, .success, true, true, .success⟩

/-- One product of numbers with `k` terms. -/
def single (k : Int) : Request :=
  ⟨false, false, 1, 1, k, 1, ⟨some (0, 4), 0, 1, 0⟩, ⟨some (1, 4), 0, 1, 0⟩, ⟨some (2, 4), 0, 1, 0⟩⟩

end Request

end CuMetal.Runtime.Gemm
