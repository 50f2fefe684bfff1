import Mathlib.LinearAlgebra.Matrix.Block
import Mathlib.LinearAlgebra.Matrix.Nondegenerate

/-!
# The sparse triangular solve

`cusparseSpSV_solve` of `runtime/rt/cusparse.cpp` over exact arithmetic, and when the system that
its loop solves is the one that was asked for.
-/

namespace CuMetal.Sparse

open Function List Matrix

/-- `cusparseFormat_t`. -/
inductive SpMatFormat
  | csr
  | csc
  | coo
  deriving DecidableEq

inductive DataType
  | r32f
  | r64f
  | other
  deriving DecidableEq

inductive FillMode
  | lower
  | upper
  deriving DecidableEq

inductive DiagType
  | nonUnit
  | unit
  deriving DecidableEq

inductive Operation
  | nonTranspose
  | transpose
  | conjugateTranspose
  deriving DecidableEq

/-- `cusparseStatus_t`. -/
inductive Status
  | success
  | invalidValue
  | notSupported
  | matrixTypeNotSupported
  | zeroPivot
  deriving DecidableEq

/-- A matrix descriptor: the entries of a row stand from its offset to the next one, and their
columns exist. -/
structure SpMat (K : Type) where
  rows : Nat
  cols : Nat
  rowOffsets : Nat → Nat
  colInd : Nat → Nat
  values : Nat → K
  base : Nat
  valueType : DataType
  format : SpMatFormat
  fill : FillMode
  diag : DiagType
  based : ∀ i ≤ rows, base ≤ rowOffsets i
  columns : ∀ i < rows, ∀ j, rowOffsets i - base ≤ j → j < rowOffsets (i + 1) - base →
    base ≤ colInd j ∧ colInd j - base < cols

variable {K : Type}

/-- The columns and the values of a row, in the order of the arrays. -/
def SpMat.entries (A : SpMat K) (i : Nat) : List (Nat × K) :=
  let first := A.rowOffsets i - A.base
  (List.range' first (A.rowOffsets (i + 1) - A.base - first)).map fun j =>
    (A.colInd j - A.base, A.values j)

variable [Field K]

/-- The loop over a row takes this column as one that is solved already. -/
def solved (forward : Bool) (i c : Nat) : Bool :=
  (forward && decide (c < i)) || (!forward && decide (i < c))

/-- One entry of row `i` (`1750-1756`): the right-hand side and the pivot after it. -/
def rowStep (forward : Bool) (diag : DiagType) (i : Nat) (y : Nat → K) :
    K × K → Nat × K → K × K
  | (rhs, pivot), (c, value) =>
    if c = i ∧ diag ≠ .unit then (rhs, value)
    else if solved forward i c then (rhs - value * y c, pivot)
    else (rhs, pivot)

/-- The loop over the rows (`1743-1759`); `x` is `none` if it is the vector `y` itself. -/
def solveRows [DecidableEq K] (A : SpMat K) (forward : Bool) (alpha : K) (x : Option (Nat → K)) :
    List Nat → (Nat → K) → Status × (Nat → K)
  | [], y => (.success, y)
  | i :: rest, y =>
    let (rhs, pivot) := (A.entries i).foldl (rowStep forward A.diag i y)
      (alpha * x.getD y i, if A.diag = .unit then 1 else 0)
    if pivot = 0 then (.zeroPivot, y)
    else solveRows A forward alpha x rest (Function.update y i (rhs / pivot))

/-- The rows in the order in which the loop takes them. -/
def rowOrder (forward : Bool) (n : Nat) : List Nat :=
  (List.range n).map fun step => if forward then step else n - 1 - step

/-- The arguments but for `alpha` and the vectors' contents; `operation` is `none` for a value that
`valid_operation` refuses. -/
structure Request (K : Type) where
  pointers : Bool
  operation : Option Operation
  matrix : SpMat K
  sizeX : Nat
  sizeY : Nat
  typeX : DataType
  typeY : DataType
  computeType : DataType

/-- Lower triangles are solved from the top, and their transposes from the bottom. -/
def goesForward (fill : FillMode) (operation : Operation) : Bool :=
  decide (fill = .lower) == decide (operation = .nonTranspose)

/-- `cusparseSpSV_solve` (`1710-1787`); `alpha` is what `scalar_pointer_for_mode` finds. -/
def cusparseSpSVSolve [DecidableEq K] (request : Request K) (alpha : Option K) (x : Option (Nat → K))
    (y : Nat → K) : Status × (Nat → K) :=
  let A := request.matrix
  if request.pointers = false then (.invalidValue, y)
  else if A.format ≠ .csr then (.matrixTypeNotSupported, y)
  else if request.computeType ≠ .r32f ∧ request.computeType ≠ .r64f then
    (.matrixTypeNotSupported, y)
  else if ¬ (A.valueType = request.computeType ∧ request.typeX = request.computeType ∧
      request.typeY = request.computeType) then (.notSupported, y)
  else
    match request.operation with
    | none => (.invalidValue, y)
    | some operation =>
      if A.rows ≠ A.cols ∨ request.sizeX ≠ A.rows ∨ request.sizeY ≠ A.rows then (.invalidValue, y)
      else
        match alpha with
        | none => (.invalidValue, y)
        | some alpha =>
          let forward := goesForward A.fill operation
          solveRows A forward alpha x (rowOrder forward A.rows) y

/-- The arguments fit: a square matrix by rows, vectors of its size and one type for all. -/
structure Request.Accepted (request : Request K) (operation : Operation) : Prop where
  pointers : request.pointers = true
  format : request.matrix.format = .csr
  compute : request.computeType = .r32f ∨ request.computeType = .r64f
  types : request.matrix.valueType = request.computeType ∧
    request.typeX = request.computeType ∧ request.typeY = request.computeType
  operation : request.operation = some operation
  sizes : request.matrix.rows = request.matrix.cols ∧ request.sizeX = request.matrix.rows ∧
    request.sizeY = request.matrix.rows

/-! ## The system that is asked for and the one that is solved -/

namespace SpMat

/-- The matrix that the arrays describe; repeated entries add up. -/
def valueAt (A : SpMat K) (i c : Nat) : K :=
  ((A.entries i).map fun entry => if entry.1 = c then entry.2 else 0).sum

/-- The triangle on the side of the fill mode. -/
def triangle (A : SpMat K) : Matrix (Fin A.rows) (Fin A.rows) K :=
  .of fun i c =>
    if i = c then if A.diag = .unit then 1 else A.valueAt i i
    else if solved (A.fill = .lower) i c then A.valueAt i c
    else 0

/-- `op(T)`; the entries are real. -/
def system (A : SpMat K) : Operation → Matrix (Fin A.rows) (Fin A.rows) K
  | .nonTranspose => A.triangle
  | .transpose | .conjugateTranspose => A.triangle.transpose

/-- The diagonal entry that the loop divides by: the last one of the row. -/
def pivot (A : SpMat K) (i : Nat) : K :=
  if A.diag = .unit then 1
  else (((A.entries i).filter fun entry => entry.1 = i).getLast?.map Prod.snd).getD 0

/-- The rows of the matrix as the loop walks them. -/
def walked (A : SpMat K) (forward : Bool) : Matrix (Fin A.rows) (Fin A.rows) K :=
  .of fun i c => if i = c then A.pivot i else if solved forward i c then A.valueAt i c else 0

/-- What row `i` takes from the columns that are solved already. -/
def taken (A : SpMat K) (forward : Bool) (i : Nat) (y : Nat → K) : K :=
  ((A.entries i).map fun entry => if solved forward i entry.1 then entry.2 * y entry.1 else 0).sum

end SpMat

theorem solved_self (forward : Bool) (i : Nat) : solved forward i i = false := by
  cases forward <;> simp [solved]

variable {A : SpMat K} {forward : Bool}

theorem foldl_rowStep (diag : DiagType) (i : Nat) (y : Nat → K) (entries : List (Nat × K))
    (rhs last : K) :
    entries.foldl (rowStep forward diag i y) (rhs, last) =
      (rhs - (entries.map fun entry =>
          if solved forward i entry.1 then entry.2 * y entry.1 else 0).sum,
        if diag = .unit then last
        else ((entries.filter fun entry => entry.1 = i).getLast?.map Prod.snd).getD last) := by
  induction entries generalizing rhs last with
  | nil => simp
  | cons entry entries ih =>
    obtain ⟨c, value⟩ := entry
    rw [foldl_cons, rowStep, map_cons, sum_cons]
    dsimp only
    by_cases here : c = i
    · subst here
      rw [solved_self, if_neg Bool.false_ne_true, if_neg Bool.false_ne_true, zero_add]
      by_cases unit : diag = .unit
      · rw [if_neg (fun both => both.2 unit), ih, if_pos unit, if_pos unit]
      · rw [if_pos ⟨rfl, unit⟩, ih, if_neg unit, if_neg unit,
          filter_cons_of_pos (by simp), getLast?_cons]
        cases (entries.filter fun entry => entry.1 = c).getLast? <;> rfl
    · rw [if_neg (fun both => here both.1), filter_cons_of_neg (by simpa using here)]
      split
      · rw [ih, sub_sub]
      · rw [ih, zero_add]

theorem pivot_eq (A : SpMat K) (i : Nat) :
    (if A.diag = .unit then (if A.diag = .unit then (1 : K) else 0)
      else (((A.entries i).filter fun entry => entry.1 = i).getLast?.map Prod.snd).getD
        (if A.diag = .unit then 1 else 0)) = A.pivot i := by
  unfold SpMat.pivot
  split <;> rfl

/-- Only rows that are taken before `i` are read by it. -/
theorem taken_congr {i : Nat} {y z : Nat → K} (same : ∀ c, solved forward i c → y c = z c) :
    A.taken forward i y = A.taken forward i z := by
  unfold SpMat.taken
  congr 1
  refine map_congr_left fun entry _ => ?_
  split
  next reads => rw [same entry.1 reads]
  next => rfl

theorem mem_rowOrder {n i : Nat} : i ∈ rowOrder forward n ↔ i < n := by
  rw [rowOrder, mem_map]
  constructor
  · rintro ⟨step, mem, rfl⟩
    have := mem_range.mp mem
    split <;> omega
  · intro small
    refine ⟨if forward then i else n - 1 - i, mem_range.mpr ?_, ?_⟩
    · split <;> omega
    · split <;> omega

theorem rowOrder_ordered (forward : Bool) (n : Nat) :
    (rowOrder forward n).Pairwise fun i j => solved forward j i := by
  refine pairwise_map.mpr (pairwise_lt_range.imp_of_mem ?_)
  intro i j _ small less
  have := mem_range.mp small
  cases forward <;> simp [solved] <;> omega

/-! ## The equations of the rows as one of matrices -/

theorem sum_entries {n : Nat} (reads : Nat → Bool) (y : Nat → K) (entries : List (Nat × K))
    (inside : ∀ entry ∈ entries, entry.1 < n) :
    ∑ c : Fin n, (if reads c then (entries.map fun entry =>
        if entry.1 = (c : Nat) then entry.2 else 0).sum else 0) * y c =
      (entries.map fun entry => if reads entry.1 then entry.2 * y entry.1 else 0).sum := by
  induction entries with
  | nil => simp
  | cons entry entries ih =>
    obtain ⟨here, inside⟩ := forall_mem_cons.mp inside
    rw [map_cons, sum_cons, ← ih inside]
    have one : ∑ c : Fin n, (if reads c then if entry.1 = (c : Nat) then entry.2 else 0 else 0) * y c =
        if reads entry.1 then entry.2 * y entry.1 else 0 := by
      rw [Finset.sum_eq_single ⟨entry.1, here⟩]
      · simp
      · intro c _ other
        have : entry.1 ≠ c := fun same => other (Fin.ext same.symm)
        simp [this]
      · exact fun none => absurd (Finset.mem_univ _) none
    rw [← one, ← Finset.sum_add_distrib]
    refine Finset.sum_congr rfl fun c _ => ?_
    rw [map_cons, sum_cons]
    split <;> ring

theorem walked_mulVec (square : A.rows = A.cols) (y : Nat → K) (i : Fin A.rows) :
    (A.walked forward).mulVec (fun c => y c) i = A.pivot i * y i + A.taken forward i y := by
  have inside : ∀ entry ∈ A.entries i, entry.1 < A.rows := by
    intro entry mem
    obtain ⟨j, at_, rfl⟩ := mem_map.mp mem
    obtain ⟨low, high⟩ := mem_range'_1.mp at_
    exact square ▸ (A.columns i i.isLt j low (by omega)).2
  rw [SpMat.taken, ← sum_entries _ y _ inside, mulVec, dotProduct,
    ← Finset.add_sum_erase _ _ (Finset.mem_univ i), ← Finset.add_sum_erase _ _ (Finset.mem_univ i),
    solved_self, if_neg Bool.false_ne_true, zero_mul, zero_add]
  congr 1
  · rw [SpMat.walked, of_apply, if_pos rfl]
  · refine Finset.sum_congr rfl fun c mem => ?_
    rw [SpMat.walked, of_apply, if_neg (Finset.ne_of_mem_erase mem).symm]
    rfl

theorem det_walked (A : SpMat K) (forward : Bool) :
    (A.walked forward).det = ∏ i : Fin A.rows, A.pivot i := by
  have diagonal : ∀ i, A.walked forward i i = A.pivot i := fun i => if_pos rfl
  simp only [← diagonal]
  have zero : ∀ i c : Fin A.rows, i ≠ c → solved forward i c = false → A.walked forward i c = 0 := by
    intro i c other unread
    rw [SpMat.walked, Matrix.of_apply, if_neg other, unread, if_neg Bool.false_ne_true]
  cases forward with
  | true =>
    refine det_of_isLowerTriangular _ fun i c less => zero i c ?_ ?_
    · exact (ne_of_lt (OrderDual.toDual_lt_toDual.mp less))
    · have : i < c := OrderDual.toDual_lt_toDual.mp less
      simp [solved, this.le]
  | false =>
    refine det_of_isUpperTriangular fun i c less => zero i c (ne_of_gt less) ?_
    have : c < i := less
    simp [solved, this.le]

theorem det_system (A : SpMat K) (operation : Operation) :
    (A.system operation).det = A.triangle.det := by
  cases operation with
  | nonTranspose => rfl
  | transpose => exact det_transpose _
  | conjugateTranspose => exact det_transpose _

/-! ## What the call leaves -/

variable [DecidableEq K] {request : Request K} {operation : Operation}

theorem cusparseSpSVSolve_eq {request : Request K} {operation : Operation}
    (accepted : request.Accepted operation) (alpha : K) (x : Option (Nat → K)) (y : Nat → K) :
    cusparseSpSVSolve request (some alpha) x y =
      solveRows request.matrix (goesForward request.matrix.fill operation) alpha x
        (rowOrder (goesForward request.matrix.fill operation) request.matrix.rows) y := by
  obtain ⟨pointers, format, compute, types, named, sizes⟩ := accepted
  have computes : ¬ (request.computeType ≠ .r32f ∧ request.computeType ≠ .r64f) := by tauto
  rw [cusparseSpSVSolve, if_neg (by simp [pointers]), if_neg (not_not.mpr format), if_neg computes,
    if_neg (not_not.mpr types), named]
  exact if_neg (by tauto)

theorem solveRows_cons (alpha : K) (x : Option (Nat → K)) (i : Nat) (rest : List Nat)
    (y : Nat → K) :
    solveRows A forward alpha x (i :: rest) y =
      if A.pivot i = 0 then (.zeroPivot, y)
      else solveRows A forward alpha x rest (Function.update y i
        ((alpha * x.getD y i - A.taken forward i y) / A.pivot i)) := by
  rw [solveRows, foldl_rowStep]
  simp only [pivot_eq]
  rfl

theorem solveRows_solves {alpha : K} {x : Option (Nat → K)} {rows : List Nat}
    (ordered : rows.Pairwise fun i j => solved forward j i) (nonzero : ∀ i ∈ rows, A.pivot i ≠ 0)
    (y : Nat → K) :
    ∃ out, solveRows A forward alpha x rows y = (.success, out) ∧ (∀ c ∉ rows, out c = y c) ∧
      ∀ i ∈ rows, A.pivot i * out i + A.taken forward i out = alpha * x.getD y i := by
  induction rows generalizing y with
  | nil => exact ⟨y, rfl, fun _ _ => rfl, fun i mem => nomatch mem⟩
  | cons i rest ih =>
    obtain ⟨later, ordered⟩ := pairwise_cons.mp ordered
    obtain ⟨here, nonzero⟩ := forall_mem_cons.mp nonzero
    obtain ⟨out, ran, kept, rows⟩ := ih ordered nonzero (update y i
      ((alpha * x.getD y i - A.taken forward i y) / A.pivot i))
    have irreflexive : ∀ j ∈ rest, j ≠ i := by
      rintro j mem rfl
      exact absurd (later j mem) (by simp [solved_self])
    have fresh : i ∉ rest := fun mem => irreflexive i mem rfl
    refine ⟨out, by rw [solveRows_cons, if_neg here, ran], fun c other => ?_, fun j mem => ?_⟩
    · obtain ⟨notHere, other⟩ := not_or.mp (mt mem_cons.mpr other)
      rw [kept c other, update_of_ne notHere]
    · rcases mem_cons.mp mem with rfl | mem
      · have read : A.taken forward j out = A.taken forward j y := taken_congr fun c reads => by
          have away : c ∉ rest := by
            intro mem
            have := later c mem
            cases forward <;> simp [solved] at reads this <;> omega
          rw [kept c away, update_of_ne]
          rintro rfl
          rw [solved_self] at reads
          cases reads
        rw [read, kept j fresh, update_self, mul_div_cancel₀ _ here, sub_add_cancel]
      · rw [rows j mem]
        cases x with
        | none => rw [Option.getD_none, Option.getD_none, update_of_ne (irreflexive j mem)]
        | some x => rfl

theorem solveRows_zeroPivot {alpha : K} {x : Option (Nat → K)} {rows : List Nat}
    (zero : ∃ i ∈ rows, A.pivot i = 0) (y : Nat → K) :
    (solveRows A forward alpha x rows y).1 = .zeroPivot := by
  induction rows generalizing y with
  | nil => exact absurd zero (by simp)
  | cons i rest ih =>
    rw [solveRows_cons]
    split
    next => rfl
    next nonzero =>
      obtain ⟨j, mem, zero⟩ := zero
      rcases mem_cons.mp mem with rfl | mem
      · exact absurd zero nonzero
      · exact ih ⟨j, mem, zero⟩ _

/-- With nonzero pivots the call solves the system of the walked rows, and else it reports one. -/
theorem cusparseSpSVSolve_spec (accepted : request.Accepted operation) (alpha : K)
    (x : Option (Nat → K)) (y : Nat → K) :
    ((∀ i : Fin request.matrix.rows, request.matrix.pivot i ≠ 0) →
      ∃ out, cusparseSpSVSolve request (some alpha) x y = (.success, out) ∧
        (request.matrix.walked (goesForward request.matrix.fill operation)).mulVec
          (fun i => out i) = fun i : Fin _ => alpha * x.getD y i) ∧
    ((∃ i : Fin request.matrix.rows, request.matrix.pivot i = 0) →
      (cusparseSpSVSolve request (some alpha) x y).1 = .zeroPivot) := by
  rw [cusparseSpSVSolve_eq accepted]
  constructor
  · intro nonzero
    obtain ⟨out, ran, -, rows⟩ := solveRows_solves
      (rowOrder_ordered _ _) (fun i mem => nonzero ⟨i, mem_rowOrder.mp mem⟩) y
    refine ⟨out, ran, funext fun i => ?_⟩
    rw [walked_mulVec accepted.sizes.1, rows i (mem_rowOrder.mpr i.isLt)]
  · rintro ⟨i, zero⟩
    exact solveRows_zeroPivot ⟨i, mem_rowOrder.mpr i.isLt, zero⟩ y

/-- For all scalars and vectors, also when they are one vector: a regular triangle gives a solution
of the system, and a zero on its diagonal a zero pivot. -/
def Request.Solves (request : Request K) (operation : Operation) : Prop :=
  ∀ (alpha : K) (x : Option (Nat → K)) (y : Nat → K),
    (request.matrix.triangle.det ≠ 0 →
      ∃ out, cusparseSpSVSolve request (some alpha) x y = (.success, out) ∧
        (request.matrix.system operation).mulVec (fun i => out i) =
          fun i : Fin _ => alpha * x.getD y i) ∧
    ((∃ i, request.matrix.triangle i i = 0) →
      (cusparseSpSVSolve request (some alpha) x y).1 = .zeroPivot)

/-- The walked rows are those of the system: for the transpose, the entries on the other side of
the diagonal mirror those of the triangle, and no row repeats its diagonal entry to another sum. -/
def Request.WalksSystem (request : Request K) (operation : Operation) : Prop :=
  (request.matrix.triangle.det ≠ 0 →
    request.matrix.walked (goesForward request.matrix.fill operation) =
      request.matrix.system operation) ∧
  ((∃ i, request.matrix.triangle i i = 0) →
    ∃ i : Fin request.matrix.rows, request.matrix.pivot i = 0)

/-- Whatever the vector, some right-hand side has it as the solution of the walked rows. -/
theorem walked_eq_system (accepted : request.Accepted operation)
    (solves : request.Solves operation) (regular : request.matrix.triangle.det ≠ 0)
    (nonzero : ∀ i : Fin request.matrix.rows, request.matrix.pivot i ≠ 0) :
    request.matrix.walked (goesForward request.matrix.fill operation) =
      request.matrix.system operation := by
  refine mulVec_injective (funext fun v => ?_)
  let image := (request.matrix.walked (goesForward request.matrix.fill operation)).mulVec v
  let x : Nat → K := fun i => if small : i < request.matrix.rows then image ⟨i, small⟩ else 0
  have rhs : (fun i : Fin request.matrix.rows => 1 * (some x).getD 0 (i : Nat)) = image := by
    funext i
    simp [x]
  obtain ⟨out, ran, walks⟩ := (cusparseSpSVSolve_spec accepted 1 (some x) 0).1 nonzero
  obtain ⟨other, same, holds⟩ := (solves 1 (some x) 0).1 regular
  obtain rfl : out = other := by simpa [ran] using same
  rw [rhs] at walks holds
  have regular : (request.matrix.walked (goesForward request.matrix.fill operation)).det ≠ 0 := by
    rw [det_walked]
    exact Finset.prod_ne_zero_iff.mpr fun i _ => nonzero i
  rw [mulVec_injective_of_det_ne_zero regular walks] at holds
  exact holds.symm

/-- The rows `1 0` and `1 1`. -/
def lowerPair (operation : Operation) : Request ℚ where
  pointers := true
  operation := some operation
  matrix :=
    { rows := 2, cols := 2, rowOffsets := fun i => [0, 1].getD i 3, colInd := fun j => j / 2,
      values := fun _ => 1, base := 0, valueType := .r64f, format := .csr, fill := .lower,
      diag := .nonUnit, based := fun _ _ => Nat.zero_le _, columns := by
        intro i small j _ last
        have : [0, 1].getD (i + 1) 3 ≤ 3 := by
          obtain rfl | rfl : i = 0 ∨ i = 1 := by omega
          · decide
          · decide
        exact ⟨Nat.zero_le _, by omega⟩ }
  sizeX := 2
  sizeY := 2
  typeX := .r64f
  typeY := .r64f
  computeType := .r64f

end CuMetal.Sparse
