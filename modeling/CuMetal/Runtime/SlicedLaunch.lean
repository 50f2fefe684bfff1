import CuMetal.Lib.Tiling
import CuMetal.Runtime.StreamCalls

/-!
# Launches in slices

`launch_kernel` (`runtime/metal_backend/metal_backend.mm:2758-2880`) divides the grid of a kernel
that adds a block offset into slices along y, each with a launch of its own.
-/

namespace CuMetal.Runtime.Sliced

open List

open CuMetal.Runtime.Stream (Dim3)

/-- What the hidden buffers of a kernel say that it needs (`2823-2826`). -/
structure Kernel where
  needsGridBarrier : Bool
  needsGridYOffset : Bool

/-- The extents of a grid. -/
structure LaunchConfig where
  grid : Dim3
  block : Dim3
  gridYOffset : BitVec 32
  disableBatching : Bool

/-- A dispatch, with the barrier that its launch allocated. -/
structure Dispatch where
  grid : Dim3
  gridYOffset : BitVec 32
  gridBarrier : Option Nat

/-- A threadgroup by what it sees: `%ctaid` and `%nctaid` (`lower_to_llvm.cpp:2674-2697`), and the
counters where it meets others (`lower_to_llvm.cpp:5110-5205`). -/
structure Threadgroup where
  ctaid : Dim3
  nctaid : Dim3
  gridBarrier : Option Nat
  deriving DecidableEq

/-- The threadgroups in row `y` of a dispatch. -/
def Dispatch.row (dispatch : Dispatch) (y : Nat) : List Threadgroup :=
  (List.range dispatch.grid.z.toNat).flatMap fun z =>
    (List.range dispatch.grid.x.toNat).map fun x =>
      { ctaid :=
          ⟨BitVec.ofNat 32 x, BitVec.ofNat 32 y + dispatch.gridYOffset, BitVec.ofNat 32 z⟩
        nctaid := dispatch.grid
        gridBarrier := dispatch.gridBarrier }

/-- The threadgroups of a dispatch, in no particular order: what is said of them is invariant under
permutations. -/
def Dispatch.threadgroups (dispatch : Dispatch) : List Threadgroup :=
  (List.range dispatch.grid.y.toNat).flatMap dispatch.row

/-- How a launch goes that is not divided: what it returns, and whether it came to its dispatch. -/
structure Outcome where
  status : CudaError
  dispatched : Bool
  ran : status = .success → dispatched = true

variable (kernel : Kernel) (config : LaunchConfig) (prepare : CudaError)
  (outcomes : Nat → Outcome)

/-- What the statements before the division return. The dimensions are checked (`2778-2784`);
`prepare` stands for the other checks, for loading the pipeline and for the kernel's resources. -/
def refusal : CudaError :=
  if config.grid.x = 0 ∨ config.grid.y = 0 ∨ config.grid.z = 0 ∨ config.block.x = 0 ∨
      config.block.y = 0 ∨ config.block.z = 0 then .invalidValue
  else prepare

/-- The dispatch of a launch that is not divided. The barrier is a new one for each launch. -/
def LaunchConfig.dispatch (launch : Nat) : Dispatch where
  grid := config.grid
  gridYOffset := config.gridYOffset
  gridBarrier := if kernel.needsGridBarrier then some launch else none

def launchUndivided (launch : Nat) (outcome : Outcome) : List Dispatch :=
  if outcome.dispatched then [config.dispatch kernel launch] else []

def maxChunkGridY : BitVec 32 := 16

def LaunchConfig.chunk (y : BitVec 32) : LaunchConfig :=
  { config with
    grid := { config.grid with y := min maxChunkGridY (config.grid.y - y) }
    gridYOffset := config.gridYOffset + y
    disableBatching := true }

/-- The loop over the slices (`2869-2877`): what it returns and the dispatches it has made. A slice
is low enough that its launch does not divide it again. -/
def launchSlices : Nat → BitVec 32 → Nat → Option (CudaError × List Dispatch)
  | 0, _, _ => none
  | fuel + 1, y, launch =>
    if y < config.grid.y then
      let made := launchUndivided kernel (config.chunk y) launch (outcomes launch)
      if (outcomes launch).status ≠ .success then some ((outcomes launch).status, made)
      else
        (launchSlices fuel (y + maxChunkGridY) (launch + 1)).map fun rest =>
          (rest.1, made ++ rest.2)
    else some (.success, [])

/-- The grid is divided into slices. -/
def Divided : Prop := kernel.needsGridYOffset = true ∧ maxChunkGridY < config.grid.y

instance : Decidable (Divided kernel config) := inferInstanceAs (Decidable (_ ∧ _))

/-- `launch_kernel` (`2758-2880`). -/
def launchKernel (fuel : Nat) : Option (CudaError × List Dispatch) :=
  if refusal config prepare ≠ .success then some (refusal config prepare, [])
  else if Divided kernel config then launchSlices kernel config outcomes fuel 0 0
  else some ((outcomes 0).status, launchUndivided kernel config 0 (outcomes 0))

/-- The threadgroups are those of one launch of the grid. -/
structure RunsWhole (groups : List Threadgroup) : Prop where
  blocks : (groups.map Threadgroup.ctaid).Perm
    ((config.dispatch kernel 0).threadgroups.map Threadgroup.ctaid)
  extents : ∀ group ∈ groups, group.nctaid = config.grid
  together : ∀ group ∈ groups, ∀ other ∈ groups, group.gridBarrier = other.gridBarrier

/-- The number of launches that the grid takes. -/
def launches : Nat :=
  if Divided kernel config then (config.grid.y.toNat + 15) / 16 else 1

/-- What a launch comes to: the first error, or else success. -/
structure Reports (status : CudaError) : Prop where
  refused : refusal config prepare ≠ .success → status = refusal config prepare
  failed : refusal config prepare = .success → ∀ launch < launches kernel config,
    (∀ earlier < launch, (outcomes earlier).status = .success) →
      (outcomes launch).status ≠ .success → status = (outcomes launch).status
  succeeded : refusal config prepare = .success →
    (∀ launch < launches kernel config, (outcomes launch).status = .success) → status = .success

/-- The launch ends, reports the first error, runs no threadgroup of the grid twice, and without an
error does what one launch of the whole grid does. -/
def EqualsUnsliced : Prop :=
  ∃ fuel status dispatches, launchKernel kernel config prepare outcomes fuel =
      some (status, dispatches) ∧
    Reports kernel config prepare outcomes status ∧
    ((dispatches.flatMap Dispatch.threadgroups).map Threadgroup.ctaid).Subperm
      ((config.dispatch kernel 0).threadgroups.map Threadgroup.ctaid) ∧
    (status = .success → RunsWhole kernel config (dispatches.flatMap Dispatch.threadgroups))

variable {kernel config prepare outcomes}

/-- The dispatch of slice `i`. -/
def slice (kernel : Kernel) (config : LaunchConfig) (i : Nat) : Dispatch :=
  (config.chunk (BitVec.ofNat 32 (16 * i))).dispatch kernel i

theorem launchUndivided_of_success {launch : Nat} {outcome : Outcome}
    (success : outcome.status = .success) :
    launchUndivided kernel config launch outcome = [config.dispatch kernel launch] := by
  rw [launchUndivided, if_pos (outcome.ran success)]

variable {i : Nat}

theorem toNat_start (below : 16 * i < config.grid.y.toNat) :
    (BitVec.ofNat 32 (16 * i)).toNat = 16 * i := by
  have bound := config.grid.y.isLt
  rw [BitVec.toNat_ofNat, Nat.mod_eq_of_lt (by omega)]

theorem toNat_min (a b : BitVec 32) : (min a b).toNat = min a.toNat b.toNat := by
  rcases le_total a b with le | le
  · rw [min_eq_left le, min_eq_left (BitVec.le_def.mp le)]
  · rw [min_eq_right le, min_eq_right (BitVec.le_def.mp le)]

theorem toNat_height (below : 16 * i < config.grid.y.toNat) :
    (slice kernel config i).grid.y.toNat = min 16 (config.grid.y.toNat - 16 * i) := by
  have start := toNat_start below
  have smaller : BitVec.ofNat 32 (16 * i) ≤ config.grid.y := by
    rw [BitVec.le_def, start]
    omega
  have rest : (config.grid.y - BitVec.ofNat 32 (16 * i)).toNat =
      config.grid.y.toNat - 16 * i := by
    rw [BitVec.toNat_sub_of_le smaller, start]
  simp only [slice, LaunchConfig.dispatch, LaunchConfig.chunk, ← rest]
  exact toNat_min _ _

/-- A row of a slice holds the blocks of a row of the grid. -/
theorem row_slice (i y : Nat) :
    ((slice kernel config i).row y).map Threadgroup.ctaid =
      ((config.dispatch kernel 0).row (16 * i + y)).map Threadgroup.ctaid := by
  have shifted : BitVec.ofNat 32 y + (config.gridYOffset + BitVec.ofNat 32 (16 * i)) =
      BitVec.ofNat 32 (16 * i + y) + config.gridYOffset := by
    rw [BitVec.ofNat_add]
    ac_rfl
  simp only [Dispatch.row, slice, LaunchConfig.dispatch, LaunchConfig.chunk, map_flatMap,
    map_map, Function.comp_def, shifted]

theorem blocks_slice (below : 16 * i < config.grid.y.toNat) :
    (slice kernel config i).threadgroups.map Threadgroup.ctaid =
      ((List.range (min 16 (config.grid.y.toNat - 16 * i))).map (16 * i + ·)).flatMap fun y =>
        ((config.dispatch kernel 0).row y).map Threadgroup.ctaid := by
  rw [Dispatch.threadgroups, toNat_height below, map_flatMap, flatMap_map]
  exact congrArg (fun row => flatMap row _) (funext fun y => row_slice i y)

theorem blocks_slices {count : Nat} (below : ∀ i < count, 16 * i < config.grid.y.toNat) :
    (((List.range count).map (slice kernel config)).flatMap Dispatch.threadgroups).map
        Threadgroup.ctaid =
      (List.range (min config.grid.y.toNat (16 * count))).flatMap fun y =>
        ((config.dispatch kernel 0).row y).map Threadgroup.ctaid := by
  rw [← Tiling.range_pieces, flatMap_assoc, map_flatMap, flatMap_map]
  exact flatMap_congr fun i mem => blocks_slice (below i (mem_range.mp mem))

theorem start_lt (below : 16 * i < config.grid.y.toNat) :
    BitVec.ofNat 32 (16 * i) < config.grid.y := by
  rw [BitVec.lt_def, toNat_start below]
  exact below

theorem next_start (i : Nat) :
    BitVec.ofNat 32 (16 * i) + maxChunkGridY = BitVec.ofNat 32 (16 * (i + 1)) := by
  rw [Nat.mul_succ, BitVec.ofNat_add]
  rfl

/-- A slice that is launched, and the loop behind it. -/
theorem launchSlices_succ (below : 16 * i < config.grid.y.toNat)
    (success : (outcomes i).status = .success) (fuel : Nat) :
    launchSlices kernel config outcomes (fuel + 1) (BitVec.ofNat 32 (16 * i)) i =
      (launchSlices kernel config outcomes fuel (BitVec.ofNat 32 (16 * (i + 1))) (i + 1)).map
        fun rest => (rest.1, slice kernel config i :: rest.2) := by
  rw [launchSlices, if_pos (start_lt below), launchUndivided_of_success success, next_start]
  simp [success, slice]

variable (kernel) in
/-- The loop ends at the first slice that fails. -/
theorem launchSlices_of_failed (below : 16 * i < config.grid.y.toNat)
    (failed : (outcomes i).status ≠ .success) (n : Nat) :
    ∀ first, first + n = i →
      (∀ earlier, first ≤ earlier → earlier < i → (outcomes earlier).status = .success) →
      launchSlices kernel config outcomes (n + 1) (BitVec.ofNat 32 (16 * first)) first =
        some ((outcomes i).status, (List.range' first n).map (slice kernel config) ++
          launchUndivided kernel (config.chunk (BitVec.ofNat 32 (16 * i))) i (outcomes i)) := by
  induction n with
  | zero =>
    intro first same _
    obtain rfl : first = i := same
    rw [launchSlices, if_pos (start_lt below), if_pos failed]
    simp
  | succ n ih =>
    intro first last before
    rw [launchSlices_succ (by omega) (before first le_rfl (by omega)),
      ih (first + 1) (by omega) fun earlier from_ => before earlier (by omega)]
    simp [range'_succ]

variable (kernel outcomes) in
/-- Without a failure the loop goes through the slices and ends, for a grid that leaves the counter
room for one more step. -/
theorem launchSlices_of_success (room : config.grid.y.toNat ≤ 2 ^ 32 - 16) (n : Nat) :
    ∀ first, config.grid.y.toNat ≤ 16 * (first + n) → 16 * (first + n) < config.grid.y.toNat + 16 →
      (∀ i < first + n, (outcomes i).status = .success) →
      launchSlices kernel config outcomes (n + 1) (BitVec.ofNat 32 (16 * first)) first =
        some (.success, (List.range' first n).map (slice kernel config)) := by
  induction n with
  | zero =>
    intro first reached short _
    have past : ¬BitVec.ofNat 32 (16 * first) < config.grid.y := by
      rw [BitVec.lt_def, BitVec.toNat_ofNat, Nat.mod_eq_of_lt (by omega)]
      omega
    rw [launchSlices, if_neg past]
    rfl
  | succ n ih =>
    intro first reached short success
    rw [launchSlices_succ (by omega) (success first (by omega)),
      ih (first + 1) (by omega) (by omega) fun i below => success i (by omega)]
    simp [range'_succ]

/-- For a higher grid the counter wraps to zero, and without a failure the loop does not end. -/
theorem launchSlices_eq_none (high : 2 ^ 32 - 16 < config.grid.y.toNat)
    (success : ∀ i, (outcomes i).status = .success) (fuel : Nat) :
    ∀ (y : BitVec 32) (launch : Nat), y.toNat % 16 = 0 →
      launchSlices kernel config outcomes fuel y launch = none := by
  induction fuel with
  | zero =>
    intro y launch _
    rfl
  | succ fuel ih =>
    intro y launch multiple
    have bound := y.isLt
    have inside : y < config.grid.y := by
      rw [BitVec.lt_def]
      omega
    have next : (y + maxChunkGridY).toNat % 16 = 0 := by
      rw [BitVec.toNat_add, maxChunkGridY]
      simp
      omega
    rw [launchSlices, if_pos inside]
    simp [success, ih _ (launch + 1) next]

/-- When no slice fails, the loop ends unless the counter wraps. -/
theorem launchSlices_ends_iff (success : ∀ i, (outcomes i).status = .success) :
    (∃ fuel, (launchSlices kernel config outcomes fuel 0 0).isSome) ↔
      config.grid.y.toNat ≤ 2 ^ 32 - 16 := by
  constructor
  · rintro ⟨fuel, ends⟩
    by_contra high
    rw [launchSlices_eq_none (by omega) success fuel 0 0 rfl] at ends
    cases ends
  · intro room
    refine ⟨(config.grid.y.toNat + 15) / 16 + 1, ?_⟩
    have ends := launchSlices_of_success kernel outcomes room
      ((config.grid.y.toNat + 15) / 16) 0 (by omega) (by omega) fun i _ => success i
    rw [show (0 : BitVec 32) = BitVec.ofNat 32 (16 * 0) from rfl, ends]
    rfl

/-- 40 rows of threadgroups. -/
def tall : LaunchConfig := ⟨⟨1, 40, 1⟩, ⟨1, 1, 1⟩, 0, false⟩

theorem launchSlices_ends_tall : ∃ fuel, (launchSlices ⟨false, true⟩ tall
    (fun _ => ⟨.success, true, fun _ => rfl⟩) fuel 0 0).isSome :=
  (launchSlices_ends_iff fun _ => rfl).mpr (by decide)

theorem launchKernel_divided (accepted : refusal config prepare = .success)
    (divided : Divided kernel config) (fuel : Nat) :
    launchKernel kernel config prepare outcomes fuel =
      launchSlices kernel config outcomes fuel (BitVec.ofNat 32 (16 * 0)) 0 := by
  rw [launchKernel, if_neg (by simp [accepted]), if_pos divided]
  rfl

/-- When the launches that are made succeed, they run the blocks of the grid, each once. -/
theorem launchKernel_blocks (room : config.grid.y.toNat ≤ 2 ^ 32 - 16)
    (accepted : refusal config prepare = .success)
    (success : ∀ i < launches kernel config, (outcomes i).status = .success) :
    ∃ fuel dispatches, launchKernel kernel config prepare outcomes fuel =
        some (.success, dispatches) ∧
      ((dispatches.flatMap Dispatch.threadgroups).map Threadgroup.ctaid).Perm
        ((config.dispatch kernel 0).threadgroups.map Threadgroup.ctaid) := by
  unfold launches at success
  by_cases divided : Divided kernel config
  · have ends := launchSlices_of_success kernel outcomes room
      ((config.grid.y.toNat + 15) / 16) 0 (by omega) (by omega)
      fun i below => success i (by rw [if_pos divided]; omega)
    refine ⟨_, _, (launchKernel_divided accepted divided _).trans ends, ?_⟩
    have whole : min config.grid.y.toNat (16 * ((config.grid.y.toNat + 15) / 16)) =
        config.grid.y.toNat := by omega
    rw [← range_eq_range', blocks_slices (by omega), whole, Dispatch.threadgroups,
      map_flatMap]
    exact .refl _
  · have first : (outcomes 0).status = .success := success 0 (by rw [if_neg divided]; decide)
    refine ⟨0, [config.dispatch kernel 0], ?_, by simp⟩
    rw [launchKernel, if_neg (by simp [accepted]), if_neg divided, first,
      launchUndivided_of_success first]

/-- The three slices of 40 rows, with a failure after them that no launch meets. -/
theorem launchKernel_tall : ∃ fuel dispatches, launchKernel ⟨false, true⟩ tall .success
      (fun i => if i < 3 then ⟨.success, true, fun _ => rfl⟩ else ⟨.unknown, false, nofun⟩) fuel =
        some (.success, dispatches) ∧
    ((dispatches.flatMap Dispatch.threadgroups).map Threadgroup.ctaid).Perm
      ((tall.dispatch ⟨false, true⟩ 0).threadgroups.map Threadgroup.ctaid) :=
  launchKernel_blocks (by decide) rfl fun i below => by
    have three : launches ⟨false, true⟩ tall = 3 := by decide
    rw [if_pos (three ▸ below)]

/-- A threadgroup of the first slice sees the height of its slice. -/
theorem exists_short (accepted : refusal config prepare = .success)
    (divided : Divided kernel config) :
    ∃ group ∈ (slice kernel config 0).threadgroups, group.nctaid ≠ config.grid := by
  have tall : 16 < config.grid.y.toNat := BitVec.lt_def.mp divided.2
  have height := @toNat_height kernel config 0 (by omega)
  have wide : 0 < config.grid.x.toNat ∧ 0 < config.grid.z.toNat := by
    have positive : ∀ side : BitVec 32, side ≠ 0 → 0 < side.toNat := fun side nonzero =>
      pos_of_ne_zero fun zero => nonzero (BitVec.eq_of_toNat_eq zero)
    rw [refusal] at accepted
    split at accepted
    · cases accepted
    · rename_i nonzero
      simp only [not_or] at nonzero
      exact ⟨positive _ nonzero.1, positive _ nonzero.2.2.1⟩
  refine ⟨⟨⟨0, 0 + (slice kernel config 0).gridYOffset, 0⟩, (slice kernel config 0).grid,
    (slice kernel config 0).gridBarrier⟩, ?_, ?_⟩
  · simp only [Dispatch.threadgroups, Dispatch.row, mem_flatMap, mem_map, mem_range]
    exact ⟨0, by omega, 0, wide.2, 0, wide.1, rfl⟩
  · intro same
    rw [show (slice kernel config 0).grid = config.grid from same] at height
    omega

/-- The slices that come before a failure, and the failing one, are blocks of the grid. -/
theorem subperm_slices (below : 16 * i < config.grid.y.toNat) :
    ((((List.range' 0 i).map (slice kernel config) ++
        launchUndivided kernel (config.chunk (BitVec.ofNat 32 (16 * i))) i (outcomes i)).flatMap
        Dispatch.threadgroups).map Threadgroup.ctaid).Subperm
      ((config.dispatch kernel 0).threadgroups.map Threadgroup.ctaid) := by
  have within : ∀ size ≤ config.grid.y.toNat,
      (((range size).flatMap fun y =>
        ((config.dispatch kernel 0).row y).map Threadgroup.ctaid)).Sublist
        ((config.dispatch kernel 0).threadgroups.map Threadgroup.ctaid) := by
    intro size le
    rw [Dispatch.threadgroups, map_flatMap]
    exact (range_sublist.mpr le).flatMap _
  apply Sublist.subperm
  rw [← range_eq_range', launchUndivided]
  split
  · have all := @blocks_slices kernel config (i + 1) (by omega)
    rw [range_succ, map_append] at all
    exact all ▸ within _ (min_le_left _ _)
  · rw [append_nil, blocks_slices (by omega)]
    exact within _ (min_le_left _ _)

/-- A divided launch equals an undivided one only if one of its slices fails. -/
theorem equalsUnsliced_iff (kernel : Kernel) (config : LaunchConfig) (prepare : CudaError)
    (outcomes : Nat → Outcome) :
    EqualsUnsliced kernel config prepare outcomes ↔
      refusal config prepare ≠ .success ∨ ¬Divided kernel config ∨
        ∃ launch < launches kernel config, (outcomes launch).status ≠ .success := by
  constructor
  · rintro ⟨fuel, status, dispatches, run, reports, -, whole⟩
    by_contra none_
    push Not at none_
    obtain ⟨accepted, divided, success⟩ := none_
    obtain rfl := reports.succeeded accepted success
    have tall : 16 < config.grid.y.toNat := BitVec.lt_def.mp divided.2
    have first : (outcomes 0).status = .success :=
      success 0 (by rw [launches, if_pos divided]; omega)
    obtain ⟨group, mem, differs⟩ := exists_short accepted divided
    rw [launchKernel_divided accepted divided] at run
    cases fuel with
    | zero => cases run
    | succ fuel =>
      rw [launchSlices_succ (by omega) first, Option.map_eq_some_iff] at run
      obtain ⟨rest, -, same⟩ := run
      have head : dispatches = slice kernel config 0 :: rest.2 := (congrArg Prod.snd same).symm
      apply differs
      apply (whole rfl).extents
      rw [head, flatMap_cons]
      exact mem_append_left _ mem
  · intro condition
    by_cases accepted : refusal config prepare = .success
    swap
    · exact ⟨0, refusal config prepare, [], by rw [launchKernel, if_pos accepted],
        ⟨fun _ => rfl, fun success => absurd success accepted,
          fun success => absurd success accepted⟩, by simp, fun success => absurd success accepted⟩
    by_cases divided : Divided kernel config
    · have some_ : ∃ launch, launch < launches kernel config ∧
          (outcomes launch).status ≠ .success := by tauto
      obtain ⟨below, failed⟩ := Nat.find_spec some_
      generalize first : Nat.find some_ = i at below failed
      have before : ∀ earlier < i, (outcomes earlier).status = .success := by
        intro earlier less
        have early := Nat.find_min some_ (first ▸ less)
        by_contra failed'
        exact early ⟨by omega, failed'⟩
      rw [launches, if_pos divided] at below
      have inside : 16 * i < config.grid.y.toNat := by omega
      have run := launchSlices_of_failed kernel inside failed i 0 (by omega)
        fun earlier _ => before earlier
      refine ⟨i + 1, _, _, (launchKernel_divided accepted divided _).trans run, ?_,
        subperm_slices inside, fun success => absurd success failed⟩
      refine ⟨fun refused => absurd accepted refused, fun _ launch _ earlier wrong => ?_,
        fun _ success => ?_⟩
      · have same : launch = i := by
          by_contra other
          rcases lt_or_gt_of_ne other with less | greater
          · exact wrong (before launch less)
          · exact failed (earlier i greater)
        rw [same]
      · exact success i (by rw [launches, if_pos divided]; exact below)
    · have single : launches kernel config = 1 := by rw [launches, if_neg divided]
      refine ⟨0, (outcomes 0).status, launchUndivided kernel config 0 (outcomes 0), ?_, ?_, ?_, ?_⟩
      · rw [launchKernel, if_neg (by simp [accepted]), if_neg divided]
      · refine ⟨fun refused => absurd accepted refused, fun _ launch below _ _ => ?_,
          fun _ success => success 0 (by omega)⟩
        obtain rfl : launch = 0 := by omega
        rfl
      · rw [launchUndivided]
        split
        · exact (flatMap_singleton ..).symm ▸ Subperm.refl _
        · exact nil_subperm
      · intro success
        rw [launchUndivided_of_success success, flatMap_singleton]
        refine ⟨Perm.refl _, ?_, ?_⟩
        · intro group mem
          simp only [Dispatch.threadgroups, Dispatch.row, mem_flatMap, mem_map] at mem
          obtain ⟨_, _, _, _, _, _, rfl⟩ := mem
          rfl
        · intro group mem other mem'
          simp only [Dispatch.threadgroups, Dispatch.row, mem_flatMap, mem_map]
            at mem mem'
          obtain ⟨_, _, _, _, _, _, rfl⟩ := mem
          obtain ⟨_, _, _, _, _, _, rfl⟩ := mem'
          rfl

/-- One column of 17 threadgroups, in two slices that both succeed. -/
theorem column_differs :
    ¬∀ (kernel : Kernel) (config : LaunchConfig) (prepare : CudaError) (outcomes : Nat → Outcome),
      kernel.needsGridYOffset = true → EqualsUnsliced kernel config prepare outcomes := by
  intro all
  obtain ⟨fuel, status, dispatches, run, reports, -, whole⟩ :=
    all ⟨false, true⟩ ⟨⟨1, 17, 1⟩, ⟨1, 1, 1⟩, 0, false⟩ .success
      (fun _ => ⟨.success, true, fun _ => rfl⟩) rfl
  obtain rfl := reports.succeeded (by decide) fun _ _ => rfl
  match fuel with
  | 0 => cases run
  | 1 => cases run
  | 2 => cases run
  | fuel + 3 =>
    obtain rfl : _ = dispatches := congrArg Prod.snd (Option.some.inj run)
    have extent := (whole rfl).extents ⟨⟨0, 0, 0⟩, ⟨1, 16, 1⟩, none⟩ (by decide)
    cases extent

end CuMetal.Runtime.Sliced
