import CuMetal.Lib.BarrierRounds
import Mathlib.Data.Fintype.EquivFin

/-!
# Block-wide scans

`BlockScan` (`runtime/api/cub/block/block_scan.h`) as the threads of a block run it on the device.
-/

namespace CuMetal.Cub

open CuMetal.Rounds List

variable {T : Type}

/-- The input, `partial` or output of a thread, and its `block_aggregate`. -/
structure Registers (T : Type) where
  value : Option T
  aggregate : Option T

/-- A barrier interval of a block of `n + 1` threads, on slots that start out unwritten. -/
abbrev Round (n : Nat) (T : Type) := Fin (n + 1) → Interval (Fin (n + 1)) (Registers T) (Option T)

abbrev Block (n : Nat) (T : Type) := World (Fin (n + 1)) (Registers T) (Option T)

variable (op : T → T → T) (n : Nat)

/-- The store of the input or of `partial` (`127`, `140`). -/
def put : Round n T := fun _ => ⟨[], some fun own _ => own.value, fun own _ => own⟩

/-- The loads of one stride (`132-138`). -/
def gather (stride : Nat) : Round n T := fun i =>
  { loads := if stride ≤ i then [i, ⟨i - stride, by omega⟩] else [i]
    stores := none
    leaves := fun own loaded =>
      match loaded with
      | [value, some neighbor] => { own with value := value.map (op neighbor) }
      | [value] => { own with value }
      | _ => ⟨none, none⟩ }

/-- The strides of the loop (`131`). -/
def strides (block : Nat) : Nat → Nat → List Nat
  | 0, _ => []
  | fuel + 1, stride => if stride < block then stride :: strides block fuel (2 * stride) else []

def turn (stride : Nat) : List (Round n T) := [gather op n stride, put n]

/-- `InclusiveScanImpl` (`124-142`). -/
def inclusiveScanImpl : List (Round n T) :=
  put n :: (strides (n + 1) (n + 1) 1).flatMap (turn op n)

/-- `InclusiveScan` (`100-104`). -/
def inclusiveScan : List (Round n T) :=
  inclusiveScanImpl op n ++ [fun i =>
    { loads := [i, Fin.last n]
      stores := none
      leaves := fun _ loaded =>
        match loaded with
        | [output, aggregate] => ⟨output, aggregate⟩
        | _ => ⟨none, none⟩ }]

/-- `ExclusiveScan` (`66-78`). -/
def exclusiveScan (initialValue : T) : List (Round n T) :=
  inclusiveScanImpl op n ++ [fun i =>
    { loads := if 0 < i.val then [⟨i - 1, by omega⟩, Fin.last n] else [Fin.last n]
      stores := none
      leaves := fun _ loaded =>
        match loaded with
        | [previous, aggregate] => ⟨previous.map (op initialValue), aggregate⟩
        | [aggregate] => ⟨some initialValue, aggregate⟩
        | _ => ⟨none, none⟩ }]

/-- `x start op … op x (start + more)`. -/
def fold (x : Nat → T) (start : Nat) : Nat → T
  | 0 => x start
  | more + 1 => op (fold x start more) (x (start + more + 1))

def input (x : Nat → T) : Block n T :=
  ⟨fun _ => none, fun i => ⟨some (x i), none⟩⟩

/-- In every interleaving, no load meets a store, the threads do not get stuck, and each one comes
out with its result and the fold of all inputs. One that loads an unwritten slot has none. -/
structure Scans (rounds : List (Round n T)) (x : Nat → T) (result : Nat → T) : Prop where
  free : RaceFree rounds
  progress : ∀ s, Reachable rounds (input n x) s → ∀ i, s.passed i < rounds.length →
    ∃ j t, Step rounds j s t
  result : ∀ s, Reachable rounds (input n x) s → ∀ i, s.passed i = rounds.length →
    s.registers i = ⟨some (result i), some (fold op x 0 n)⟩

variable {op n} {x : Nat → T} {stride : Nat} {world : Block n T}

/-- Slot `i` holds the fold of as many inputs, up to `i`, as the stride is long. -/
def Window (op : T → T → T) (x : Nat → T) (stride : Nat) (world : Block n T) : Prop :=
  ∀ i, world.slots i = some (fold op x (i + 1 - stride) (i - (i + 1 - stride)))

/-- The slots when the loop has ended. -/
def folds (op : T → T → T) (x : Nat → T) (i : Fin (n + 1)) : Option T := some (fold op x 0 i)

theorem Window.whole (window : Window op x stride world) (long : n + 1 ≤ stride) :
    world.slots = folds op x := by
  funext i
  rw [window, folds, show i.val + 1 - stride = 0 by omega, Nat.sub_zero]

section

variable (assoc : ∀ a b c, op (op a b) c = op a (op b c))

include assoc

theorem fold_append (start first more : Nat) :
    op (fold op x start first) (fold op x (start + first + 1) more) =
      fold op x start (first + more + 1) := by
  induction more with
  | zero => rfl
  | succ more ih =>
    rw [fold, ← assoc, ih, ← Nat.add_assoc first, fold]
    congr 2
    omega

theorem Window.turn (positive : 0 < stride) (window : Window op x stride world) :
    Window op x (2 * stride) ((turn op n stride).foldl World.after world) := by
  intro i
  simp only [Cub.turn, foldl_cons, foldl_nil, World.after, Interval.stored, put, gather]
  by_cases far : stride ≤ i
  · have joined := fold_append (x := x) assoc (i + 1 - 2 * stride)
      (i - stride - (i + 1 - 2 * stride)) (stride - 1)
    simp only [if_pos far, map_cons, map_nil, window _, Option.map_some]
    rw [show i - (i + 1 - 2 * stride) = i - stride - (i + 1 - 2 * stride) + (stride - 1) + 1 by
      omega, ← joined]
    congr 3 <;> omega
  · simp only [if_neg far, map_cons, map_nil, window _]
    congr 2 <;> omega

theorem Window.loop (fuel : Nat) :
    ∀ {stride} {world : Block n T}, 0 < stride → n + 1 ≤ stride + fuel →
      Window op x stride world →
      (((strides (n + 1) fuel stride).flatMap (Cub.turn op n)).foldl World.after world).slots =
        folds op x := by
  induction fuel with
  | zero => exact fun _ long window => window.whole long
  | succ fuel ih =>
    intro stride world positive long window
    unfold strides
    split
    · rw [flatMap_cons, foldl_append]
      exact ih (by omega) (by omega) (window.turn assoc positive)
    · exact window.whole (by omega)

theorem slots_inclusiveScanImpl :
    ((inclusiveScanImpl op n).foldl World.after (input n x)).slots = folds op x := by
  refine Window.loop assoc (n + 1) Nat.one_pos (by omega) fun i => ?_
  rw [Nat.add_sub_cancel, Nat.sub_self]
  rfl

theorem scans_of_answer {answer : Round n T} {result : Nat → T}
    (silent : ∀ i, (answer i).stores = none)
    (leaves : ∀ i own, (answer i).leaves own ((answer i).loads.map (folds op x)) =
      ⟨some (result i), some (fold op x 0 n)⟩) :
    Scans op n (inclusiveScanImpl op n ++ [answer]) x result := by
  have free : RaceFree (inclusiveScanImpl op n ++ [answer]) := by
    intro round mem i slot loads _
    rcases mem_append.mp mem with impl | last
    · rcases mem_cons.mp impl with rfl | later
      · cases loads
      · obtain ⟨stride, -, mem⟩ := mem_flatMap.mp later
        rcases mem_pair.mp mem with rfl | rfl
        · rfl
        · cases loads
    · exact mem_singleton.mp last ▸ silent slot
  refine ⟨free, fun s reached i => (inStep_of_reachable free reached).progress,
    fun s reached i done => ?_⟩
  rw [((inStep_of_reachable free reached).own i).2, done, World.through, take_length,
    foldl_append, foldl_cons, foldl_nil, World.after, slots_inclusiveScanImpl assoc]
  exact leaves i _

end

/-- Both scans follow the order of the threads, for every block and every associative operator. -/
theorem blockScan_exact (assoc : ∀ a b c, op (op a b) c = op a (op b c)) (n : Nat) (x : Nat → T) :
    Scans op n (inclusiveScan op n) x (fold op x 0) ∧ ∀ initialValue,
      Scans op n (exclusiveScan op n initialValue) x fun i =>
        if i = 0 then initialValue else op initialValue (fold op x 0 (i - 1)) := by
  refine ⟨scans_of_answer assoc (fun _ => rfl) fun _ _ => rfl,
    fun initialValue => scans_of_answer assoc (fun _ => rfl) fun i own => ?_⟩
  by_cases first : i.val = 0
  · simp [first, folds]
  · simp [first, folds, Nat.pos_of_ne_zero first]

/-- A block of three threads and an operator that does not commute. -/
theorem blockScan_append : Scans (· ++ ·) 2 (inclusiveScan (· ++ ·) 2) (fun i => [i])
    (fold (· ++ ·) (fun i => [i]) 0) :=
  (blockScan_exact List.append_assoc 2 fun i => [i]).1

end CuMetal.Cub
