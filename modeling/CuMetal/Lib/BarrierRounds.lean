import Mathlib.Data.Fintype.Lattice
import Mathlib.Logic.Relation

/-!
# Rounds between barriers

Threads that own a slot each and meet at a barrier after every round. Where no thread loads a slot
that its owner stores to in the same round, every order of the accesses comes to what the rounds
come to one after the other.
-/

namespace CuMetal.Rounds

open List Function

variable {ι σ V : Type}

/-- What a thread does in a round: it loads these slots in turn and may store to its own. -/
structure Interval (ι σ V : Type) where
  loads : List ι
  stores : Option (σ → List V → V)
  leaves : σ → List V → σ

/-- What the slot of the thread holds after the round. -/
def Interval.stored (interval : Interval ι σ V) (register : σ) (loaded : List V) (old : V) : V :=
  match interval.stores with
  | none => old
  | some value => value register loaded

/-- The slots, and what each thread keeps to itself. -/
structure World (ι σ V : Type) where
  slots : ι → V
  registers : ι → σ

/-- A round in which every thread sees the slots as they were before it. -/
def World.after (world : World ι σ V) (round : ι → Interval ι σ V) : World ι σ V where
  slots i := (round i).stored (world.registers i) ((round i).loads.map world.slots) (world.slots i)
  registers i := (round i).leaves (world.registers i) ((round i).loads.map world.slots)

/-- The world after the first rounds. -/
def World.through (world : World ι σ V) (rounds : List (ι → Interval ι σ V)) (count : Nat) :
    World ι σ V :=
  (rounds.take count).foldl World.after world

/-- For each thread, how many barriers it has passed and what it has loaded since. -/
structure State (ι σ V : Type) extends World ι σ V where
  passed : ι → Nat
  loaded : ι → List V

def State.start (world : World ι σ V) : State ι σ V :=
  { world with
    passed := fun _ => 0
    loaded := fun _ => [] }

variable (rounds : List (ι → Interval ι σ V))

/-- No thread loads a slot that its owner stores to in the same round. -/
def RaceFree : Prop :=
  ∀ round ∈ rounds, ∀ i, ∀ slot ∈ (round i).loads, slot ≠ i → (round slot).stores = none

/-- Each thread is where the rounds, one after the other, have it after so many barriers. -/
structure InStep (first : World ι σ V) (s : State ι σ V) : Prop where
  near : ∀ i j, s.passed j ≤ s.passed i + 1
  own : ∀ i, s.slots i = (first.through rounds (s.passed i)).slots i ∧
    s.registers i = (first.through rounds (s.passed i)).registers i
  loaded : ∀ i round, rounds[s.passed i]? = some round →
    s.loaded i <+: (round i).loads.map (first.through rounds (s.passed i)).slots

variable {rounds} {first : World ι σ V} {s t : State ι σ V} {round : ι → Interval ι σ V} {i : ι}

theorem through_succ {count : Nat} (here : rounds[count]? = some round) :
    first.through rounds (count + 1) = (first.through rounds count).after round := by
  rw [World.through, take_add_one, here, foldl_append]
  rfl

theorem InStep.start : InStep rounds first (.start first) where
  near _ _ := Nat.zero_le _
  own _ := ⟨rfl, rfl⟩
  loaded _ _ _ := nil_prefix

/-- A slot that may be loaded has not changed since the barrier. -/
theorem InStep.visible (inStep : InStep rounds first s) (free : RaceFree rounds)
    (here : rounds[s.passed i]? = some round) (opened : ∀ j, s.passed i ≤ s.passed j) {slot : ι}
    (mem : slot ∈ (round i).loads) :
    s.slots slot = (first.through rounds (s.passed i)).slots slot := by
  rw [(inStep.own slot).1]
  rcases Nat.eq_or_lt_of_le (opened slot) with same | ahead
  · rw [same]
  · have kept := free round (mem_of_getElem? here) i slot mem
      fun same => Nat.ne_of_lt ahead (by rw [same])
    rw [Nat.le_antisymm (inStep.near i slot) ahead, through_succ here]
    simp only [World.after, Interval.stored, kept]

variable [DecidableEq ι]

/-- A load of one thread, or its store together with its arrival. It waits for those that have
passed fewer barriers. -/
inductive Step (rounds : List (ι → Interval ι σ V)) (i : ι) : State ι σ V → State ι σ V → Prop
  | load {s : State ι σ V} {round : ι → Interval ι σ V} {slot : ι} :
      rounds[s.passed i]? = some round → (∀ j, s.passed i ≤ s.passed j) →
      (round i).loads[(s.loaded i).length]? = some slot →
      Step rounds i s { s with loaded := update s.loaded i (s.loaded i ++ [s.slots slot]) }
  | finish {s : State ι σ V} {round : ι → Interval ι σ V} :
      rounds[s.passed i]? = some round → (∀ j, s.passed i ≤ s.passed j) →
      (s.loaded i).length = (round i).loads.length →
      Step rounds i s
        { slots := update s.slots i ((round i).stored (s.registers i) (s.loaded i) (s.slots i))
          registers := update s.registers i ((round i).leaves (s.registers i) (s.loaded i))
          passed := update s.passed i (s.passed i + 1)
          loaded := update s.loaded i [] }

def Reachable (rounds : List (ι → Interval ι σ V)) (first : World ι σ V) : State ι σ V → Prop :=
  Relation.ReflTransGen (fun s t => ∃ i, Step rounds i s t) (.start first)

theorem InStep.step (free : RaceFree rounds) (inStep : InStep rounds first s)
    (step : Step rounds i s t) : InStep rounds first t := by
  cases step with
  | @load round slot here opened next =>
    refine { inStep with loaded := fun j round' here' => ?_ }
    rcases eq_or_ne j i with rfl | other
    · obtain rfl := Option.some.inj (here.symm.trans here')
      have before := inStep.loaded j round here
      rw [prefix_iff_eq_take] at before
      dsimp only
      rw [update_self, inStep.visible free here opened (mem_of_getElem? next), prefix_iff_eq_take,
        length_append, length_singleton, take_add_one, ← before, getElem?_map, next]
      rfl
    · dsimp only
      rw [update_of_ne other]
      exact inStep.loaded j round' here'
  | @finish round here opened all =>
    have whole : s.loaded i = (round i).loads.map (first.through rounds (s.passed i)).slots :=
      (inStep.loaded i round here).eq_of_length (by rw [all, length_map])
    refine ⟨fun a b => ?_, fun j => ?_, fun j round' here' => ?_⟩
    · have := inStep.near i b
      have := opened a
      have := opened b
      simp only [update_apply]
      split <;> split <;> omega
    · rcases eq_or_ne j i with rfl | other
      · simp only [update_self, through_succ here, World.after, whole, (inStep.own j).1,
          (inStep.own j).2, and_self]
      · simpa only [update_of_ne other] using inStep.own j
    · rcases eq_or_ne j i with rfl | other
      · simp only [update_self, nil_prefix]
      · simp only [update_of_ne other] at here' ⊢
        exact inStep.loaded j round' here'

/-- However the accesses interleave, each thread is where the rounds have it. -/
theorem inStep_of_reachable (free : RaceFree rounds) (reachable : Reachable rounds first s) :
    InStep rounds first s := by
  induction reachable with
  | refl => exact .start
  | tail _ step ih =>
    obtain ⟨i, step⟩ := step
    exact ih.step free step

/-- Some thread can go on as long as one has rounds left. -/
theorem InStep.progress [Finite ι] (inStep : InStep rounds first s)
    (unfinished : s.passed i < rounds.length) : ∃ j t, Step rounds j s t := by
  have : Nonempty ι := ⟨i⟩
  obtain ⟨j, least⟩ := Finite.exists_min s.passed
  have here := getElem?_eq_getElem (Nat.lt_of_le_of_lt (least i) unfinished)
  have short := (inStep.loaded j _ here).length_le
  rw [length_map] at short
  rcases Nat.eq_or_lt_of_le short with all | more
  · exact ⟨j, _, .finish here least all⟩
  · exact ⟨j, _, .load here least (getElem?_eq_getElem more)⟩

end CuMetal.Rounds
