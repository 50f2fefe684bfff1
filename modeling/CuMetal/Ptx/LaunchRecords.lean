import CuMetal.Lib.Except
import CuMetal.Ptx.QueueMemory
import Mathlib.Data.List.Induction
import Mathlib.Data.List.Nodup

/-!
# The records of the launch queue

A record whose stores are done is taken up by the host as the operation of its call, and records
that are taken up one after the other are a replay of the operations.
-/

namespace CuMetal.Ptx.LaunchQueue

open List

open ByteMemory (place read)
open CuMetal.Runtime (CudaError)

variable {queue : BitVec 64} {memory : ByteMemory}

def Call.buffer? : Call → Option Buffer
  | .cudaMemcpyAsync .. => none
  | .cudaLaunchDevice _ buffer _ _ _ _ => some buffer

def Call.size : Call → BitVec 32
  | .cudaMemcpyAsync .. => 0
  | .cudaLaunchDevice _ buffer _ _ _ _ => buffer.size.setWidth 32

def Stored (queue : BitVec 64) (memory : ByteMemory) (index : Nat)
    (words : List (Nat × BitVec 32)) : Prop :=
  ∀ entry ∈ words, loadWord memory (recordAddress queue index entry.1) = entry.2

theorem recordOf_positions (queue : BitVec 64) (size : BitVec 32) (call : Call) :
    ((recordOf queue size call).map Prod.fst).Nodup ∧
      ∀ entry ∈ recordOf queue size call, entry.1 < 16 := by
  cases call <;> exact ⟨by simp [recordOf], by simp [recordOf]⟩

section Host

variable {World Kernel : Type} (host : Host World Kernel)

theorem packArguments_inside {parameterSize cursor : Nat} {sizes : List (BitVec 32)}
    {places : List (Nat × Nat)} (packed : packArguments parameterSize cursor sizes = .ok places) :
    ∀ part ∈ places, part.1 + part.2 ≤ parameterSize := by
  induction sizes generalizing cursor places with
  | nil =>
    cases packed
    exact fun _ mem => absurd mem not_mem_nil
  | cons size rest ih =>
    rw [packArguments] at packed
    split at packed
    · exact nomatch packed
    · obtain ⟨rest', packed', done⟩ := bind_eq_ok packed
      cases done
      intro part mem
      rcases mem_cons.mp mem with rfl | mem
      · dsimp only
        omega
      · exact ih packed' part mem

theorem launchChild_congr (token : BitVec 64) (grid block : Dim3) (sharedBytes : BitVec 32)
    {parameterSize : Nat} {argument argument' : Nat → Nat → List UInt8}
    (same : ∀ start length, start + length ≤ parameterSize →
      argument start length = argument' start length) (world : World) :
    launchChild host token grid block sharedBytes parameterSize argument world =
      launchChild host token grid block sharedBytes parameterSize argument' world := by
  rw [launchChild, launchChild]
  cases host.lookupDeviceKernelAlias token world with
  | none => rfl
  | some found =>
    obtain ⟨kernel, sizes, world'⟩ := found
    dsimp only
    cases packed : packArguments parameterSize 0 sizes with
    | error e => rfl
    | ok places =>
      have arguments_ : (places.map fun part => argument part.1 part.2) =
          places.map fun part => argument' part.1 part.2 := by
        apply map_congr_left
        intro part mem
        exact same _ _ (packArguments_inside packed part mem)
      simp only [bind, Except.bind, arguments_]

theorem drainRecord_eq {index : Nat} {call : Call}
    (placed : ∀ buffer, call.buffer? = some buffer → buffer.Placed)
    (stored : Stored queue memory index (recordOf queue call.size call)) (world : World) :
    drainRecord host queue memory index world =
      (operationOf queue memory call).perform host world := by
  cases call with
  | cudaMemcpyAsync destination source count kind stream =>
    have word : ∀ position value, (position, value) ∈ recordOf queue 0
        (.cudaMemcpyAsync destination source count kind stream) →
        loadWord memory (recordAddress queue index position) = value :=
      fun position value mem => stored (position, value) mem
    simp only [drainRecord]
    rw [word 15 1 (by simp [recordOf]), word 0 (low destination) (by simp [recordOf]),
      word 1 (high destination) (by simp [recordOf]), word 2 (low source) (by simp [recordOf]),
      word 3 (high source) (by simp [recordOf]), word 4 (low count) (by simp [recordOf]),
      word 5 (high count) (by simp [recordOf]), word 6 kind (by simp [recordOf]), if_pos rfl,
      wide_halves, wide_halves, wide_halves]
    rfl
  | cudaLaunchDevice token buffer grid block sharedBytes stream =>
    have place_ := placed buffer rfl
    have past := place_.past
    have inside := place_.inside
    have bytes : queueBytes = 1048576 := rfl
    have size : (buffer.size.setWidth 32).toNat = buffer.size.toNat := by
      rw [BitVec.toNat_setWidth]
      omega
    have word : ∀ position value, (position, value) ∈ recordOf queue (buffer.size.setWidth 32)
        (.cudaLaunchDevice token buffer grid block sharedBytes stream) →
        loadWord memory (recordAddress queue index position) = value :=
      fun position value mem => stored (position, value) mem
    simp only [drainRecord]
    rw [word 15 0 (by simp [recordOf]), word 0 (low token) (by simp [recordOf]),
      word 1 (high token) (by simp [recordOf]),
      word 2 buffer.offset (by simp [recordOf, parameterOffset_eq]),
      word 3 (buffer.size.setWidth 32) (by simp [recordOf]),
      word 4 grid.x (by simp [recordOf]), word 5 grid.y (by simp [recordOf]),
      word 6 grid.z (by simp [recordOf]), word 7 block.x (by simp [recordOf]),
      word 8 block.y (by simp [recordOf]), word 9 block.z (by simp [recordOf]),
      word 10 sharedBytes (by simp [recordOf]), if_neg (by decide), if_neg (by decide),
      wide_halves, size]
    have outside : ¬ buffer.offset.toNat < recordAreaBytes ∧
        ¬ queueBytes < buffer.offset.toNat ∧
        ¬ queueBytes - buffer.offset.toNat < buffer.size.toNat := by omega
    simp only [outside.1, outside.2.1, outside.2.2, false_or]
    rw [operationOf, Operation.perform, byteAddress_eq (by omega), ByteMemory.length_read]
    split
    · rfl
    · apply launchChild_congr
      intro start length within
      rw [ByteMemory.bytesAt_read within, ByteMemory.place_add]

/-- Records that are taken up as the operations of a list are a replay of the list. -/
theorem foldlM_range_eq_replay (take : Nat → World → Except CudaError World)
    (operations : List Operation)
    (same : ∀ i operation, operations[i]? = some operation →
      ∀ world, take i world = operation.perform host world) (world : World) :
    (List.range operations.length).foldlM (fun world index => take index world) world =
      replay host operations world := by
  induction operations using reverseRecOn generalizing world with
  | nil => rfl
  | append_singleton operations last ih =>
    have front := ih fun i operation here => same i operation (by
      rw [List.getElem?_append_left (List.getElem?_eq_some_iff.mp here).1, here])
    rw [length_append, length_singleton, range_succ, foldlM_append, front,
      replay, replay, foldlM_append]
    have final := same operations.length last (by simp)
    simp only [foldlM_cons, foldlM_nil, final]

end Host

end CuMetal.Ptx.LaunchQueue
