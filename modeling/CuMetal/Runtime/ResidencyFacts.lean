import CuMetal.Runtime.BufferResidency

/-!
# Every live allocation is declared

A buffer is in the registry, or its memory comes from a heap that is declared, as long as a buffer
that the policy gives to a heap does not fall back to the device.
-/

namespace CuMetal.Residency

open Guarded List

/-- Every buffer is registered or from a known heap, the registry has no other buffers, and a
dispatch that may follow raw addresses declares all of them. -/
structure Resident (s : BackendState) : Prop where
  covered : ∀ owner ∈ s.buffers, owner.buffer ∈ s.liveBuffers ∨
    ∃ arena ∈ s.bufferHeaps, owner.buffer.origin = .heap arena.heap
  existing : ∀ buffer ∈ s.liveBuffers, ∃ owner ∈ s.buffers, owner.buffer = buffer
  declared : ∀ owner ∈ s.buffers, owner.buffer ∈ (s.markAllocationsResident true).2 ∨
    ∃ heap ∈ (s.markAllocationsResident true).1, owner.buffer.origin = .heap heap

/-- No heap gives the buffer: none has room, and there is no new one with room. -/
def HeapsRefuse (s : BackendState) (answers : Answers) : Prop :=
  (∀ arena ∈ s.bufferHeaps, answers.room arena.heap = false) ∧
    (max s.heapChunkBytes (alignUp answers.size answers.align) = 0 ∨ answers.newHeap = false ∨
      answers.newHeapRoom = false)

/-- The step gives no buffer from the device that the policy wants from a heap. -/
def Grounded (s : BackendState) : Action → Prop
  | .allocate size answers => ¬ (size ≠ 0 ∧ answers.initialization = none ∧
      s.useHeap size = true ∧ HeapsRefuse s answers ∧ answers.device = true)
  | .destroy _ => True

instance (s : BackendState) (answers : Answers) : Decidable (HeapsRefuse s answers) :=
  inferInstanceAs (Decidable (_ ∧ _))

instance (s : BackendState) : (action : Action) → Decidable (Grounded s action)
  | .allocate _ _ => inferInstanceAs (Decidable (¬ _))
  | .destroy _ => .isTrue trivial

/-- The flag of every buffer tells where its memory comes from, and the registry has each buffer
that is not from a heap once. -/
structure Sound (s : BackendState) : Prop where
  distinct : (s.buffers.map fun owner => owner.buffer.object).Nodup
  numbered : ∀ owner ∈ s.buffers, owner.buffer.object < s.nextObject
  backed : ∀ owner ∈ s.buffers, owner.heapBacked = true →
    ∃ arena ∈ s.bufferHeaps, owner.buffer.origin = .heap arena.heap
  registered : ∀ owner ∈ s.buffers, owner.heapBacked = false → owner.buffer ∈ s.liveBuffers
  owned : ∀ buffer ∈ s.liveBuffers, ∃ owner ∈ s.buffers, owner.buffer = buffer ∧
    owner.heapBacked = false
  once : s.liveBuffers.Nodup

variable {s s' : BackendState}

theorem Sound.resident (sound : Sound s) : Resident s := by
  have covered : ∀ owner ∈ s.buffers, owner.buffer ∈ s.liveBuffers ∨
      ∃ arena ∈ s.bufferHeaps, owner.buffer.origin = .heap arena.heap := by
    intro owner found
    cases flag : owner.heapBacked with
    | true => exact .inr (sound.backed owner found flag)
    | false => exact .inl (sound.registered owner found flag)
  refine ⟨covered, fun buffer live => ?_, fun owner found => ?_⟩
  · obtain ⟨owner, found, same, -⟩ := sound.owned buffer live
    exact ⟨owner, found, same⟩
  · obtain live | ⟨arena, known, origin⟩ := covered owner found
    · exact .inl live
    · exact .inr ⟨arena.heap, mem_map_of_mem known, origin⟩

theorem sound_initial (heapMode : HeapMode) (threshold chunk : BitVec 64) :
    Sound (initial heapMode threshold chunk) := by
  constructor <;> simp [initial]

/-! ## Allocations -/

/-- The state has at least the heaps and objects of another one, and the same buffers. -/
structure Extends (s s' : BackendState) : Prop where
  heaps : ∀ arena ∈ s.bufferHeaps, arena ∈ s'.bufferHeaps
  objects : s.nextObject ≤ s'.nextObject
  buffers : s'.buffers = s.buffers
  live : s'.liveBuffers = s.liveBuffers

theorem Extends.refl (s : BackendState) : Extends s s := ⟨fun _ => id, le_refl _, rfl, rfl⟩

theorem Extends.sound (grows : Extends s s') (sound : Sound s) :
    Sound s' where
  distinct := by
    rw [grows.buffers]
    exact sound.distinct
  numbered := by
    rw [grows.buffers]
    intro owner found
    exact lt_of_lt_of_le (sound.numbered owner found) grows.objects
  backed := by
    rw [grows.buffers]
    intro owner found flag
    obtain ⟨arena, known, origin⟩ := sound.backed owner found flag
    exact ⟨arena, grows.heaps arena known, origin⟩
  registered := by
    rw [grows.buffers, grows.live]
    exact sound.registered
  owned := by
    rw [grows.buffers, grows.live]
    exact sound.owned
  once := by
    rw [grows.live]
    exact sound.once

/-- What the heaps give: a new buffer of one of them, or nothing when they refuse. -/
theorem allocateBufferFromHeapLocked_spec (s : BackendState) (answers : Answers) :
    Extends s (s.allocateBufferFromHeapLocked answers).2 ∧
      match (s.allocateBufferFromHeapLocked answers).1 with
      | some buffer => ¬ HeapsRefuse s answers ∧ s.nextObject ≤ buffer.object ∧
          buffer.object < (s.allocateBufferFromHeapLocked answers).2.nextObject ∧
          ∃ arena ∈ (s.allocateBufferFromHeapLocked answers).2.bufferHeaps,
            buffer.origin = .heap arena.heap
      | none => HeapsRefuse s answers := by
  unfold BackendState.allocateBufferFromHeapLocked
  cases known : s.bufferHeaps.find? fun arena => answers.room arena.heap with
  | some arena =>
    have found := mem_of_find?_eq_some known
    have room : answers.room arena.heap = true := by simpa using find?_some known
    refine ⟨⟨fun _ => id, Nat.le_succ _, rfl, rfl⟩, ?_, le_refl _, Nat.lt_succ_self _,
      arena, found, rfl⟩
    rintro ⟨none, -⟩
    simp [none arena found] at room
  | none =>
    have full : ∀ arena ∈ s.bufferHeaps, answers.room arena.heap = false := by
      simpa using known
    dsimp only
    split
    next empty => exact ⟨.refl s, full, .inl empty⟩
    next sized =>
      split
      next refused => exact ⟨.refl s, full, .inr (.inl (by simpa using refused))⟩
      next given =>
        split
        next room =>
          refine ⟨⟨fun arena mem => mem_append_left _ mem, ?_, rfl, rfl⟩, ?_, Nat.le_succ _,
            Nat.lt_succ_self _, _, mem_append_right _ (mem_singleton_self _), rfl⟩
          · exact Nat.le_add_right _ 2
          · rintro ⟨-, empty | refused | crowded⟩
            · exact sized empty
            · exact given (by simp [refused])
            · simp [crowded] at room
        next crowded =>
          refine ⟨⟨fun arena mem => mem_append_left _ mem, Nat.le_succ _, rfl, rfl⟩, full,
            .inr (.inr (by simpa using crowded))⟩

/-- A buffer has come into the state, with the flag that the policy gives it. -/
structure Allocated (s s' : BackendState) (buffer : MTLBuffer) (useHeap : Bool) : Prop where
  heaps : ∀ arena ∈ s.bufferHeaps, arena ∈ s'.bufferHeaps
  fresh : s.nextObject ≤ buffer.object
  numbered : buffer.object < s'.nextObject
  buffers : s'.buffers = s.buffers ++ [⟨buffer, useHeap⟩]
  live : s'.liveBuffers = if useHeap then s.liveBuffers else s.liveBuffers ++ [buffer]

/-- A call of `allocate_buffer` gives no buffer, or one from a known heap, or one from the device,
and the latter against the policy when the heaps refuse. -/
theorem allocateBuffer_cases (s : BackendState) (size : BitVec 64) (answers : Answers) :
    (Extends s (s.allocateBuffer size answers).2.2 ∧ Grounded s (.allocate size answers)) ∨
      ∃ buffer, Allocated s (s.allocateBuffer size answers).2.2 buffer (s.useHeap size) ∧
        (s.useHeap size = true ∧ Grounded s (.allocate size answers) ∧
            (∃ arena ∈ (s.allocateBuffer size answers).2.2.bufferHeaps,
              buffer.origin = .heap arena.heap) ∨
          buffer.origin = .device ∧
            (Grounded s (.allocate size answers) ↔ s.useHeap size = false)) := by
  unfold BackendState.allocateBuffer
  split
  next empty => exact .inl ⟨.refl s, fun bad => bad.1 empty⟩
  next sized =>
    cases ready : answers.initialization with
    | some message => exact .inl ⟨.refl s, fun bad => by simp [ready] at bad⟩
    | none =>
      obtain ⟨grows, given⟩ := allocateBufferFromHeapLocked_spec s answers
      cases policy : s.useHeap size with
      | true =>
        cases fromHeap : (s.allocateBufferFromHeapLocked answers).1 with
        | some buffer =>
          rw [fromHeap] at given
          obtain ⟨kind, fresh, below, origin⟩ := given
          simp only [if_true, fromHeap]
          exact .inr ⟨buffer, ⟨grows.heaps, fresh, below, by rw [grows.buffers],
            by simp [grows.live]⟩, .inl ⟨trivial, fun bad => kind bad.2.2.2.1, origin⟩⟩
        | none =>
          rw [fromHeap] at given
          simp only [if_true, fromHeap]
          cases device : answers.device with
          | false => exact .inl ⟨grows, fun bad => by simp [device] at bad⟩
          | true =>
            refine .inr ⟨⟨(s.allocateBufferFromHeapLocked answers).2.nextObject, .device⟩,
              ⟨grows.heaps, grows.objects, Nat.lt_succ_self _,
                congrArg (· ++ _) grows.buffers, grows.live⟩, .inr ⟨rfl, ?_⟩⟩
            exact ⟨fun grounded => absurd ⟨sized, ready, policy, given, device⟩ grounded,
              fun other => by cases other⟩
      | false =>
        cases device : answers.device with
        | false =>
          exact .inl ⟨.refl s, fun bad => by simp [device] at bad⟩
        | true =>
          refine .inr ⟨⟨s.nextObject, .device⟩, ⟨fun _ => id, le_refl _,
            Nat.lt_succ_self _, rfl, rfl⟩, .inr ⟨rfl, ?_⟩⟩
          exact ⟨fun _ => rfl, fun _ bad => by simp [policy] at bad⟩

variable {buffer : MTLBuffer} {action : Action}

/-- A new buffer keeps the invariant when it is from a heap if the policy says so. -/
theorem Allocated.sound {useHeap : Bool} (allocated : Allocated s s' buffer useHeap)
    (sound : Sound s)
    (backed : useHeap = true → ∃ arena ∈ s'.bufferHeaps, buffer.origin = .heap arena.heap) :
    Sound s' := by
  obtain ⟨heaps, fresh, numbered, buffers, live⟩ := allocated
  have older : ∀ owner ∈ s.buffers, owner.buffer.object < buffer.object := fun owner found =>
    lt_of_lt_of_le (sound.numbered owner found) fresh
  constructor
  case distinct =>
    rw [buffers, map_append, nodup_append]
    refine ⟨sound.distinct, nodup_singleton _, ?_⟩
    rintro _ old _ new rfl
    obtain ⟨owner, found, same⟩ := mem_map.mp old
    have later := older owner found
    simp only [map_cons, map_nil, mem_singleton] at new
    omega
  case numbered =>
    intro owner found
    rw [buffers, mem_append, mem_singleton] at found
    rcases found with found | rfl
    · exact lt_trans (older owner found) numbered
    · exact numbered
  case backed =>
    intro owner found flag
    rw [buffers, mem_append, mem_singleton] at found
    rcases found with found | rfl
    · obtain ⟨arena, known, origin⟩ := sound.backed owner found flag
      exact ⟨arena, heaps arena known, origin⟩
    · exact backed flag
  case registered =>
    intro owner found flag
    rw [buffers, mem_append, mem_singleton] at found
    rw [live]
    rcases found with found | rfl
    · have before := sound.registered owner found flag
      split
      · exact before
      · exact mem_append_left _ before
    · simp only at flag
      simp [flag]
  case owned =>
    intro other found
    rw [live] at found
    have old : other ∈ s.liveBuffers → ∃ owner ∈ s'.buffers, owner.buffer = other ∧
        owner.heapBacked = false := by
      intro before
      obtain ⟨owner, mem, same, flag⟩ := sound.owned other before
      exact ⟨owner, by rw [buffers]; exact mem_append_left _ mem, same, flag⟩
    split at found
    · exact old found
    next device =>
      rcases mem_append.mp found with before | new
      · exact old before
      · refine ⟨⟨buffer, useHeap⟩, by simp [buffers], ?_, by simpa using device⟩
        exact (mem_singleton.mp new).symm
  case once =>
    rw [live]
    split
    · exact sound.once
    · rw [nodup_append]
      refine ⟨sound.once, nodup_singleton _, ?_⟩
      rintro other before _ new rfl
      obtain ⟨owner, found, same, -⟩ := sound.owned other before
      have later := older owner found
      rw [mem_singleton.mp new] at same
      rw [same] at later
      exact lt_irrefl _ later

/-- A new buffer from the device that the policy gives to a heap is not declared. -/
theorem Allocated.not_resident (allocated : Allocated s s' buffer true) (sound : Sound s)
    (device : buffer.origin = .device) : ¬ Resident s' := by
  intro resident
  have new : (⟨buffer, true⟩ : BufferImpl) ∈ s'.buffers := by simp [allocated.buffers]
  rcases resident.covered _ new with live | ⟨arena, -, origin⟩
  · rw [allocated.live, if_pos rfl] at live
    obtain ⟨owner, found, same, -⟩ := sound.owned _ live
    have older := sound.numbered owner found
    rw [same] at older
    exact absurd allocated.fresh (not_le.mpr older)
  · rw [device] at origin
    cases origin

theorem Sound.other (sound : Sound s) {index : Nat} {gone : BufferImpl}
    (there : s.buffers[index]? = some gone) {owner : BufferImpl}
    (found : owner ∈ s.buffers.eraseIdx index) : owner.buffer ≠ gone.buffer := by
  obtain ⟨i, apart, at_i⟩ := mem_eraseIdx_iff_getElem?.mp found
  have below : i < (s.buffers.map fun owner => owner.buffer.object).length := by
    rw [length_map]
    exact (List.getElem?_eq_some_iff.mp at_i).1
  intro same
  apply apart
  apply (getElem?_inj below sound.distinct).mp
  rw [getElem?_map, getElem?_map, at_i, there, Option.map_some, Option.map_some, same]

theorem Sound.destroy (sound : Sound s) {index : Nat}
    (destroyed : s.destroy index = some s') : Sound s' := by
  unfold BackendState.destroy at destroyed
  split at destroyed
  next => cases destroyed
  next gone there =>
    have kept : ∀ owner ∈ s.buffers.eraseIdx index, owner ∈ s.buffers := fun owner =>
      mem_of_mem_eraseIdx
    have mem : gone ∈ s.buffers := mem_of_getElem? there
    have distinct : ((s.buffers.eraseIdx index).map fun owner => owner.buffer.object).Nodup :=
      sound.distinct.sublist ((eraseIdx_sublist s.buffers index).map _)
    cases flag : gone.heapBacked with
    | true =>
      simp only [flag, if_true, Option.some.injEq] at destroyed
      subst destroyed
      refine ⟨distinct, fun owner found => sound.numbered owner (kept owner found),
        fun owner found => sound.backed owner (kept owner found),
        fun owner found => sound.registered owner (kept owner found), ?_, sound.once⟩
      intro buffer live
      obtain ⟨owner, found, same, device⟩ := sound.owned buffer live
      refine ⟨owner, ?_, same, device⟩
      obtain ⟨i, at_i⟩ := mem_iff_getElem?.mp found
      refine mem_eraseIdx_iff_getElem?.mpr ⟨i, ?_, at_i⟩
      rintro rfl
      rw [there] at at_i
      cases at_i
      simp [flag] at device
    | false =>
      simp only [flag, Bool.false_eq_true, if_false, Option.some.injEq] at destroyed
      subst destroyed
      refine ⟨distinct, fun owner found => sound.numbered owner (kept owner found),
        fun owner found => sound.backed owner (kept owner found), ?_, ?_, sound.once.erase _⟩
      · intro owner found device
        exact (mem_erase_of_ne (sound.other there found)).mpr
          (sound.registered owner (kept owner found) device)
      · intro buffer live
        obtain ⟨apart, before⟩ := sound.once.mem_erase_iff.mp live
        obtain ⟨owner, found, same, device⟩ := sound.owned buffer before
        refine ⟨owner, ?_, same, device⟩
        obtain ⟨i, at_i⟩ := mem_iff_getElem?.mp found
        refine mem_eraseIdx_iff_getElem?.mpr ⟨i, ?_, at_i⟩
        rintro rfl
        rw [there] at at_i
        cases at_i
        exact apart same.symm

theorem step_sound (sound : Sound s) (grounded : Grounded s action)
    (stepped : step s action = some s') : Sound s' := by
  cases action with
  | destroy index => exact sound.destroy stepped
  | allocate size answers =>
    cases stepped
    rcases allocateBuffer_cases s size answers with
      ⟨grows, -⟩ | ⟨buffer, allocated, ⟨-, -, origin⟩ | ⟨-, policy⟩⟩
    · exact grows.sound sound
    · exact allocated.sound sound fun _ => origin
    · exact allocated.sound sound fun heap => by simp [policy.mp grounded] at heap

theorem step_not_resident (sound : Sound s) (bad : ¬ Grounded s action)
    (stepped : step s action = some s') : ¬ Resident s' := by
  cases action with
  | destroy index => exact absurd trivial bad
  | allocate size answers =>
    cases stepped
    rcases allocateBuffer_cases s size answers with
      ⟨-, grounded⟩ | ⟨buffer, allocated, ⟨-, grounded, -⟩ | ⟨device, policy⟩⟩
    · exact absurd grounded bad
    · exact absurd grounded bad
    · have heap : s.useHeap size = true := by simpa [policy] using bad
      rw [heap] at allocated
      exact allocated.not_resident sound device

/-- The allocations of a run are all declared to every dispatch exactly if no buffer that the
policy gives to a heap comes from the device. -/
theorem residency_iff (heapMode : HeapMode) (threshold chunk : BitVec 64)
    {trail : List (BackendState × Action)} {u : BackendState}
    (run : Run (Steps step) (initial heapMode threshold chunk) trail u) :
    Always Resident trail u ↔ ∀ visited ∈ trail, Grounded visited.1 visited.2 :=
  run.always_iff (fun s (sound : Sound s) => sound.resident)
    (fun s a s' sound grounded (stepped : step s a = some s') =>
      step_sound sound grounded stepped)
    (fun s a s' sound bad (stepped : step s a = some s') => step_not_resident sound bad stepped)
    (sound_initial heapMode threshold chunk)

/-- Everything that is asked of Metal succeeds, but the heaps have no room for a buffer. -/
def devicesOnly (size : BitVec 64) : Answers where
  initialization := none
  room := fun _ => false
  size := size
  align := 256
  newHeap := true
  newHeapRoom := false
  device := true

/-- A small buffer from the device and a large one from a new heap, and the first is destroyed. -/
def bothOrigins : List Action :=
  [.allocate 64 (devicesOnly 64), .allocate 8192 { devicesOnly 8192 with newHeapRoom := true },
    .destroy 0]

theorem residency_iff_bothOrigins : ∃ (trail : List (BackendState × Action)) (u : BackendState),
    trail.map Prod.snd = bothOrigins ∧ Always Resident trail u := by
  obtain ⟨trail, same, run, grounded⟩ := @run_of_guarded _ _ step Grounded _
    (initial .auto_ 4096 65536) _ bothOrigins rfl
  exact ⟨trail, _, same, (residency_iff .auto_ 4096 65536 run).mpr grounded⟩

/-- With heaps for every buffer and no room in them, the device gives a buffer that nothing
declares. -/
theorem fallback_not_resident :
    ¬ ∀ (trail : List (BackendState × Action)) (u : BackendState),
      Run (Steps step) (initial .always 4096 65536) trail u → Always Resident trail u := by
  intro always
  obtain ⟨trail, -, run⟩ := @run_of_execute _ _ step (initial .always 4096 65536) _
    [.allocate 64 (devicesOnly 64)] rfl
  have covered := (always trail _ run).2.covered
  have missed := covered ⟨⟨1, .device⟩, true⟩ (mem_singleton_self _)
  rcases missed with live | ⟨arena, -, origin⟩
  · cases live
  · cases origin

end CuMetal.Residency
