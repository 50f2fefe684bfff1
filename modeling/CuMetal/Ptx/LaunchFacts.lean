import CuMetal.Ptx.LaunchBooks

/-!
# The launch queue keeps its promise

Every steady step keeps the books of the queue, so that a run of steady steps ends with a queue that
the host drains as it should; and what runs with other steps lead to.
-/

namespace CuMetal.Ptx.LaunchQueue

open Function List

open ByteMemory (place read write)
open CuMetal.Runtime (CudaError)

variable {ι : Type} [DecidableEq ι] {queue : BitVec 64} {memory : ByteMemory}
variable {log : List (ι × Call × Operation)} {reserved buffers unlaunched : List Buffer}
variable {s s' : State ι} {t : ι} {reserved' : List Buffer}

/-! ## What a step does to the books -/

theorem Books.fresh (books : Books queue log reserved s) {other : ι} {b : Buffer}
    (here : s.pc other = .heading b) : b ∈ reserved ∧ b ∉ s.buffers := by
  have own := books.threads other
  rw [here] at own
  exact own

variable {pc : Pc} {overflowed' : Bool} {word : BitVec 32}

theorem Books.move (books : Books queue log reserved s) {unlaunched : List Buffer}
    (regions : Regions queue reserved s.buffers unlaunched s.memory)
    (fewer : ∀ b ∈ unlaunched, b ∈ s.unlaunched) (slot : pc.slot = (s.pc t).slot)
    (pending : pc.pending = (s.pc t).pending) (ready : ∀ b, pc ≠ .heading b)
    (own : pc.Ok queue log reserved s.buffers unlaunched s.memory t) :
    Books queue log reserved { s.at t pc with unlaunched := unlaunched } := by
  have here : (s.at t pc).pc t = pc := update_self ..
  have carried : Carried queue log log reserved reserved s
      { s.at t pc with unlaunched := unlaunched } t :=
    { entries := fun _ _ entry => entry
      regions := fun _ mem => mem
      launched := fun b mem launched => ⟨mem, fun waits => launched (fewer b waits), rfl⟩
      records := fun _ _ _ _ _ => rfl
      others := fun other different => update_of_ne different ..
      fresh := fun other _ b heading => (books.fresh heading).2 }
  refine books.carry carried regions books.count books.full (fun _ _ => rfl) ?_ ?_ ?_ ?_
  · rw [here, pending]
    rfl
  · intro b _ heading
    rw [here] at heading
    exact absurd heading (ready b)
  · intro i call operation busy _
    rw [here, slot]
    exact .inl busy
  · rw [here]
    exact own

/-- A thread whose call has no record goes on with a store outside the records. -/
theorem Books.update (books : Books queue log reserved s) {memory' : ByteMemory}
    {buffers' unlaunched' : List Buffer} {start finish : Nat}
    (untouched : Untouched queue s.memory memory' start finish)
    (outside : finish ≤ 16 ∨ recordAreaBytes ≤ start)
    (launched : ∀ b ∈ s.buffers, b ∉ s.unlaunched → b ∈ buffers' ∧ b ∉ unlaunched' ∧
      (b.offset.toNat + b.size.toNat ≤ start ∨ finish ≤ b.offset.toNat))
    (before : ∀ b ∈ reserved, b ∈ reserved')
    (regions : Regions queue reserved' buffers' unlaunched' memory')
    (count : log.length = min (loadWord memory' (wordAddress queue 1)).toNat maxRecords)
    (full : maxRecords < (loadWord memory' (wordAddress queue 1)).toNat ↔ overflowed' = true)
    (slot : (s.pc t).slot = none ∧ pc.slot = none)
    (pending : (s.pc t).pending = [] ∧ pc.pending = [])
    (fresh : ∀ other, other ≠ t → ∀ b, s.pc other = .heading b → b ∉ buffers')
    (heads : ∀ b other, pc = .heading b → other ≠ t → s.pc other ≠ .heading b)
    (own : pc.Ok queue log reserved' buffers' unlaunched' memory' t) :
    Books queue log reserved'
      { s.at t pc with
        memory := memory', buffers := buffers', unlaunched := unlaunched'
        overflowed := overflowed' } := by
  have here : (s.at t pc).pc t = pc := update_self ..
  refine books.carry
    { entries := fun _ _ entry => entry
      regions := before
      launched := fun b mem mine => ?_
      records := fun i small _ position bound => records_untouched untouched outside small bound
      others := fun other different => update_of_ne different ..
      fresh := fresh } regions count full (fun _ _ => rfl) ?_ ?_ ?_ ?_
  · obtain ⟨kept, gone, apart⟩ := launched b mem mine
    have bounds := (books.regions.placed b (books.regions.returned b mem)).bounds
    exact ⟨kept, gone, untouched.read _ _ (by omega) apart⟩
  · rw [here, pending.1, pending.2]
    rfl
  · intro b other heading
    rw [here] at heading
    exact heads b other heading
  · intro i call operation busy
    rw [slot.1] at busy
    exact nomatch busy
  · rw [here]
    exact own

theorem count_storeCursor (memory : ByteMemory) (cursor : BitVec 32) :
    loadWord (storeWord memory (wordAddress queue 0) cursor) (wordAddress queue 1) =
      loadWord memory (wordAddress queue 1) :=
  (untouched_storeWord _ _ (4 * 0) _ (by decide)).loadWord (4 * 1) (by decide)
    (.inr (by decide))

theorem untouched_word (memory : ByteMemory) {index : Nat} (small : index < 2) (word : BitVec 32) :
    Untouched queue memory (storeWord memory (wordAddress queue index) word) (4 * index)
      (4 * index + 4) :=
  untouched_storeWord _ _ _ _ (by omega)

/-- A thread stores one of the first two words and goes on without a record. -/
theorem Books.count_or_cursor (books : Books queue log reserved s) (index : Nat)
    (small : index < 2) (before : ∀ b ∈ reserved, b ∈ reserved')
    (regions : Regions queue reserved' s.buffers s.unlaunched (storeWord s.memory (wordAddress
      queue index) word))
    (count : log.length = min (loadWord (storeWord s.memory (wordAddress queue index) word)
      (wordAddress queue 1)).toNat maxRecords)
    (full : maxRecords < (loadWord (storeWord s.memory (wordAddress queue index) word)
      (wordAddress queue 1)).toNat ↔ overflowed' = true)
    (slot : (s.pc t).slot = none ∧ pc.slot = none)
    (pending : (s.pc t).pending = [] ∧ pc.pending = [])
    (heads : ∀ b other, pc = .heading b → other ≠ t → s.pc other ≠ .heading b)
    (own : pc.Ok queue log reserved' s.buffers s.unlaunched (storeWord s.memory (wordAddress queue
      index) word) t) :
    Books queue log reserved'
      { s.at t pc with
        memory := storeWord s.memory (wordAddress queue index) word
        overflowed := overflowed' } := by
  refine books.update (untouched_word s.memory small word) (.inl (by omega))
    (fun b mem mine => ⟨mem, mine, .inr ?_⟩) before regions count full slot pending
    (fun other _ b heading => (books.fresh heading).2) heads own
  have bounds := (books.regions.placed b (books.regions.returned b mem)).bounds
  omega

section

variable (books : Books queue log reserved s) {alignment size : BitVec 64}
  (here : s.pc t = .reserving alignment size)
  (steady : SteadyReservation (loadWord s.memory (wordAddress queue 0)) (loadWord s.memory
    (wordAddress queue 1)) alignment size)

include books here steady

theorem Books.reserve (fits : Fits (loadWord s.memory (wordAddress queue 0)) alignment size) :
    ∃ reserved', Books queue log reserved'
      { s.at t (.heading ⟨alignedOf (loadWord s.memory (wordAddress queue 0)) alignment,
          alignment, size⟩) with
        memory := storeWord s.memory (wordAddress queue 0)
          (loadWord s.memory (wordAddress queue 0) + reserveOf alignment size) } := by
  have own := books.threads t
  rw [here] at own
  have words := reservation_of_steady own steady
  have area := books.regions.area
  have inside : (alignedOf (loadWord s.memory (wordAddress queue 0)) alignment).toNat + size.toNat ≤
      queueBytes := by
    rw [← words.finish]
    exact fits
  have new : ∀ b ∈ reserved,
      b ≠ ⟨alignedOf (loadWord s.memory (wordAddress queue 0)) alignment, alignment, size⟩ := by
    rintro b mem rfl
    have below := books.regions.below _ mem
    have past := words.past
    dsimp only at below
    omega
  have placed : Buffer.Placed
      ⟨alignedOf (loadWord s.memory (wordAddress queue 0)) alignment, alignment, size⟩ :=
    ⟨words.aligned, Nat.le_trans (Nat.add_le_add_right area 8) words.past, inside⟩
  refine ⟨_, books.count_or_cursor 0 (by decide) (fun b => mem_cons_of_mem _)
    (books.regions.reserve placed words.past words.cursor) ?_ ?_ ⟨by rw [here]; rfl, rfl⟩
    ⟨by rw [here]; rfl, rfl⟩ ?_ ?_⟩
  · rw [count_storeCursor]
    exact books.count
  · rw [count_storeCursor]
    exact books.full
  · rintro b other same _ heading
    cases same
    exact new _ (books.fresh heading).1 rfl
  · exact ⟨mem_cons_self, fun mem => new _ (books.regions.returned _ mem) rfl⟩

theorem Books.exhaust (full : ¬ Fits (loadWord s.memory (wordAddress queue 0)) alignment size) :
    Books queue log reserved
      { s.at t .idle with
        memory := storeWord s.memory (wordAddress queue 0)
          (loadWord s.memory (wordAddress queue 0) + reserveOf alignment size)
        overflowed := true } := by
  have own := books.threads t
  rw [here] at own
  have words := reservation_of_steady own steady
  have more := steady.2.2.2.2 full
  refine books.count_or_cursor 0 (by decide) (fun b mem => mem)
    (books.regions.raise _ ?_) ?_ ?_ ⟨by rw [here]; rfl, rfl⟩ ⟨by rw [here]; rfl, rfl⟩
    (fun _ _ same => nomatch same) trivial
  · have past := words.past
    have cursor := words.cursor
    omega
  · rw [count_storeCursor]
    exact books.count
  · rw [count_storeCursor]
    exact ⟨fun _ => rfl, fun _ => more⟩

end

variable {buffer : Buffer}

theorem Books.head (books : Books queue log reserved s) (here : s.pc t = .heading buffer) :
    Books queue log reserved
      { s.at t .idle with
        memory :=
          storeWord s.memory (byteAddress queue (buffer.offset - 8)) (buffer.size.setWidth 32)
        buffers := buffer :: s.buffers
        unlaunched := buffer :: s.unlaunched } := by
  obtain ⟨mem, fresh⟩ := books.fresh here
  have bounds := (books.regions.placed buffer mem).bounds
  have address : byteAddress queue (buffer.offset - 8) = place queue (buffer.offset.toNat - 8) :=
    (headerAddress_eq queue (by omega) (by omega)).1
  rw [address]
  have untouched := untouched_storeWord queue s.memory (buffer.offset.toNat - 8)
    (buffer.size.setWidth 32) (by omega)
  have area : recordAreaBytes = 65536 := rfl
  have count : loadWord (storeWord s.memory (place queue (buffer.offset.toNat - 8))
      (buffer.size.setWidth 32)) (wordAddress queue 1) = loadWord s.memory (wordAddress queue 1) :=
    untouched.loadWord (4 * 1) (by decide) (.inl (by omega))
  refine books.update untouched (.inr (by omega)) (fun b kept launched => ?_) (fun b mem => mem)
    (books.regions.head mem fresh) ?_ ?_ ⟨by rw [here]; rfl, rfl⟩ ⟨by rw [here]; rfl, rfl⟩ ?_
    (fun _ _ same => nomatch same) trivial
  · have different : b ≠ buffer := fun same => fresh (same ▸ kept)
    refine ⟨mem_cons_of_mem _ kept, ?_, ?_⟩
    · rw [mem_cons]
      exact not_or.mpr ⟨different, launched⟩
    · have other := (books.regions.placed b (books.regions.returned b kept)).bounds
      rcases books.regions.apart b (books.regions.returned b kept) buffer mem different with
        apart | apart <;> omega
  · rw [count]
    exact books.count
  · rw [count]
    exact books.full
  · intro other different b heading mem
    rcases mem_cons.mp mem with rfl | mem
    · exact different (books.alone other t b heading here)
    · exact (books.fresh heading).2 mem

theorem count_storeCount (queue : BitVec 64) (memory : ByteMemory)
    (small : (loadWord memory (wordAddress queue 1)).toNat + 1 < 2 ^ 32) :
    (loadWord (storeWord memory (wordAddress queue 1) (loadWord memory (wordAddress queue 1) + 1))
      (wordAddress queue 1)).toNat = (loadWord memory (wordAddress queue 1)).toNat + 1 := by
  rw [loadWord_storeWord, BitVec.toNat_add]
  exact Nat.mod_eq_of_lt small

theorem Regions.count (regions : Regions queue reserved buffers unlaunched memory)
    (word : BitVec 32) :
    Regions queue reserved buffers unlaunched (storeWord memory (wordAddress queue 1) word) := by
  refine regions.write (untouched_word memory (by decide) word) (by decide) fun b mem => ?_
  have bounds := (regions.placed b (regions.returned b mem)).bounds
  exact .inl (by omega)

section

variable (books : Books queue log reserved s)

include books

variable {operation : Operation}

theorem Books.overflow {call : Call} (here : s.pc t = .counting call operation)
    (small : (loadWord s.memory (wordAddress queue 1)).toNat + 1 < 2 ^ 32)
    (full : maxRecords ≤ (loadWord s.memory (wordAddress queue 1)).toNat) :
    Books queue log reserved
      { s.at t .idle with
        memory := storeWord s.memory (wordAddress queue 1)
          (loadWord s.memory (wordAddress queue 1) + 1)
        overflowed := true } := by
  refine books.count_or_cursor 1 (by decide) (fun b mem => mem) (books.regions.count _) ?_ ?_
    ⟨by rw [here]; rfl, rfl⟩ ⟨by rw [here]; rfl, rfl⟩ (fun _ _ same => nomatch same) trivial
  · rw [count_storeCount queue s.memory small, books.count, min_eq_right full,
      min_eq_right (Nat.le_succ_of_le full)]
  · rw [count_storeCount queue s.memory small]
    exact ⟨fun _ => rfl, fun _ => Nat.lt_succ_of_le full⟩

theorem Books.take {call : Call} (here : s.pc t = .counting call operation)
    (small : (loadWord s.memory (wordAddress queue 1)).toNat < maxRecords)
    (slot : pc.slot = some (loadWord s.memory (wordAddress queue 1)).toNat)
    (pending : pc.pending = [operation]) (ready : ∀ b, pc ≠ .heading b)
    (own : (log ++ [(t, call, operation)])[(loadWord s.memory (wordAddress queue 1)).toNat]? =
      some (t, call, operation) → pc.Ok queue (log ++ [(t, call, operation)]) reserved s.buffers
      s.unlaunched (storeWord s.memory (wordAddress queue 1) (loadWord s.memory (wordAddress queue
      1) + 1)) t) :
    Books queue (log ++ [(t, call, operation)]) reserved
      { s.at t pc with
        memory := storeWord s.memory (wordAddress queue 1)
          (loadWord s.memory (wordAddress queue 1) + 1) } := by
  have at_ : (s.at t pc).pc t = pc := update_self ..
  have length := books.count
  rw [min_eq_left (le_of_lt small)] at length
  have records : maxRecords = 1023 := rfl
  have next := count_storeCount queue s.memory (by omega)
  have last : (log ++ [(t, call, operation)])[(loadWord s.memory (wordAddress queue 1)).toNat]? =
      some (t, call, operation) := by rw [← length]; simp
  have carried : Carried queue log (log ++ [(t, call, operation)]) reserved reserved s
      { s.at t pc with
        memory := storeWord s.memory (wordAddress queue 1)
          (loadWord s.memory (wordAddress queue 1) + 1) } t :=
    { entries := fun i entry mem => by
        rw [List.getElem?_append_left (List.getElem?_eq_some_iff.mp mem).1, mem]
      regions := fun _ mem => mem
      launched := fun b mem launched => by
        have bounds := (books.regions.placed b (books.regions.returned b mem)).bounds
        exact ⟨mem, launched, (untouched_word s.memory (by decide) _).read _ _ (by omega)
          (.inr (by omega))⟩
      records := fun i small _ position bound =>
        records_untouched (untouched_word s.memory (by decide) _) (.inl (by decide)) small bound
      others := fun other different => update_of_ne different ..
      fresh := fun other _ b heading => (books.fresh heading).2 }
  have threads := books.threads t
  rw [here] at threads
  refine
    { regions := books.regions.count _
      alone := fun first second b left right => ?_
      count := ?_
      full := ?_
      kept := fun entry mem => ?_
      stored := fun i t' call' operation' entry => ?_
      orders := fun other => ?_
      threads := fun other => ?_ }
  · have other : ∀ thread, (s.at t pc).pc thread = .heading b → s.pc thread = .heading b := by
      intro thread heading
      by_cases mine : thread = t
      · rw [mine, at_] at heading
        exact absurd heading (ready b)
      · rwa [carried.others thread mine] at heading
    exact books.alone first second b (other first left) (other second right)
  · rw [next, length_append, length_singleton, length,
      min_eq_left (Nat.succ_le_of_lt small)]
  · rw [next]
    refine ⟨fun more => absurd more (by omega), fun overflowed => ?_⟩
    have more := books.full.mpr overflowed
    omega
  · rcases mem_append.mp mem with mem | mem
    · exact books.kept_carried carried (books.kept entry mem)
    · obtain rfl := mem_singleton.mp mem
      exact books.kept_carried carried threads
  · rcases lt_or_ge i log.length with before | after
    · rw [getElem?_append_left before] at entry
      refine books.stored_carried carried entry fun busy => ?_
      rw [here] at busy
      exact nomatch busy
    · rw [getElem?_append_right after] at entry
      obtain ⟨zero, same⟩ := List.getElem?_eq_some_iff.mp entry
      have index : i = log.length := by
        rw [length_singleton] at zero
        omega
      have mine : t' = t := by
        rw [index] at entry
        simp only [Nat.sub_self, getElem?_cons_zero, Option.some.injEq,
          Prod.mk.injEq] at entry
        exact entry.1.symm
      rw [mine, index, length]
      exact .inl ((congrArg Pc.slot at_).trans slot)
  · rw [filter_append, map_append, books.orders other]
    by_cases mine : t = other
    · rw [← mine, at_, here, pending]
      simp [Pc.pending, State.at]
    · have same : (s.at t pc).pc other = s.pc other := carried.others other (Ne.symm mine)
      rw [same]
      simp [mine, State.at]
  · by_cases mine : other = t
    · rw [mine]
      have at' : ({ s.at t pc with
        memory := storeWord s.memory (wordAddress queue 1)
          (loadWord s.memory (wordAddress queue 1) + 1) } : State ι).pc t = pc := at_
      rw [at']
      exact own last
    · exact books.others carried mine

/-- A thread stores a word of its record, and it returns when the record is complete. -/
theorem Books.store {index : Nat} {position : Nat} {pending : List (Nat × BitVec 32)}
    (here : s.pc t = .storing index operation ((position, word) :: pending))
    {accepted : List Operation}
    (next : pc = .storing index operation pending ∧ accepted = s.accepted t ∨ pc = .idle ∧ pending
      = [] ∧ accepted = s.accepted t ++ [operation]) :
    Books queue log reserved
      { s.at t pc with
        memory := storeWord s.memory (recordAddress queue index position) word
        accepted := Function.update s.accepted t accepted } := by
  have at_ : (s.at t pc).pc t = pc := update_self ..
  have own := books.threads t
  rw [here] at own
  obtain ⟨call, written, entry, all, done⟩ := own
  have inside := Nat.lt_of_lt_of_le (List.getElem?_eq_some_iff.mp entry).1 books.few
  have records : maxRecords = 1023 := rfl
  have area : recordAreaBytes = 65536 := rfl
  obtain ⟨once, positions⟩ := recordOf_positions queue call.size call
  rw [all] at once positions
  have bound : position < 16 := positions (position, word) (by simp)
  have untouched := untouched_storeWord queue s.memory (4 * (4 + 16 * index + position)) word
    (by omega)
  have stored : Stored queue (storeWord s.memory (recordAddress queue index position) word) index
      (written ++ [(position, word)]) := by
    intro other mem
    rcases mem_append.mp mem with mem | mem
    · have different : other.1 ≠ position := by
        rw [map_append, map_cons, nodup_append] at once
        exact once.2.2 _ (mem_map_of_mem mem) _ mem_cons_self
      have small := positions other (mem_append_left _ mem)
      rw [← done other mem]
      exact untouched.loadWord _ (by omega) (by omega)
    · obtain rfl := mem_singleton.mp mem
      exact loadWord_storeWord _ _
  have count : loadWord (storeWord s.memory (recordAddress queue index position) word)
      (wordAddress queue 1) = loadWord s.memory (wordAddress queue 1) :=
    untouched.loadWord (4 * 1) (by decide) (.inl (by omega))
  have carried : Carried queue log log reserved reserved s
      { s.at t pc with
        memory := storeWord s.memory (recordAddress queue index position) word
        accepted := Function.update s.accepted t accepted } t :=
    { entries := fun _ _ entry => entry
      regions := fun _ mem => mem
      launched := fun b mem launched => by
        have bounds := (books.regions.placed b (books.regions.returned b mem)).bounds
        exact ⟨mem, launched, untouched.read _ _ (by omega) (.inr (by omega))⟩
      records := fun i small other position' bound' => by
        rw [here] at other
        have different : index ≠ i := fun same => other (congrArg some same)
        exact untouched.loadWord _ (by omega) (by omega)
      others := fun other different => update_of_ne different ..
      fresh := fun other _ b heading => (books.fresh heading).2 }
  refine books.carry carried (books.regions.write untouched (by omega) fun b mem => ?_)
    (by rw [count]; exact books.count) (by rw [count]; exact books.full)
    (fun other different => update_of_ne different ..) ?_ ?_ ?_ ?_
  · have bounds := (books.regions.placed b (books.regions.returned b mem)).bounds
    exact .inl (by omega)
  · rw [here]
    dsimp only
    rw [at_, update_self]
    rcases next with ⟨rfl, rfl⟩ | ⟨rfl, rfl, rfl⟩
    · rfl
    · exact append_nil _
  · intro b other heading
    have heading' : pc = .heading b := at_ ▸ heading
    rcases next with ⟨rfl, -⟩ | ⟨rfl, -⟩
    · exact nomatch heading'
    · exact nomatch heading'
  · intro i call' operation' busy entry'
    rw [here] at busy
    cases busy
    rw [entry] at entry'
    cases entry'
    rcases next with ⟨rfl, -⟩ | ⟨rfl, rfl, -⟩
    · exact .inl (congrArg Pc.slot at_)
    · rw [all]
      exact .inr stored
  · have own : pc.Ok queue log reserved s.buffers s.unlaunched
        (storeWord s.memory (recordAddress queue index position) word) t := by
      rcases next with ⟨rfl, -⟩ | ⟨rfl, -⟩
      · exact ⟨call, written ++ [(position, word)], entry, by rw [all, append_assoc]; rfl,
          stored⟩
      · trivial
    dsimp only
    rw [at_]
    exact own

theorem Books.fill {start : Nat} {bytes : List UInt8} (here : s.pc t = .idle)
    (waits : buffer ∈ s.unlaunched) (inside : start + bytes.length ≤ buffer.size.toNat) :
    Books queue log reserved
      { s.at t .idle with
        memory := write s.memory (place (byteAddress queue buffer.offset) start) bytes } := by
  have mem := books.regions.returned buffer (books.regions.waiting buffer waits)
  have bounds := (books.regions.placed buffer mem).bounds
  have area : recordAreaBytes = 65536 := rfl
  rw [byteAddress_eq (by omega), ByteMemory.place_add]
  have untouched := untouched_write queue s.memory (buffer.offset.toNat + start) bytes (by omega)
  have count : loadWord (write s.memory (place queue (buffer.offset.toNat + start)) bytes)
      (wordAddress queue 1) = loadWord s.memory (wordAddress queue 1) :=
    untouched.loadWord (4 * 1) (by decide) (.inl (by omega))
  refine books.update untouched (.inr (by omega)) (fun b kept launched => ⟨kept, launched, ?_⟩)
    (fun b mem => mem) (books.regions.write untouched (by omega) fun b kept => ?_)
    (by rw [count]; exact books.count) (by rw [count]; exact books.full)
    ⟨by rw [here]; rfl, rfl⟩ ⟨by rw [here]; rfl, rfl⟩
    (fun other _ b heading => (books.fresh heading).2) (fun _ _ same => nomatch same) trivial
  · have different : b ≠ buffer := fun same => launched (same ▸ waits)
    rcases books.regions.apart b (books.regions.returned b kept) buffer mem different with
      apart | apart <;> omega
  · have other := (books.regions.placed b (books.regions.returned b kept)).bounds
    by_cases same : b = buffer
    · rw [same]
      exact .inr (by omega)
    · rcases books.regions.apart b (books.regions.returned b kept) buffer mem same with
        apart | apart <;> omega

/-! ## Runs -/

theorem Books.advance
    (steady : (s.pc t).Steady queue s.memory) (stepped : s.advance queue t = some s') :
    ∃ log' reserved', Books queue log' reserved' s' := by
  cases here : s.pc t with
  | idle =>
    rw [State.advance, here] at stepped
    exact nomatch stepped
  | reserving alignment size =>
    rw [here] at steady
    simp only [State.advance, here] at stepped
    split at stepped
    · rename_i fits
      cases stepped
      obtain ⟨reserved', after⟩ := books.reserve here steady fits
      exact ⟨log, reserved', after⟩
    · rename_i full
      cases stepped
      exact ⟨log, reserved, books.exhaust here steady full⟩
  | heading buffer =>
    simp only [State.advance, here] at stepped
    cases stepped
    exact ⟨log, reserved, books.head here⟩
  | counting call operation =>
    rw [here] at steady
    simp only [State.advance, here] at stepped
    split at stepped
    · rename_i room
      have small : (loadWord s.memory (wordAddress queue 1)).toNat < maxRecords := room
      cases call with
      | cudaMemcpyAsync destination source count kind stream =>
        cases stepped
        exact ⟨_, reserved, books.take here small rfl rfl nofun fun entry =>
          ⟨_, [], entry, rfl, fun _ mem => absurd mem not_mem_nil⟩⟩
      | cudaLaunchDevice token buffer grid block sharedBytes stream =>
        cases stepped
        exact ⟨_, reserved, books.take here small rfl rfl nofun fun entry => ⟨entry, rfl⟩⟩
    · rename_i full
      have full' : maxRecords ≤ (loadWord s.memory (wordAddress queue 1)).toNat :=
        Nat.le_of_not_lt full
      cases stepped
      exact ⟨log, reserved, books.overflow here steady full'⟩
  | loading index buffer call operation =>
    simp only [State.advance, here] at stepped
    cases stepped
    have own := books.threads t
    rw [here] at own
    obtain ⟨entry, given⟩ := own
    refine ⟨log, reserved, books.move books.regions (fun _ mem => mem) (by rw [here]; rfl)
      (by rw [here]; rfl) nofun ⟨call, [], entry, ?_, fun _ mem => absurd mem not_mem_nil⟩⟩
    have kept := (books.kept _ (mem_of_getElem? entry)).buffer buffer given
    have bounds := (books.regions.placed buffer (books.regions.returned buffer kept.1)).bounds
    rw [(headerAddress_eq queue (by omega) (by omega)).2, books.regions.headed buffer kept.1]
    cases call with
    | cudaMemcpyAsync => exact nomatch given
    | cudaLaunchDevice token buffer' grid block sharedBytes stream =>
      cases given
      rfl
  | storing index operation pending =>
    cases pending with
    | nil =>
      rw [State.advance, here] at stepped
      exact nomatch stepped
    | cons entry pending =>
      obtain ⟨position, word⟩ := entry
      simp only [State.advance, here] at stepped
      split at stepped
      · rename_i last
        cases stepped
        exact ⟨log, reserved, books.store here
          (.inr ⟨rfl, isEmpty_iff.mp last, rfl⟩)⟩
      · cases stepped
        have stored := books.store here (.inl ⟨rfl, rfl⟩)
        rw [update_eq_self] at stored
        exact ⟨log, reserved, stored⟩

theorem Books.step {a : Action ι} (steady : Steady queue s a)
    (stepped : step queue s a = some s') : ∃ log' reserved', Books queue log' reserved' s' := by
  cases a with
  | cudaGetParameterBuffer thread alignment size =>
    simp only [LaunchQueue.step] at stepped
    split at stepped
    · rename_i here
      split at stepped
      · rename_i power
        cases stepped
        exact ⟨log, reserved, books.move books.regions (fun _ mem => mem) (by rw [here]; rfl)
          (by rw [here]; rfl) nofun power⟩
      · exact nomatch stepped
    · exact nomatch stepped
  | fill thread buffer start bytes =>
    simp only [LaunchQueue.step] at stepped
    split at stepped
    · rename_i here
      split at stepped
      · rename_i allowed
        cases stepped
        exact ⟨log, reserved, books.fill here allowed.1 allowed.2⟩
      · exact nomatch stepped
    · exact nomatch stepped
  | call thread call =>
    simp only [LaunchQueue.step] at stepped
    split at stepped
    · rename_i here
      cases call with
      | cudaMemcpyAsync destination source count kind stream =>
        cases stepped
        exact ⟨log, reserved, books.move books.regions (fun _ mem => mem) (by rw [here]; rfl)
          (by rw [here]; rfl) nofun ⟨rfl, fun _ given => nomatch given⟩⟩
      | cudaLaunchDevice token buffer grid block sharedBytes stream =>
        dsimp only at stepped
        split at stepped
        · rename_i waits
          cases stepped
          refine ⟨log, reserved, books.move (books.regions.launch buffer)
            (fun _ => mem_of_mem_erase) (by rw [here]; rfl) (by rw [here]; rfl) nofun
            ⟨rfl, fun _ given => ?_⟩⟩
          cases given
          exact ⟨books.regions.waiting buffer waits, books.regions.once.not_mem_erase⟩
        · exact nomatch stepped
    · exact nomatch stepped
  | advance thread => exact books.advance steady stepped

end

/-- In a run whose steps are steady, every state keeps the promise. -/
theorem holds_of_steady {trail : List (State ι × Action ι)}
    (run : Guarded.Run (Guarded.Steps (step queue)) (initial ι queue memory) trail s)
    (steady : ∀ visited ∈ trail, Steady queue visited.1 visited.2) :
    Guarded.Always (Holds queue) trail s := by
  have keeps : ∀ (s : State ι) a s', (∃ log reserved, Books queue log reserved s) →
      Steady queue s a → Guarded.Steps (step queue) s a s' →
        ∃ log reserved, Books queue log reserved s' := by
    rintro s a s' ⟨log, reserved, books⟩ steady stepped
    exact books.step steady stepped
  have always := run.invariant keeps ⟨[], [], books_initial queue memory⟩ steady
  have grants : ∀ s : State ι, (∃ log reserved, Books queue log reserved s) → Holds queue s := by
    rintro s ⟨log, reserved, books⟩
    exact books.holds
  exact ⟨fun visited mem => grants _ (always.1 visited mem), grants _ always.2⟩

def accesses (count : Nat) : List (Action Unit) := List.replicate count (.advance ())

/-- A buffer is filled and launched, and a copy follows. -/
def launchAndCopy : List (Action Unit) :=
  let buffer : Buffer := ⟨65544, 8, 4⟩
  [.cudaGetParameterBuffer () 8 4] ++ accesses 2 ++
    [.fill () buffer 0 [1, 2, 3, 4],
      .call () (.cudaLaunchDevice 7 buffer ⟨1, 1, 1⟩ ⟨32, 1, 1⟩ 0 0)] ++ accesses 18 ++
    [.call () (.cudaMemcpyAsync 4096 8192 64 3 0)] ++ accesses 17

theorem holds_of_steady_launch : ∃ (trail : List (State Unit × Action Unit)) (u : State Unit),
    trail.map Prod.snd = launchAndCopy ∧ Guarded.Always (Holds 0x100000000) trail u := by
  have can : (Guarded.execute (fun s a => if Steady 0x100000000 s a then step 0x100000000 s a
      else none) (initial Unit 0x100000000 fun _ => 0) launchAndCopy).isSome = true := by
    decide +kernel
  obtain ⟨u, executed⟩ := Option.isSome_iff_exists.mp can
  obtain ⟨trail, same, run, steady⟩ := Guarded.run_of_guarded executed
  exact ⟨trail, u, same, holds_of_steady run steady⟩

/-- A request that the queue has no room for: nothing tells the host. -/
def outOfRoom : List (Action Unit) := [.cudaGetParameterBuffer () 8 0x200000] ++ accesses 1

/-- A request whose size is more than a word holds: the buffer has eight bytes. -/
def cutSize : List (Action Unit) := [.cudaGetParameterBuffer () 8 0x100000008] ++ accesses 2

/-- Two requests of an alignment at which the words wrap: the second buffer is the queue itself. -/
def wrapAround : List (Action Unit) :=
  [.cudaGetParameterBuffer () 0x80000000 0] ++ accesses 1 ++
    [.cudaGetParameterBuffer () 0x80000000 0] ++ accesses 2

def willing : Host Unit Unit where
  cudaMemcpyAsync _ _ _ _ world := .ok world
  lookupDeviceKernelAlias _ world := some ((), [], world)
  cudaLaunchKernel _ _ _ _ _ world := .ok world

def Breaks (actions : List (Action Unit)) : Prop :=
  ∃ (trail : List (State Unit × Action Unit)) (u : State Unit),
    trail.map Prod.snd = actions ∧
    Guarded.Run (Guarded.Steps (step 0x100000000)) (initial Unit 0x100000000 fun _ => 0) trail u ∧
    ¬ Holds 0x100000000 u

theorem queue_breaks : Breaks outOfRoom ∧ Breaks cutSize ∧ Breaks wrapAround := by
  have first := @Guarded.run_of_execute _ _ (step 0x100000000)
    (initial Unit 0x100000000 fun _ => 0) _ outOfRoom rfl
  have second := @Guarded.run_of_execute _ _ (step 0x100000000)
    (initial Unit 0x100000000 fun _ => 0) _ cutSize rfl
  have third := @Guarded.run_of_execute _ _ (step 0x100000000)
    (initial Unit 0x100000000 fun _ => 0) _ wrapAround rfl
  refine ⟨?_, ?_, ?_⟩
  · obtain ⟨trail, same, run⟩ := first
    refine ⟨trail, _, same, run, fun holds => ?_⟩
    obtain ⟨error, failed⟩ := holds.reports (fun _ => rfl) rfl willing ()
    change (Except.ok () : Except CudaError Unit) = .error error at failed
    exact nomatch failed
  · obtain ⟨trail, same, run⟩ := second
    refine ⟨trail, _, same, run, fun holds => ?_⟩
    have inside := (holds.placed _ mem_cons_self).inside
    exact absurd inside (by decide)
  · obtain ⟨trail, same, run⟩ := third
    refine ⟨trail, _, same, run, fun holds => ?_⟩
    have past := (holds.placed _ mem_cons_self).past
    exact absurd past (by decide)

end CuMetal.Ptx.LaunchQueue
