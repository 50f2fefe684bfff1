import CuMetal.Ptx.LaunchRecords

/-!
# The books of the launch queue

Which parts of the queue are reserved, what each record will say when its stores are done, and where
the threads are; and what a step leaves of that as it is.
-/

namespace CuMetal.Ptx.LaunchQueue

open List

open ByteMemory (place read write)

variable {ι : Type} [DecidableEq ι] {queue : BitVec 64} {memory : ByteMemory}

def Pc.slot : Pc → Option Nat
  | .loading index _ _ _ => some index
  | .storing index _ _ => some index
  | _ => none

/-- The operations of a call that has a record and has not returned. -/
def Pc.pending : Pc → List Operation
  | .loading _ _ _ operation => [operation]
  | .storing _ operation _ => [operation]
  | _ => []

/-- The operation is that of the call, whose buffer nobody can write to any more. -/
structure Kept (queue : BitVec 64) (memory : ByteMemory) (buffers unlaunched : List Buffer)
    (call : Call) (operation : Operation) : Prop where
  operation : operation = operationOf queue memory call
  buffer : ∀ buffer, call.buffer? = some buffer → buffer ∈ buffers ∧ buffer ∉ unlaunched

/-- What a thread knows where it is. -/
def Pc.Ok (queue : BitVec 64) (log : List (ι × Call × Operation))
    (reserved buffers unlaunched : List Buffer) (memory : ByteMemory) (thread : ι) : Pc → Prop
  | .idle => True
  | .reserving alignment _ => PowerOfTwo alignment
  | .heading buffer => buffer ∈ reserved ∧ buffer ∉ buffers
  | .counting call operation => Kept queue memory buffers unlaunched call operation
  | .loading index buffer call operation =>
    log[index]? = some (thread, call, operation) ∧ call.buffer? = some buffer
  | .storing index operation pending =>
    ∃ call written, log[index]? = some (thread, call, operation) ∧
      recordOf queue call.size call = written ++ pending ∧
      Stored queue memory index written

/-- The cursor is past what is reserved, the reserved buffers are placed and apart, and those of
them that were returned have their size before them. -/
structure Regions (queue : BitVec 64) (reserved buffers unlaunched : List Buffer)
    (memory : ByteMemory) : Prop where
  area : recordAreaBytes ≤ (loadWord memory (wordAddress queue 0)).toNat
  below : ∀ b ∈ reserved,
    b.offset.toNat + b.size.toNat ≤ (loadWord memory (wordAddress queue 0)).toNat
  apart : ∀ a ∈ reserved, ∀ b ∈ reserved, a ≠ b → a.Apart b
  placed : ∀ b ∈ reserved, b.Placed
  returned : ∀ b ∈ buffers, b ∈ reserved
  nodup : buffers.Nodup
  waiting : ∀ b ∈ unlaunched, b ∈ buffers
  once : unlaunched.Nodup
  headed : ∀ b ∈ buffers,
    loadWord memory (place queue (b.offset.toNat - 8)) = b.size.setWidth 32

/-- The words of the queue, the reserved buffers, the records and the threads agree. -/
structure Books (queue : BitVec 64) (log : List (ι × Call × Operation)) (reserved : List Buffer)
    (s : State ι) : Prop where
  regions : Regions queue reserved s.buffers s.unlaunched s.memory
  alone : ∀ t t' b, s.pc t = .heading b → s.pc t' = .heading b → t = t'
  count : log.length = min (loadWord s.memory (wordAddress queue 1)).toNat maxRecords
  full : maxRecords < (loadWord s.memory (wordAddress queue 1)).toNat ↔ s.overflowed = true
  kept : ∀ entry ∈ log, Kept queue s.memory s.buffers s.unlaunched entry.2.1 entry.2.2
  stored : ∀ i t call operation, log[i]? = some (t, call, operation) →
    (s.pc t).slot = some i ∨ Stored queue s.memory i (recordOf queue call.size call)
  orders : ∀ t, (log.filter fun entry => entry.1 = t).map (fun entry => entry.2.2) =
    s.accepted t ++ (s.pc t).pending
  threads : ∀ t, (s.pc t).Ok queue log reserved s.buffers s.unlaunched s.memory t

variable {log : List (ι × Call × Operation)} {reserved : List Buffer} {s : State ι}

theorem books_initial (queue : BitVec 64) (memory : ByteMemory) :
    Books queue [] [] (initial ι queue memory) := by
  have cursor : loadWord (initial ι queue memory).memory (wordAddress queue 0) =
      BitVec.ofNat 32 recordAreaBytes := by
    have same := (untouched_storeWord queue
      (storeWord (fun address => if (address - queue).toNat < queueBytes then 0 else memory address)
        (wordAddress queue 0) (BitVec.ofNat 32 recordAreaBytes))
      (4 * 1) 0 (by decide)).loadWord (4 * 0) (by decide) (.inl (by decide))
    exact same.trans (loadWord_storeWord _ _)
  have count : loadWord (initial ι queue memory).memory (wordAddress queue 1) = 0 :=
    loadWord_storeWord _ _
  exact
    { regions :=
        { area := by rw [cursor]; decide
          below := fun _ mem => absurd mem not_mem_nil
          apart := fun _ mem => absurd mem not_mem_nil
          placed := fun _ mem => absurd mem not_mem_nil
          returned := fun _ mem => absurd mem not_mem_nil
          nodup := nodup_nil
          waiting := fun _ mem => absurd mem not_mem_nil
          once := nodup_nil
          headed := fun _ mem => absurd mem not_mem_nil }
      alone := fun _ _ _ here => nomatch here
      count := by rw [count]; rfl
      full := by rw [count]; exact ⟨fun more => absurd more (by decide), fun set_ => nomatch set_⟩
      kept := fun _ mem => absurd mem not_mem_nil
      stored := fun _ _ _ _ here => nomatch here
      orders := fun _ => rfl
      threads := fun _ => trivial }

theorem Books.holds (books : Books queue log reserved s) : Holds queue s where
  apart := books.regions.nodup.pairwise_of_forall_ne fun a left b right =>
    books.regions.apart a (books.regions.returned a left) b (books.regions.returned b right)
  placed b mem := books.regions.placed b (books.regions.returned b mem)
  replays quiet clear := by
    refine ⟨log.map fun entry => (entry.1, entry.2.2), fun thread => ?_, fun host world => ?_⟩
    · have order := books.orders thread
      rw [quiet thread] at order
      rw [filter_map, map_map, ← append_nil (s.accepted thread)]
      exact order
    · have few : ¬ maxRecords < (loadWord s.memory (wordAddress queue 1)).toNat := by
        rw [books.full, clear]
        exact Bool.false_ne_true
      have length := books.count
      rw [min_eq_left (Nat.le_of_not_lt few)] at length
      have taken := foldlM_range_eq_replay host (drainRecord host queue s.memory)
        (log.map fun entry => entry.2.2) (fun i operation here world => by
          rw [getElem?_map] at here
          obtain ⟨⟨t, call, _⟩, inside, rfl⟩ := Option.map_eq_some_iff.mp here
          have kept := books.kept _ (mem_of_getElem? inside)
          rcases books.stored i t call _ inside with busy | stored
          · rw [quiet t] at busy
            exact nomatch busy
          · rw [drainRecord_eq host (fun buffer own =>
              books.regions.placed buffer (books.regions.returned buffer
                (kept.buffer buffer own).1)) stored,
              ← kept.operation]) world
      rw [drain, if_neg few, ← length]
      rw [length_map] at taken
      rw [taken, map_map]
      rfl
  reports _ overflowed _ _ host world := by
    refine ⟨.launchOutOfResources, ?_⟩
    rw [drain]
    exact if_pos (books.full.mpr overflowed)

/-! ## What a step leaves as it is -/

variable {log' : List (ι × Call × Operation)} {reserved' : List Buffer} {s' : State ι} {t : ι}

/-- What a step of a thread leaves to the others: the records but the one that it writes, and the
buffers that were launched. -/
structure Carried (queue : BitVec 64) (log log' : List (ι × Call × Operation))
    (reserved reserved' : List Buffer) (s s' : State ι) (t : ι) : Prop where
  entries : ∀ (i : Nat) entry, log[i]? = some entry → log'[i]? = some entry
  regions : ∀ b ∈ reserved, b ∈ reserved'
  launched : ∀ b ∈ s.buffers, b ∉ s.unlaunched → b ∈ s'.buffers ∧ b ∉ s'.unlaunched ∧
    read s'.memory (place queue b.offset.toNat) b.size.toNat =
      read s.memory (place queue b.offset.toNat) b.size.toNat
  records : ∀ i < maxRecords, (s.pc t).slot ≠ some i → ∀ position < 16,
    loadWord s'.memory (recordAddress queue i position) =
      loadWord s.memory (recordAddress queue i position)
  others : ∀ other, other ≠ t → s'.pc other = s.pc other
  fresh : ∀ other, other ≠ t → ∀ b, s.pc other = .heading b → b ∉ s'.buffers

theorem Books.few (books : Books queue log reserved s) : log.length ≤ maxRecords := by
  rw [books.count]
  exact min_le_right _ _

theorem Buffer.Placed.bounds {b : Buffer} (placed : b.Placed) :
    65536 + 8 ≤ b.offset.toNat ∧ b.offset.toNat + b.size.toNat ≤ 1048576 :=
  ⟨placed.past, placed.inside⟩

variable {i : Nat} {operation : Operation}

theorem Books.own (books : Books queue log reserved s) (busy : (s.pc t).slot = some i) :
    ∃ call operation, log[i]? = some (t, call, operation) := by
  have own := books.threads t
  cases here : s.pc t with
  | loading index buffer call operation =>
    rw [here] at own busy
    cases busy
    exact ⟨call, operation, own.1⟩
  | storing index operation pending =>
    rw [here] at own busy
    cases busy
    obtain ⟨call, written, entry, _⟩ := own
    exact ⟨call, operation, entry⟩
  | idle | reserving _ _ | heading _ | counting _ _ =>
    rw [here] at busy
    exact nomatch busy

theorem Books.kept_carried (books : Books queue log reserved s)
    (carried : Carried queue log log' reserved reserved' s s' t) {call : Call}
    (kept : Kept queue s.memory s.buffers s.unlaunched call operation) :
    Kept queue s'.memory s'.buffers s'.unlaunched call operation := by
  refine ⟨?_, fun buffer own => ?_⟩
  · rw [kept.operation]
    cases call with
    | cudaMemcpyAsync => rfl
    | cudaLaunchDevice token buffer grid block sharedBytes stream =>
      obtain ⟨mem, launched⟩ := kept.buffer buffer rfl
      have bounds := (books.regions.placed buffer (books.regions.returned buffer mem)).bounds
      rw [operationOf, operationOf, byteAddress_eq (by omega),
        (carried.launched buffer mem launched).2.2]
  · obtain ⟨mem, launched⟩ := kept.buffer buffer own
    exact ⟨(carried.launched buffer mem launched).1, (carried.launched buffer mem launched).2.1⟩

omit [DecidableEq ι] in
theorem Carried.stored (carried : Carried queue log log' reserved reserved' s s' t)
    (small : i < maxRecords) (other : (s.pc t).slot ≠ some i) {words : List (Nat × BitVec 32)}
    (positions : ∀ entry ∈ words, entry.1 < 16) (stored : Stored queue s.memory i words) :
    Stored queue s'.memory i words := by
  intro entry mem
  rw [carried.records i small other entry.1 (positions entry mem)]
  exact stored entry mem

theorem Books.others (books : Books queue log reserved s)
    (carried : Carried queue log log' reserved reserved' s s' t) {other : ι}
    (different : other ≠ t) :
    (s'.pc other).Ok queue log' reserved' s'.buffers s'.unlaunched s'.memory other := by
  have own := books.threads other
  rw [carried.others other different]
  cases here : s.pc other with
  | idle => trivial
  | reserving alignment size =>
    rw [here] at own
    exact own
  | heading buffer =>
    rw [here] at own
    exact ⟨carried.regions _ own.1, carried.fresh other different _ here⟩
  | counting call operation =>
    rw [here] at own
    exact books.kept_carried carried own
  | loading index buffer call operation =>
    rw [here] at own
    exact ⟨carried.entries _ _ own.1, own.2⟩
  | storing index operation pending =>
    rw [here] at own
    obtain ⟨call, written, entry, all, stored⟩ := own
    refine ⟨call, written, carried.entries _ _ entry, all, carried.stored ?_ ?_ ?_ stored⟩
    · exact Nat.lt_of_lt_of_le (List.getElem?_eq_some_iff.mp entry).1 books.few
    · intro busy
      obtain ⟨_, _, entry'⟩ := books.own busy
      rw [entry] at entry'
      cases entry'
      exact different rfl
    · intro word mem
      exact (recordOf_positions queue call.size call).2 word
        (all ▸ mem_append_left pending mem)

theorem Books.stored_carried (books : Books queue log reserved s)
    (carried : Carried queue log log' reserved reserved' s s' t) {t' : ι} {call : Call}
    (entry : log[i]? = some (t', call, operation))
    (own : (s.pc t).slot = some i → (s'.pc t).slot = some i ∨ Stored queue s'.memory i (recordOf
      queue call.size call)) :
    (s'.pc t').slot = some i ∨ Stored queue s'.memory i (recordOf queue call.size call) := by
  have small := Nat.lt_of_lt_of_le (List.getElem?_eq_some_iff.mp entry).1 books.few
  by_cases busy : (s.pc t).slot = some i
  · obtain ⟨_, _, entry'⟩ := books.own busy
    rw [entry] at entry'
    cases entry'
    exact own busy
  · rcases books.stored i t' call operation entry with busy' | stored
    · have different : t' ≠ t := fun same => busy (same ▸ busy')
      rw [carried.others t' different]
      exact .inl busy'
    · exact .inr (carried.stored small busy (recordOf_positions queue _ call).2 stored)

theorem Books.carry (books : Books queue log reserved s)
    (carried : Carried queue log log reserved reserved' s s' t)
    (regions : Regions queue reserved' s'.buffers s'.unlaunched s'.memory)
    (count : log.length = min (loadWord s'.memory (wordAddress queue 1)).toNat maxRecords)
    (full : maxRecords < (loadWord s'.memory (wordAddress queue 1)).toNat ↔ s'.overflowed = true)
    (accepted : ∀ other, other ≠ t → s'.accepted other = s.accepted other)
    (order : s'.accepted t ++ (s'.pc t).pending = s.accepted t ++ (s.pc t).pending)
    (heads : ∀ b other, s'.pc t = .heading b → other ≠ t → s.pc other ≠ .heading b)
    (stored : ∀ i call operation, (s.pc t).slot = some i → log[i]? = some (t, call, operation) →
      (s'.pc t).slot = some i ∨ Stored queue s'.memory i (recordOf queue call.size call))
    (own : (s'.pc t).Ok queue log reserved' s'.buffers s'.unlaunched s'.memory t) :
    Books queue log reserved' s' where
  regions := regions
  alone first second b here here' := by
    by_cases mine : first = t
    · by_cases mine' : second = t
      · rw [mine, mine']
      · rw [mine] at here
        rw [carried.others second mine'] at here'
        exact absurd here' (heads b second here mine')
    · rw [carried.others first mine] at here
      by_cases mine' : second = t
      · rw [mine'] at here'
        exact absurd here (heads b first here' mine)
      · rw [carried.others second mine'] at here'
        exact books.alone first second b here here'
  count := count
  full := full
  kept entry mem := books.kept_carried carried (books.kept entry mem)
  stored i t' call operation entry := by
    refine books.stored_carried carried entry fun busy => ?_
    obtain ⟨_, _, entry'⟩ := books.own busy
    rw [entry] at entry'
    cases entry'
    exact stored i call operation busy entry
  orders other := by
    rw [books.orders other]
    by_cases mine : other = t
    · rw [mine, order]
    · rw [carried.others other mine, accepted other mine]
  threads other := by
    by_cases mine : other = t
    · rw [mine]
      exact own
    · exact books.others carried mine

variable {buffers unlaunched : List Buffer} {memory' : ByteMemory} {finish : Nat}

section

variable (regions : Regions queue reserved buffers unlaunched memory)

include regions

theorem Regions.write {start : Nat} (untouched : Untouched queue memory memory' start finish)
    (past : 4 ≤ start)
    (headers : ∀ b ∈ buffers, finish ≤ b.offset.toNat - 8 ∨ b.offset.toNat - 4 ≤ start) :
    Regions queue reserved buffers unlaunched memory' := by
  have cursor : loadWord memory' (wordAddress queue 0) = loadWord memory (wordAddress queue 0) :=
    untouched.loadWord (4 * 0) (by decide) (.inl past)
  refine { regions with
    area := cursor ▸ regions.area
    below := cursor ▸ regions.below
    headed := fun b mem => ?_ }
  have bounds := (regions.placed b (regions.returned b mem)).bounds
  rw [untouched.loadWord _ (by omega) (by have := headers b mem; omega)]
  exact regions.headed b mem

theorem Regions.raise
    (cursor : BitVec 32) (more : (loadWord memory (wordAddress queue 0)).toNat ≤ cursor.toNat) :
    Regions queue reserved buffers unlaunched
      (storeWord memory (wordAddress queue 0) cursor) := by
  refine { regions with
    area := ?_
    below := fun b mem => ?_
    headed := fun b mem => ?_ }
  · rw [loadWord_storeWord]
    exact le_trans regions.area more
  · rw [loadWord_storeWord]
    exact le_trans (regions.below b mem) more
  · have bounds := (regions.placed b (regions.returned b mem)).bounds
    rw [wordAddress, (untouched_storeWord _ _ _ _ (by decide)).loadWord _ (by omega) (by omega)]
    exact regions.headed b mem

variable {buffer : Buffer}

theorem Regions.reserve {cursor : BitVec 32} (placed : buffer.Placed)
    (past : (loadWord memory (wordAddress queue 0)).toNat + 8 ≤ buffer.offset.toNat)
    (below : buffer.offset.toNat + buffer.size.toNat ≤ cursor.toNat) :
    Regions queue (buffer :: reserved) buffers unlaunched
      (storeWord memory (wordAddress queue 0) cursor) := by
  have raised := regions.raise cursor (by omega)
  refine { raised with
    below := fun b mem => ?_
    apart := fun a left b right different => ?_
    placed := fun b mem => ?_
    returned := fun b mem => mem_cons_of_mem _ (raised.returned b mem) }
  · rcases mem_cons.mp mem with rfl | mem
    · rw [loadWord_storeWord]
      exact below
    · exact raised.below b mem
  · rcases mem_cons.mp left with first | left'
    · rcases mem_cons.mp right with second | right'
      · exact absurd (first.trans second.symm) different
      · have under := regions.below b right'
        exact .inr (by rw [first]; omega)
    · have under := regions.below a left'
      rcases mem_cons.mp right with second | right'
      · exact .inl (by rw [second]; omega)
      · exact regions.apart a left' b right' different
  · rcases mem_cons.mp mem with rfl | mem
    · exact placed
    · exact regions.placed b mem

/-- A reserved buffer that was not returned gets its size and is returned. -/
theorem Regions.head (mem : buffer ∈ reserved) (fresh : buffer ∉ buffers) :
    Regions queue reserved (buffer :: buffers) (buffer :: unlaunched)
      (storeWord memory (place queue (buffer.offset.toNat - 8)) (buffer.size.setWidth 32)) := by
  have bounds := (regions.placed buffer mem).bounds
  have stored := regions.write (untouched_storeWord queue memory (buffer.offset.toNat - 8)
    (buffer.size.setWidth 32) (by omega)) (by omega)
    fun b here => by
      have other := (regions.placed b (regions.returned b here)).bounds
      have different : b ≠ buffer := fun same => fresh (same ▸ here)
      rcases regions.apart b (regions.returned b here) buffer mem different with apart | apart <;>
        omega
  refine { stored with
    returned := fun b here => ?_
    nodup := nodup_cons.mpr ⟨fresh, stored.nodup⟩
    waiting := fun b here => ?_
    once := nodup_cons.mpr ⟨fun here => fresh (stored.waiting buffer here), stored.once⟩
    headed := fun b here => ?_ }
  · rcases mem_cons.mp here with rfl | here
    · exact mem
    · exact stored.returned b here
  · rcases mem_cons.mp here with rfl | here
    · exact mem_cons_self
    · exact mem_cons_of_mem _ (stored.waiting b here)
  · rcases mem_cons.mp here with rfl | here
    · exact loadWord_storeWord _ _
    · exact stored.headed b here

theorem Regions.launch (buffer : Buffer) :
    Regions queue reserved buffers (unlaunched.erase buffer) memory :=
  { regions with
    waiting := fun b here => regions.waiting b (mem_of_mem_erase here)
    once := regions.once.erase buffer }

end

theorem records_untouched {start : Nat} (untouched : Untouched queue memory memory' start finish)
    (outside : finish ≤ 16 ∨ recordAreaBytes ≤ start) (small : i < maxRecords) {position : Nat}
    (bound : position < 16) :
    loadWord memory' (recordAddress queue i position) =
      loadWord memory (recordAddress queue i position) := by
  have area : recordAreaBytes = 65536 := rfl
  have records : maxRecords = 1023 := rfl
  exact untouched.loadWord _ (by omega) (by omega)

end CuMetal.Ptx.LaunchQueue
