import CuMetal.Runtime.PrintfRing
import Mathlib.Data.List.Induction
import Mathlib.Data.List.Nodup

/-!
# What the printf ring hands on

Reservations never overlap, so each accepted record is complete when the kernel ends, whatever the
order in which the threads wrote; the host then walks the records from the first word on.
-/

namespace CuMetal.Printf

open List

theorem foldl_words (arguments : List Argument) (start : Nat) :
    arguments.foldl (fun words argument => words + argument.words) start =
      start + payloadWords arguments := by
  induction arguments generalizing start with
  | nil => rfl
  | cons argument rest ih =>
    rw [payloadWords, foldl_cons, foldl_cons, ih, ih]
    omega

theorem payloadWords_cons (argument : Argument) (rest : List Argument) :
    payloadWords (argument :: rest) = argument.words + payloadWords rest := by
  rw [payloadWords, foldl_cons, foldl_words]
  omega

def payloadOf (arguments : List Argument) : List (BitVec 32) :=
  (⟨0, arguments⟩ : Call).payload

theorem payloadOf_cons (argument : Argument) (rest : List Argument) :
    payloadOf (argument :: rest) =
      (if argument.wide then [argument.low, argument.high] else [argument.low]) ++
        payloadOf rest := by
  simp [payloadOf, Call.payload]

theorem length_payloadOf (arguments : List Argument) :
    (payloadOf arguments).length = payloadWords arguments := by
  induction arguments with
  | nil => rfl
  | cons argument rest ih =>
    rw [payloadOf_cons, payloadWords_cons, length_append, ih, Argument.words]
    split <;> rfl

theorem writeArguments_eq (payloadOffset : Nat) (arguments : List Argument) :
    writeArguments payloadOffset arguments =
      (payloadOf arguments).mapIdx fun k word => (3 + payloadOffset + k, word) := by
  induction arguments generalizing payloadOffset with
  | nil => rfl
  | cons argument rest ih =>
    have shift : ∀ n k, 3 + (payloadOffset + n) + k = 3 + payloadOffset + (k + n) := by
      intro n k
      omega
    have high : 4 + payloadOffset = 3 + payloadOffset + 1 := by omega
    rw [writeArguments, payloadOf_cons]
    split
    · rw [ih, cons_append, cons_append, nil_append, mapIdx_cons,
        mapIdx_cons, high]
      simp only [shift, add_zero, zero_add, add_assoc, Nat.reduceAdd]
    · rw [ih, cons_append, nil_append, mapIdx_cons]
      simp only [shift, add_zero]

variable {call : Call} {write : Nat × BitVec 32}

/-- The host's word count, the format and the payload, each word in its place. -/
theorem mem_writes :
    write ∈ call.writes ↔ write = (1, call.formatId) ∨
      write = (2, BitVec.ofNat 32 (payloadWords call.arguments)) ∨
      ∃ k, call.payload[k]? = some write.2 ∧ write.1 = 3 + k := by
  rw [Call.writes, mem_cons, mem_cons, writeArguments_eq, mem_mapIdx]
  refine or_congr_right (or_congr_right ⟨?_, ?_⟩)
  · rintro ⟨k, inside, rfl⟩
    exact ⟨k, getElem?_eq_getElem inside, by omega⟩
  · rintro ⟨k, word, place⟩
    obtain ⟨inside, word⟩ := List.getElem?_eq_some_iff.mp word
    refine ⟨k, inside, Prod.ext ?_ word⟩
    rw [place]

theorem places_writes (call : Call) :
    call.writes.map Prod.fst = List.range' 1 call.recordWords := by
  have places : (writeArguments 0 call.arguments).map Prod.fst =
      range' 3 (payloadWords call.arguments) := by
    rw [writeArguments_eq, ← length_payloadOf]
    apply ext_getElem
    · simp
    · intro k inside inside'
      simp
  rw [Call.writes, map_cons, map_cons, places, Call.recordWords, add_comm 2,
    range'_succ, range'_succ]

theorem place_bounds (mem : write ∈ call.writes) : 1 ≤ write.1 ∧ write.1 ≤ call.recordWords := by
  have place : write.1 ∈ call.writes.map Prod.fst := mem_map_of_mem mem
  rw [places_writes, mem_range'_1] at place
  omega

theorem nodup_places (call : Call) : (call.writes.map Prod.fst).Nodup := by
  rw [places_writes]
  exact nodup_range'

/-- The argument that the typed lowering has for one of `emit_printf_record`, by its width. -/
def argumentOf (bits : Option Nat) (value : TypedValue) : Argument :=
  ⟨bits.getD 32 = 64, value.stored (bits.getD 32 = 64)⟩

/-- A record of `emit_printf_record` is laid out as one of the typed lowering, with the words that
the casts of the argument types make: what is proved of records and calls is true of both. -/
theorem emitPrintfRecord_eq (fmtId : BitVec 32) (values : List TypedValue)
    (argumentBits : List Nat) :
    emitPrintfRecord fmtId values argumentBits =
      (⟨fmtId, values.mapIdx fun i value => argumentOf argumentBits[i]? value⟩ : Call).writes := by
  have arguments : ∀ (values : List TypedValue) (i payloadOffset : Nat),
      emitArguments argumentBits i payloadOffset values = writeArguments payloadOffset
        (values.mapIdx fun k value => argumentOf argumentBits[i + k]? value) := by
    intro values
    induction values with
    | nil => intros; rfl
    | cons value rest ih =>
      intro i payloadOffset
      have next : (fun k value => argumentOf argumentBits[i + (k + 1)]? value) =
          fun k value => argumentOf argumentBits[i + 1 + k]? value := by
        funext k value
        rw [Nat.add_right_comm, Nat.add_assoc]
      rw [emitArguments, mapIdx_cons, next, writeArguments, ih, ih]
      simp only [argumentOf, add_zero, decide_eq_true_eq]
      by_cases wide : (argumentBits[i]?).getD 32 = 64
      · rw [if_pos wide, if_pos wide, decide_eq_true wide]
        rfl
      · rw [if_neg wide, if_neg wide, decide_eq_false wide]
        rfl
  have words : ∀ (values : List TypedValue),
      (range values.length).foldl (fun words i =>
          words + if (argumentBits[i]?).getD 0 = 64 then 2 else 1) 0 =
        payloadWords (values.mapIdx fun i value => argumentOf argumentBits[i]? value) := by
    intro values
    induction values using reverseRecOn with
    | nil => rfl
    | append_singleton rest value ih =>
      have width : (argumentBits[rest.length]?).getD 0 = 64 ↔
          (argumentBits[rest.length]?).getD 32 = 64 := by
        cases argumentBits[rest.length]? with
        | none => decide
        | some bits => rfl
      rw [length_append, length_singleton, range_succ, foldl_append, ih,
        mapIdx_append]
      simp [payloadWords, Argument.words, argumentOf, width]
  rw [emitPrintfRecord, Call.writes, words]
  simp only [arguments, zero_add]

/-! ## Reservations -/

/-- A call with the position that its reservation was given. -/
structure Reservation where
  call : Call
  position : BitVec 32

section Histories

variable {ι : Type}

def reservations (trace : List (Event ι)) : List Reservation :=
  trace.filterMap fun
    | .reserve _ call position => some ⟨call, position⟩
    | .store _ _ _ => none

/-- The indices of the buffer that a run stores to. -/
def stores (trace : List (Event ι)) : List Nat :=
  trace.filterMap fun
    | .reserve _ _ _ => none
    | .store _ index _ => some index

theorem reservations_cons (thread : ι) (call : Call) (position : BitVec 32)
    (trace : List (Event ι)) :
    reservations (.reserve thread call position :: trace) =
      ⟨call, position⟩ :: reservations trace := rfl

theorem stores_cons (thread : ι) (index : Nat) (word : BitVec 32) (trace : List (Event ι)) :
    stores (.store thread index word :: trace) = index :: stores trace := rfl

end Histories

def reservedWords (made : List Reservation) : Nat :=
  (made.map fun reservation => reservation.call.recordWords).sum

@[simp] theorem reservedWords_nil : reservedWords [] = 0 := rfl

@[simp] theorem reservedWords_cons (reservation : Reservation) (rest : List Reservation) :
    reservedWords (reservation :: rest) = reservation.call.recordWords + reservedWords rest := by
  simp [reservedWords]

@[simp] theorem reservedWords_append (first second : List Reservation) :
    reservedWords (first ++ second) = reservedWords first + reservedWords second := by
  simp [reservedWords]

def Reservation.last (reservation : Reservation) : Nat :=
  reservation.position.toNat + reservation.call.recordWords

def Reservation.Accepted (capacity : BitVec 32) (reservation : Reservation) : Prop :=
  fits capacity reservation.call reservation.position = true

instance (capacity : BitVec 32) : DecidablePred (Reservation.Accepted capacity) :=
  fun _ => inferInstanceAs (Decidable (_ = _))

/-- Each position is the number of words reserved before. -/
def Placed : Nat → List Reservation → Prop
  | _, [] => True
  | start, reservation :: rest =>
    reservation.position.toNat = start ∧ Placed (start + reservation.call.recordWords) rest

theorem two_le_recordWords (call : Call) : 2 ≤ call.recordWords := Nat.le_add_right 2 _

variable {reservation : Reservation}

section Placed

variable {start : Nat} {made : List Reservation}

theorem placed_append_singleton :
    Placed start (made ++ [reservation]) ↔
      Placed start made ∧ reservation.position.toNat = start + reservedWords made := by
  induction made generalizing start with
  | nil => simp [Placed]
  | cons first rest ih =>
    rw [cons_append, Placed, Placed, ih, reservedWords_cons, add_assoc, and_assoc]

theorem Placed.bounds (placed : Placed start made) (mem : reservation ∈ made) :
    start ≤ reservation.position.toNat ∧ reservation.last ≤ start + reservedWords made := by
  induction made generalizing start with
  | nil => cases mem
  | cons first rest ih =>
    obtain ⟨here, later⟩ := placed
    rw [reservedWords_cons]
    rcases mem_cons.mp mem with rfl | mem
    · rw [Reservation.last]
      omega
    · have bounds := ih later mem
      omega

variable {first second : Reservation}

theorem Placed.apart (placed : Placed start made) (mem : first ∈ made) (mem' : second ∈ made) :
    first = second ∨ first.last ≤ second.position.toNat ∨
      second.last ≤ first.position.toNat := by
  induction made generalizing start with
  | nil => cases mem
  | cons head rest ih =>
    obtain ⟨here, later⟩ := placed
    have after : ∀ other ∈ rest, head.last ≤ other.position.toNat := by
      intro other inside
      have bounds := (later.bounds inside).1
      rw [Reservation.last]
      omega
    rcases mem_cons.mp mem with rfl | early
    · rcases mem_cons.mp mem' with rfl | late
      · exact .inl rfl
      · exact .inr (.inl (after _ late))
    · rcases mem_cons.mp mem' with rfl | late
      · exact .inr (.inr (after _ early))
      · exact ih later early late

theorem Placed.eq_of_position (placed : Placed start made) (mem : first ∈ made)
    (mem' : second ∈ made) (same : first.position = second.position) : first = second := by
  have long := two_le_recordWords first.call
  have long' := two_le_recordWords second.call
  rcases placed.apart mem mem' with one | before | after
  · exact one
  · rw [Reservation.last, same] at before
    omega
  · rw [Reservation.last, same] at after
    omega

end Placed

/-- Without wrapping, a record is accepted when it ends before the capacity. -/
theorem accepted_iff {capacity : BitVec 32} (small : reservation.last < 2 ^ 32) :
    reservation.Accepted capacity ↔ reservation.last < capacity.toNat := by
  have sum : (reservation.position + BitVec.ofNat 32 reservation.call.recordWords).toNat =
      reservation.last := by
    rw [Reservation.last] at small ⊢
    rw [BitVec.toNat_add, BitVec.toNat_ofNat]
    omega
  rw [Reservation.Accepted, fits, decide_eq_true_eq, BitVec.lt_def, sum]

def Progress.calls : Progress → List Call
  | .ready calls => calls
  | .storing _ _ calls => calls

section Invariant

variable {ι : Type} (capacity : BitVec 32) (Known : Call → Prop)

/-- What holds after the given reservations were made and the given words stored. -/
structure Invariant (state : State ι) (made : List Reservation) (stored : List Nat) : Prop where
  placed : Placed 0 made
  cursor : (state.words 0).toNat = reservedWords made
  known : (∀ reservation ∈ made, Known reservation.call) ∧
    ∀ thread, ∀ call ∈ (state.threads thread).calls, Known call
  storing : ∀ thread position pending calls,
    state.threads thread = .storing position pending calls →
    ∃ reservation ∈ made, reservation.position = position ∧ reservation.Accepted capacity ∧
      ∃ done, reservation.call.writes = done ++ pending
  exclusive : ∀ thread thread' position pending pending' calls calls',
    state.threads thread = .storing position pending calls →
    state.threads thread' = .storing position pending' calls' → thread = thread'
  written : ∀ reservation ∈ made, reservation.Accepted capacity →
    ∀ write ∈ reservation.call.writes,
      state.words (reservation.position.toNat + write.1) = write.2 ∨
        ∃ thread pending calls,
          state.threads thread = .storing reservation.position pending calls ∧ write ∈ pending
  untouched : ∀ i, 0 < i → i < capacity.toNat →
    (∀ reservation ∈ made, reservation.Accepted capacity →
      ¬ (reservation.position.toNat < i ∧ i ≤ reservation.last)) → state.words i = 0
  inside : ∀ i ∈ stored, 0 < i ∧ i < capacity.toNat ∧ i ≤ reservedWords made
  once : stored.Nodup
  unstored : ∀ i ∈ stored, ∀ thread position pending calls,
    state.threads thread = .storing position pending calls →
    ∀ write ∈ pending, i ≠ position.toNat + write.1

variable {capacity : BitVec 32} {Known : Call → Prop} {state : State ι}

theorem Invariant.initial {calls : ι → List Call} (initial : Initial capacity calls state)
    (known : ∀ thread, ∀ call ∈ calls thread, Known call) :
    Invariant capacity Known state [] [] where
  placed := trivial
  cursor := by
    rw [initial.zero 0 (by omega)]
    rfl
  known := by
    refine ⟨fun _ mem => absurd mem not_mem_nil, fun thread call mem => ?_⟩
    rw [initial.ready] at mem
    exact known thread call mem
  storing := fun thread position pending rest running => by
    rw [initial.ready] at running
    cases running
  exclusive := fun thread _ _ _ _ _ _ running => by
    rw [initial.ready] at running
    cases running
  written := fun _ mem => absurd mem not_mem_nil
  untouched := fun i _ inside _ => initial.zero i (by omega)
  inside := fun _ mem => absurd mem not_mem_nil
  once := nodup_nil
  unstored := fun _ mem => absurd mem not_mem_nil

/-! ## Steps -/

@[simp] theorem threads_put (index : Nat) (word : BitVec 32) :
    (state.put index word).threads = state.threads := rfl

variable {word : BitVec 32}

theorem words_put_of_ne {index other : Nat} (different : other ≠ index) :
    (state.put index word).words other = state.words other := if_neg different

@[simp] theorem words_put_self (index : Nat) (word : BitVec 32) :
    (state.put index word).words index = word := if_pos rfl

variable [DecidableEq ι]

@[simp] theorem words_advance (thread : ι) (progress : Progress) :
    (state.advance thread progress).words = state.words := rfl

variable {thread : ι} {made : List Reservation} {stored : List Nat} {calls : List Call}
  {progress : Progress} {position : BitVec 32}

theorem threads_advance_of_ne {other : ι} (different : other ≠ thread) :
    (state.advance thread progress).threads other = state.threads other := if_neg different

@[simp] theorem threads_advance_self (thread : ι) (progress : Progress) :
    (state.advance thread progress).threads thread = progress := if_pos rfl

theorem threads_advance_cases {other : ι} {progress' : Progress}
    (running : (state.advance thread progress).threads other = progress') :
    (other = thread ∧ progress' = progress) ∨
      (other ≠ thread ∧ state.threads other = progress') := by
  by_cases same : other = thread
  · subst same
    rw [threads_advance_self] at running
    exact .inl ⟨rfl, running.symm⟩
  · rw [threads_advance_of_ne same] at running
    exact .inr ⟨same, running⟩

section

variable (invariant : Invariant capacity Known state made stored)
include invariant

theorem Invariant.reserve (next : state.threads thread = .ready (call :: calls))
    (small : reservedWords made + call.recordWords < 2 ^ 32) :
    Invariant capacity Known
      ((state.put 0 (state.words 0 + BitVec.ofNat 32 call.recordWords)).advance thread
        (if fits capacity call (state.words 0) then .storing (state.words 0) call.writes calls
          else .ready calls))
      (made ++ [⟨call, state.words 0⟩]) stored := by
  have cursor := invariant.cursor
  have long := two_le_recordWords call
  have fresh : ∀ reservation ∈ made, reservation.position ≠ state.words 0 := by
    intro reservation mem same
    have bounds := (invariant.placed.bounds mem).2
    have long' := two_le_recordWords reservation.call
    rw [Reservation.last, same, cursor] at bounds
    omega
  -- a thread that stores is the one that reserved, or stored before
  have progress : ∀ other position pending rest,
      ((state.put 0 (state.words 0 + BitVec.ofNat 32 call.recordWords)).advance thread
        (if fits capacity call (state.words 0) then .storing (state.words 0) call.writes calls
          else .ready calls)).threads other = .storing position pending rest →
      (other = thread ∧ fits capacity call (state.words 0) = true ∧ position = state.words 0 ∧
        pending = call.writes) ∨
      (other ≠ thread ∧ state.threads other = .storing position pending rest) := by
    intro other position pending rest running
    rcases threads_advance_cases running with ⟨same, now⟩ | before
    · split at now
      next accepted =>
        cases now
        exact .inl ⟨same, accepted, rfl, rfl⟩
      · cases now
    · exact .inr before
  constructor
  · exact placed_append_singleton.mpr ⟨invariant.placed, by rw [cursor, zero_add]⟩
  · rw [words_advance, words_put_self, BitVec.toNat_add, cursor, BitVec.toNat_ofNat,
      reservedWords_append, reservedWords_cons, reservedWords_nil]
    show (reservedWords made + call.recordWords % 2 ^ 32) % 2 ^ 32 =
      reservedWords made + (call.recordWords + 0)
    omega
  · constructor
    · intro reservation mem
      rcases mem_append.mp mem with old | new
      · exact invariant.known.1 reservation old
      · rw [mem_singleton.mp new]
        apply invariant.known.2 thread
        rw [next]
        exact mem_cons_self
    · intro other
      by_cases same : other = thread
      · subst same
        intro later mem
        apply invariant.known.2 other
        rw [next]
        apply mem_cons_of_mem
        rw [threads_advance_self] at mem
        split at mem <;> exact mem
      · rw [threads_advance_of_ne same]
        exact invariant.known.2 other
  · intro other position pending rest running
    rcases progress other position pending rest running with ⟨-, accepted, rfl, rfl⟩ | ⟨-, before⟩
    · exact ⟨_, mem_append_right _ (mem_singleton.mpr rfl), rfl, accepted, [], rfl⟩
    · obtain ⟨reservation, mem, rest⟩ := invariant.storing other position pending rest before
      exact ⟨reservation, mem_append_left _ mem, rest⟩
  · intro first second position pending pending' rest rest' running running'
    rcases progress first _ _ _ running with ⟨one, -, same, -⟩ | ⟨-, before⟩ <;>
      rcases progress second _ _ _ running' with ⟨two, -, same', -⟩ | ⟨-, before'⟩
    · rw [one, two]
    · obtain ⟨reservation, mem, there, -⟩ := invariant.storing _ _ _ _ before'
      exact absurd (there.trans same) (fresh reservation mem)
    · obtain ⟨reservation, mem, there, -⟩ := invariant.storing _ _ _ _ before
      exact absurd (there.trans same') (fresh reservation mem)
    · exact invariant.exclusive _ _ _ _ _ _ _ before before'
  · intro reservation mem accepted write inside
    have place := (place_bounds inside).1
    rcases mem_append.mp mem with old | new
    · rcases invariant.written reservation old accepted write inside with
        done | ⟨other, pending, rest, running, waits⟩
      · refine .inl ?_
        rw [words_advance, words_put_of_ne (by omega)]
        exact done
      · refine .inr ⟨other, pending, rest, ?_, waits⟩
        rw [threads_advance_of_ne, threads_put]
        · exact running
        · rintro rfl
          rw [next] at running
          cases running
    · obtain rfl := mem_singleton.mp new
      refine .inr ⟨thread, call.writes, calls, ?_, inside⟩
      rw [threads_advance_self]
      exact if_pos accepted
  · intro i positive inside outside
    rw [words_advance, words_put_of_ne (by omega)]
    apply invariant.untouched i positive inside
    exact fun reservation mem => outside reservation (mem_append_left _ mem)
  · intro i mem
    obtain ⟨positive, inside, reserved⟩ := invariant.inside i mem
    refine ⟨positive, inside, ?_⟩
    rw [reservedWords_append]
    omega
  · exact invariant.once
  · intro i mem other position pending rest running write waits
    rcases progress other position pending rest running with ⟨-, -, rfl, rfl⟩ | ⟨-, before⟩
    · have reserved := (invariant.inside i mem).2.2
      have place := (place_bounds waits).1
      omega
    · exact invariant.unstored i mem other position pending rest before write waits

theorem Invariant.store (small : reservedWords made < 2 ^ 32) {relative : Nat}
    {pending : List (Nat × BitVec 32)}
    (next : state.threads thread = .storing position ((relative, word) :: pending) calls) :
    Invariant capacity Known
      ((state.put (position + BitVec.ofNat 32 relative).toNat word).advance thread
        (.storing position pending calls)) made
      (stored ++ [(position + BitVec.ofNat 32 relative).toNat]) := by
  obtain ⟨record, mem, rfl, accepted, done, writes⟩ := invariant.storing _ _ _ _ next
  have isWrite : (relative, word) ∈ record.call.writes := by
    rw [writes]
    exact mem_append_right _ mem_cons_self
  have place := place_bounds isWrite
  have bounds := (invariant.placed.bounds mem).2
  rw [zero_add] at bounds
  have last : record.last = record.position.toNat + record.call.recordWords := rfl
  have index : (record.position + BitVec.ofNat 32 relative).toNat =
      record.position.toNat + relative := by
    rw [BitVec.toNat_add, BitVec.toNat_ofNat]
    omega
  rw [index]
  have inside := (accepted_iff (by omega)).mp accepted
  -- a place of the record has one write
  have places := nodup_places record.call
  rw [writes, map_append, map_cons, nodup_append, nodup_cons] at places
  obtain ⟨-, ⟨once, -⟩, before⟩ := places
  have later_ne : ∀ write ∈ pending, write.1 ≠ relative := by
    rintro write later rfl
    have there : write.1 ∈ pending.map Prod.fst := mem_map_of_mem later
    exact once there
  have unique : ∀ write ∈ record.call.writes, write.1 = relative → write = (relative, word) := by
    intro write isWrite' same
    rw [writes] at isWrite'
    rcases mem_append.mp isWrite' with early | late
    · exact absurd same (before write.1 (mem_map_of_mem early) relative mem_cons_self)
    · rcases mem_cons.mp late with rfl | later
      · rfl
      · exact absurd same (later_ne write later)
  -- the places of another record lie elsewhere
  have elsewhere : ∀ other ∈ made, other.position ≠ record.position →
      ∀ write ∈ other.call.writes,
        other.position.toNat + write.1 ≠ record.position.toNat + relative := by
    intro other mem' different write isWrite' same
    have place' := place_bounds isWrite'
    have last' : other.last = other.position.toNat + other.call.recordWords := rfl
    rcases invariant.placed.apart mem' mem with rfl | first | second
    · exact different rfl
    · omega
    · omega
  have progress : ∀ other position' pending' rest,
      ((state.put (record.position.toNat + relative) word).advance thread
        (.storing record.position pending calls)).threads other =
          .storing position' pending' rest →
      (other = thread ∧ position' = record.position ∧ pending' = pending) ∨
      (other ≠ thread ∧ position' ≠ record.position ∧
        state.threads other = .storing position' pending' rest) := by
    intro other position' pending' rest running
    rcases threads_advance_cases running with ⟨same, now⟩ | ⟨different, was⟩
    · cases now
      exact .inl ⟨same, rfl, rfl⟩
    · refine .inr ⟨different, ?_, was⟩
      rintro rfl
      exact different (invariant.exclusive _ _ _ _ _ _ _ was next)
  constructor
  · exact invariant.placed
  · rw [words_advance, words_put_of_ne (by omega)]
    exact invariant.cursor
  · refine ⟨invariant.known.1, fun other => ?_⟩
    by_cases same : other = thread
    · subst same
      rw [threads_advance_self]
      have known := invariant.known.2 other
      rw [next] at known
      exact known
    · rw [threads_advance_of_ne same]
      exact invariant.known.2 other
  · intro other position' pending' rest running
    rcases progress _ _ _ _ running with ⟨-, rfl, rfl⟩ | ⟨-, -, was⟩
    · refine ⟨record, mem, rfl, accepted, done ++ [(relative, word)], ?_⟩
      rw [writes, append_assoc]
      rfl
    · exact invariant.storing _ _ _ _ was
  · intro first second position' pending' pending'' rest rest' running running'
    rcases progress _ _ _ _ running with ⟨rfl, same, -⟩ | ⟨-, different, was⟩ <;>
      rcases progress _ _ _ _ running' with ⟨rfl, same', -⟩ | ⟨-, different', was'⟩
    · rfl
    · exact absurd same different'
    · exact absurd same' different
    · exact invariant.exclusive _ _ _ _ _ _ _ was was'
  · intro other mem' accepted' write isWrite'
    by_cases same : other.position = record.position
    · obtain rfl := invariant.placed.eq_of_position mem' mem same
      by_cases here : write.1 = relative
      · obtain rfl := unique write isWrite' here
        exact .inl (words_put_self _ _)
      · rcases invariant.written other mem' accepted' write isWrite' with
          stays | ⟨thread', pending', rest, running, waits⟩
        · refine .inl ?_
          rw [words_advance, words_put_of_ne (by omega)]
          exact stays
        · obtain rfl := invariant.exclusive _ _ _ _ _ _ _ running next
          rw [next] at running
          cases running
          refine .inr ⟨thread', pending, calls, threads_advance_self _ _, ?_⟩
          rcases mem_cons.mp waits with rfl | later
          · exact absurd rfl here
          · exact later
    · rcases invariant.written other mem' accepted' write isWrite' with
        stays | ⟨thread', pending', rest, running, waits⟩
      · refine .inl ?_
        rw [words_advance, words_put_of_ne (elsewhere other mem' same write isWrite')]
        exact stays
      · refine .inr ⟨thread', pending', rest, ?_, waits⟩
        rw [threads_advance_of_ne, threads_put]
        · exact running
        · rintro rfl
          rw [next] at running
          injection running with there
          exact same there.symm
  · intro i positive within outside
    rw [words_advance, words_put_of_ne]
    · exact invariant.untouched i positive within outside
    · rintro rfl
      exact outside record mem accepted ⟨by omega, by omega⟩
  · intro i mem'
    rcases mem_append.mp mem' with old | new
    · exact invariant.inside i old
    · rw [mem_singleton.mp new]
      omega
  · rw [nodup_append]
    refine ⟨invariant.once, nodup_singleton _, fun i old j new => ?_⟩
    rw [mem_singleton.mp new]
    exact invariant.unstored i old _ _ _ _ next _ mem_cons_self
  · intro i mem' other position' pending' rest running write waits
    rcases progress _ _ _ _ running with ⟨-, rfl, rfl⟩ | ⟨-, different, was⟩
    · rcases mem_append.mp mem' with old | new
      · exact invariant.unstored i old _ _ _ _ next write (mem_cons_of_mem _ waits)
      · rw [mem_singleton.mp new]
        have different := later_ne write waits
        omega
    · rcases mem_append.mp mem' with old | new
      · exact invariant.unstored i old _ _ _ _ was write waits
      · rw [mem_singleton.mp new]
        obtain ⟨reservation, mem'', rfl, -, earlier, writes'⟩ := invariant.storing _ _ _ _ was
        apply Ne.symm
        apply elsewhere reservation mem'' different
        rw [writes']
        exact mem_append_right _ waits

theorem Invariant.finish (next : state.threads thread = .storing position [] calls) :
    Invariant capacity Known (state.advance thread (.ready calls)) made stored := by
  have progress : ∀ other position' pending' rest,
      (state.advance thread (.ready calls)).threads other = .storing position' pending' rest →
      state.threads other = .storing position' pending' rest := by
    intro other position' pending' rest running
    rcases threads_advance_cases running with ⟨-, now⟩ | ⟨-, was⟩
    · cases now
    · exact was
  refine ⟨invariant.placed, invariant.cursor, ⟨invariant.known.1, fun other => ?_⟩,
    fun other _ _ _ running => invariant.storing _ _ _ _ (progress _ _ _ _ running),
    fun _ _ _ _ _ _ _ running running' => invariant.exclusive _ _ _ _ _ _ _
      (progress _ _ _ _ running) (progress _ _ _ _ running'), ?_, invariant.untouched,
    invariant.inside, invariant.once,
    fun i mem _ _ _ _ running => invariant.unstored i mem _ _ _ _ (progress _ _ _ _ running)⟩
  · by_cases same : other = thread
    · subst same
      rw [threads_advance_self]
      have known := invariant.known.2 other
      rw [next] at known
      exact known
    · rw [threads_advance_of_ne same]
      exact invariant.known.2 other
  · intro reservation mem accepted write isWrite
    rcases invariant.written reservation mem accepted write isWrite with
      stays | ⟨other, pending, rest, running, waits⟩
    · exact .inl stays
    · refine .inr ⟨other, pending, rest, ?_, waits⟩
      rw [threads_advance_of_ne]
      · exact running
      · rintro rfl
        rw [next] at running
        cases running
        exact not_mem_nil waits

theorem Invariant.run {final : State ι} {trace : List (Event ι)}
    (run : Lts.Run (Step capacity) state trace final)
    (small : reservedWords (made ++ reservations trace) < 2 ^ 32) :
    Invariant capacity Known final (made ++ reservations trace) (stored ++ stores trace) := by
  induction run generalizing made stored with
  | refl =>
    simp only [reservations, stores, filterMap_nil, append_nil]
    exact invariant
  | silent step _ ih =>
    cases step with
    | finish next => exact ih (invariant.finish next) small
  | @visible _ _ _ event trace step _ ih =>
    cases step with
    | reserve next =>
      rw [reservations_cons, append_cons] at small ⊢
      apply ih (invariant.reserve next ?_) small
      simp only [reservedWords_append, reservedWords_cons, reservedWords_nil] at small
      omega
    | store next =>
      rw [stores_cons, append_cons]
      have made_small : reservedWords made < 2 ^ 32 := by
        rw [reservedWords_append] at small
        omega
      exact ih (invariant.store made_small next) small

end

end Invariant

end CuMetal.Printf
