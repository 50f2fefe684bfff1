import CuMetal.Runtime.PrintfFacts

/-!
# Draining the printf ring

The host hands on the accepted records and stops after them, unless a refused reservation left room
that reads as records of the first format.
-/

namespace CuMetal.Printf

open List

section Drain

variable {formats : List String} {words : Nat → BitVec 32} {available : BitVec 32}

theorem drainRecords_mono {fuel : Nat} {i : BitVec 32} {drained : List (String × List (BitVec 32))}
    (result : drainRecords formats words available fuel i = some drained) (more : Nat) :
    drainRecords formats words available (fuel + more) i = some drained := by
  induction fuel generalizing i drained with
  | zero => cases result
  | succ fuel ih =>
    rw [Nat.add_right_comm]
    unfold drainRecords at result ⊢
    split at result
    next inside =>
      rw [if_pos inside]
      dsimp only at result ⊢
      split at result
      next invalid =>
        rw [if_pos invalid]
        exact result
      next valid =>
        rw [if_neg valid]
        obtain ⟨rest, later, rfl⟩ := Option.map_eq_some_iff.mp result
        rw [ih later]
        rfl
    next outside =>
      rw [if_neg outside]
      exact result

def entry (formats : List String) (call : Call) : String × List (BitVec 32) :=
  ((formats[call.formatId.toNat]?).getD "", call.payload)

theorem drainRecords_record {call : Call} {start : Nat}
    (holds : ∀ write ∈ call.writes, words (start + write.1) = write.2)
    (inside : start + call.recordWords ≤ available.toNat) (bounded : available.toNat + 1 < 2 ^ 32)
    (known : call.formatId.toNat < formats.length) (fuel : Nat) :
    drainRecords formats words available (fuel + 1) (BitVec.ofNat 32 (start + 1)) =
      (drainRecords formats words available fuel
        (BitVec.ofNat 32 (start + call.recordWords + 1))).map (entry formats call :: ·) := by
  have long := two_le_recordWords call
  have size : call.recordWords = 2 + payloadWords call.arguments := rfl
  have first : (BitVec.ofNat 32 (start + 1)).toNat = start + 1 := by
    rw [BitVec.toNat_ofNat]
    omega
  have second : (BitVec.ofNat 32 (start + 1) + 1).toNat = start + 2 := by
    rw [BitVec.toNat_add, first]
    show (start + 1 + 1) % 2 ^ 32 = _
    omega
  have fmtId : words (start + 1) = call.formatId :=
    holds (1, call.formatId) (mem_writes.mpr (.inl rfl))
  have count : words (start + 2) = BitVec.ofNat 32 (payloadWords call.arguments) :=
    holds (2, _) (mem_writes.mpr (.inr (.inl rfl)))
  have count_toNat : (BitVec.ofNat 32 (payloadWords call.arguments)).toNat =
      payloadWords call.arguments := by
    rw [BitVec.toNat_ofNat]
    omega
  have arguments : ((range (payloadWords call.arguments)).map fun k =>
      words (start + 1 + 2 + k)) = call.payload := by
    have length : call.payload.length = payloadWords call.arguments :=
      length_payloadOf call.arguments
    apply ext_getElem?
    intro k
    rcases lt_or_ge k (payloadWords call.arguments) with within | beyond
    · have word := getElem?_eq_getElem (length.symm ▸ within : k < call.payload.length)
      have held := holds (3 + k, _) (mem_writes.mpr (.inr (.inr ⟨k, word, rfl⟩)))
      have place : start + 1 + 2 + k = start + (3 + k) := by omega
      rw [getElem?_map, getElem?_range within, word, Option.map_some, place, held]
    · rw [getElem?_eq_none (by simpa using beyond),
        getElem?_eq_none (by rw [length]; exact beyond)]
  have next : BitVec.ofNat 32 (start + 1) + (2 + BitVec.ofNat 32 (payloadWords call.arguments)) =
      BitVec.ofNat 32 (start + call.recordWords + 1) := by
    apply BitVec.eq_of_toNat_eq
    rw [BitVec.toNat_add, first, BitVec.toNat_add, count_toNat, BitVec.toNat_ofNat]
    show (start + 1 + (2 + _) % 2 ^ 32) % 2 ^ 32 = _
    omega
  have fitting : ¬ (available < BitVec.ofNat 32 (payloadWords call.arguments) ∨
      available + 1 < BitVec.ofNat 32 (start + 1) + 2 +
        BitVec.ofNat 32 (payloadWords call.arguments)) := by
    have sum : BitVec.ofNat 32 (start + 1) + 2 + BitVec.ofNat 32 (payloadWords call.arguments) =
        BitVec.ofNat 32 (start + call.recordWords + 1) := by
      rw [BitVec.add_assoc, next]
    have limit : (available + 1).toNat = available.toNat + 1 := by
      rw [BitVec.toNat_add]
      show (available.toNat + 1) % 2 ^ 32 = _
      omega
    rw [sum, BitVec.lt_def, BitVec.lt_def, count_toNat, limit, BitVec.toNat_ofNat]
    omega
  have format : formats[call.formatId.toNat]? = some formats[call.formatId.toNat] :=
    getElem?_eq_getElem known
  have reached : BitVec.ofNat 32 (start + 1) + 1 ≤ available := by
    rw [BitVec.le_def, second]
    omega
  rw [drainRecords, if_pos reached]
  simp only [first, second, fmtId, count, count_toNat, arguments, next, fitting, if_false, format]
  rw [entry, format]
  rfl

theorem drainRecords_records {made : List Reservation} {start : Nat} (placed : Placed start made)
    (holds : ∀ reservation ∈ made, ∀ write ∈ reservation.call.writes,
      words (reservation.position.toNat + write.1) = write.2)
    (inside : start + reservedWords made ≤ available.toNat)
    (bounded : available.toNat + 1 < 2 ^ 32)
    (known : ∀ reservation ∈ made, reservation.call.formatId.toNat < formats.length) (fuel : Nat) :
    drainRecords formats words available (fuel + made.length) (BitVec.ofNat 32 (start + 1)) =
      (drainRecords formats words available fuel
        (BitVec.ofNat 32 (start + reservedWords made + 1))).map
          (made.map (fun reservation => entry formats reservation.call) ++ ·) := by
  induction made generalizing start with
  | nil => simp
  | cons first rest ih =>
    obtain ⟨here, later⟩ := placed
    rw [reservedWords_cons] at inside ⊢
    have held := holds first mem_cons_self
    rw [here] at held
    rw [length_cons, ← add_assoc,
      drainRecords_record held (by omega) bounded (known first mem_cons_self),
      ih later (fun other mem => holds other (mem_cons_of_mem _ mem)) (by omega)
        (fun other mem => known other (mem_cons_of_mem _ mem)), Option.map_map,
      ← add_assoc]
    rfl

end Drain

/-- The reservations that were accepted, in their order. -/
def acceptedOf (capacity : BitVec 32) (made : List Reservation) : List Reservation :=
  made.filter fun reservation => reservation.Accepted capacity

theorem accepted_prefix (capacity : BitVec 32) {start : Nat} {made : List Reservation}
    (placed : Placed start made) (small : start + reservedWords made < 2 ^ 32) :
    ∃ refused, made = acceptedOf capacity made ++ refused ∧
      (∀ reservation ∈ refused, ¬ reservation.Accepted capacity) ∧
      Placed start (acceptedOf capacity made) ∧
      Placed (start + reservedWords (acceptedOf capacity made)) refused := by
  induction made generalizing start with
  | nil => exact ⟨[], rfl, fun _ mem => absurd mem not_mem_nil, trivial, trivial⟩
  | cons first rest ih =>
    obtain ⟨here, later⟩ := placed
    rw [reservedWords_cons] at small
    by_cases accepted : first.Accepted capacity
    · obtain ⟨refused, whole, out, before, after⟩ := ih later (by omega)
      have kept : acceptedOf capacity (first :: rest) = first :: acceptedOf capacity rest :=
        filter_cons_of_pos (by simpa using accepted)
      refine ⟨refused, ?_, out, ?_, ?_⟩
      · rw [kept, cons_append, ← whole]
      · rw [kept]
        exact ⟨here, before⟩
      · rw [kept, reservedWords_cons, ← add_assoc]
        exact after
    · have last : first.last = start + first.call.recordWords := by
        rw [Reservation.last, here]
      have beyond : capacity.toNat ≤ first.last := by
        rw [accepted_iff (by omega)] at accepted
        omega
      have out : ∀ reservation ∈ first :: rest, ¬ reservation.Accepted capacity := by
        intro reservation mem
        rcases mem_cons.mp mem with rfl | mem
        · exact accepted
        · have bounds := later.bounds mem
          rw [accepted_iff (by omega)]
          have long := two_le_recordWords reservation.call
          have ends : reservation.last =
            reservation.position.toNat + reservation.call.recordWords := rfl
          omega
      have none : acceptedOf capacity (first :: rest) = [] := by
        apply filter_eq_nil_iff.mpr
        intro reservation mem
        simpa using out reservation mem
      refine ⟨first :: rest, ?_, out, ?_, ?_⟩
      · rw [none]
        rfl
      · rw [none]
        trivial
      · rw [none]
        exact ⟨here, later⟩

/-! ## The whole ring -/

section Ring

variable {ι : Type}

/-- What a run of a kernel leaves to the host: stores inside the buffer and apart from each other,
and exactly the accepted records, in the order of their reservations. -/
structure Faithful (capacity : BitVec 32) (formats : List String) (trace : List (Event ι))
    (final : State ι) : Prop where
  inside : ∀ i ∈ stores trace, 0 < i ∧ i < capacity.toNat
  disjoint : (stores trace).Nodup
  drained : ∃ fuel, drainPrintfBuffer formats final.words capacity fuel =
    some ((acceptedOf capacity (reservations trace)).map fun reservation =>
      entry formats reservation.call)

/-- No reservation is refused with two words of the buffer left, and no record ends two words
before the machine word does. -/
structure Tight (capacity : BitVec 32) (made : List Reservation) : Prop where
  refused : ∀ reservation ∈ made, ¬ reservation.Accepted capacity →
    capacity.toNat ≤ reservation.position.toNat + 2
  accepted : ∀ reservation ∈ made, reservation.Accepted capacity → reservation.last ≠ 2 ^ 32 - 2

/-- The buffer when the kernel has ended. -/
structure Settled (capacity : BitVec 32) (formats : List String) (words : Nat → BitVec 32)
    (made : List Reservation) : Prop where
  placed : Placed 0 made
  small : reservedWords made < 2 ^ 32
  cursor : (words 0).toNat = reservedWords made
  known : ∀ reservation ∈ made, reservation.call.formatId.toNat < formats.length
  written : ∀ reservation ∈ acceptedOf capacity made, ∀ write ∈ reservation.call.writes,
    words (reservation.position.toNat + write.1) = write.2
  untouched : ∀ i, reservedWords (acceptedOf capacity made) < i → i < capacity.toNat → words i = 0

theorem Invariant.settled {capacity : BitVec 32} {formats : List String} {state : State ι}
    {made : List Reservation} {stored : List Nat}
    (invariant : Invariant capacity (fun call => call.formatId.toNat < formats.length) state made
      stored)
    (ended : state.Ended) (small : reservedWords made < 2 ^ 32) :
    Settled capacity formats state.words made where
  placed := invariant.placed
  small := small
  cursor := invariant.cursor
  known := invariant.known.1
  written := fun reservation mem write isWrite => by
    obtain ⟨mem, accepted⟩ := mem_filter.mp mem
    rcases invariant.written reservation mem (by simpa using accepted) write isWrite with
      stays | ⟨thread, pending, calls, running, -⟩
    · exact stays
    · rw [ended thread] at running
      cases running
  untouched := fun i beyond inside => by
    obtain ⟨-, -, -, before, -⟩ := accepted_prefix capacity invariant.placed
      (by rw [zero_add]; exact small)
    apply invariant.untouched i (by omega) inside
    intro reservation mem accepted within
    have bounds := (before.bounds (mem_filter.mpr ⟨mem, by simpa using accepted⟩)).2
    omega

variable {capacity : BitVec 32} {formats : List String} {words : Nat → BitVec 32}
  {made : List Reservation}

/-- The words that the loop of the host walks through. -/
def availableWords (words : Nat → BitVec 32) (capacity : BitVec 32) : BitVec 32 :=
  if capacity - 1 < words 0 then capacity - 1 else words 0

theorem toNat_availableWords (words : Nat → BitVec 32) (positive : capacity ≠ 0) :
    (availableWords words capacity).toNat = min (words 0).toNat (capacity.toNat - 1) := by
  have less : (capacity - 1).toNat = capacity.toNat - 1 := by
    apply BitVec.toNat_sub_of_le
    rw [BitVec.le_def]
    rcases Nat.eq_zero_or_pos capacity.toNat with zero | one
    · exact absurd (BitVec.eq_of_toNat_eq (by simpa using zero)) positive
    · exact one
  rw [availableWords]
  split
  next below =>
    rw [BitVec.lt_def, less] at below
    rw [less, min_eq_right (le_of_lt below)]
  next above =>
    rw [BitVec.lt_def, less] at above
    rw [min_eq_left (by omega)]

section

variable (settled : Settled capacity formats words made)

include settled

/-- The host starts its walk at the first word, or there is nothing to walk through. -/
theorem drainPrintfBuffer_eq :
    ((∀ fuel, drainPrintfBuffer formats words capacity fuel = some []) ∧
      acceptedOf capacity made = [] ∧ Tight capacity made) ∨
    (capacity ≠ 0 ∧ ∀ fuel, drainPrintfBuffer formats words capacity fuel =
      drainRecords formats words (availableWords words capacity) fuel 1) := by
  by_cases empty : made = []
  · refine .inl ⟨?_, by rw [empty]; rfl, ?_⟩
    · have zero : words 0 = 0 := by
        apply BitVec.eq_of_toNat_eq
        rw [settled.cursor, empty]
        rfl
      simp [drainPrintfBuffer, zero]
    · rw [empty]
      exact ⟨fun _ mem => absurd mem not_mem_nil, fun _ mem => absurd mem not_mem_nil⟩
  obtain ⟨first, rest, whole⟩ := exists_cons_of_ne_nil empty
  have mem : first ∈ made := by
    rw [whole]
    exact mem_cons_self
  by_cases zero : capacity = 0
  · have none : ∀ reservation ∈ made, ¬ reservation.Accepted capacity := by
      intro reservation inside
      have bounds := (settled.placed.bounds inside).2
      have small := settled.small
      rw [accepted_iff (by omega), zero]
      exact Nat.not_lt_zero _
    refine .inl ⟨by simp [drainPrintfBuffer, zero], ?_, ?_, ?_⟩
    · apply filter_eq_nil_iff.mpr
      intro reservation inside
      simpa using none reservation inside
    · intro reservation _ _
      rw [zero]
      exact Nat.zero_le _
    · exact fun reservation inside accepted => absurd accepted (none reservation inside)
  · refine .inr ⟨zero, fun fuel => ?_⟩
    have formats_ne : formats ≠ [] := by
      rintro rfl
      exact absurd (settled.known first mem) (Nat.not_lt_zero _)
    have total_ne : words 0 ≠ 0 := by
      intro none
      have cursor := settled.cursor
      have long := two_le_recordWords first.call
      rw [none, whole, reservedWords_cons] at cursor
      have zero_toNat : (0 : BitVec 32).toNat = 0 := rfl
      omega
    rw [drainPrintfBuffer, if_neg (not_or.mpr ⟨zero, formats_ne⟩)]
    dsimp only
    rw [if_neg total_ne]
    rfl

/-- The accepted reservations come first, and the refused ones behind them. -/
theorem Settled.parts :
    ∃ refused, made = acceptedOf capacity made ++ refused ∧
      (∀ reservation ∈ refused, ¬ reservation.Accepted capacity) ∧
      Placed 0 (acceptedOf capacity made) ∧
      Placed (reservedWords (acceptedOf capacity made)) refused ∧
      reservedWords made = reservedWords (acceptedOf capacity made) + reservedWords refused := by
  obtain ⟨refused, whole, out, before, after⟩ := accepted_prefix capacity settled.placed
    (by rw [zero_add]; exact settled.small)
  rw [zero_add] at after
  have made_words := congrArg reservedWords whole
  rw [reservedWords_append] at made_words
  exact ⟨refused, whole, out, before, after, made_words⟩

theorem Settled.accepted_lt
    (positive : capacity ≠ 0) : reservedWords (acceptedOf capacity made) < capacity.toNat := by
  obtain ⟨-, -, -, before, -, -⟩ := settled.parts
  rcases eq_nil_or_concat (acceptedOf capacity made) with none | ⟨init, last, whole⟩
  · rw [none]
    rcases Nat.eq_zero_or_pos capacity.toNat with zero | one
    · exact absurd (BitVec.eq_of_toNat_eq (by simpa using zero)) positive
    · exact one
  · rw [concat_eq_append] at whole
    rw [whole, placed_append_singleton] at before
    have mem : last ∈ acceptedOf capacity made := by
      rw [whole]
      simp
    obtain ⟨inside, accepted⟩ := mem_filter.mp mem
    have bounds := (settled.placed.bounds inside).2
    have small := settled.small
    have fits : last.last < capacity.toNat :=
      (accepted_iff (by omega)).mp (by simpa using accepted)
    have ends : last.last = last.position.toNat + last.call.recordWords := rfl
    rw [whole, reservedWords_append, reservedWords_cons, reservedWords_nil]
    omega

theorem Settled.walk (positive : capacity ≠ 0)
    (fuel : Nat) :
    drainRecords formats words (availableWords words capacity)
        (fuel + (acceptedOf capacity made).length) 1 =
      (drainRecords formats words (availableWords words capacity) fuel
        (BitVec.ofNat 32 (reservedWords (acceptedOf capacity made) + 1))).map
          ((acceptedOf capacity made).map (fun reservation => entry formats reservation.call) ++
            ·) := by
  obtain ⟨refused, -, -, before, -, made_words⟩ := settled.parts
  have room := settled.accepted_lt positive
  have limit := capacity.isLt
  have total := settled.cursor
  have reach := toNat_availableWords words positive
  have walked : drainRecords formats words (availableWords words capacity)
      (fuel + (acceptedOf capacity made).length) (BitVec.ofNat 32 (0 + 1)) = _ :=
    drainRecords_records before settled.written (by omega) (by omega)
      (fun reservation mem => settled.known reservation (mem_filter.mp mem).1) fuel
  simp only [zero_add] at walked
  exact walked

theorem Settled.stops (positive : capacity ≠ 0)
    (tight : Tight capacity made) (fuel : Nat) :
    drainRecords formats words (availableWords words capacity) (fuel + 1)
      (BitVec.ofNat 32 (reservedWords (acceptedOf capacity made) + 1)) = some [] := by
  obtain ⟨refused, whole, out, before, after, made_words⟩ := settled.parts
  have room := settled.accepted_lt positive
  have limit := capacity.isLt
  have small := settled.small
  have total := settled.cursor
  have reach := toNat_availableWords words positive
  have beyond : reservedWords (acceptedOf capacity made) + 2 < 2 ^ 32 ∧
      (availableWords words capacity).toNat < reservedWords (acceptedOf capacity made) + 2 := by
    cases refused with
    | nil =>
      rw [reservedWords_nil] at made_words
      refine ⟨?_, by omega⟩
      rcases eq_nil_or_concat (acceptedOf capacity made) with none | ⟨init, last, ends⟩
      · rw [none, reservedWords_nil]
        omega
      · rw [concat_eq_append] at ends
        rw [ends, placed_append_singleton] at before
        have mem : last ∈ acceptedOf capacity made := by
          rw [ends]
          simp
        obtain ⟨inside, accepted⟩ := mem_filter.mp mem
        have last_ne := tight.accepted last inside (by simpa using accepted)
        have last_eq : last.last = last.position.toNat + last.call.recordWords := rfl
        rw [ends, reservedWords_append, reservedWords_cons, reservedWords_nil] at room ⊢
        omega
    | cons first rest =>
      have mem : first ∈ made := by
        rw [whole]
        exact mem_append_right _ mem_cons_self
      have refused := out first mem_cons_self
      have close := tight.refused first mem refused
      have long := two_le_recordWords first.call
      rw [reservedWords_cons] at made_words
      rw [after.1] at close
      rw [accepted_iff (by rw [Reservation.last, after.1]; omega), Reservation.last,
        after.1] at refused
      omega
  rw [drainRecords, if_neg]
  rw [BitVec.le_def, BitVec.toNat_add, BitVec.toNat_ofNat]
  show ¬ ((reservedWords (acceptedOf capacity made) + 1) % 2 ^ 32 + 1) % 2 ^ 32 ≤ _
  omega

/-- A refused reservation with two words left: they read as a record of the first format. -/
theorem Settled.phantom (loose : reservedWords (acceptedOf capacity made) + 2 < capacity.toNat)
    (overrun : capacity.toNat ≤ reservedWords made) (fuel : Nat) :
    ∃ rest : Option (List (String × List (BitVec 32))),
      drainRecords formats words (availableWords words capacity) (fuel + 1)
        (BitVec.ofNat 32 (reservedWords (acceptedOf capacity made) + 1)) =
          rest.map (entry formats ⟨0, []⟩ :: ·) := by
  have positive : capacity ≠ 0 := by
    rintro rfl
    exact absurd loose (Nat.not_lt_zero _)
  have limit := capacity.isLt
  have total := settled.cursor
  have reach := toNat_availableWords words positive
  have formats_pos : 0 < formats.length := by
    cases made with
    | nil =>
      rw [reservedWords_nil] at overrun
      omega
    | cons first rest =>
      have known := settled.known first mem_cons_self
      omega
  have zeros : ∀ write ∈ (⟨0, []⟩ : Call).writes,
      words (reservedWords (acceptedOf capacity made) + write.1) = write.2 := by
    intro write mem
    have place := place_bounds mem
    have words_two : (⟨0, []⟩ : Call).recordWords = 2 := rfl
    have zero : write.2 = 0 := by
      rcases mem_writes.mp mem with rfl | rfl | ⟨k, word, -⟩
      · rfl
      · rfl
      · cases word
    rw [zero]
    exact settled.untouched _ (by omega) (by omega)
  have room : reservedWords (acceptedOf capacity made) + 2 ≤
      (availableWords words capacity).toNat := by
    omega
  have bounded : (availableWords words capacity).toNat + 1 < 2 ^ 32 := by
    omega
  exact ⟨_, drainRecords_record zeros room bounded formats_pos fuel⟩

end

/-- A record that ends two words before the machine word does: the index wraps and the walk comes
back to where it was. -/
theorem drainRecords_wraps (available : words 0 = BitVec.ofNat 32 (2 ^ 32 - 2)) (fuel : Nat) :
    drainRecords formats words (words 0) fuel (BitVec.ofNat 32 (2 ^ 32 - 1)) = none := by
  induction fuel with
  | zero => rfl
  | succ fuel ih =>
    have start : BitVec.ofNat 32 (2 ^ 32 - 1) + 1 = 0 := by decide
    have same : BitVec.ofNat 32 (2 ^ 32 - 1) + (2 + words 0) = BitVec.ofNat 32 (2 ^ 32 - 1) := by
      rw [available]
      decide
    have valid : ¬ (words 0 < words 0 ∨
        words 0 + 1 < BitVec.ofNat 32 (2 ^ 32 - 1) + 2 + words 0) := by
      rw [available]
      decide
    have zero : (0 : BitVec 32).toNat = 0 := rfl
    have reached : (0 : BitVec 32) ≤ words 0 := by
      rw [available]
      decide
    rw [drainRecords, start, if_pos reached, zero]
    dsimp only
    rw [if_neg valid, same, ih]
    rfl

/-- The host is handed exactly the accepted records when, and only when, the buffer is tight. -/
theorem Settled.drained_iff (settled : Settled capacity formats words made) :
    (∃ fuel, drainPrintfBuffer formats words capacity fuel =
      some ((acceptedOf capacity made).map fun reservation => entry formats reservation.call)) ↔
      Tight capacity made := by
  rcases drainPrintfBuffer_eq settled with ⟨drained, none, tight⟩ | ⟨positive, drained⟩
  · refine iff_of_true ⟨0, ?_⟩ tight
    rw [drained, none]
    rfl
  obtain ⟨refused, whole, out, before, after, made_words⟩ := settled.parts
  have room := settled.accepted_lt positive
  have limit := capacity.isLt
  have small := settled.small
  have total := settled.cursor
  have reach := toNat_availableWords words positive
  constructor
  · rintro ⟨fuel, handed⟩
    rw [drained] at handed
    -- with more fuel the walk comes past the accepted records
    have longer := drainRecords_mono handed (1 + (acceptedOf capacity made).length)
    rw [← add_assoc, settled.walk positive] at longer
    obtain ⟨rest, later, kept⟩ := Option.map_eq_some_iff.mp longer
    have rest_nil : rest = [] := append_right_eq_self.mp kept
    rw [rest_nil] at later
    constructor
    · intro reservation mem refused'
      by_contra room_left
      have mem_refused : reservation ∈ refused := by
        rw [whole] at mem
        rcases mem_append.mp mem with accepted | there
        · exact absurd (by simpa using (mem_filter.mp accepted).2) refused'
        · exact there
      have low := (after.bounds mem_refused).1
      have high := (settled.placed.bounds mem).2
      rw [accepted_iff (by omega)] at refused'
      obtain ⟨others, phantom⟩ := settled.phantom (by omega) (by omega) fuel
      rw [phantom] at later
      obtain ⟨_, -, same⟩ := Option.map_eq_some_iff.mp later
      cases same
    · intro reservation mem accepted wraps
      have high := (settled.placed.bounds mem).2
      have fits := (accepted_iff (by omega)).mp accepted
      have inside := (before.bounds (mem_filter.mpr ⟨mem, by simpa using accepted⟩)).2
      -- the buffer is as large as can be, and no record follows
      have ends : reservedWords (acceptedOf capacity made) = 2 ^ 32 - 2 := by omega
      have last : refused = [] := by
        cases refused with
        | nil => rfl
        | cons first others =>
          have long := two_le_recordWords first.call
          rw [reservedWords_cons] at made_words
          omega
      rw [last, reservedWords_nil] at made_words
      have cursor : words 0 = BitVec.ofNat 32 (2 ^ 32 - 2) := by
        apply BitVec.eq_of_toNat_eq
        rw [total, made_words, ends]
        rfl
      have walked : availableWords words capacity = words 0 := by
        apply BitVec.eq_of_toNat_eq
        rw [reach]
        omega
      have stuck : drainRecords formats words (words 0) (fuel + 1)
          (BitVec.ofNat 32 (2 ^ 32 - 2 + 1)) = none := drainRecords_wraps cursor (fuel + 1)
      rw [walked, ends, stuck] at later
      cases later
  · intro tight
    refine ⟨0 + 1 + (acceptedOf capacity made).length, ?_⟩
    rw [drained, settled.walk positive, settled.stops positive tight]
    simp

end Ring

section

variable {ι : Type} [DecidableEq ι] {capacity : BitVec 32} {formats : List String}
  {calls : ι → List Call} {state final : State ι} {trace : List (Event ι)}
  (initial : Initial capacity calls state)
  (known : ∀ thread, ∀ call ∈ calls thread, call.formatId.toNat < formats.length)
  (run : Lts.Run (Step capacity) state trace final)

include initial known run

theorem Invariant.of_run (small : reservedWords (reservations trace) < 2 ^ 32) :
    Invariant capacity (fun call => call.formatId.toNat < formats.length) final
      (reservations trace) (stores trace) :=
  (Invariant.initial initial known).run run small

/-- The words that threads store stay apart, and after the kernel the host is handed exactly the
accepted records, when, and only when, no reservation is refused while two words of the buffer are
left (and no record ends two words before the machine word does). -/
theorem faithful_iff (ended : final.Ended)
    (small : reservedWords (reservations trace) < 2 ^ 32) :
    Faithful capacity formats trace final ↔ Tight capacity (reservations trace) := by
  have invariant := Invariant.of_run initial known run small
  have settled := invariant.settled ended small
  constructor
  · exact fun faithful => settled.drained_iff.mp faithful.drained
  · exact fun tight =>
      { inside := fun i mem => ⟨(invariant.inside i mem).1, (invariant.inside i mem).2.1⟩
        disjoint := invariant.once
        drained := settled.drained_iff.mpr tight }

end

/-! ## Runs in which the threads take turns -/

section

variable {ι : Type} [DecidableEq ι] {capacity : BitVec 32}

/-- The step that a thread can take, with what it does to the buffer. -/
def turn (capacity : BitVec 32) (state : State ι) (thread : ι) :
    Option (Option (Event ι) × State ι) :=
  match state.threads thread with
  | .ready [] => none
  | .ready (call :: calls) =>
    some (some (.reserve thread call (state.words 0)),
      (state.put 0 (state.words 0 + BitVec.ofNat 32 call.recordWords)).advance thread
        (if fits capacity call (state.words 0) then .storing (state.words 0) call.writes calls
          else .ready calls))
  | .storing position ((relative, word) :: pending) calls =>
    some (some (.store thread (position + BitVec.ofNat 32 relative).toNat word),
      (state.put (position + BitVec.ofNat 32 relative).toNat word).advance thread
        (.storing position pending calls))
  | .storing _ [] calls => some (none, state.advance thread (.ready calls))

theorem step_of_turn (state : State ι) (thread : ι) (event : Option (Event ι)) (next : State ι)
    (taken : turn capacity state thread = some (event, next)) : Step capacity state event next := by
  unfold turn at taken
  split at taken <;> cases taken
  next ready => exact .reserve ready
  next storing => exact .store storing
  next done => exact .finish done

end

/-- The buffer is cleared, and each thread has its calls before it. -/
def State.start {ι : Type} (calls : ι → List Call) : State ι :=
  ⟨fun _ => 0, fun i => .ready (calls i)⟩

def Progress.ended : Progress → Bool
  | .ready [] => true
  | _ => false

theorem ended_of_all {ι : Type} {state : State ι}
    (all : ∀ thread, (state.threads thread).ended = true) : state.Ended := by
  intro thread
  have ended := all thread
  unfold Progress.ended at ended
  split at ended
  next ready => exact ready
  next => cases ended

instance (capacity : BitVec 32) (made : List Reservation) : Decidable (Tight capacity made) :=
  decidable_of_iff ((∀ reservation ∈ made, ¬ reservation.Accepted capacity →
      capacity.toNat ≤ reservation.position.toNat + 2) ∧
    ∀ reservation ∈ made, reservation.Accepted capacity → reservation.last ≠ 2 ^ 32 - 2)
    ⟨fun both => ⟨both.1, both.2⟩, fun tight => ⟨tight.refused, tight.accepted⟩⟩

def plainCall : Call := ⟨1, []⟩

def longCall : Call := ⟨1, [⟨true, 0⟩, ⟨true, 0⟩, ⟨true, 0⟩]⟩

def refusedCalls (_ : Unit) : List Call := [plainCall, longCall]

/-- One thread prints a number of 32 bits, the other one nothing but its format. -/
def twoThreads : Bool → List Call
  | true => [⟨0, [⟨false, 7⟩]⟩]
  | false => [plainCall]

theorem known_twoThreads : ∀ thread, ∀ call ∈ twoThreads thread,
    call.formatId.toNat < ["first %u", "second"].length := by
  decide

/-- Both reserve their records before either stores, and they store by turns. -/
theorem faithful_interleaved :
    ∃ (trace : List (Event Bool)) (final : State Bool),
      Lts.turns (turn 8) (.start twoThreads)
          [true, false, false, true, true, false, true, true, false] = some (trace, final) ∧
        final.Ended ∧ Faithful 8 ["first %u", "second"] trace final := by
  have ran : ∃ outcome, outcome ∈ Lts.turns (turn 8) (.start twoThreads)
        [true, false, false, true, true, false, true, true, false] ∧
      (∀ thread, (outcome.2.threads thread).ended = true) ∧
      reservedWords (reservations outcome.1) < 2 ^ 32 ∧ Tight 8 (reservations outcome.1) := by
    decide +kernel
  obtain ⟨⟨trace, final⟩, taken, ended, small, tight⟩ := ran
  have initial : Initial 8 twoThreads (.start twoThreads) := ⟨fun _ _ => rfl, fun _ => rfl⟩
  exact ⟨trace, final, taken, ended_of_all ended,
    (faithful_iff initial known_twoThreads (Lts.run_of_turns step_of_turn taken)
      (ended_of_all ended) small).mpr tight⟩

/-- A record of 8 words is refused after one of 2 words in a buffer of 8: the host also hands on
the words that nobody wrote. -/
theorem faithful_refused :
    ∃ (trace : List (Event Unit)) (final : State Unit),
      Lts.Run (Step 8) (.start refusedCalls) trace final ∧ final.Ended ∧
        reservedWords (reservations trace) < 2 ^ 32 ∧
        ¬ Faithful 8 ["first", "second"] trace final := by
  have ran : ∃ outcome, outcome ∈ Lts.turns (turn 8) (.start refusedCalls) [(), (), (), (), ()] ∧
      (outcome.2.threads ()).ended = true ∧
      reservedWords (reservations outcome.1) < 2 ^ 32 ∧ ¬ Tight 8 (reservations outcome.1) := by
    decide +kernel
  obtain ⟨⟨trace, final⟩, taken, done, small, loose⟩ := ran
  have ended := ended_of_all fun _ : Unit => done
  have initial : Initial 8 refusedCalls (.start refusedCalls) := ⟨fun _ _ => rfl, fun _ => rfl⟩
  have known : ∀ thread, ∀ call ∈ refusedCalls thread,
      call.formatId.toNat < ["first", "second"].length := by
    rintro ⟨⟩
    decide
  have settled :=
    (Invariant.of_run initial known (Lts.run_of_turns step_of_turn taken) small).settled ended small
  exact ⟨trace, final, Lts.run_of_turns step_of_turn taken, ended, small,
    fun faithful => loose (settled.drained_iff.mp faithful.drained)⟩

end CuMetal.Printf
