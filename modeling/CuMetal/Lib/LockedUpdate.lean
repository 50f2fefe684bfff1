import CuMetal.Lib.Transition
import Mathlib.Data.List.Nodup

/-!
# Updates of cells under locks

Jobs that each read a cell and write it back while they hold the lock that guards it; cells may
share a lock. Whatever the schedule, the accesses of every cell are those of the jobs run one
after another, in the order of their stores.
-/

namespace CuMetal.LockedUpdate

open Function List

variable {ι α κ V : Type}

/-- How far a job is. -/
inductive Phase (V : Type)
  | waiting
  | entered
  | loaded (value : V)
  | stored (value : V)
  | released (value : V)

namespace Phase

def Inside : Phase V → Prop
  | .entered | .loaded _ | .stored _ => True
  | .waiting | .released _ => False

/-- The value that the job read, once it has written the cell. -/
def outcome : Phase V → Option V
  | .stored value | .released value => some value
  | .waiting | .entered | .loaded _ => none

end Phase

/-- An access of a job to its cell, with the value read or written. -/
inductive Event (ι V : Type)
  | load (job : ι) (value : V)
  | store (job : ι) (value : V)

def Event.job : Event ι V → ι
  | .load job _ | .store job _ => job

structure State (ι α κ V : Type) where
  held : κ → Bool
  memory : α → V
  phase : ι → Phase V

/-- The cell of each job, the lock that guards each cell, and what each job does to its cell. -/
structure Jobs (ι α κ V : Type) where
  cell : ι → α
  guard : α → κ
  update : ι → V → V

variable [DecidableEq ι] [DecidableEq α] [DecidableEq κ] (jobs : Jobs ι α κ V)

/-- The steps of the jobs; only the accesses to the cells are visible. -/
inductive Step : State ι α κ V → Option (Event ι V) → State ι α κ V → Prop
  | acquire {s : State ι α κ V} {i : ι} (phase : s.phase i = .waiting)
      (free : s.held (jobs.guard (jobs.cell i)) = false) :
      Step s none
        { s with held := Function.update s.held (jobs.guard (jobs.cell i)) true
                 phase := Function.update s.phase i .entered }
  | load {s : State ι α κ V} {i : ι} (phase : s.phase i = .entered) :
      Step s (some (.load i (s.memory (jobs.cell i))))
        { s with phase := Function.update s.phase i (.loaded (s.memory (jobs.cell i))) }
  | store {s : State ι α κ V} {i : ι} {value : V} (phase : s.phase i = .loaded value) :
      Step s (some (.store i (jobs.update i value)))
        { s with memory := Function.update s.memory (jobs.cell i) (jobs.update i value)
                 phase := Function.update s.phase i (.stored value) }
  | release {s : State ι α κ V} {i : ι} {value : V} (phase : s.phase i = .stored value) :
      Step s none
        { s with held := Function.update s.held (jobs.guard (jobs.cell i)) false
                 phase := Function.update s.phase i (.released value) }

def start (memory : α → V) : State ι α κ V where
  held := fun _ => false
  memory := memory
  phase := fun _ => .waiting

/-- Jobs that hold a lock hold it alone, and a read value is still that of the cell. -/
structure Exclusive (s : State ι α κ V) : Prop where
  held : ∀ i, (s.phase i).Inside → s.held (jobs.guard (jobs.cell i)) = true
  unique : ∀ i j, (s.phase i).Inside → (s.phase j).Inside →
    jobs.guard (jobs.cell i) = jobs.guard (jobs.cell j) → i = j
  current : ∀ i value, s.phase i = .loaded value → s.memory (jobs.cell i) = value

variable {jobs}

omit [DecidableEq ι] [DecidableEq α] [DecidableEq κ] in
theorem Exclusive.start (memory : α → V) : Exclusive jobs (start memory) where
  held := fun _ inside => inside.elim
  unique := fun _ _ inside => inside.elim
  current := fun _ _ phase => nomatch phase

variable {s s' : State ι α κ V} {initial : α → V} {trace : List (Event ι V)} {order : List ι}
  {label : Option (Event ι V)}

omit [DecidableEq α] [DecidableEq κ] in
/-- A phase that changes on one side of the lock leaves the jobs inside as they are. -/
theorem inside_update_iff {i : ι} {next : Phase V} (same : next.Inside ↔ (s.phase i).Inside)
    (j : ι) : (update s.phase i next j).Inside ↔ (s.phase j).Inside := by
  by_cases here : j = i
  · simp [here, same]
  · simp [here]

theorem Exclusive.step (exclusive : Exclusive jobs s) (step : Step jobs s label s') :
    Exclusive jobs s' := by
  obtain ⟨held, unique, current⟩ := exclusive
  cases step with
  | @acquire i phase free =>
    -- no job inside guards with the lock just taken
    have other : ∀ j, (s.phase j).Inside → jobs.guard (jobs.cell j) ≠ jobs.guard (jobs.cell i) :=
      fun j inside same => by simp [← same, held j inside] at free
    constructor
    · intro j inside
      dsimp only at inside ⊢
      by_cases same : j = i
      · simp [same]
      · rw [update_of_ne same] at inside
        rw [update_of_ne (other j inside)]
        exact held j inside
    · intro j k inside inside' guards
      dsimp only at inside inside'
      by_cases first : j = i <;> by_cases second : k = i
      · rw [first, second]
      · rw [update_of_ne second] at inside'
        exact absurd (first ▸ guards).symm (other k inside')
      · rw [update_of_ne first] at inside
        exact absurd (second ▸ guards) (other j inside)
      · rw [update_of_ne first] at inside
        rw [update_of_ne second] at inside'
        exact unique j k inside inside' guards
    · intro j value loaded
      by_cases same : j = i
      · simp [same] at loaded
      · exact current j value (by simpa [same] using loaded)
  | @load i phase =>
    have inside_iff : ∀ j, (update s.phase i (.loaded (s.memory (jobs.cell i))) j).Inside ↔ _ :=
      inside_update_iff (by simp [phase, Phase.Inside])
    refine ⟨fun j inside => held j ((inside_iff j).mp inside), fun j k inside inside' => unique j k
      ((inside_iff j).mp inside) ((inside_iff k).mp inside'), ?_⟩
    intro j value loaded
    by_cases same : j = i
    · subst same
      simpa using loaded
    · exact current j value (by simpa [same] using loaded)
  | @store i read phase =>
    have inside_iff : ∀ j, (update s.phase i (.stored read) j).Inside ↔ _ :=
      inside_update_iff (by simp [phase, Phase.Inside])
    refine ⟨fun j inside => held j ((inside_iff j).mp inside), fun j k inside inside' => unique j k
      ((inside_iff j).mp inside) ((inside_iff k).mp inside'), ?_⟩
    intro j value loaded
    by_cases same : j = i
    · simp [same] at loaded
    · have before : s.phase j = .loaded value := by simpa [same] using loaded
      -- the cell written is not the one another job has read: their locks differ
      have cells : jobs.cell j ≠ jobs.cell i := fun cells =>
        same (unique j i (by simp [before, Phase.Inside]) (by simp [phase, Phase.Inside])
          (by rw [cells]))
      show update s.memory (jobs.cell i) _ (jobs.cell j) = value
      rw [update_of_ne cells]
      exact current j value before
  | @release i read phase =>
    have inside_of : ∀ j, (update s.phase i (.released read) j).Inside →
        j ≠ i ∧ (s.phase j).Inside := by
      intro j inside
      by_cases same : j = i
      · simp [same, Phase.Inside] at inside
      · exact ⟨same, by simpa [same] using inside⟩
    constructor
    · intro j inside
      obtain ⟨other, before⟩ := inside_of j inside
      have guards : jobs.guard (jobs.cell j) ≠ jobs.guard (jobs.cell i) := fun guards =>
        other (unique j i before (by simp [phase, Phase.Inside]) guards)
      show update s.held (jobs.guard (jobs.cell i)) false _ = true
      rw [update_of_ne guards]
      exact held j before
    · exact fun j k inside inside' => unique j k (inside_of j inside).2 (inside_of k inside').2
    · intro j value loaded
      by_cases same : j = i
      · simp [same] at loaded
      · exact current j value (by simpa [same] using loaded)

variable (jobs)

/-- The cells after the jobs of a list, each run alone. -/
def sequential (memory : α → V) (order : List ι) : α → V :=
  order.foldl
    (fun memory i => Function.update memory (jobs.cell i) (jobs.update i (memory (jobs.cell i))))
    memory

/-- The accesses of the jobs of a list, each run alone. -/
def sequentialEvents (memory : α → V) : List ι → List (Event ι V)
  | [] => []
  | i :: rest =>
    .load i (memory (jobs.cell i)) :: .store i (jobs.update i (memory (jobs.cell i))) ::
      sequentialEvents (sequential jobs memory [i]) rest

def accesses (cell : α) (trace : List (Event ι V)) : List (Event ι V) :=
  trace.filter fun event => jobs.cell event.job = cell

variable {jobs}

omit [DecidableEq ι] [DecidableEq κ] in
theorem sequential_append (memory : α → V) (first second : List ι) :
    sequential jobs memory (first ++ second) = sequential jobs (sequential jobs memory first) second :=
  foldl_append

omit [DecidableEq ι] [DecidableEq κ] in
theorem sequentialEvents_append (memory : α → V) (first second : List ι) :
    sequentialEvents jobs memory (first ++ second) =
      sequentialEvents jobs memory first ++
        sequentialEvents jobs (sequential jobs memory first) second := by
  induction first generalizing memory with
  | nil => rfl
  | cons i rest ih =>
    simp only [cons_append, sequentialEvents, ih]
    rfl

omit [DecidableEq ι] [DecidableEq κ] in
theorem accesses_append (cell : α) (first second : List (Event ι V)) :
    accesses jobs cell (first ++ second) = accesses jobs cell first ++ accesses jobs cell second :=
  filter_append ..

variable {events : List (Event ι V)}

omit [DecidableEq ι] [DecidableEq κ] in
theorem accesses_of_cell {cell : α} (same : ∀ event ∈ events, jobs.cell event.job = cell) :
    accesses jobs cell events = events :=
  filter_eq_self.mpr fun event mem => by simp [same event mem]

omit [DecidableEq ι] [DecidableEq κ] in
theorem accesses_of_other {cell : α} (other : ∀ event ∈ events, jobs.cell event.job ≠ cell) :
    accesses jobs cell events = [] :=
  filter_eq_nil_iff.mpr fun event mem => by simp [other event mem]

/-! ## Serialisation -/

variable (jobs)

/-- What a cell was accessed for beyond the jobs that wrote it: a read by the one job that has
read it and not yet written it. -/
def Pending (s : State ι α κ V) (cell : α) (events : List (Event ι V)) : Prop :=
  (events = [] ∧ ∀ i value, s.phase i = .loaded value → jobs.cell i ≠ cell) ∨
    ∃ i value, s.phase i = .loaded value ∧ jobs.cell i = cell ∧ events = [.load i value]

/-- A run's accesses, and the state it leads to, are those of the jobs of `order` one by one. -/
structure Serial (initial : α → V) (trace : List (Event ι V)) (s : State ι α κ V)
    (order : List ι) : Prop where
  exclusive : Exclusive jobs s
  nodup : order.Nodup
  mem_iff : ∀ i, i ∈ order ↔ (s.phase i).outcome.isSome
  memory : s.memory = sequential jobs initial order
  outcome : ∀ before i after, order = before ++ i :: after →
    (s.phase i).outcome = some (sequential jobs initial before (jobs.cell i))
  cells : ∀ cell, ∃ pending, Pending jobs s cell pending ∧
    accesses jobs cell trace = accesses jobs cell (sequentialEvents jobs initial order) ++ pending

variable {jobs}

omit [DecidableEq ι] [DecidableEq κ] in
theorem Serial.start (initial : α → V) : Serial jobs initial [] (start initial) [] where
  exclusive := .start initial
  nodup := nodup_nil
  mem_iff := fun i => by simp [LockedUpdate.start, Phase.outcome]
  memory := rfl
  outcome := fun before i after whole => by simp at whole
  cells := fun cell => ⟨[], .inl ⟨rfl, fun _ _ phase => nomatch phase⟩, rfl⟩

section

variable (serial : Serial jobs initial trace s order)
include serial

omit [DecidableEq ι] [DecidableEq κ] in
/-- A step that neither reads nor writes a cell, nor changes what a job has read. -/
theorem Serial.silent (exclusive : Exclusive jobs s') (cells : s'.memory = s.memory)
    (outcomes : ∀ i, (s'.phase i).outcome = (s.phase i).outcome)
    (loads : ∀ i value, s'.phase i = .loaded value ↔ s.phase i = .loaded value) :
    Serial jobs initial trace s' order where
  exclusive := exclusive
  nodup := serial.nodup
  mem_iff := fun i => by rw [outcomes]; exact serial.mem_iff i
  memory := cells.trans serial.memory
  outcome := fun before i after whole => by rw [outcomes]; exact serial.outcome before i after whole
  cells := fun cell => by
    obtain ⟨pending, shape, equal⟩ := serial.cells cell
    exact ⟨pending, by simpa only [Pending, loads] using shape, equal⟩

theorem Serial.load {i : ι} (phase : s.phase i = .entered) :
    Serial jobs initial (trace ++ [.load i (s.memory (jobs.cell i))])
      { s with phase := Function.update s.phase i (.loaded (s.memory (jobs.cell i))) } order where
  exclusive := serial.exclusive.step (.load phase)
  nodup := serial.nodup
  mem_iff := fun j => by
    rw [serial.mem_iff j]
    by_cases same : j = i
    · simp [same, phase, Phase.outcome]
    · simp [same]
  memory := serial.memory
  outcome := fun before j after whole => by
    have known := serial.outcome before j after whole
    by_cases same : j = i
    · simp [same, phase, Phase.outcome] at known
    · simpa [same] using known
  cells := fun cell => by
    obtain ⟨pending, shape, equal⟩ := serial.cells cell
    rw [accesses_append, equal]
    by_cases same : jobs.cell i = cell
    · subst same
      -- no other job has read this cell: it would hold the same lock
      have none_loaded : ∀ j value, s.phase j = .loaded value → jobs.cell j ≠ jobs.cell i := by
        intro j value loaded cells
        have one : j = i := serial.exclusive.unique j i (by simp [loaded, Phase.Inside])
          (by simp [phase, Phase.Inside]) (by rw [cells])
        simp [one, phase] at loaded
      have empty : pending = [] := by
        rcases shape with ⟨empty, -⟩ | ⟨j, value, loaded, cells, -⟩
        · exact empty
        · exact absurd cells (none_loaded j value loaded)
      refine ⟨[.load i (s.memory (jobs.cell i))], .inr ⟨i, _, by simp, rfl, rfl⟩, ?_⟩
      have own : accesses jobs (jobs.cell i) [.load i (s.memory (jobs.cell i))] = _ :=
        accesses_of_cell (by simp [Event.job])
      rw [empty, append_nil, own]
    · have foreign : accesses jobs cell [.load i (s.memory (jobs.cell i))] = [] :=
        accesses_of_other (by simpa [Event.job] using same)
      refine ⟨pending, ?_, by rw [foreign, append_nil]⟩
      rcases shape with ⟨empty, others⟩ | ⟨j, value, loaded, cells, last⟩
      · refine .inl ⟨empty, fun j value loaded => ?_⟩
        by_cases own : j = i
        · rw [own]
          exact same
        · exact others j value (by simpa [own] using loaded)
      · have own : j ≠ i := fun own => by simp [own, phase] at loaded
        exact .inr ⟨j, value, by simpa [own] using loaded, cells, last⟩

theorem Serial.store {i : ι} {value : V} (phase : s.phase i = .loaded value) :
    Serial jobs initial (trace ++ [.store i (jobs.update i value)])
      { s with memory := Function.update s.memory (jobs.cell i) (jobs.update i value)
               phase := Function.update s.phase i (.stored value) } (order ++ [i]) := by
  have current : sequential jobs initial order (jobs.cell i) = value := by
    rw [← serial.memory]
    exact serial.exclusive.current i value phase
  have fresh : i ∉ order := by
    rw [serial.mem_iff i]
    simp [phase, Phase.outcome]
  have last : sequential jobs initial (order ++ [i]) =
      update s.memory (jobs.cell i) (jobs.update i value) := by
    rw [sequential_append, ← serial.memory]
    simp [sequential, serial.exclusive.current i value phase]
  constructor
  · exact serial.exclusive.step (.store phase)
  · exact nodup_append.mpr ⟨serial.nodup, nodup_singleton i,
      fun j mem k single => by
        rw [mem_singleton.mp single]
        exact fun same => fresh (same ▸ mem)⟩
  · intro j
    rw [mem_append, mem_singleton, serial.mem_iff j]
    by_cases same : j = i
    · simp [same, Phase.outcome]
    · simp [same]
  · exact last.symm
  · intro before j after whole
    rcases eq_nil_or_concat after with rfl | ⟨rest, k, rfl⟩
    · obtain ⟨rfl, same⟩ := append_inj' whole (by simp)
      obtain rfl : i = j := by simpa using same
      simp [Phase.outcome, current]
    · have split : order ++ [i] = (before ++ j :: rest) ++ [k] := by simpa using whole
      have earlier := (append_inj' split rfl).1
      have other : j ≠ i := fun same => fresh (by rw [earlier, same]; simp)
      simpa [other] using serial.outcome before j rest earlier
  · intro cell
    obtain ⟨pending, shape, equal⟩ := serial.cells cell
    rw [accesses_append, equal, sequentialEvents_append, accesses_append]
    simp only [sequentialEvents, current]
    by_cases same : jobs.cell i = cell
    · subst same
      have own_store : accesses jobs (jobs.cell i) [.store i (jobs.update i value)] = _ :=
        accesses_of_cell (by simp [Event.job])
      have own_pair : accesses jobs (jobs.cell i)
          [.load i value, .store i (jobs.update i value)] = _ :=
        accesses_of_cell (by simp [Event.job])
      have own : ∀ j read, s.phase j = .loaded read → jobs.cell j = jobs.cell i → j = i :=
        fun j read loaded cells => serial.exclusive.unique j i (by simp [loaded, Phase.Inside])
          (by simp [phase, Phase.Inside]) (by rw [cells])
      have loaded : pending = [.load i value] := by
        rcases shape with ⟨-, others⟩ | ⟨j, read, loaded, cells, one⟩
        · exact absurd rfl (others i value phase)
        · obtain rfl := own j read loaded cells
          rw [phase] at loaded
          cases loaded
          exact one
      refine ⟨[], .inl ⟨rfl, fun j read loaded cells => ?_⟩, ?_⟩
      · by_cases job : j = i
        · simp [job] at loaded
        · exact job (own j read (by simpa [job] using loaded) cells)
      · rw [loaded, own_store, own_pair, append_assoc, append_nil]
        rfl
    · have foreign_store : accesses jobs cell [.store i (jobs.update i value)] = [] :=
        accesses_of_other (by simpa [Event.job] using same)
      have foreign_pair : accesses jobs cell
          [.load i value, .store i (jobs.update i value)] = [] :=
        accesses_of_other (by simpa [Event.job] using same)
      refine ⟨pending, ?_, ?_⟩
      · rcases shape with ⟨empty, others⟩ | ⟨j, read, loaded, cells, one⟩
        · refine .inl ⟨empty, fun j read loaded => ?_⟩
          by_cases job : j = i
          · rw [job]
            exact same
          · exact others j read (by simpa [job] using loaded)
        · have job : j ≠ i := fun job => same (job ▸ cells)
          exact .inr ⟨j, read, by simpa [job] using loaded, cells, one⟩
      · rw [foreign_store, foreign_pair, append_nil, append_nil]

/-- A step extends the order by the job that writes its cell, if one does. -/
theorem Serial.step (step : Step jobs s label s') :
    ∃ more, Serial jobs initial (trace ++ label.toList) s' (order ++ more) := by
  have exclusive := serial.exclusive.step step
  cases step with
  | @acquire i phase free =>
    refine ⟨[], ?_⟩
    simp only [Option.toList_none, append_nil]
    refine serial.silent exclusive rfl (fun j => ?_) (fun j value => ?_)
    all_goals
      by_cases same : j = i
      · simp [same, phase, Phase.outcome]
      · simp [same]
  | load phase =>
    refine ⟨[], ?_⟩
    rw [append_nil]
    exact serial.load phase
  | store phase => exact ⟨_, serial.store phase⟩
  | @release i value phase =>
    refine ⟨[], ?_⟩
    simp only [Option.toList_none, append_nil]
    refine serial.silent exclusive rfl (fun j => ?_) (fun j value => ?_)
    all_goals
      by_cases same : j = i
      · simp [same, phase, Phase.outcome]
      · simp [same]

/-- Every run is serialised by the order of its stores, which later steps only extend. -/
theorem Serial.run {later : List (Event ι V)} (run : Lts.Run (Step jobs) s later s') :
    ∃ more, Serial jobs initial (trace ++ later) s' (order ++ more) := by
  induction run generalizing trace order with
  | refl => exact ⟨[], by simpa using serial⟩
  | silent step _ ih =>
    obtain ⟨one, next⟩ := serial.step step
    obtain ⟨more, final⟩ := ih next
    exact ⟨one ++ more, by simpa using final⟩
  | visible step _ ih =>
    obtain ⟨one, next⟩ := serial.step step
    obtain ⟨more, final⟩ := ih next
    exact ⟨one ++ more, by simpa using final⟩

end

end CuMetal.LockedUpdate
