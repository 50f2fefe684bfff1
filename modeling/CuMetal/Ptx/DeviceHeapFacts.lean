import CuMetal.Ptx.DeviceHeap

/-!
# The heap stays safe

The blocks that the cursor has made are apart for good, and each is in one place: on the free list,
live, or in the hands of one thread.
-/

namespace CuMetal.Ptx.DeviceHeap

open CuMetal.Guarded Function List

variable {ι : Type} [DecidableEq ι]

/-- The block that a thread has taken from everybody else. -/
def Pc.held : Pc → Option Nat
  | .storing _ block | .freeing block | .chaining block _ | .pushing block _ => some block
  | _ => none

/-- A request that was rounded without a wrap. -/
structure Request.Ok (request : Request) (heap : Heap) : Prop where
  rounded : request.requested + 16 ≤ request.total
  capacity : request.capacity = heap.capacity

/-- What a thread knows of the heap; `extent` is what the cursor gave each block. -/
def Pc.Ok (extent : Nat → Nat) (heap : Heap) : Pc → Prop
  | .idle | .freeing _ | .chaining _ _ => True
  | .checking requested => requested ≤ heap.capacity → requested + 31 < 2 ^ 32
  | .popping request | .bumping request => request.Ok heap
  | .sizing request head => request.Ok heap ∧ 0 < extent head
  | .linking request head | .claiming request head _ | .storing request head =>
    request.Ok heap ∧ request.total ≤ extent head
  | .pushing block oldHead => heap.next block = oldHead

/-- The invariant, with the blocks on the free list. -/
structure Books (extent : Nat → Nat) (blocks : List Nat) (s : State ι) : Prop where
  cursor : 16 ≤ s.heap.cursor
  bounds : ∀ b, 0 < extent b →
    16 ≤ b ∧ b + extent b ≤ s.heap.capacity ∧ b + extent b ≤ s.heap.cursor
  apart : ∀ b c, b ≠ c → 0 < extent b → 0 < extent c → b + extent b ≤ c ∨ c + extent c ≤ b
  sizes : ∀ b, s.heap.size b ≤ extent b
  linked : Linked s.heap.next s.heap.freeHead blocks
  nodup : blocks.Nodup
  created : ∀ b ∈ blocks, 0 < extent b
  live : ∀ a ∈ s.live, a.requested + 16 ≤ s.heap.size a.block ∧ a.block ∉ blocks
  liveNodup : (s.live.map Allocation.block).Nodup
  held : ∀ t b, (s.pc t).held = some b →
    0 < extent b ∧ b ∉ blocks ∧ b ∉ s.live.map Allocation.block
  alone : ∀ t t' b, (s.pc t).held = some b → (s.pc t').held = some b → t = t'
  threads : ∀ t, (s.pc t).Ok extent s.heap

variable {extent : Nat → Nat} {blocks : List Nat} {s s' : State ι} {t : ι}

omit [DecidableEq ι] in
theorem books_initial {capacity : Nat} : Books (fun _ => 0) [] (initial ι capacity) where
  cursor := Nat.le_refl _
  bounds _ some_ := absurd some_ (Nat.lt_irrefl 0)
  apart _ _ _ some_ := absurd some_ (Nat.lt_irrefl 0)
  sizes _ := Nat.le_refl _
  linked := rfl
  nodup := nodup_nil
  created _ mem := absurd mem not_mem_nil
  live _ mem := absurd mem not_mem_nil
  liveNodup := nodup_nil
  held _ _ same := nomatch same
  alone _ _ _ same := nomatch same
  threads _ := trivial

omit [DecidableEq ι] in
theorem Books.live_created (books : Books extent blocks s) {a : Allocation} (mem : a ∈ s.live) :
    0 < extent a.block :=
  Nat.lt_of_lt_of_le (Nat.lt_of_lt_of_le (Nat.succ_pos _) (books.live a mem).1) (books.sizes a.block)

omit [DecidableEq ι] in
theorem Books.safe (books : Books extent blocks s) : Safe s where
  apart := by
    refine (pairwise_map.mp books.liveNodup).imp_of_mem fun {a b} mem mem' different => ?_
    have first := books.live a mem
    have second := books.live b mem'
    have size := books.sizes a.block
    have size' := books.sizes b.block
    rcases books.apart a.block b.block different (books.live_created mem)
      (books.live_created mem') with before | after
    · left
      omega
    · right
      omega
  inside a mem := by
    have known := books.live a mem
    have size := books.sizes a.block
    have bounds := books.bounds a.block (books.live_created mem)
    omega
  sized a mem := (books.live a mem).1
  freeList := ⟨blocks, books.linked, books.nodup, fun a mem => (books.live a mem).2⟩

theorem at_pc_self (s : State ι) (pc : Pc) : (s.at t pc).pc t = pc := update_self ..

variable {other : ι} {pc : Pc} {block : Nat} {request : Request}

theorem at_pc_of_ne (s : State ι) (pc : Pc) (different : other ≠ t) :
    (s.at t pc).pc other = s.pc other := update_of_ne different ..

/-- What all threads know, from what one knows and the others still know. -/
theorem threads_at {heap : Heap} (own : pc.Ok extent heap)
    (others : ∀ other, other ≠ t → (s.pc other).Ok extent heap) :
    ∀ other, ((s.at t pc).pc other).Ok extent heap := by
  intro other
  by_cases same : other = t
  · subst same
    rwa [at_pc_self]
  · rw [at_pc_of_ne s pc same]
    exact others other same

theorem held_at (keeps : ∀ b, pc.held = some b → (s.pc t).held = some b)
    {b : Nat} (held : ((s.at t pc).pc other).held = some b) : (s.pc other).held = some b := by
  by_cases same : other = t
  · subst same
    rw [at_pc_self] at held
    exact keeps b held
  · rwa [at_pc_of_ne s pc same] at held

theorem Books.move (books : Books extent blocks s) (own : pc.Ok extent s.heap)
    (keeps : ∀ b, pc.held = some b → (s.pc t).held = some b) :
    Books extent blocks (s.at t pc) :=
  { books with
    held _ _ held := books.held _ _ (held_at keeps held)
    alone _ _ _ held held' := books.alone _ _ _ (held_at keeps held) (held_at keeps held')
    threads := threads_at own fun other _ => books.threads other }

omit [DecidableEq ι] in
theorem idle_keeps (b : Nat) (impossible : Pc.idle.held = some b) : (s.pc t).held = some b :=
  nomatch impossible

theorem held_take (takes : pc.held = some block) {b : Nat}
    (held : ((s.at t pc).pc other).held = some b) :
    (other = t ∧ b = block) ∨ (other ≠ t ∧ (s.pc other).held = some b) := by
  by_cases same : other = t
  · subst same
    rw [at_pc_self, takes] at held
    exact .inl ⟨rfl, (Option.some.inj held).symm⟩
  · rw [at_pc_of_ne s pc same] at held
    exact .inr ⟨same, held⟩

theorem alone_take (takes : pc.held = some block)
    (alone : ∀ t t' b, (s.pc t).held = some b → (s.pc t').held = some b → t = t')
    (fresh : ∀ other, (s.pc other).held ≠ some block) :
    ∀ one two b, ((s.at t pc).pc one).held = some b → ((s.at t pc).pc two).held = some b →
      one = two := by
  intro one two b held held'
  rcases held_take takes held with ⟨first, first'⟩ | ⟨_, first⟩
  · rcases held_take takes held' with ⟨second, _⟩ | ⟨_, second⟩
    · rw [first, second]
    · rw [first'] at second
      exact absurd second (fresh two)
  · rcases held_take takes held' with ⟨_, second⟩ | ⟨_, second⟩
    · rw [second] at first
      exact absurd first (fresh one)
    · exact alone one two b first second

/-- What a thread knows stays true while blocks are made and other blocks are linked. -/
theorem Pc.Ok.mono {extent' : Nat → Nat} {heap heap' : Heap} (ok : pc.Ok extent heap)
    (more : ∀ b, extent b ≤ extent' b) (capacity : heap'.capacity = heap.capacity)
    (links : ∀ b, pc.held = some b → heap'.next b = heap.next b) : pc.Ok extent' heap' := by
  have request : ∀ {request : Request}, request.Ok heap → request.Ok heap' :=
    fun ok => ⟨ok.rounded, ok.capacity.trans capacity.symm⟩
  cases pc with
  | idle | freeing | chaining => trivial
  | checking requested => exact fun small => ok (capacity ▸ small)
  | popping _ | bumping _ => exact request ok
  | sizing _ head => exact ⟨request ok.1, Nat.lt_of_lt_of_le ok.2 (more head)⟩
  | linking _ head | claiming _ head _ | storing _ head =>
    exact ⟨request ok.1, Nat.le_trans ok.2 (more head)⟩
  | pushing block oldHead => exact (links block rfl).trans ok

/-! ## The steps -/

/-- A request that the capacity allows is rounded up with room for a header. -/
theorem totalOf_spec {requested : Nat} (small : requested + 31 < 2 ^ 32) :
    requested + 16 ≤ totalOf requested := by
  unfold totalOf
  omega

section

variable (books : Books extent blocks s)

include books

theorem Books.claim {head link : Nat}
    (here : s.pc t = .claiming request head link) (found : s.heap.freeHead = head)
    (steady : s.heap.next head = link) :
    ∃ rest, Books extent rest { s.at t (.storing request head) with
      heap := { s.heap with freeHead := link } } := by
  have own := books.threads t
  rw [here] at own
  obtain ⟨request_, fits⟩ := own
  have some_ : 0 < extent head :=
    Nat.lt_of_lt_of_le (Nat.lt_of_lt_of_le (Nat.succ_pos _) request_.rounded) fits
  have nonzero : s.heap.freeHead ≠ 0 := by
    have bounds := books.bounds head some_
    omega
  obtain ⟨rest, rfl, below⟩ := books.linked.of_ne_zero nonzero
  rw [found] at below
  have nodup := nodup_cons.mp books.nodup
  rw [found] at nodup
  have fresh : ∀ other, (s.pc other).held ≠ some head := by
    intro other held
    exact (books.held other head held).2.1 (by rw [found]; exact mem_cons_self)
  have absent : head ∉ s.live.map Allocation.block := by
    intro mem
    obtain ⟨a, inside, same⟩ := mem_map.mp mem
    exact (books.live a inside).2 (by rw [same, found]; exact mem_cons_self)
  refine ⟨rest, books.cursor, books.bounds, books.apart, books.sizes, steady ▸ below, nodup.2,
    fun b mem => books.created b (mem_cons_of_mem _ mem),
    fun a mem => ⟨(books.live a mem).1,
      fun mem' => (books.live a mem).2 (mem_cons_of_mem _ mem')⟩,
    books.liveNodup, ?_, alone_take rfl books.alone fresh, ?_⟩
  · intro other b held
    rcases held_take rfl held with ⟨_, rfl⟩ | ⟨_, held⟩
    · exact ⟨some_, nodup.1, absent⟩
    · have known := books.held other b held
      exact ⟨known.1, fun mem => known.2.1 (mem_cons_of_mem _ mem), known.2.2⟩
  · refine threads_at ⟨⟨request_.rounded, request_.capacity⟩, fits⟩ fun other _ => ?_
    exact (books.threads other).mono (fun _ => Nat.le_refl _) rfl fun _ _ => rfl

theorem Books.bump (here : s.pc t = .bumping request)
    (fits : s.heap.cursor + request.total ≤ request.capacity) :
    Books (Function.update extent s.heap.cursor request.total) blocks
      { s.at t (.storing request s.heap.cursor) with
        heap := { s.heap with cursor := s.heap.cursor + request.total } } := by
  have own := books.threads t
  rw [here] at own
  have request_ : request.Ok s.heap := own
  have rounded := request_.rounded
  have new : extent s.heap.cursor = 0 := by
    by_contra some_
    have bounds := books.bounds _ (Nat.pos_of_ne_zero some_)
    omega
  have old : ∀ {b}, 0 < extent b → b ≠ s.heap.cursor := by
    intro b some_ same
    rw [same, new] at some_
    exact absurd some_ (Nat.lt_irrefl 0)
  have grows : ∀ b, extent b ≤ update extent s.heap.cursor request.total b := by
    intro b
    by_cases same : b = s.heap.cursor
    · rw [same, new]
      exact Nat.zero_le _
    · exact Nat.le_of_eq (update_of_ne same ..).symm
  have cases_ : ∀ {b}, 0 < update extent s.heap.cursor request.total b →
      (b = s.heap.cursor ∧ update extent s.heap.cursor request.total b = request.total) ∨
        (b ≠ s.heap.cursor ∧ 0 < extent b ∧
          update extent s.heap.cursor request.total b = extent b) := by
    intro b some_
    by_cases same : b = s.heap.cursor
    · exact .inl ⟨same, by rw [same, update_self]⟩
    · rw [update_of_ne same] at some_ ⊢
      exact .inr ⟨same, some_, rfl⟩
  refine ⟨by have := books.cursor; simp only; omega, ?_, ?_,
    fun b => Nat.le_trans (books.sizes b) (grows b), books.linked, books.nodup,
    fun b mem => Nat.lt_of_lt_of_le (books.created b mem) (grows b), books.live, books.liveNodup, ?_, alone_take rfl books.alone ?_, ?_⟩
  · intro b some_
    have low := books.cursor
    rcases cases_ some_ with ⟨same, size⟩ | ⟨_, some_, size⟩
    · rw [size, same]
      exact ⟨low, by rw [← request_.capacity]; exact fits, Nat.le_refl _⟩
    · have bounds := books.bounds b some_
      rw [size]
      exact ⟨bounds.1, bounds.2.1, Nat.le_trans bounds.2.2 (Nat.le_add_right _ _)⟩
  · intro b c different some_ some_'
    rcases cases_ some_ with ⟨same, size⟩ | ⟨_, some_, size⟩
    · rcases cases_ some_' with ⟨same', _⟩ | ⟨_, some_', size'⟩
      · exact absurd (same.trans same'.symm) different
      · have bounds := books.bounds c some_'
        rw [size', same]
        exact .inr bounds.2.2
    · rcases cases_ some_' with ⟨same', _⟩ | ⟨_, some_', size'⟩
      · have bounds := books.bounds b some_
        rw [size, same']
        exact .inl bounds.2.2
      · rw [size, size']
        exact books.apart b c different some_ some_'
  · intro other b held
    rcases held_take rfl held with ⟨_, rfl⟩ | ⟨_, held⟩
    · refine ⟨by rw [update_self]; omega, fun mem => old (books.created _ mem) rfl, ?_⟩
      intro mem
      obtain ⟨a, inside, same⟩ := mem_map.mp mem
      exact old (books.live_created inside) same
    · have known := books.held other b held
      exact ⟨Nat.lt_of_lt_of_le known.1 (grows b), known.2⟩
  · intro other held
    exact old (books.held other _ held).1 rfl
  · refine threads_at
      ⟨⟨rounded, request_.capacity⟩, by simp⟩ fun other _ => ?_
    exact (books.threads other).mono grows rfl fun _ _ => rfl

theorem Books.exhaust {cursor : Nat}
    (more : s.heap.cursor ≤ cursor) :
    Books extent blocks { s.at t .idle with heap := { s.heap with cursor := cursor } } :=
  { books with
    cursor := Nat.le_trans books.cursor more
    bounds b some_ := by
      have bounds := books.bounds b some_
      exact ⟨bounds.1, bounds.2.1, Nat.le_trans bounds.2.2 more⟩
    held _ _ held := books.held _ _ (held_at idle_keeps held)
    alone _ _ _ held held' := books.alone _ _ _ (held_at idle_keeps held)
      (held_at idle_keeps held')
    threads := threads_at trivial fun other _ =>
      (books.threads other).mono (fun _ => Nat.le_refl _) rfl fun _ _ => rfl }

theorem Books.store {chosen : Nat}
    (here : s.pc t = .storing request chosen) :
    Books extent blocks { s.at t .idle with
      heap := { s.heap with size := Function.update s.heap.size chosen request.total }
      live := ⟨chosen, request.requested⟩ :: s.live } := by
  have own := books.threads t
  rw [here] at own
  obtain ⟨request_, fits⟩ := own
  have held := books.held t chosen (by rw [here]; rfl)
  refine ⟨books.cursor, books.bounds, books.apart, ?_, books.linked, books.nodup, books.created,
    ?_, nodup_cons.mpr ⟨held.2.2, books.liveNodup⟩, ?_, ?_, ?_⟩
  · intro b
    by_cases same : b = chosen
    · subst same
      simp only [update_self]
      exact fits
    · simp only [update_of_ne same]
      exact books.sizes b
  · intro a mem
    rcases mem_cons.mp mem with rfl | mem
    · simp only [update_self]
      exact ⟨request_.rounded, held.2.1⟩
    · have different : a.block ≠ chosen := by
        rintro same
        exact held.2.2 (same ▸ mem_map_of_mem mem)
      simp only [update_of_ne different]
      exact books.live a mem
  · intro other b inHand
    by_cases same : other = t
    · subst same
      rw [show ({ s.at other .idle with
        heap := { s.heap with size := update s.heap.size chosen request.total }
        live := ⟨chosen, request.requested⟩ :: s.live } : State ι).pc other = .idle from
          at_pc_self ..] at inHand
      cases inHand
    · have before := held_at idle_keeps inHand
      have known := books.held other b before
      refine ⟨known.1, known.2.1, ?_⟩
      rw [map_cons, mem_cons, not_or]
      refine ⟨?_, known.2.2⟩
      rintro rfl
      exact same (books.alone other t _ before (by rw [here]; rfl))
  · exact fun _ _ _ held held' => books.alone _ _ _ (held_at idle_keeps held)
      (held_at idle_keeps held')
  · exact threads_at trivial fun other _ =>
      (books.threads other).mono (fun _ => Nat.le_refl _) rfl fun _ _ => rfl

theorem Books.release (owned : block ∈ s.live.map Allocation.block) :
    Books extent blocks { s.at t (.freeing block) with
      live := s.live.eraseP fun allocation => allocation.block = block } := by
  have fewer : ∀ a ∈ s.live.eraseP (fun allocation => allocation.block = block), a ∈ s.live :=
    fun a mem => mem_of_mem_eraseP mem
  obtain ⟨a, inside, same⟩ := mem_map.mp owned
  have gone : block ∉ (s.live.eraseP fun allocation => allocation.block = block).map
      Allocation.block := by
    have split := exists_of_eraseP (p := fun allocation => decide (allocation.block = block))
      inside (by simpa using same)
    obtain ⟨first, before, after, -, equal, live, erased⟩ := split
    have nodup := books.liveNodup
    rw [live, map_append, map_cons] at nodup
    rw [erased, map_append]
    have here : first.block = block := by simpa using equal
    have apart := nodup_middle.mp nodup
    rw [here] at apart
    exact (nodup_cons.mp apart).1
  refine ⟨books.cursor, books.bounds, books.apart, books.sizes, books.linked, books.nodup,
    books.created, fun a mem => books.live a (fewer a mem),
    books.liveNodup.sublist ((eraseP_sublist ..).map _), ?_,
    alone_take rfl books.alone fun other held => (books.held other block held).2.2 owned, ?_⟩
  · intro other b held
    rcases held_take rfl held with ⟨_, rfl⟩ | ⟨_, held⟩
    · exact ⟨same ▸ books.live_created inside, same ▸ (books.live a inside).2, gone⟩
    · have known := books.held other b held
      refine ⟨known.1, known.2.1, fun mem => known.2.2 ?_⟩
      obtain ⟨kept, mem', named⟩ := mem_map.mp mem
      exact named ▸ mem_map_of_mem (fewer kept mem')
  · exact threads_at trivial fun other _ => books.threads other

theorem Books.chain {oldHead : Nat}
    (here : s.pc t = .chaining block oldHead) :
    Books extent blocks { s.at t (.pushing block oldHead) with
      heap := { s.heap with next := Function.update s.heap.next block oldHead } } := by
  have holds : (s.pc t).held = some block := by rw [here]; rfl
  have mine := books.held t block holds
  have keeps : ∀ b, (Pc.pushing block oldHead).held = some b → (s.pc t).held = some b :=
    fun b same => by rw [← same]; exact holds
  refine ⟨books.cursor, books.bounds, books.apart, books.sizes, books.linked.update mine.2.1,
    books.nodup, books.created, books.live, books.liveNodup,
    fun other b held => books.held other b (held_at keeps held),
    fun _ _ _ held held' => books.alone _ _ _ (held_at keeps held) (held_at keeps held'),
    threads_at (update_self ..) fun other different => ?_⟩
  refine (books.threads other).mono (fun _ => Nat.le_refl _) rfl fun b held => ?_
  refine update_of_ne ?_ ..
  rintro rfl
  exact different (books.alone other t b held holds)

theorem Books.push {oldHead : Nat}
    (here : s.pc t = .pushing block oldHead) (found : s.heap.freeHead = oldHead) :
    Books extent (block :: blocks)
      { s.at t .idle with heap := { s.heap with freeHead := block } } := by
  have holds : (s.pc t).held = some block := by rw [here]; rfl
  have mine := books.held t block holds
  have own := books.threads t
  rw [here] at own
  have link : s.heap.next block = oldHead := own
  have some_ : block ≠ 0 := by
    have bounds := books.bounds block mine.1
    omega
  refine ⟨books.cursor, books.bounds, books.apart, books.sizes, ⟨rfl, some_, ?_⟩,
    nodup_cons.mpr ⟨mine.2.1, books.nodup⟩, ?_, ?_, books.liveNodup, ?_,
    fun _ _ _ held held' => books.alone _ _ _ (held_at idle_keeps held) (held_at idle_keeps held'),
    ?_⟩
  · rw [link, ← found]
    exact books.linked
  · intro b mem
    rcases mem_cons.mp mem with rfl | mem
    · exact mine.1
    · exact books.created b mem
  · intro a mem
    have known := books.live a mem
    refine ⟨known.1, fun mem' => ?_⟩
    rcases mem_cons.mp mem' with same | mem'
    · exact mine.2.2 (same ▸ mem_map_of_mem mem)
    · exact known.2 mem'
  · intro other b held
    have before := held_at idle_keeps held
    have known := books.held other b before
    refine ⟨known.1, fun mem => ?_, known.2.2⟩
    rcases mem_cons.mp mem with rfl | mem
    · have same := books.alone other t b before holds
      subst same
      rw [show ({ s.at other .idle with heap := { s.heap with freeHead := b } } : State ι).pc other =
        .idle from at_pc_self ..] at held
      cases held
    · exact known.2.1 mem
  · exact threads_at trivial fun other _ =>
      (books.threads other).mono (fun _ => Nat.le_refl _) rfl fun _ _ => rfl

/-! ## Runs -/

theorem Books.advance (steady : Steady s (.advance t))
    (stepped : s.advance t = some s') : ∃ extent' blocks', Books extent' blocks' s' := by
  have own := books.threads t
  unfold State.advance at stepped
  change (s.pc t).Steady s.heap at steady
  cases here : s.pc t with
  | idle => simp [here] at stepped
  | checking requested =>
    rw [here] at own
    simp only [here] at stepped
    split at stepped
    next accepted =>
      cases stepped
      exact ⟨_, _, books.move ⟨totalOf_spec (own accepted), rfl⟩ idle_keeps⟩
    next =>
      cases stepped
      exact ⟨_, _, books.move trivial idle_keeps⟩
  | popping request =>
    rw [here] at own
    simp only [here] at stepped
    split at stepped
    next =>
      cases stepped
      exact ⟨_, _, books.move own idle_keeps⟩
    next some_ =>
      cases stepped
      obtain ⟨rest, rfl, -⟩ := books.linked.of_ne_zero some_
      exact ⟨_, _, books.move ⟨own, books.created _ mem_cons_self⟩ idle_keeps⟩
  | sizing request head =>
    rw [here] at own
    simp only [here] at stepped
    split at stepped
    next large =>
      cases stepped
      exact ⟨_, _, books.move ⟨own.1, Nat.le_trans large (books.sizes head)⟩ idle_keeps⟩
    next =>
      cases stepped
      exact ⟨_, _, books.move own.1 idle_keeps⟩
  | linking request head =>
    rw [here] at own
    simp only [here] at stepped
    cases stepped
    exact ⟨_, _, books.move own idle_keeps⟩
  | claiming request head link =>
    simp only [here] at stepped
    rw [here] at steady
    split at stepped
    next found =>
      cases stepped
      obtain ⟨rest, kept⟩ := books.claim here found (steady found)
      exact ⟨_, rest, kept⟩
    next =>
      cases stepped
      rw [here] at own
      exact ⟨_, _, books.move own.1 idle_keeps⟩
  | bumping request =>
    simp only [here] at stepped
    rw [here] at steady
    rw [Nat.mod_eq_of_lt steady] at stepped
    split at stepped
    next fits =>
      cases stepped
      exact ⟨_, _, books.bump here fits⟩
    next =>
      cases stepped
      exact ⟨_, _, books.exhaust (Nat.le_add_right ..)⟩
  | storing request chosen =>
    simp only [here] at stepped
    cases stepped
    exact ⟨_, _, books.store here⟩
  | freeing block =>
    simp only [here] at stepped
    cases stepped
    exact ⟨_, _, books.move trivial fun b same => by rw [here]; exact same⟩
  | chaining block oldHead =>
    simp only [here] at stepped
    cases stepped
    exact ⟨_, _, books.chain here⟩
  | pushing block oldHead =>
    simp only [here] at stepped
    split at stepped
    next found =>
      cases stepped
      exact ⟨_, _, books.push here found⟩
    next =>
      cases stepped
      exact ⟨_, _, books.move trivial fun b same => by rw [here]; exact same⟩

theorem Books.step {a : Action ι} (steady : Steady s a)
    (stepped : DeviceHeap.step s a = some s') : ∃ extent' blocks', Books extent' blocks' s' := by
  cases a with
  | malloc thread requested =>
    simp only [DeviceHeap.step] at stepped
    split at stepped
    · split at stepped
      · cases stepped
        exact ⟨_, _, books.move steady idle_keeps⟩
      · cases stepped
    · cases stepped
  | free thread block =>
    simp only [DeviceHeap.step] at stepped
    split at stepped
    · split at stepped
      next owned =>
        cases stepped
        obtain ⟨a, mem, same⟩ := any_eq_true.mp owned
        exact ⟨_, _, books.release (mem_map.mpr ⟨a, mem, by simpa using same⟩)⟩
      · cases stepped
    · cases stepped
  | advance thread => exact books.advance steady stepped

end

/-- In every run of steady steps the heap is safe in every state. -/
theorem safe_of_steady {capacity : Nat}
    {trail : List (State ι × Action ι)} {u : State ι}
    (run : Run (Steps step) (initial ι capacity) trail u)
    (steady : ∀ visited ∈ trail, Steady visited.1 visited.2) : Always Safe trail u := by
  have kept := run.invariant
    (fun s a s' (inv : ∃ extent blocks, Books extent blocks s) good stepped => by
      obtain ⟨extent, blocks, books⟩ := inv
      exact books.step good stepped)
    ⟨_, _, books_initial⟩ steady
  refine ⟨fun visited mem => ?_, ?_⟩
  · obtain ⟨_, _, books⟩ := kept.1 visited mem
    exact books.safe
  · obtain ⟨_, _, books⟩ := kept.2
    exact books.safe

def accesses {ι : Type} (thread : ι) (count : Nat) : List (Action ι) :=
  List.replicate count (.advance thread)

/-- A thread takes a block, gives it back and takes it again. -/
def reuse : List (Action Unit) :=
  [.malloc () 8] ++ accesses () 4 ++ [.free () 16] ++ accesses () 3 ++ [.malloc () 8] ++
    accesses () 6

theorem safe_of_steady_reuse : ∃ (trail : List (State Unit × Action Unit)) (u : State Unit),
    trail.map Prod.snd = reuse ∧ Always Safe trail u := by
  obtain ⟨trail, same, run, steady⟩ := @run_of_guarded _ _ step Steady _
    (initial Unit (8 * 1024 * 1024)) _ reuse rfl
  exact ⟨trail, _, same, safe_of_steady run steady⟩

/-- Two blocks are on the free list, and the first thread has read the link of the upper one. The
second thread takes both and gives the upper one back, so that the first thread's swap succeeds and
puts the lower one on the list again, from where it is handed out a second time. -/
def popPopPush : List (Action Bool) :=
  [.malloc true 8] ++ accesses true 4 ++ [.malloc true 8] ++ accesses true 4 ++
    [.free true 48] ++ accesses true 3 ++ [.free true 16] ++ accesses true 3 ++
    [.malloc false 8] ++ accesses false 4 ++
    [.malloc true 8] ++ accesses true 6 ++ [.malloc true 8] ++ accesses true 6 ++
    [.free true 16] ++ accesses true 3 ++ accesses false 2 ++
    [.malloc true 8] ++ accesses true 6

/-- A request that does not fit, twice: the cursor wraps. -/
def wrapAround : List (Action Unit) :=
  [.malloc () 0x7FFFFFF0] ++ accesses () 3 ++ [.malloc () 0x7FFFFFF0] ++ accesses () 4

/-- Both runs leave the heap unsafe. -/
theorem heap_unsafe :
    (Accepted (8 * 1024 * 1024) ∧ ¬ ∀ (trail : List (State Bool × Action Bool)) (u : State Bool),
      Run (Steps step) (initial Bool (8 * 1024 * 1024)) trail u → Always Safe trail u) ∧
    (Accepted 0x80000000 ∧ ¬ ∀ (trail : List (State Unit × Action Unit)) (u : State Unit),
      Run (Steps step) (initial Unit 0x80000000) trail u → Always Safe trail u) := by
  refine ⟨⟨⟨by decide, by decide⟩, fun always => ?_⟩, ⟨by decide, by decide⟩, fun always => ?_⟩
  · obtain ⟨trail, -, run⟩ := @run_of_execute _ _ step (initial Bool (8 * 1024 * 1024)) _
      popPopPush rfl
    have apart := (always trail _ run).2.apart
    exact absurd apart (by decide)
  · obtain ⟨trail, -, run⟩ := @run_of_execute _ _ step (initial Unit 0x80000000) _ wrapAround rfl
    have inside := (always trail _ run).2.inside
    exact absurd inside (by decide)

end CuMetal.Ptx.DeviceHeap
