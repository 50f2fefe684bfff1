import CuMetal.Runtime.GraphExecs

/-!
# How many executable graphs a graph has

The count of `GraphLifetimeState` over runs of calls by any number of threads
(`runtime/rt/cuda_runtime.cpp`). A memory node is added in two steps: its graph is marked under the
mutex, and the node comes to the graph afterwards. The other calls are one step each: instantiations
hold the mutex from the check to the count. What nodes depend on, and do, is left open.
-/

namespace CuMetal.Runtime.Graphs.Instances

open List AssocMap Option

open GraphMemory (GraphLifetimeState)

/-! ## The calls -/

/-- An executable graph that has not been destroyed, and whether its instantiation counted it. -/
structure LiveExec where
  exec : CudaGraphExec Unit
  counted : Bool

/-- The executable graph has a node that allocates or frees graph memory. -/
def LiveExec.HasMemoryNodes (live : LiveExec) : Prop :=
  ∃ node ∈ live.exec.nodes, node.type.isMemory = true

/-- The graphs and executable graphs by their addresses. The lifetimes are numbered as graphs are
created; `adding` has the memory nodes whose graph is marked and that are still to come. -/
structure State where
  objects : AssocMap NodeHandle (GraphNode Unit)
  graphs : AssocMap Nat CudaGraph
  lifetimes : List GraphLifetimeState
  adding : List (Nat × NodeHandle)
  execs : AssocMap Nat LiveExec

inductive Action
  | createGraph (graph : Nat)
  | addNode (graph : Nat) (node : NodeHandle) (object : GraphNode Unit)
  | markMemoryNode (graph : Nat) (node : NodeHandle) (object : GraphNode Unit)
  | pushMemoryNode (graph : Nat) (node : NodeHandle)
  | destroyGraph (graph : Nat)
  | instantiate (graph exec : Nat)
  | destroyExec (exec : Nat)

namespace State

def initial : State := ⟨[], [], [], [], []⟩

variable (s : State)

def heap : NodeHeap Unit := fun node => (s.objects.find? node).getD ⟨.empty, [], none, ()⟩

def lifetime (number : Nat) : GraphLifetimeState := s.lifetimes.getD number ⟨false, 0⟩

/-- No graph has the handle. -/
def IsNew (node : NodeHandle) : Prop :=
  node ≠ 0 ∧ (∀ graph ∈ s.graphs, node ∉ graph.2.nodes) ∧ ∀ other ∈ s.adding, other.2 ≠ node

instance (node : NodeHandle) : Decidable (s.IsNew node) :=
  inferInstanceAs (Decidable (_ ∧ _ ∧ _))

/-- Calls that succeed, and instantiations. A graph is not destroyed while a node is added to it. -/
def next : Action → Option State
  | .createGraph graph =>
    if s.graphs.contains graph then none
    else some { s with
      graphs := s.graphs ++ [(graph, ⟨[], s.lifetimes.length⟩)]
      lifetimes := s.lifetimes ++ [⟨false, 0⟩] }
  | .addNode graph node object =>
    match s.graphs.find? graph with
    | none => none
    | some found =>
      if s.IsNew node ∧ object.type.isMemory = false then some { s with
        objects := s.objects.assign node object
        graphs := s.graphs.assign graph { found with nodes := found.nodes ++ [node] } }
      else none
  | .markMemoryNode graph node object =>
    match s.graphs.find? graph with
    | none => none
    | some found =>
      if s.IsNew node ∧ object.type.isMemory = true then some { s with
        objects := s.objects.assign node object
        lifetimes := s.lifetimes.modify found.lifetime
          fun state => { state with containsMemoryNodes := true }
        adding := (graph, node) :: s.adding }
      else none
  | .pushMemoryNode graph node =>
    match s.graphs.find? graph with
    | none => none
    | some found =>
      if (graph, node) ∈ s.adding then some { s with
        graphs := s.graphs.assign graph { found with nodes := found.nodes ++ [node] }
        adding := s.adding.erase (graph, node) }
      else none
  | .destroyGraph graph =>
    if s.graphs.contains graph ∧ ∀ other ∈ s.adding, other.1 ≠ graph then some { s with
      graphs := s.graphs.filter (·.1 ≠ graph) }
    else none
  | .instantiate graph exec =>
    match s.graphs.find? graph with
    | none => none
    | some found =>
      if s.execs.contains exec then none
      else
        match cudaGraphInstantiate s.heap found (s.lifetime found.lifetime) with
        | (_, none, _) => some s
        | (_, some made, after) => some { s with
            execs := s.execs ++
              [(exec, ⟨made, (s.lifetime found.lifetime).containsMemoryNodes⟩)]
            lifetimes := s.lifetimes.set found.lifetime after }
  | .destroyExec exec =>
    match s.execs.find? exec with
    | none => none
    | some live => some { s with
        execs := s.execs.filter (·.1 ≠ exec)
        lifetimes := s.lifetimes.modify live.exec.lifetime destroyInstance }

/-- How many live executable graphs of the graph with this lifetime were counted. -/
def countedInstances (number : Nat) : Nat :=
  s.execs.countP fun exec => exec.2.exec.lifetime = number ∧ exec.2.counted = true

end State

/-- Every count is that of the live executable graphs that were counted. -/
def CountsInstances (s : State) : Prop :=
  ∀ number, (s.lifetime number).executableInstances = s.countedInstances number

/-- No graph has two live executable graphs with memory nodes. -/
def OneMemoryExec (s : State) : Prop :=
  ∀ first second left right, s.execs.find? first = some left → s.execs.find? second = some right →
    left.exec.lifetime = right.exec.lifetime → left.HasMemoryNodes → right.HasMemoryNodes →
    first = second

/-- An executable graph that is destroyed was counted, or the count is not lowered. -/
def Paired (s : State) : Action → Prop
  | .destroyExec exec => ∀ live, s.execs.find? exec = some live →
      live.counted = true ∨
        ¬ ((s.lifetime live.exec.lifetime).containsMemoryNodes = true ∧
          (s.lifetime live.exec.lifetime).executableInstances ≠ 0)
  | _ => True

instance (s : State) : DecidablePred (Paired s)
  | .createGraph _ | .addNode _ _ _ | .markMemoryNode _ _ _ | .pushMemoryNode _ _
  | .destroyGraph _ | .instantiate _ _ => isTrue trivial
  | .destroyExec exec =>
    match known : s.execs.find? exec with
    | none => isTrue fun live found => by rw [known] at found; cases found
    | some live =>
      decidable_of_iff (live.counted = true ∨
          ¬ ((s.lifetime live.exec.lifetime).containsMemoryNodes = true ∧
            (s.lifetime live.exec.lifetime).executableInstances ≠ 0))
        ⟨fun paired other found => Option.some.inj (known.symm.trans found) ▸ paired,
          fun paired => paired live known⟩

/-- What holds as long as destroyed executable graphs are paired. -/
structure Sound (s : State) : Prop where
  handles : (s.execs.map Prod.fst).Nodup
  graphHandles : (s.graphs.map Prod.fst).Nodup
  counts : CountsInstances s
  unmarked : ∀ number, (s.lifetime number).containsMemoryNodes = false →
    s.countedInstances number = 0
  once : ∀ number, s.countedInstances number ≤ 1
  counted : ∀ exec ∈ s.execs, exec.2.HasMemoryNodes → exec.2.counted = true
  execLifetimes : ∀ exec ∈ s.execs, exec.2.exec.lifetime < s.lifetimes.length
  graphLifetimes : ∀ graph ∈ s.graphs, graph.2.lifetime < s.lifetimes.length
  marked : ∀ graph ∈ s.graphs, ∀ node ∈ graph.2.nodes, (s.heap node).type.isMemory = true →
    (s.lifetime graph.2.lifetime).containsMemoryNodes = true
  addingKnown : ∀ other ∈ s.adding, s.graphs.contains other.1 = true
  addingMarked : ∀ other ∈ s.adding, ∀ graph ∈ s.graphs, graph.1 = other.1 →
    (s.lifetime graph.2.lifetime).containsMemoryNodes = true

theorem eq_of_countP_le_one {α : Type} {test : α → Bool} {list : List α} {a b : α}
    (once : list.countP test ≤ 1) (hasA : a ∈ list) (isA : test a = true) (hasB : b ∈ list)
    (isB : test b = true) : a = b := by
  rw [countP_eq_length_filter] at once
  have inA := mem_filter.mpr ⟨hasA, isA⟩
  have inB := mem_filter.mpr ⟨hasB, isB⟩
  generalize list.filter test = chosen at once inA inB
  match chosen with
  | [] => cases inA
  | [only] => rw [mem_singleton.mp inA, mem_singleton.mp inB]
  | _ :: _ :: _ =>
    simp only [length_cons] at once
    omega

theorem countP_remove {ν : Type} (test : Nat × ν → Bool) {key : Nat} {value : ν} :
    ∀ {map : AssocMap Nat ν}, (map.map Prod.fst).Nodup → map.find? key = some value →
      map.countP test =
        (map.filter (·.1 ≠ key)).countP test + if test (key, value) then 1 else 0 := by
  intro map
  induction map with
  | nil => intro _ found; cases found
  | cons head map ih =>
    obtain ⟨first, held⟩ := head
    intro distinct found
    obtain ⟨once, distinct⟩ := nodup_cons.mp distinct
    rw [AssocMap.find?] at found
    split at found
    · next same =>
        obtain rfl : first = key := same
        obtain rfl : held = value := some.inj found
        have rest : map.filter (·.1 ≠ first) = map := by
          refine filter_eq_self.mpr ?_
          intro other member
          have different : other.1 ≠ first := by
            intro same
            exact once (mem_map.mpr ⟨other, member, same⟩)
          simpa using different
        rw [filter_cons_of_neg (by simp), rest, countP_cons]
    · next different =>
        rw [filter_cons_of_pos (by simpa using different), countP_cons,
          countP_cons, ih distinct found]
        omega

variable {node : NodeHandle}

namespace State

variable {s : State} {number : Nat}

theorem lifetime_modify (inside : number < s.lifetimes.length)
    (change : GraphLifetimeState → GraphLifetimeState) (other : Nat) :
    (s.lifetimes.modify number change).getD other ⟨false, 0⟩ =
      if number = other then change (s.lifetime other) else s.lifetime other :=
  getD_modify _ _ _ _ _ inside

theorem lifetime_set (inside : number < s.lifetimes.length) (state : GraphLifetimeState)
    (other : Nat) :
    (s.lifetimes.set number state).getD other ⟨false, 0⟩ =
      if number = other then state else s.lifetime other := by
  by_cases same : number = other
  · subst same
    simp [inside]
  · simp [same, lifetime, getElem?_set_ne same]

theorem lifetime_snoc (other : Nat) :
    (s.lifetimes ++ [(⟨false, 0⟩ : GraphLifetimeState)]).getD other ⟨false, 0⟩ =
      s.lifetime other := by
  rw [lifetime, getD_eq_getElem?_getD, getD_eq_getElem?_getD, getElem?_append]
  split
  · rfl
  · next outside =>
      rw [getElem?_eq_none (Nat.le_of_not_lt outside)]
      cases other - s.lifetimes.length <;> rfl

theorem heap_assign {other : NodeHandle} (different : node ≠ other) (object : GraphNode Unit) :
    ((s.objects.assign node object).find? other).getD ⟨.empty, [], none, ()⟩ = s.heap other := by
  rw [find?_assign, if_neg different]
  rfl

end State

namespace Sound

variable {s : State}

theorem initial : Sound .initial where
  handles := nodup_nil
  graphHandles := nodup_nil
  counts := fun _ => rfl
  unmarked := fun _ _ => rfl
  once := fun _ => Nat.zero_le _
  counted := nofun
  execLifetimes := nofun
  graphLifetimes := nofun
  marked := nofun
  addingKnown := nofun
  addingMarked := nofun

/-- Executable graphs with memory nodes are counted, and a graph has one counted at most. -/
theorem oneMemoryExec (sound : Sound s) : OneMemoryExec s := by
  intro first second left right atFirst atSecond same leftMemory rightMemory
  have leftMember := mem_of_find? atFirst
  have rightMember := mem_of_find? atSecond
  have leftCounted : left.counted = true := sound.counted _ leftMember leftMemory
  have rightCounted : right.counted = true := sound.counted _ rightMember rightMemory
  have equal := eq_of_countP_le_one (sound.once right.exec.lifetime) leftMember
    (by simp [same, leftCounted]) rightMember (by simp [rightCounted])
  exact congrArg Prod.fst equal

theorem holds (sound : Sound s) : CountsInstances s ∧ OneMemoryExec s :=
  ⟨sound.counts, sound.oneMemoryExec⟩

/-! ## The steps keep the invariant -/

variable {graph exec : Nat} {found : CudaGraph}

theorem createGraph (sound : Sound s) (fresh : s.graphs.contains graph = false) :
    Sound { s with
      graphs := s.graphs ++ [(graph, ⟨[], s.lifetimes.length⟩)]
      lifetimes := s.lifetimes ++ [⟨false, 0⟩] } where
  handles := sound.handles
  graphHandles := by
    rw [map_append, nodup_append]
    refine ⟨sound.graphHandles, nodup_singleton _, ?_⟩
    intro handle member other last same
    obtain rfl : other = graph := mem_singleton.mp last
    rw [contains_eq_false_iff] at fresh
    exact fresh (same ▸ member)
  counts := fun number => (congrArg _ (State.lifetime_snoc number)).trans (sound.counts number)
  unmarked := fun number unmarked =>
    sound.unmarked number ((congrArg _ (State.lifetime_snoc number)).symm.trans unmarked)
  once := sound.once
  counted := sound.counted
  execLifetimes := by
    intro exec member
    have := sound.execLifetimes exec member
    simp only [length_append]
    omega
  graphLifetimes := by
    intro other member
    simp only [length_append, length_singleton]
    rcases mem_append.mp member with before | last
    · have := sound.graphLifetimes other before
      omega
    · rw [mem_singleton.mp last]
      exact Nat.lt_succ_self _
  marked := by
    intro other member node inside memory
    rcases mem_append.mp member with before | last
    · exact (congrArg _ (State.lifetime_snoc _)).trans (sound.marked other before node inside memory)
    · rw [mem_singleton.mp last] at inside
      cases inside
  addingKnown := by
    intro other member
    have known := sound.addingKnown other member
    rw [AssocMap.contains, AssocMap.find?_append, isSome_or]
    exact Bool.or_eq_true_iff.mpr (.inl known)
  addingMarked := by
    intro other member found inside same
    rcases mem_append.mp inside with before | last
    · exact (congrArg _ (State.lifetime_snoc _)).trans
        (sound.addingMarked other member found before same)
    · have known := sound.addingKnown other member
      rw [mem_singleton.mp last] at same
      rw [← same, fresh] at known
      cases known

theorem mem_assign_graph {map : AssocMap Nat CudaGraph}
    (known : map.find? graph = some found) {nodes : List NodeHandle} {other : Nat × CudaGraph}
    (member : other ∈ map.assign graph { found with nodes := nodes }) :
    ∃ before ∈ map, before.1 = other.1 ∧ before.2.lifetime = other.2.lifetime ∧
      (other = (graph, { found with nodes := nodes }) ∧ before = (graph, found) ∨
        other = before) := by
  rcases mem_assign member with rfl | before
  · exact ⟨(graph, found), mem_of_find? known, rfl, rfl, .inl ⟨rfl, rfl⟩⟩
  · exact ⟨other, before, rfl, rfl, .inr rfl⟩

/-- A node comes to a graph, which is marked if the node is a memory node. -/
theorem pushNode (sound : Sound s) {objects : AssocMap NodeHandle (GraphNode Unit)}
    {adding : List (Nat × NodeHandle)} (known : s.graphs.find? graph = some found)
    (same : ∀ graph ∈ s.graphs, ∀ other ∈ graph.2.nodes, ({ s with objects := objects } :
      State).heap other = s.heap other)
    (flagged : (({ s with objects := objects } : State).heap node).type.isMemory = true →
      (s.lifetime found.lifetime).containsMemoryNodes = true) (fewer : adding ⊆ s.adding) :
    Sound { s with
      objects := objects
      graphs := s.graphs.assign graph { found with nodes := found.nodes ++ [node] }
      adding := adding } :=
  { sound with
    graphHandles := nodup_assign sound.graphHandles _ _
    graphLifetimes := by
      intro other member
      obtain ⟨before, was, _, lifetime, _⟩ := mem_assign_graph known member
      exact lifetime ▸ sound.graphLifetimes before was
    marked := by
      intro other member inner inside memory
      obtain ⟨before, was, _, lifetime, ⟨rfl, rfl⟩ | rfl⟩ := mem_assign_graph known member
      · rcases mem_append.mp inside with old | last
        · have memory' : (s.heap inner).type.isMemory = true := by
            rw [← same _ was inner old]
            exact memory
          exact sound.marked (graph, found) was inner old memory'
        · obtain rfl := mem_singleton.mp last
          exact flagged memory
      · have memory' : (s.heap inner).type.isMemory = true := by
          rw [← same _ was inner inside]
          exact memory
        exact sound.marked _ was inner inside memory'
    addingKnown := by
      intro other member
      have contained := sound.addingKnown other (fewer member)
      rw [AssocMap.contains, AssocMap.find?_assign]
      split
      · rfl
      · exact contained
    addingMarked := by
      intro other member inner inside same
      obtain ⟨before, was, handle, lifetime, _⟩ := mem_assign_graph known inside
      rw [← lifetime]
      exact sound.addingMarked other (fewer member) before was (handle.trans same) }

theorem markMemoryNode (sound : Sound s) {object : GraphNode Unit}
    (known : s.graphs.find? graph = some found) (new : s.IsNew node) :
    Sound { s with
      objects := s.objects.assign node object
      lifetimes := s.lifetimes.modify found.lifetime
        fun state => { state with containsMemoryNodes := true }
      adding := (graph, node) :: s.adding } := by
  have foundMember := mem_of_find? known
  have after := State.lifetime_modify (s := s) (sound.graphLifetimes _ foundMember)
    fun state => { state with containsMemoryNodes := true }
  have count : ∀ number, ((s.lifetimes.modify found.lifetime
      fun state => { state with containsMemoryNodes := true }).getD number
        ⟨false, 0⟩).executableInstances = (s.lifetime number).executableInstances := by
    intro number
    rw [after]
    split <;> rfl
  have stays : ∀ number, (s.lifetime number).containsMemoryNodes = true →
      ((s.lifetimes.modify found.lifetime
        fun state => { state with containsMemoryNodes := true }).getD number
          ⟨false, 0⟩).containsMemoryNodes = true := by
    intro number marked
    rw [after]
    split
    · rfl
    · exact marked
  exact {
    handles := sound.handles
    graphHandles := sound.graphHandles
    counts := fun number => (count number).trans (sound.counts number)
    unmarked := by
      intro number unmarked
      refine sound.unmarked number (Bool.eq_false_of_not_eq_true fun marked => ?_)
      have contrary := stays number marked
      rw [State.lifetime] at unmarked
      rw [unmarked] at contrary
      cases contrary
    once := sound.once
    counted := sound.counted
    execLifetimes := by
      intro exec member
      rw [length_modify]
      exact sound.execLifetimes exec member
    graphLifetimes := by
      intro other member
      rw [length_modify]
      exact sound.graphLifetimes other member
    marked := by
      intro other member inner inside memory
      have different : node ≠ inner := by
        rintro rfl
        exact new.2.1 other member inside
      rw [State.heap, State.heap_assign different] at memory
      exact stays _ (sound.marked other member inner inside memory)
    addingKnown := by
      intro other member
      rcases mem_cons.mp member with rfl | before
      · rw [AssocMap.contains, known]
        rfl
      · exact sound.addingKnown other before
    addingMarked := by
      intro other member inner inside same
      rcases mem_cons.mp member with rfl | before
      · obtain ⟨handle, held⟩ := inner
        obtain rfl : handle = graph := same
        have held' := (find?_eq_some_iff sound.graphHandles).mpr inside
        obtain rfl : held = found := some.inj (held'.symm.trans known)
        rw [State.lifetime, after, if_pos rfl]
      · exact stays _ (sound.addingMarked other before inner inside same) }

theorem destroyGraph (sound : Sound s) (settled : ∀ other ∈ s.adding, other.1 ≠ graph) :
    Sound { s with graphs := s.graphs.filter (·.1 ≠ graph) } :=
  { sound with
    graphHandles := sound.graphHandles.sublist (filter_sublist.map _)
    graphLifetimes := fun other member => sound.graphLifetimes other (mem_of_mem_filter member)
    marked := fun other member => sound.marked other (mem_of_mem_filter member)
    addingKnown := by
      intro other member
      rw [AssocMap.contains, AssocMap.find?_filter_key s.graphs (· ≠ graph),
        if_pos (by simpa using settled other member)]
      exact sound.addingKnown other member
    addingMarked := fun other member inner inside =>
      sound.addingMarked other member inner (mem_of_mem_filter inside) }

/-- A new executable graph: its graph is not marked, or it is the first one that is counted. -/
theorem instantiate (sound : Sound s)
    {ordered : List NodeHandle} (known : s.graphs.find? graph = some found)
    (fresh : s.execs.contains exec = false) (permutation : ordered.Perm found.nodes)
    (permitted : ¬ ((s.lifetime found.lifetime).containsMemoryNodes = true ∧
      (s.lifetime found.lifetime).executableInstances ≠ 0)) :
    Sound { s with
      execs := s.execs ++ [(exec, ⟨.ofOrder s.heap ordered found.lifetime false,
        (s.lifetime found.lifetime).containsMemoryNodes⟩)]
      lifetimes := s.lifetimes.set found.lifetime
        (countInstance (s.lifetime found.lifetime)) } := by
  have foundMember := mem_of_find? known
  have inside := sound.graphLifetimes _ foundMember
  have after := State.lifetime_set (s := s) inside (countInstance (s.lifetime found.lifetime))
  have flag : ∀ number, ((s.lifetimes.set found.lifetime
      (countInstance (s.lifetime found.lifetime))).getD number ⟨false, 0⟩).containsMemoryNodes =
        (s.lifetime number).containsMemoryNodes := by
    intro number
    rw [after]
    split
    · next same => rw [countInstance_containsMemoryNodes, same]
    · rfl
  -- The new executable graph is counted where its graph is marked, and there it is the first.
  have more : ∀ number, (s.execs ++ [(exec, (⟨.ofOrder s.heap ordered found.lifetime false,
      (s.lifetime found.lifetime).containsMemoryNodes⟩ : LiveExec))]).countP
        (fun exec => exec.2.exec.lifetime = number ∧ exec.2.counted = true) =
      s.countedInstances number +
        if found.lifetime = number ∧ (s.lifetime found.lifetime).containsMemoryNodes = true then 1
        else 0 := by
    intro number
    rw [countP_append, countP_singleton, State.countedInstances, CudaGraphExec.ofOrder]
    by_cases both : found.lifetime = number ∧
        (s.lifetime found.lifetime).containsMemoryNodes = true
    · rw [if_pos both, if_pos (decide_eq_true both)]
    · rw [if_neg both, if_neg (by simpa using both)]
  have first : (s.lifetime found.lifetime).containsMemoryNodes = true →
      s.countedInstances found.lifetime = 0 := by
    intro marked
    rw [← sound.counts]
    by_contra some
    exact permitted ⟨marked, some⟩
  exact {
    handles := by
      rw [map_append, nodup_append]
      refine ⟨sound.handles, nodup_singleton _, ?_⟩
      intro handle member other last same
      obtain rfl : other = exec := mem_singleton.mp last
      rw [contains_eq_false_iff] at fresh
      exact fresh (same ▸ member)
    graphHandles := sound.graphHandles
    counts := by
      intro number
      refine Eq.trans ?_ (more number).symm
      rw [State.lifetime, after, ← sound.counts]
      by_cases same : found.lifetime = number
      · subst same
        rw [if_pos rfl, countInstance]
        by_cases marked : (s.lifetime found.lifetime).containsMemoryNodes = true
        · rw [if_pos marked, if_pos ⟨rfl, marked⟩]
        · rw [if_neg marked, if_neg fun both => marked both.2, add_zero]
      · rw [if_neg same, if_neg fun both => same both.1, add_zero]
    unmarked := by
      intro number unmarked
      rw [State.lifetime, flag] at unmarked
      refine (more number).trans ?_
      rw [sound.unmarked number unmarked, if_neg, add_zero]
      rintro ⟨rfl, marked⟩
      rw [unmarked] at marked
      cases marked
    once := by
      intro number
      refine (more number).trans_le ?_
      split
      · next both =>
          obtain ⟨rfl, marked⟩ := both
          rw [first marked]
      · exact sound.once number
    counted := by
      intro other member memory
      rcases mem_append.mp member with before | last
      · exact sound.counted other before memory
      · rw [mem_singleton.mp last] at memory ⊢
        obtain ⟨copy, copied, isMemory⟩ := memory
        obtain ⟨node, there, rfl⟩ := mem_map.mp copied
        exact sound.marked _ foundMember node (permutation.subset there) isMemory
    execLifetimes := by
      intro other member
      rw [length_set]
      rcases mem_append.mp member with before | last
      · exact sound.execLifetimes other before
      · rw [mem_singleton.mp last]
        exact inside
    graphLifetimes := by
      intro other member
      rw [length_set]
      exact sound.graphLifetimes other member
    marked := by
      intro other member node there memory
      exact (flag _).trans (sound.marked other member node there memory)
    addingKnown := sound.addingKnown
    addingMarked := by
      intro other member found there same
      exact (flag _).trans (sound.addingMarked other member found there same) }

variable {live : LiveExec} {action : Action} {after : State}

theorem countedInstances_destroyed (sound : Sound s) (known : s.execs.find? exec = some live)
    (number : Nat) :
    s.countedInstances number =
      ({ s with execs := s.execs.filter (·.1 ≠ exec) } : State).countedInstances number +
        if live.exec.lifetime = number ∧ live.counted = true then 1 else 0 := by
  refine (countP_remove _ sound.handles known).trans ?_
  simp only [State.countedInstances, decide_eq_true_eq]

/-- An executable graph goes that was counted, or does not lower the count. -/
theorem destroyExec (sound : Sound s) (known : s.execs.find? exec = some live)
    (paired : live.counted = true ∨ ¬ ((s.lifetime live.exec.lifetime).containsMemoryNodes = true
      ∧ (s.lifetime live.exec.lifetime).executableInstances ≠ 0)) :
    Sound { s with
      execs := s.execs.filter (·.1 ≠ exec)
      lifetimes := s.lifetimes.modify live.exec.lifetime destroyInstance } := by
  have member := mem_of_find? known
  have after := State.lifetime_modify (s := s) (sound.execLifetimes _ member) destroyInstance
  have flag : ∀ number, ((s.lifetimes.modify live.exec.lifetime destroyInstance).getD number
      ⟨false, 0⟩).containsMemoryNodes = (s.lifetime number).containsMemoryNodes := by
    intro number
    rw [after]
    split
    · exact destroyInstance_containsMemoryNodes _
    · rfl
  have fewer := sound.countedInstances_destroyed known
  exact {
    handles := sound.handles.sublist (filter_sublist.map _)
    graphHandles := sound.graphHandles
    counts := by
      intro number
      rw [State.lifetime, after]
      have before := fewer number
      have counts := sound.counts number
      by_cases same : live.exec.lifetime = number
      · subst same
        rw [if_pos rfl]
        by_cases lowered : (s.lifetime live.exec.lifetime).containsMemoryNodes = true ∧
            (s.lifetime live.exec.lifetime).executableInstances ≠ 0
        · have counted := paired.resolve_right (not_not.mpr lowered)
          rw [if_pos ⟨rfl, counted⟩] at before
          rw [destroyInstance, if_pos lowered]
          change (s.lifetime live.exec.lifetime).executableInstances - 1 = _
          rw [counts, before, Nat.add_sub_cancel]
          rfl
        · rw [destroyInstance, if_neg lowered, counts]
          by_cases counted : live.counted = true
          · rw [if_pos ⟨rfl, counted⟩] at before
            have marked : (s.lifetime live.exec.lifetime).containsMemoryNodes = true := by
              by_contra unmarked
              have none := sound.unmarked _ (Bool.eq_false_of_not_eq_true unmarked)
              omega
            exact absurd ⟨marked, by omega⟩ lowered
          · rw [if_neg fun both => counted both.2, add_zero] at before
            exact before
      · rw [if_neg fun both => same both.1, add_zero] at before
        rw [if_neg same, counts]
        exact before
    unmarked := by
      intro number unmarked
      rw [State.lifetime, flag] at unmarked
      have before := fewer number
      rw [sound.unmarked number unmarked] at before
      change ({ s with execs := s.execs.filter (·.1 ≠ exec) } : State).countedInstances number = 0
      omega
    once := by
      intro number
      have before := fewer number
      have once := sound.once number
      change ({ s with execs := s.execs.filter (·.1 ≠ exec) } : State).countedInstances number ≤ 1
      omega
    counted := fun other inside => sound.counted other (mem_of_mem_filter inside)
    execLifetimes := by
      intro other inside
      rw [length_modify]
      exact sound.execLifetimes other (mem_of_mem_filter inside)
    graphLifetimes := by
      intro other inside
      rw [length_modify]
      exact sound.graphLifetimes other inside
    marked := by
      intro other inside node there memory
      exact (flag _).trans (sound.marked other inside node there memory)
    addingKnown := sound.addingKnown
    addingMarked := by
      intro other inside found there same
      exact (flag _).trans (sound.addingMarked other inside found there same) }

theorem step (sound : Sound s) (paired : Paired s action) (stepped : s.next action = some after) :
    Sound after := by
  cases action with
  | createGraph graph =>
    rw [State.next] at stepped
    split at stepped
    · cases stepped
    · next fresh =>
        cases stepped
        exact sound.createGraph (Bool.eq_false_of_not_eq_true fresh)
  | addNode graph node object =>
    simp only [State.next] at stepped
    cases known : s.graphs.find? graph with
    | none => rw [known] at stepped; cases stepped
    | some found =>
      rw [known] at stepped
      simp only at stepped
      split at stepped
      · next accepted =>
          cases stepped
          refine sound.pushNode known ?_ ?_ (Subset.refl _)
          · intro other member inner inside
            refine State.heap_assign ?_ object
            rintro rfl
            exact accepted.1.2.1 other member inside
          · intro memory
            rw [State.heap, find?_assign, if_pos rfl, getD_some,
              accepted.2] at memory
            cases memory
      · cases stepped
  | markMemoryNode graph node object =>
    simp only [State.next] at stepped
    cases known : s.graphs.find? graph with
    | none => rw [known] at stepped; cases stepped
    | some found =>
      rw [known] at stepped
      simp only at stepped
      split at stepped
      · next accepted =>
          cases stepped
          exact sound.markMemoryNode known accepted.1
      · cases stepped
  | pushMemoryNode graph node =>
    simp only [State.next] at stepped
    cases known : s.graphs.find? graph with
    | none => rw [known] at stepped; cases stepped
    | some found =>
      rw [known] at stepped
      simp only at stepped
      split at stepped
      · next waiting =>
          cases stepped
          have marked := sound.addingMarked _ waiting _ (mem_of_find? known) rfl
          exact sound.pushNode known (fun _ _ _ _ => rfl) (fun _ => marked)
            erase_subset
      · cases stepped
  | destroyGraph graph =>
    rw [State.next] at stepped
    split at stepped
    · next settled =>
        cases stepped
        exact sound.destroyGraph settled.2
    · cases stepped
  | instantiate graph exec =>
    simp only [State.next] at stepped
    cases known : s.graphs.find? graph with
    | none => rw [known] at stepped; cases stepped
    | some found =>
      rw [known] at stepped
      simp only at stepped
      split at stepped
      · cases stepped
      · next fresh =>
          rcases cudaGraphInstantiate_cases s.heap found (s.lifetime found.lifetime) with
            ⟨refused, _⟩ | ⟨ordered, succeeded, permitted, made⟩
          · rw [refused] at stepped
            cases stepped
            exact sound
          · rw [made] at stepped
            cases stepped
            exact sound.instantiate known (Bool.eq_false_of_not_eq_true fresh)
              (orderNodes_spec succeeded).1 permitted
  | destroyExec exec =>
    simp only [State.next] at stepped
    cases known : s.execs.find? exec with
    | none => rw [known] at stepped; cases stepped
    | some live =>
      rw [known] at stepped
      cases stepped
      exact sound.destroyExec known (paired live known)

/-- An executable graph that was not counted and lowers the count leaves it wrong. -/
theorem unpaired (sound : Sound s) (bad : ¬ Paired s action)
    (stepped : s.next action = some after) : ¬ CountsInstances after := by
  cases action with
  | destroyExec exec =>
    simp only [Paired, not_forall, not_or, not_not] at bad
    obtain ⟨live, known, uncounted, lowered⟩ := bad
    simp only [State.next, known, some.injEq] at stepped
    subst stepped
    intro counts
    have member := mem_of_find? known
    have wrong := counts live.exec.lifetime
    have before := sound.countedInstances_destroyed known live.exec.lifetime
    have right := sound.counts live.exec.lifetime
    rw [if_neg fun both => uncounted both.2, add_zero] at before
    rw [State.lifetime, State.lifetime_modify (sound.execLifetimes _ member), if_pos rfl,
      destroyInstance, if_pos lowered] at wrong
    have positive := lowered.2
    change (s.lifetime live.exec.lifetime).executableInstances - 1 =
      ({ s with execs := s.execs.filter (·.1 ≠ exec) } : State).countedInstances _ at wrong
    omega
  | _ => exact absurd trivial bad

end Sound

/-- Over a run from no graphs, the count is right and no graph has two executable graphs with memory
nodes in every state exactly if no destroyed executable graph that was not counted lowers the
count. -/
theorem instances_exact_iff {trail : List (State × Action)} {last : State}
    (run : Guarded.Run (Guarded.Steps State.next) .initial trail last) :
    Guarded.Always (fun s => CountsInstances s ∧ OneMemoryExec s) trail last ↔
      ∀ visited ∈ trail, Paired visited.1 visited.2 :=
  run.always_iff (fun s (sound : Sound s) => sound.holds)
    (fun _ _ _ sound paired stepped => sound.step paired stepped)
    (fun _ _ _ sound bad stepped holds => sound.unpaired bad stepped holds.1) .initial

def memoryNode : GraphNode Unit := ⟨.memAlloc, [], some 0, ()⟩

/-- A graph with a memory node is instantiated, and again after the first executable graph is
destroyed. -/
def oneAfterTheOther : List Action :=
  [.createGraph 1, .markMemoryNode 1 5 memoryNode, .pushMemoryNode 1 5, .instantiate 1 7,
    .instantiate 1 8, .destroyExec 7, .instantiate 1 8]

theorem instances_exact_oneAfterTheOther :
    ∃ trail last, trail.map Prod.snd = oneAfterTheOther ∧
      Guarded.Always (fun s => CountsInstances s ∧ OneMemoryExec s) trail last := by
  have ran : (Guarded.execute (fun s a => if Paired s a then s.next a else none) .initial
      oneAfterTheOther).isSome = true := by decide
  obtain ⟨last, executed⟩ := isSome_iff_exists.mp ran
  obtain ⟨trail, actions, run, paired⟩ := Guarded.run_of_guarded executed
  exact ⟨trail, last, actions, (instances_exact_iff run).mpr paired⟩

/-- A graph is instantiated before it gets a memory node, and again afterwards. When the first
executable graph is destroyed, the count of the second one goes. -/
def earlyInstance : List Action :=
  [.createGraph 1, .instantiate 1 7, .markMemoryNode 1 5 memoryNode, .pushMemoryNode 1 5,
    .instantiate 1 8, .destroyExec 7, .instantiate 1 9]

/-- A third instantiation succeeds while the second executable graph is live. -/
theorem earlyInstance_uncounted :
    ¬ ∀ trail last, Guarded.Run (Guarded.Steps State.next) .initial trail last →
      Guarded.Always (fun s => CountsInstances s ∧ OneMemoryExec s) trail last := by
  intro holds
  have ran : ∃ last, Guarded.execute State.next .initial earlyInstance = some last ∧
      (∃ left, last.execs.find? 8 = some left ∧ left.exec.lifetime = 0 ∧
        left.exec.nodes = [memoryNode]) ∧
      ∃ right, last.execs.find? 9 = some right ∧ right.exec.lifetime = 0 ∧
        right.exec.nodes = [memoryNode] :=
    ⟨_, rfl, ⟨_, rfl, rfl, rfl⟩, ⟨_, rfl, rfl, rfl⟩⟩
  obtain ⟨last, executed, ⟨left, atLeft, leftGraph, leftNodes⟩,
    ⟨right, atRight, rightGraph, rightNodes⟩⟩ := ran
  obtain ⟨trail, _, run⟩ := Guarded.run_of_execute executed
  have one := (holds trail last run).2.2
  have same := one 8 9 left right atLeft atRight (leftGraph.trans rightGraph.symm)
    ⟨memoryNode, by rw [leftNodes]; exact mem_singleton_self _, rfl⟩
    ⟨memoryNode, by rw [rightNodes]; exact mem_singleton_self _, rfl⟩
  cases same

end CuMetal.Runtime.Graphs.Instances
