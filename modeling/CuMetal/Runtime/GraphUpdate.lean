import CuMetal.Runtime.GraphExecs

/-!
# Updates of executable graphs

An update succeeds exactly if the graph's order fits the executable graph, and then makes it what a
new instantiation of the graph is.
-/

namespace CuMetal.Runtime.Graphs

open List CudaGraphExec

open GraphMemory (GraphLifetimeState)

variable {δ ω : Type} {heap : NodeHeap δ} {graph : CudaGraph} {exec : CudaGraphExec δ}
  {state : GraphLifetimeState}

/-- The nodes of the order have the types and the dependencies of the executable graph's nodes. -/
structure Fits (heap : NodeHeap δ) (ordered : List NodeHandle) (exec : CudaGraphExec δ) : Prop where
  types : ordered.map (fun node => (heap node).type) = exec.nodes.map GraphNode.type
  dependencies : ordered.map (canonicalIndices heap ordered) = exec.dependencyIndices

/-- The comparison from the `i`-th node on goes through exactly if the types are the same. -/
theorem compareNodes_spec {index : AssocMap NodeHandle Nat} {indices : NodeHandle → List Nat}
    (rest : List NodeHandle)
    (found : ∀ node ∈ rest, indicesOf index (heap node) = some (indices node)) :
    ∀ (i : Nat) (dependencies : List (List Nat)), i + rest.length = exec.nodes.length →
      (compareNodes heap index exec i rest dependencies =
          .sameTypes (dependencies ++ rest.map indices) ∧
        rest.map (fun node => (heap node).type) = (exec.nodes.drop i).map GraphNode.type) ∨
      ∃ node, compareNodes heap index exec i rest dependencies = .typeChanged node ∧
        rest.map (fun node => (heap node).type) ≠ (exec.nodes.drop i).map GraphNode.type := by
  induction rest with
  | nil =>
    intro i dependencies length
    have all : exec.nodes.drop i = [] := drop_eq_nil_of_le (by simpa using length.ge)
    exact .inl ⟨by rw [compareNodes, map_nil, append_nil], by rw [all]; rfl⟩
  | cons node rest ih =>
    intro i dependencies length
    rw [length_cons] at length
    have inside : i < exec.nodes.length := by omega
    rw [compareNodes, getElem?_eq_getElem inside, Option.map_some,
      drop_eq_getElem_cons inside, map_cons, map_cons]
    by_cases same : (heap node).type = exec.nodes[i].type
    · rw [if_neg (by simpa using same), found node mem_cons_self]
      have later := ih (fun other member => found other (mem_cons_of_mem _ member))
        (i + 1) (dependencies ++ [indices node]) (by omega)
      rw [append_assoc, singleton_append] at later
      rcases later with ⟨compared, types⟩ | ⟨changed, compared, types⟩
      · exact .inl ⟨compared, by rw [same, types, map_cons]⟩
      · exact .inr ⟨changed, compared, fun whole => types (cons.inj whole).2⟩
    · rw [if_pos (by simpa using same)]
      exact .inr ⟨node, rfl, fun whole => same (cons.inj whole).1⟩

/-- What an update does: it refuses and leaves the executable graph, or makes it the executable
graph of the order. -/
theorem cudaGraphExecUpdate_cases (heap : NodeHeap δ) (exec : CudaGraphExec δ)
    (graph : CudaGraph) (state : GraphLifetimeState) :
    ((cudaGraphExecUpdate heap exec graph state).result ≠ .success ∧
        (cudaGraphExecUpdate heap exec graph state).exec = exec ∧
        ¬ (state.containsMemoryNodes = false ∧
          ∃ ordered, orderNodes heap graph = some ordered ∧ Fits heap ordered exec)) ∨
      ∃ ordered, orderNodes heap graph = some ordered ∧ Fits heap ordered exec ∧
        state.containsMemoryNodes = false ∧
        cudaGraphExecUpdate heap exec graph state =
          ⟨.success, .success, none,
            .ofOrder heap ordered exec.lifetime exec.autoFreeOnLaunch⟩ := by
  unfold cudaGraphExecUpdate
  by_cases memory : state.containsMemoryNodes = true
  · rw [if_pos memory]
    refine .inl ⟨by simp, rfl, ?_⟩
    rintro ⟨none, -⟩
    rw [memory] at none
    cases none
  rw [if_neg memory]
  cases succeeded : orderNodes heap graph with
  | none =>
    refine .inl ⟨by simp, rfl, ?_⟩
    rintro ⟨-, ordered, absent, -⟩
    cases absent
  | some ordered =>
    simp only
    -- A fit would be one of this order.
    have notFit : ¬ Fits heap ordered exec → ¬ (state.containsMemoryNodes = false ∧
        ∃ other, some ordered = some other ∧ Fits heap other exec) := by
      rintro misfit ⟨-, other, same, fits⟩
      cases same
      exact misfit fits
    by_cases length : ordered.length = exec.nodes.length
    · obtain ⟨_, distinct, inside⟩ := orderNodes_spec succeeded
      have compared := compareNodes_spec ordered
        (fun node member => indicesOf_eq heap distinct (inside node member)) 0 []
        (show 0 + ordered.length = exec.nodes.length by rw [zero_add, length])
      rw [nil_append, drop_zero] at compared
      rw [if_neg (by simpa using length)]
      rcases compared with ⟨same, types⟩ | ⟨node, changed, types⟩
      · simp only [same]
        by_cases dependencies : ordered.map (canonicalIndices heap ordered) =
            exec.dependencyIndices
        · rw [if_neg (by simpa using dependencies)]
          refine .inr ⟨ordered, rfl, ⟨types, dependencies⟩,
            Bool.eq_false_of_not_eq_true memory, ?_⟩
          have index := foldl_emplace ordered 0 [] distinct fun _ _ => rfl
          rw [copyNodes_eq]
          simp only [nil_append, length_nil, index, ofOrder]
        · rw [if_pos (by simpa using dependencies)]
          exact .inl ⟨by simp, rfl, notFit fun fits => dependencies fits.dependencies⟩
      · rw [changed]
        exact .inl ⟨by simp, rfl, notFit fun fits => types fits.types⟩
    · rw [if_pos (by simpa using length)]
      refine .inl ⟨by simp, rfl, notFit fun fits => length ?_⟩
      simpa using congrArg List.length fits.types

theorem freeLeft_of_none (effects : LaunchEffects δ ω) (nodes : List (GraphNode δ))
    (none : ∀ node ∈ nodes, node.type ≠ .memAlloc) (seen : List Nat) (world : ω) :
    freeLeft effects seen nodes world = (.success, world) := by
  induction nodes with
  | nil => rfl
  | cons node nodes ih =>
    have first := none node mem_cons_self
    have later := ih fun other member => none other (mem_cons_of_mem _ member)
    cases type : node.type with
    | memAlloc => exact absurd type first
    | _ => simp only [freeLeft, type]; exact later

theorem cudaGraphLaunch_congr (effects : LaunchEffects δ ω) (ordered : List NodeHandle)
    (lifetime other : Nat) {autoFree otherFree : Bool}
    (same : autoFree = otherFree ∨ ∀ node ∈ ordered, (heap node).type ≠ .memAlloc) (world : ω) :
    cudaGraphLaunch effects (.ofOrder heap ordered lifetime autoFree) world =
      cudaGraphLaunch effects (.ofOrder heap ordered other otherFree) world := by
  rcases same with rfl | none
  · rfl
  · have nothing := freeLeft_of_none effects
      (ordered.map fun node => (heap node).copy) (by simpa [GraphNode.copy] using none) []
    simp only [cudaGraphLaunch, ofOrder, nothing, ite_self]

theorem addressed_ofOrder {ordered : List NodeHandle} (distinct : ordered.Nodup)
    (lifetime : Nat) (autoFree : Bool) {node : NodeHandle} (member : node ∈ ordered) :
    ∃ i, (ofOrder heap ordered lifetime autoFree).addressed node (heap node).type =
        some i ∧
      (ofOrder heap ordered lifetime autoFree).nodes[i]? =
        some (heap node).copy := by
  have there := getElem?_idxOf member
  have found := (find?_zipIdx distinct node (ordered.idxOf node)).mpr there
  have copied : (ordered.map fun node => (heap node).copy)[ordered.idxOf node]? =
      some (heap node).copy := by
    rw [getElem?_map, there]
    rfl
  refine ⟨ordered.idxOf node, ?_, copied⟩
  simp only [addressed, ofOrder, found, copied]
  exact if_pos rfl

/-- `cudaGraphExecUpdate` reports success exactly for graphs without memory nodes whose order fits
the executable graph. A launch is then one of a new instantiation of the graph, and each node of the
graph is one that the update calls find. Otherwise the executable graph stays. -/
theorem cudaGraphExecUpdate_exact (heap : NodeHeap δ) (exec : CudaGraphExec δ)
    (graph : CudaGraph) (state : GraphLifetimeState) (effects : LaunchEffects δ ω) :
    ((cudaGraphExecUpdate heap exec graph state).result = .success ↔
      state.containsMemoryNodes = false ∧
        ∃ ordered, orderNodes heap graph = some ordered ∧ Fits heap ordered exec) ∧
    ((cudaGraphExecUpdate heap exec graph state).result = .success →
      (cudaGraphExecUpdate heap exec graph state).status = .success ∧
      (∀ autoFree, (autoFree = exec.autoFreeOnLaunch ∨
          ∀ node ∈ graph.nodes, (heap node).type ≠ .memAlloc) →
        ∃ fresh, cudaGraphInstantiateWithFlags heap graph state autoFree =
            (.success, some fresh, state) ∧
          ∀ world, cudaGraphLaunch effects (cudaGraphExecUpdate heap exec graph state).exec world =
            cudaGraphLaunch effects fresh world) ∧
      ∀ node ∈ graph.nodes, ∃ i,
        (cudaGraphExecUpdate heap exec graph state).exec.addressed node (heap node).type =
            some i ∧
          (cudaGraphExecUpdate heap exec graph state).exec.nodes[i]? = some (heap node).copy) ∧
    ((cudaGraphExecUpdate heap exec graph state).result ≠ .success →
      (cudaGraphExecUpdate heap exec graph state).exec = exec) := by
  rcases cudaGraphExecUpdate_cases heap exec graph state with
    ⟨refused, stays, misfit⟩ | ⟨ordered, succeeded, fits, memory, updated⟩
  · refine ⟨⟨fun success => absurd success refused, fun fits => absurd fits misfit⟩,
      fun success => absurd success refused, fun _ => stays⟩
  · obtain ⟨permutation, distinct, _⟩ := orderNodes_spec succeeded
    rw [updated]
    refine ⟨⟨fun _ => ⟨memory, ordered, succeeded, fits⟩, fun _ => rfl⟩, ?_,
      fun refused => absurd rfl refused⟩
    refine fun _ => ⟨rfl, ?_, ?_⟩
    · intro autoFree same
      have permitted : ¬ (state.containsMemoryNodes ∧ state.executableInstances ≠ 0) := by
        simp [memory]
      have made := cudaGraphInstantiate_of_order succeeded permitted
      rw [countInstance, memory, if_neg Bool.false_ne_true] at made
      refine ⟨.ofOrder heap ordered graph.lifetime autoFree, ?_, ?_⟩
      · simp only [cudaGraphInstantiateWithFlags, made, ofOrder]
      · refine cudaGraphLaunch_congr effects ordered _ _ ?_
        rcases same with rfl | none
        · exact .inl rfl
        · exact .inr fun node member => none node (permutation.subset member)
    · intro node member
      exact addressed_ofOrder distinct _ _ (permutation.symm.subset member)

/-- A host node that needs a copy, which stands after it. -/
def lateCopy : NodeHeap Unit := fun node =>
  if node = 1 then ⟨.host, [2], none, ()⟩ else ⟨.memcpy, [], none, ()⟩

/-- An executable graph of a copy and a host node after it. -/
def copyThenHost : CudaGraphExec Unit where
  nodes := [⟨.memcpy, [], none, ()⟩, ⟨.host, [], none, ()⟩]
  sourceNodeIndex := [(7, 0), (8, 1)]
  dependencyIndices := [[], [0]]
  lifetime := 0
  autoFreeOnLaunch := false

/-- The graph's nodes are found afterwards. -/
theorem cudaGraphExecUpdate_exact_lateCopy :
    (cudaGraphExecUpdate lateCopy copyThenHost ⟨[1, 2], 1⟩ ⟨false, 0⟩).result = .success ∧
      ∀ node ∈ [1, 2], ∃ i,
        (cudaGraphExecUpdate lateCopy copyThenHost ⟨[1, 2], 1⟩ ⟨false, 0⟩).exec.addressed node
            (lateCopy node).type = some i ∧
          (cudaGraphExecUpdate lateCopy copyThenHost ⟨[1, 2], 1⟩ ⟨false, 0⟩).exec.nodes[i]? =
            some (lateCopy node).copy :=
  have success : (cudaGraphExecUpdate lateCopy copyThenHost ⟨[1, 2], 1⟩ ⟨false, 0⟩).result =
      .success := by decide
  ⟨success, ((cudaGraphExecUpdate_exact lateCopy copyThenHost ⟨[1, 2], 1⟩ ⟨false, 0⟩
    (⟨fun _ _ => (.success, ()), fun _ _ => false, fun _ _ => (.success, ())⟩ :
      LaunchEffects Unit Unit)).2.1 success).2.2⟩

end CuMetal.Runtime.Graphs
