import CuMetal.Runtime.GraphMemory
import CuMetal.Runtime.GraphOrder

/-!
# Executable graphs

Instantiation, update and launch of executable graphs (`runtime/rt/cuda_runtime.cpp`). What the
nodes do when they are launched, and on what data, is left open.
-/

namespace CuMetal.Runtime.Graphs

open List

open GraphMemory (GraphLifetimeState)

/-- `cudaGraphNodeType` (`api/cuda_runtime.h:568-583`). -/
inductive CudaGraphNodeType
  | kernel | memcpy | memset | host | graph | empty | waitEvent | eventRecord
  | extSemaphoreSignal | extSemaphoreWait | memAlloc | memFree | conditional | reserved16 | count
  deriving DecidableEq

def CudaGraphNodeType.isMemory (type : CudaGraphNodeType) : Bool :=
  type = .memAlloc ∨ type = .memFree

/-- `cudaGraphNode_st` (`237-280`): its fields but the first two are `data`, from which `allocation`
is the address of its graph allocation. -/
structure GraphNode (δ : Type) where
  type : CudaGraphNodeType
  dependencies : List NodeHandle
  allocation : Option Nat
  data : δ

abbrev NodeHeap (δ : Type) := NodeHandle → GraphNode δ

/-- `cudaGraph_st` (`320-333`), with the number of its lifetime. -/
structure CudaGraph where
  nodes : List NodeHandle
  lifetime : Nat

/-- `cudaGraphExec_st` (`335-343`). -/
structure CudaGraphExec (δ : Type) where
  nodes : List (GraphNode δ)
  sourceNodeIndex : AssocMap NodeHandle Nat
  dependencyIndices : List (List Nat)
  lifetime : Nat
  autoFreeOnLaunch : Bool

variable {δ ω : Type}

/-- The copy of a node that an executable graph keeps (`4742-4743`, `4934-4935`). -/
def GraphNode.copy (node : GraphNode δ) : GraphNode δ := { node with dependencies := [] }

def orderNodes (heap : NodeHeap δ) (graph : CudaGraph) : Option (List NodeHandle) :=
  topologicallyOrderGraph (fun node => (heap node).dependencies) graph.nodes

/-- The map `ordered_index` (`4728-4730`, `4904-4906`). -/
def orderedIndex (ordered : List NodeHandle) : AssocMap NodeHandle Nat :=
  ordered.zipIdx.foldl (fun index entry => index.emplace entry.1 entry.2) []

/-- The sorted indices of the dependencies of a node (`4731-4741`, `4914-4921`). -/
def indicesOf (index : AssocMap NodeHandle Nat) (node : GraphNode δ) :
    Option (List Nat) :=
  (node.dependencies.mapM index.find?).map (List.insertionSort (· ≤ ·))

/-- The loop of `cudaGraphInstantiate` (`4731-4747`). -/
def CudaGraphExec.fill (heap : NodeHeap δ) (index : AssocMap NodeHandle Nat) :
    List NodeHandle → CudaGraphExec δ → Option (CudaGraphExec δ)
  | [], exec => some exec
  | node :: rest, exec =>
    match indicesOf index (heap node) with
    | none => none
    | some indices =>
      fill heap index rest
        { exec with
          sourceNodeIndex := exec.sourceNodeIndex.emplace node exec.nodes.length
          nodes := exec.nodes ++ [(heap node).copy]
          dependencyIndices := exec.dependencyIndices ++ [indices] }

/-- The count of executable graphs (`4748-4751`). -/
def countInstance (state : GraphLifetimeState) : GraphLifetimeState :=
  if state.containsMemoryNodes then
    { state with executableInstances := state.executableInstances + 1 }
  else state

/-- `cudaGraphInstantiate` (`4701-4754`) of a graph whose lifetime has this state, with the state
that it leaves; the executable graph can be allocated. -/
def cudaGraphInstantiate (heap : NodeHeap δ) (graph : CudaGraph) (state : GraphLifetimeState) :
    CudaError × Option (CudaGraphExec δ) × GraphLifetimeState :=
  if state.containsMemoryNodes ∧ state.executableInstances ≠ 0 then (.invalidValue, none, state)
  else
    match orderNodes heap graph with
    | none => (.invalidValue, none, state)
    | some ordered =>
      match CudaGraphExec.fill heap (orderedIndex ordered) ordered
          ⟨[], [], [], graph.lifetime, false⟩ with
      | none => (.invalidValue, none, state)
      | some exec => (.success, some exec, countInstance state)

/-- `cudaGraphInstantiateWithFlags` (`4756-4771`) with the one flag that it takes. -/
def cudaGraphInstantiateWithFlags (heap : NodeHeap δ) (graph : CudaGraph)
    (state : GraphLifetimeState) (autoFree : Bool) :
    CudaError × Option (CudaGraphExec δ) × GraphLifetimeState :=
  match cudaGraphInstantiate heap graph state with
  | (status, some exec, after) => (status, some { exec with autoFreeOnLaunch := autoFree }, after)
  | refused => refused

/-- `cudaGraphExecDestroy` (`4946-4959`): what is left of the lifetime's state. -/
def destroyInstance (state : GraphLifetimeState) : GraphLifetimeState :=
  if state.containsMemoryNodes ∧ state.executableInstances ≠ 0 then
    { state with executableInstances := state.executableInstances - 1 }
  else state

@[simp] theorem countInstance_containsMemoryNodes (state : GraphLifetimeState) :
    (countInstance state).containsMemoryNodes = state.containsMemoryNodes := by
  unfold countInstance
  split <;> rfl

@[simp] theorem destroyInstance_containsMemoryNodes (state : GraphLifetimeState) :
    (destroyInstance state).containsMemoryNodes = state.containsMemoryNodes := by
  unfold destroyInstance
  split <;> rfl

/-- What the launch of a node does, and the calls by which a launch frees allocations that are
left. -/
structure LaunchEffects (δ ω : Type) where
  perform : GraphNode δ → ω → CudaError × ω
  active : Nat → ω → Bool
  deactivate : Nat → ω → CudaError × ω

/-- The nodes one after the other, until one fails (`4778-4853`). -/
def replay (effects : LaunchEffects δ ω) : List (GraphNode δ) → ω → CudaError × ω
  | [], world => (.success, world)
  | node :: rest, world =>
    match effects.perform node world with
    | (.success, next) => replay effects rest next
    | failed => failed

/-- The frees of `auto_free_on_launch` (`4855-4873`). -/
def freeLeft (effects : LaunchEffects δ ω) :
    List Nat → List (GraphNode δ) → ω → CudaError × ω
  | _, [], world => (.success, world)
  | seen, node :: rest, world =>
    match node.type, node.allocation with
    | .memAlloc, some allocation =>
      if allocation ∈ seen then freeLeft effects seen rest world
      else if effects.active allocation world then
        match effects.deactivate allocation world with
        | (.success, next) => freeLeft effects (allocation :: seen) rest next
        | failed => failed
      else freeLeft effects (allocation :: seen) rest world
    | _, _ => freeLeft effects seen rest world

/-- `cudaGraphLaunch` (`4773-4876`). -/
def cudaGraphLaunch (effects : LaunchEffects δ ω) (exec : CudaGraphExec δ) (world : ω) :
    CudaError × ω :=
  match replay effects exec.nodes world with
  | (.success, next) =>
    if exec.autoFreeOnLaunch then freeLeft effects [] exec.nodes next else (.success, next)
  | failed => failed

/-- The results of `cudaGraphExecUpdate` (`api/cuda_runtime.h:600-610`) that it reports. -/
inductive ExecUpdateResult
  | success | error | topologyChanged | nodeTypeChanged | notSupported
  deriving DecidableEq

/-- What `cudaGraphExecUpdate` leaves: its status, what it reports, and the executable graph. -/
structure ExecUpdate (δ : Type) where
  status : CudaError
  result : ExecUpdateResult
  errorNode : Option NodeHandle
  exec : CudaGraphExec δ

/-- What the comparison of the nodes ends with. -/
inductive Comparison
  | sameTypes (dependencies : List (List Nat))
  | typeChanged (node : NodeHandle)
  | missingDependency

/-- The comparison of the nodes from the `i`-th on with those of the executable graph
(`4909-4923`). -/
def compareNodes (heap : NodeHeap δ) (index : AssocMap NodeHandle Nat)
    (exec : CudaGraphExec δ) : Nat → List NodeHandle → List (List Nat) → Comparison
  | _, [], dependencies => .sameTypes dependencies
  | i, node :: rest, dependencies =>
    if some (heap node).type ≠ exec.nodes[i]?.map GraphNode.type then .typeChanged node
    else
      match indicesOf index (heap node) with
      | none => .missingDependency
      | some indices => compareNodes heap index exec (i + 1) rest (dependencies ++ [indices])

/-- The loop that copies the nodes (`4929-4938`). -/
def copyNodes (heap : NodeHeap δ) :
    List NodeHandle → List (GraphNode δ) → AssocMap NodeHandle Nat →
      List (GraphNode δ) × AssocMap NodeHandle Nat
  | [], nodes, index => (nodes, index)
  | source :: rest, nodes, index =>
    copyNodes heap rest (nodes ++ [(heap source).copy]) (index.emplace source nodes.length)

/-- `cudaGraphExecUpdate` (`4878-4944`) with a place for the result. -/
def cudaGraphExecUpdate (heap : NodeHeap δ) (exec : CudaGraphExec δ) (graph : CudaGraph)
    (state : GraphLifetimeState) : ExecUpdate δ :=
  if state.containsMemoryNodes then ⟨.success, .notSupported, none, exec⟩
  else
    match orderNodes heap graph with
    | none => ⟨.invalidValue, .error, none, exec⟩
    | some ordered =>
      if ordered.length ≠ exec.nodes.length then ⟨.success, .topologyChanged, none, exec⟩
      else
        match compareNodes heap (orderedIndex ordered) exec 0 ordered [] with
        | .typeChanged node => ⟨.success, .nodeTypeChanged, some node, exec⟩
        | .missingDependency => ⟨.invalidValue, .error, none, exec⟩
        | .sameTypes dependencies =>
          if dependencies ≠ exec.dependencyIndices then
            ⟨.success, .topologyChanged, none, exec⟩
          else
            let copies := copyNodes heap ordered [] []
            ⟨.success, .success, none,
              { exec with
                nodes := copies.1
                sourceNodeIndex := copies.2
                dependencyIndices := dependencies }⟩

/-- The node that the update calls `cudaGraphExec*NodeSetParams` (`5443-5540`) for nodes of a type
change: they look the graph's node up and ask for the type of the executable graph's node. -/
def CudaGraphExec.addressed (exec : CudaGraphExec δ) (node : NodeHandle)
    (type : CudaGraphNodeType) : Option Nat :=
  match exec.sourceNodeIndex.find? node with
  | none => none
  | some i => if exec.nodes[i]?.map GraphNode.type = some type then some i else none

theorem foldl_emplace (ordered : List NodeHandle) : ∀ (i : Nat) (index : AssocMap NodeHandle Nat),
    ordered.Nodup → (∀ node ∈ ordered, index.contains node = false) →
      (ordered.zipIdx i).foldl (fun index entry => index.emplace entry.1 entry.2) index =
        index ++ ordered.zipIdx i := by
  induction ordered with
  | nil => intro i index _ _; simp
  | cons node ordered ih =>
    intro i index distinct fresh
    obtain ⟨once, distinct⟩ := nodup_cons.mp distinct
    rw [zipIdx_cons, foldl_cons,
      AssocMap.emplace_of_fresh (fresh node mem_cons_self), ih _ _ distinct ?_,
      append_assoc, singleton_append]
    intro other member
    rw [AssocMap.contains_eq_false_iff, map_append, mem_append, not_or]
    refine ⟨AssocMap.contains_eq_false_iff.mp (fresh other (mem_cons_of_mem _ member)), ?_⟩
    rw [map_singleton, mem_singleton]
    rintro rfl
    exact once member

theorem orderedIndex_eq {ordered : List NodeHandle} (distinct : ordered.Nodup) :
    orderedIndex ordered = ordered.zipIdx :=
  (foldl_emplace ordered 0 [] distinct fun _ _ => rfl).trans (nil_append _)

theorem find?_orderedIndex {ordered : List NodeHandle} (distinct : ordered.Nodup)
    {node : NodeHandle} (member : node ∈ ordered) :
    (orderedIndex ordered).find? node = some (ordered.idxOf node) := by
  rw [orderedIndex_eq distinct, find?_zipIdx distinct]
  exact getElem?_idxOf member

/-- The indices that an executable graph keeps for a node of this order. -/
def canonicalIndices (heap : NodeHeap δ) (ordered : List NodeHandle) (node : NodeHandle) :
    List Nat :=
  ((heap node).dependencies.map (ordered.idxOf ·)).insertionSort (· ≤ ·)

theorem indicesOf_eq (heap : NodeHeap δ) {ordered : List NodeHandle}
    (distinct : ordered.Nodup) {node : NodeHandle}
    (inside : ∀ dependency ∈ (heap node).dependencies, dependency ∈ ordered) :
    indicesOf (orderedIndex ordered) (heap node) =
      some (canonicalIndices heap ordered node) := by
  have found : (heap node).dependencies.mapM (orderedIndex ordered).find? =
      some ((heap node).dependencies.map (ordered.idxOf ·)) := by
    generalize (heap node).dependencies = dependencies at inside
    induction dependencies with
    | nil => rfl
    | cons dependency rest ih =>
      rw [mapM_cons, find?_orderedIndex distinct (inside _ mem_cons_self),
        ih fun other member => inside other (mem_cons_of_mem _ member)]
      rfl
  rw [indicesOf, found]
  rfl

theorem copyNodes_eq (heap : NodeHeap δ) (ordered : List NodeHandle) :
    ∀ (nodes : List (GraphNode δ)) (index : AssocMap NodeHandle Nat),
      copyNodes heap ordered nodes index =
        (nodes ++ ordered.map fun node => (heap node).copy,
          (ordered.zipIdx nodes.length).foldl
            (fun index entry => index.emplace entry.1 entry.2) index) := by
  induction ordered with
  | nil => intro nodes index; simp [copyNodes]
  | cons node ordered ih => intro nodes index; simp [copyNodes, ih, zipIdx_cons]

theorem CudaGraphExec.fill_eq {heap : NodeHeap δ} {index : AssocMap NodeHandle Nat}
    {indices : NodeHandle → List Nat} (rest : List NodeHandle)
    (found : ∀ node ∈ rest, indicesOf index (heap node) = some (indices node)) :
    ∀ exec : CudaGraphExec δ, CudaGraphExec.fill heap index rest exec =
      some { exec with
        nodes := exec.nodes ++ rest.map fun node => (heap node).copy
        sourceNodeIndex := (rest.zipIdx exec.nodes.length).foldl
          (fun index entry => index.emplace entry.1 entry.2) exec.sourceNodeIndex
        dependencyIndices := exec.dependencyIndices ++ rest.map indices } := by
  induction rest with
  | nil => intro exec; simp [fill]
  | cons node rest ih =>
    intro exec
    rw [fill, found node mem_cons_self]
    simp only
    rw [ih fun other member => found other (mem_cons_of_mem _ member)]
    simp [zipIdx_cons]

/-- The executable graph of an order. -/
def CudaGraphExec.ofOrder (heap : NodeHeap δ) (ordered : List NodeHandle) (lifetime : Nat)
    (autoFreeOnLaunch : Bool) : CudaGraphExec δ where
  nodes := ordered.map fun node => (heap node).copy
  sourceNodeIndex := ordered.zipIdx
  dependencyIndices := ordered.map (canonicalIndices heap ordered)
  lifetime := lifetime
  autoFreeOnLaunch := autoFreeOnLaunch

section

variable {heap : NodeHeap δ} {graph : CudaGraph} {ordered : List NodeHandle}

theorem orderNodes_spec (succeeded : orderNodes heap graph = some ordered) :
    ordered.Perm graph.nodes ∧ ordered.Nodup ∧
      ∀ node ∈ ordered, ∀ dependency ∈ (heap node).dependencies, dependency ∈ ordered := by
  obtain ⟨permutation, earliest⟩ := topologicallyOrderGraph_spec succeeded
  refine ⟨permutation, earliest.nodup, ?_⟩
  intro node member dependency needed
  obtain ⟨before, after, whole⟩ := append_of_mem member
  rw [whole]
  exact mem_append_left _ ((earliest.ready whole).2.2 dependency needed)

theorem cudaGraphInstantiate_of_order (succeeded : orderNodes heap graph = some ordered)
    {state : GraphLifetimeState}
    (permitted : ¬ (state.containsMemoryNodes ∧ state.executableInstances ≠ 0)) :
    cudaGraphInstantiate heap graph state =
      (.success, some (.ofOrder heap ordered graph.lifetime false), countInstance state) := by
  obtain ⟨_, distinct, inside⟩ := orderNodes_spec succeeded
  have filled := CudaGraphExec.fill_eq ordered
    (fun node member => indicesOf_eq heap distinct (inside node member))
    (⟨[], [], [], graph.lifetime, false⟩ : CudaGraphExec δ)
  have index := foldl_emplace ordered 0 [] distinct fun _ _ => rfl
  rw [cudaGraphInstantiate, if_neg permitted, succeeded]
  simp only
  rw [filled]
  simp only [nil_append, length_nil, index, CudaGraphExec.ofOrder]

/-- A refused instantiation leaves no executable graph and changes nothing. -/
theorem cudaGraphInstantiate_cases (heap : NodeHeap δ) (graph : CudaGraph)
    (state : GraphLifetimeState) :
    (cudaGraphInstantiate heap graph state = (.invalidValue, none, state) ∧
        ((state.containsMemoryNodes ∧ state.executableInstances ≠ 0) ∨
          orderNodes heap graph = none)) ∨
      ∃ ordered, orderNodes heap graph = some ordered ∧
        ¬ (state.containsMemoryNodes ∧ state.executableInstances ≠ 0) ∧
        cudaGraphInstantiate heap graph state =
          (.success, some (.ofOrder heap ordered graph.lifetime false), countInstance state) := by
  by_cases refused : state.containsMemoryNodes ∧ state.executableInstances ≠ 0
  · exact .inl ⟨by rw [cudaGraphInstantiate, if_pos refused], .inl refused⟩
  · cases succeeded : orderNodes heap graph with
    | none => exact .inl ⟨by rw [cudaGraphInstantiate, if_neg refused, succeeded], .inr rfl⟩
    | some ordered =>
      exact .inr ⟨ordered, rfl, refused, cudaGraphInstantiate_of_order succeeded refused⟩

end

end CuMetal.Runtime.Graphs
