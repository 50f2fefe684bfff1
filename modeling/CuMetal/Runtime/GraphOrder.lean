import CuMetal.Lib.AssocMap
import CuMetal.Lib.ReadyFirst

/-!
# The order of a graph's nodes

`topologically_order_graph` and the operations by which the nodes of a graph get their dependencies
(`runtime/rt/cuda_runtime.cpp`, 451-530).
-/

namespace CuMetal.Runtime.Graphs

open Function List Option ReadyFirst

/-- `cudaGraphNode_t`: the address of a node; 0 is the null pointer. -/
abbrev NodeHandle := Nat

/-- The `dependencies` of the nodes in memory. -/
abbrev Dependencies := NodeHandle → List NodeHandle

/-- The map `node_index` (`493-499`), from the `i`-th node on. -/
def nodeIndex : Nat → AssocMap NodeHandle Nat → List NodeHandle → Option (AssocMap NodeHandle Nat)
  | _, index, [] => some index
  | i, index, node :: rest =>
    if node = 0 ∨ index.contains node then none
    else nodeIndex (i + 1) (index.emplace node i) rest

/-- The vectors `indegree` and `dependents` (`501-502`). -/
structure Edges where
  indegree : List Nat
  dependents : List (List Nat)

/-- The dependency at index `j` of the `i`-th node (`507-508`). -/
def Edges.add (edges : Edges) (i j : Nat) : Edges where
  indegree := edges.indegree.modify i (· + 1)
  dependents := edges.dependents.modify j (· ++ [i])

/-- The dependencies of the `i`-th node (`504-509`). -/
def addDependencies (index : AssocMap NodeHandle Nat) (i : Nat) :
    List NodeHandle → Edges → Option Edges
  | [], edges => some edges
  | dependency :: rest, edges =>
    match index.find? dependency with
    | none => none
    | some j => addDependencies index i rest (edges.add i j)

/-- The dependencies of all nodes from the `i`-th on (`503-510`). -/
def addAllDependencies (index : AssocMap NodeHandle Nat) (dependencies : Dependencies) :
    Nat → List NodeHandle → Edges → Option Edges
  | _, [], edges => some edges
  | i, node :: rest, edges =>
    match addDependencies index i (dependencies node) edges with
    | none => none
    | some edges => addAllDependencies index dependencies (i + 1) rest edges

/-- What the loop of `topologically_order_graph` changes. -/
structure OrderLoop where
  emitted : List Bool
  indegree : List Nat
  ordered : List NodeHandle

/-- The first node that has not been emitted and waits for none (`515-521`). -/
def OrderLoop.ready (loop : OrderLoop) (size : Nat) : Option Nat :=
  (List.range size).find? fun i => !loop.emitted.getD i false && loop.indegree.getD i 0 == 0

/-- One node is emitted (`523-527`). -/
def OrderLoop.emit (loop : OrderLoop) (nodes : List NodeHandle) (dependents : List (List Nat))
    (ready : Nat) : OrderLoop where
  emitted := loop.emitted.set ready true
  indegree := (dependents.getD ready []).foldl (fun indegree i => indegree.modify i (· - 1))
    loop.indegree
  ordered := loop.ordered ++ [nodes.getD ready 0]

/-- The loop (`514-528`). Each round orders one more node, so that it ends after as many rounds as
there are nodes. -/
def OrderLoop.run (nodes : List NodeHandle) (dependents : List (List Nat)) :
    Nat → OrderLoop → Option (List NodeHandle)
  | 0, loop => some loop.ordered
  | rounds + 1, loop =>
    match loop.ready nodes.length with
    | none => none
    | some ready => run nodes dependents rounds (loop.emit nodes dependents ready)

/-- `topologically_order_graph` (`487-530`): the order if it returns `true`. -/
def topologicallyOrderGraph (dependencies : Dependencies) (nodes : List NodeHandle) :
    Option (List NodeHandle) :=
  match nodeIndex 0 [] nodes with
  | none => none
  | some index =>
    match addAllDependencies index dependencies 0 nodes
        ⟨List.replicate nodes.length 0, List.replicate nodes.length []⟩ with
    | none => none
    | some edges =>
      OrderLoop.run nodes edges.dependents nodes.length
        ⟨List.replicate nodes.length false, edges.indegree, []⟩

/-- `graph_contains_node` (`451-454`). -/
def graphContainsNode (nodes : List NodeHandle) (node : NodeHandle) : Bool :=
  node != 0 && nodes.contains node

/-- The loop of `assign_graph_dependencies` (`466-474`). -/
def assignLoop (nodes : List NodeHandle) (node : NodeHandle) :
    List NodeHandle → List NodeHandle → Option (List NodeHandle)
  | assigned, [] => some assigned
  | assigned, dependency :: rest =>
    if ¬ graphContainsNode nodes dependency ∨ dependency = node ∨ dependency ∈ assigned then none
    else assignLoop nodes node (assigned ++ [dependency]) rest

/-- `assign_graph_dependencies` (`456-476`), of an array that may be missing. -/
def assignGraphDependencies (dependencies : Dependencies) (nodes : List NodeHandle)
    (node : NodeHandle) (given : Option (List NodeHandle)) (count : Nat) : Bool × Dependencies :=
  if node = 0 ∨ (count ≠ 0 ∧ given = none) then (false, dependencies)
  else
    match assignLoop nodes node [] ((given.getD []).take count) with
    | none => (false, Function.update dependencies node [])
    | some assigned => (true, Function.update dependencies node assigned)

/-- `append_captured_graph_node` (`478-485`). -/
def appendCapturedGraphNode (dependencies : Dependencies) (nodes : List NodeHandle)
    (node : NodeHandle) : Dependencies × List NodeHandle :=
  (match nodes.getLast? with
    | none => dependencies
    | some last => Function.update dependencies node (dependencies node ++ [last]),
    nodes ++ [node])

/-- A new node, as `new` makes it: it is not in the graph and depends on nothing. -/
structure NewNode (dependencies : Dependencies) (nodes : List NodeHandle) (node : NodeHandle) :
    Prop where
  present : node ≠ 0
  fresh : node ∉ nodes
  independent : dependencies node = []

/-- Graphs that grow only through the operations that add a node and through captures. -/
inductive Grown : Dependencies → List NodeHandle → Prop
  | create (dependencies : Dependencies) : Grown dependencies []
  | add {dependencies after : Dependencies} {nodes : List NodeHandle} {node : NodeHandle}
      {given : Option (List NodeHandle)} {count : Nat} :
      Grown dependencies nodes → NewNode dependencies nodes node →
      assignGraphDependencies dependencies nodes node given count = (true, after) →
      Grown after (nodes ++ [node])
  | refuse {dependencies after : Dependencies} {nodes : List NodeHandle} {node : NodeHandle}
      {given : Option (List NodeHandle)} {count : Nat} :
      Grown dependencies nodes → NewNode dependencies nodes node →
      assignGraphDependencies dependencies nodes node given count = (false, after) →
      Grown after nodes
  | capture {dependencies after : Dependencies} {nodes grown : List NodeHandle}
      {node : NodeHandle} :
      Grown dependencies nodes → NewNode dependencies nodes node →
      appendCapturedGraphNode dependencies nodes node = (after, grown) → Grown after grown
  | elsewhere {dependencies after : Dependencies} {nodes : List NodeHandle} :
      Grown dependencies nodes → (∀ node ∈ nodes, after node = dependencies node) →
      Grown after nodes

/-- What `topologically_order_graph` asks of a graph. -/
structure Orderable (dependencies : Dependencies) (nodes : List NodeHandle) : Prop where
  inside : ∀ node ∈ nodes, ∀ dependency ∈ dependencies node, dependency ∈ nodes
  distinct : nodes.Nodup
  present : 0 ∉ nodes
  acyclic : ReadyFirst.Acyclic dependencies nodes

section

variable {dependencies : Dependencies} {nodes : List NodeHandle}

theorem nodeIndex_eq (rest : List NodeHandle) : ∀ (i : Nat) (index : AssocMap NodeHandle Nat),
    nodeIndex i index rest =
      if 0 ∉ rest ∧ rest.Nodup ∧ ∀ node ∈ rest, index.contains node = false then
        some (index ++ rest.zipIdx i)
      else none := by
  induction rest with
  | nil => intro i index; simp [nodeIndex]
  | cons node rest ih =>
    intro i index
    rw [nodeIndex]
    by_cases refused : node = 0 ∨ index.contains node
    · rw [if_pos refused, if_neg]
      rintro ⟨present, -, fresh⟩
      rcases refused with rfl | known
      · exact present mem_cons_self
      · rw [fresh node mem_cons_self] at known
        cases known
    · obtain ⟨present, fresh⟩ := not_or.mp refused
      have unknown := Bool.eq_false_of_not_eq_true fresh
      rw [if_neg refused, ih, AssocMap.emplace_of_fresh unknown, zipIdx_cons,
        append_assoc]
      refine if_congr ?_ rfl rfl
      have contains : ∀ other, AssocMap.contains (index ++ [(node, i)]) other = false ↔
          index.contains other = false ∧ other ≠ node := by
        intro other
        rw [AssocMap.contains_eq_false_iff, AssocMap.contains_eq_false_iff, map_append,
          mem_append, not_or]
        simp
      simp only [contains, mem_cons, nodup_cons, not_or, forall_eq_or_imp]
      constructor
      · rintro ⟨zero, distinct, others⟩
        exact ⟨⟨Ne.symm present, zero⟩, ⟨fun again => (others node again).2 rfl, distinct⟩,
          unknown, fun other member => (others other member).1⟩
      · rintro ⟨⟨-, zero⟩, ⟨once, distinct⟩, -, others⟩
        exact ⟨zero, distinct, fun other member =>
          ⟨others other member, fun same => once (same ▸ member)⟩⟩

theorem find?_zipIdx (distinct : nodes.Nodup) (node : NodeHandle) (i : Nat) :
    AssocMap.find? nodes.zipIdx node = some i ↔ nodes[i]? = some node := by
  rw [AssocMap.find?_eq_some_iff (by rwa [zipIdx_map_fst]), mk_mem_zipIdx_iff_getElem?]

theorem find?_zipIdx_eq_none (distinct : nodes.Nodup) (node : NodeHandle) :
    AssocMap.find? nodes.zipIdx node = none ↔ node ∉ nodes := by
  rw [← not_iff_not, ← ne_eq, ne_none_iff_exists', not_not, mem_iff_getElem?]
  exact exists_congr fun i => find?_zipIdx distinct node i

@[simp] theorem Edges.length_add (edges : Edges) (i j : Nat) :
    (edges.add i j).indegree.length = edges.indegree.length ∧
      (edges.add i j).dependents.length = edges.dependents.length := by
  simp [Edges.add]

theorem getD_modify {α : Type} (list : List α) (i k : Nat) (f : α → α) (default : α)
    (inside : i < list.length) :
    (list.modify i f).getD k default =
      if i = k then f (list.getD k default) else list.getD k default := by
  rw [getD_eq_getElem?_getD, getD_eq_getElem?_getD, getElem?_modify]
  by_cases same : i = k
  · subst same
    simp [inside]
  · simp [same]

/-- What the vectors say after the dependencies of some nodes: how many of these depend on how
many nodes, and on which. -/
structure Edges.Describes (edges : Edges) (nodes : List NodeHandle)
    (known : Nat → List NodeHandle) : Prop where
  indegrees : edges.indegree.length = nodes.length
  dependentLists : edges.dependents.length = nodes.length
  indegree : ∀ i, edges.indegree.getD i 0 = (known i).length
  dependents : ∀ i j node, nodes[j]? = some node →
    (edges.dependents.getD j []).count i = (known i).count node

variable {edges : Edges}

theorem Edges.Describes.add {known : Nat → List NodeHandle}
    (describes : edges.Describes nodes known) (distinct : nodes.Nodup) {i j : Nat}
    {dependency : NodeHandle} (inside : i < nodes.length) (at_ : nodes[j]? = some dependency) :
    (edges.add i j).Describes nodes (Function.update known i (known i ++ [dependency])) where
  indegrees := by simpa using describes.indegrees
  dependentLists := by simpa using describes.dependentLists
  indegree := by
    intro k
    rw [Edges.add, getD_modify _ _ _ _ _ (describes.indegrees ▸ inside), describes.indegree]
    by_cases same : i = k
    · subst same
      simp
    · rw [if_neg same, update_of_ne (Ne.symm same)]
  dependents := by
    intro k l node there
    have below : j < nodes.length := (List.getElem?_eq_some_iff.mp at_).1
    rw [Edges.add, getD_modify _ _ _ _ _ (describes.dependentLists ▸ below)]
    have before := describes.dependents k l node there
    have sameNode : j = l ↔ dependency = node := by
      constructor
      · rintro rfl
        exact some.inj (at_.symm.trans there)
      · rintro rfl
        exact (getElem?_inj below distinct).mp (at_.trans there.symm)
    by_cases same : i = k
    · subst same
      rw [update_self]
      by_cases here : j = l
      · subst here
        obtain rfl := sameNode.mp rfl
        rw [if_pos rfl, count_append, count_append, before]
        simp
      · have other : [dependency].count node = 0 := by
          rw [count_eq_zero, mem_singleton]
          exact fun same => here (sameNode.mpr same.symm)
        rw [if_neg here, count_append, before, other, add_zero]
    · rw [update_of_ne (Ne.symm same)]
      split
      · have other : [i].count k = 0 := by
          rw [count_eq_zero, mem_singleton]
          exact Ne.symm same
        rw [count_append, before, other, add_zero]
      · exact before

theorem addDependencies_spec (distinct : nodes.Nodup) {i : Nat} (inside : i < nodes.length)
    (rest : List NodeHandle) : ∀ {edges : Edges} {known : Nat → List NodeHandle},
    edges.Describes nodes known →
      (addDependencies nodes.zipIdx i rest edges = none ∧ ∃ dependency ∈ rest, dependency ∉ nodes) ∨
      ∃ after, addDependencies nodes.zipIdx i rest edges = some after ∧
        after.Describes nodes (Function.update known i (known i ++ rest)) ∧
        ∀ dependency ∈ rest, dependency ∈ nodes := by
  induction rest with
  | nil =>
    intro edges known describes
    refine .inr ⟨edges, rfl, ?_, by simp⟩
    rwa [append_nil, update_eq_self]
  | cons dependency rest ih =>
    intro edges known describes
    rw [addDependencies]
    cases found : AssocMap.find? nodes.zipIdx dependency with
    | none =>
      exact .inl ⟨rfl, dependency, mem_cons_self,
        (find?_zipIdx_eq_none distinct dependency).mp found⟩
    | some j =>
      have at_ := (find?_zipIdx distinct dependency j).mp found
      have member := mem_of_getElem? at_
      rcases ih (describes.add distinct inside at_) with
        ⟨refused, other, later, outside⟩ | ⟨after, added, now, all⟩
      · exact .inl ⟨refused, other, mem_cons_of_mem _ later, outside⟩
      · refine .inr ⟨after, added, ?_, ?_⟩
        · rwa [update_idem, update_self, append_assoc] at now
        · intro other there
          rcases mem_cons.mp there with rfl | later
          · exact member
          · exact all other later

theorem addAllDependencies_spec (dependencies : Dependencies) (distinct : nodes.Nodup)
    (rest : List NodeHandle) : ∀ {i : Nat} {edges : Edges} {known : Nat → List NodeHandle},
      i + rest.length = nodes.length → (∀ k, i ≤ k → known k = []) →
      edges.Describes nodes known →
      (addAllDependencies nodes.zipIdx dependencies i rest edges = none ∧
        ∃ node ∈ rest, ∃ dependency ∈ dependencies node, dependency ∉ nodes) ∨
      ∃ after, addAllDependencies nodes.zipIdx dependencies i rest edges = some after ∧
        after.Describes nodes (fun k => if k < i then known k
          else (rest[k - i]?.map dependencies).getD []) ∧
        ∀ node ∈ rest, ∀ dependency ∈ dependencies node, dependency ∈ nodes := by
  induction rest with
  | nil =>
    intro i edges known whole unknown describes
    refine .inr ⟨edges, rfl, ?_, by simp⟩
    convert describes using 2 with k
    split
    · rfl
    · next later => simp [unknown k (by omega)]
  | cons node rest ih =>
    intro i edges known whole unknown describes
    rw [length_cons] at whole
    rw [addAllDependencies]
    have inside : i < nodes.length := by omega
    rcases addDependencies_spec distinct inside (dependencies node) describes with
      ⟨refused, dependency, member, outside⟩ | ⟨between, added, now, all⟩
    · rw [refused]
      exact .inl ⟨rfl, node, mem_cons_self, dependency, member, outside⟩
    · have unknownNext : ∀ k, i + 1 ≤ k →
          update known i (known i ++ dependencies node) k = [] := by
        intro k later
        rw [update_of_ne (by omega)]
        exact unknown k (by omega)
      rw [added]
      rcases ih (by omega) unknownNext now with
        ⟨refused, other, later, dependency, member, outside⟩ | ⟨after, addedAll, final, allLater⟩
      · exact .inl ⟨refused, other, mem_cons_of_mem _ later, dependency, member, outside⟩
      · refine .inr ⟨after, addedAll, ?_, ?_⟩
        · convert final using 2 with k
          rcases lt_trichotomy k i with earlier | rfl | later
          · rw [if_pos earlier, if_pos (by omega), update_of_ne (by omega)]
          · rw [if_neg (by omega), if_pos (by omega), update_self,
              unknown k le_rfl, Nat.sub_self]
            rfl
          · rw [if_neg (by omega), if_neg (by omega),
              show k - i = (k - (i + 1)) + 1 by omega, getElem?_cons_succ]
        · intro other there
          rcases mem_cons.mp there with rfl | later
          · exact all
          · exact allLater other later

/-! ## The loop -/

/-- The loop has emitted some nodes: what is marked, and what each node waits for. -/
structure OrderLoop.Waits (loop : OrderLoop) (dependencies : Dependencies)
    (nodes : List NodeHandle) : Prop where
  marks : loop.emitted.length = nodes.length
  indegrees : loop.indegree.length = nodes.length
  emitted : ∀ i node, nodes[i]? = some node →
    loop.emitted.getD i false = decide (node ∈ loop.ordered)
  indegree : ∀ i node, nodes[i]? = some node →
    loop.indegree.getD i 0 = (dependencies node).countP (· ∉ loop.ordered)

/-- Indices whose entry satisfies a test, where the entries of a list satisfy another. -/
theorem find?_range {α : Type} (list : List α) (test : Nat → Bool) (holds : α → Bool)
    (agree : ∀ i entry, list[i]? = some entry → test i = holds entry) :
    list.find? holds = ((List.range list.length).find? test).bind (list[·]?) := by
  induction list using reverseRecOn with
  | nil => rfl
  | append_singleton list last ih =>
    have earlier : ∀ i, i < list.length → (list ++ [last])[i]? = list[i]? :=
      fun i below => getElem?_append_left below
    rw [length_append, length_singleton, range_succ, find?_append,
      find?_append, ih ?_]
    · cases found : (range list.length).find? test with
      | none =>
        have final := agree list.length last (by simp)
        simp only [find?_singleton, final, bind_none, none_or]
        split <;> simp
      | some i =>
        have below := mem_range.mp (mem_of_find?_eq_some found)
        rw [some_or, bind_some, bind_some, earlier i below,
          getElem?_eq_getElem below, some_or]
    · intro i entry there
      exact agree i entry ((earlier i (List.getElem?_eq_some_iff.mp there).1).trans there)

variable {loop : OrderLoop}

theorem OrderLoop.Waits.ready (waits : loop.Waits dependencies nodes) :
    nodes.find? (fun node => ReadyFirst.Ready dependencies loop.ordered node) =
      (loop.ready nodes.length).bind (nodes[·]?) := by
  refine find?_range nodes _ _ ?_
  intro i node there
  rw [waits.emitted i node there, waits.indegree i node there]
  by_cases come : node ∈ loop.ordered
  · simp [come, ReadyFirst.Ready]
  · rw [Bool.eq_iff_iff]
    simp [come, ReadyFirst.Ready, countP_eq_zero]

theorem getD_foldl_modify (taken : List Nat) : ∀ (indegree : List Nat) (i : Nat),
    (taken.foldl (fun indegree i => indegree.modify i (· - 1)) indegree).getD i 0 =
      indegree.getD i 0 - taken.count i := by
  induction taken with
  | nil => intro indegree i; rfl
  | cons j taken ih =>
    intro indegree i
    rw [foldl_cons, ih, count_cons]
    by_cases inside : j < indegree.length
    · rw [getD_modify _ _ _ _ _ inside]
      by_cases same : j = i
      · subst same
        simp only [if_true, beq_self_eq_true]
        omega
      · simp [same]
    · have absent : indegree.modify j (· - 1) = indegree :=
        modify_eq_self (Nat.le_of_not_lt inside)
      rw [absent]
      by_cases same : j = i
      · subst same
        have default : indegree.getD j 0 = 0 := by simp [Nat.le_of_not_lt inside]
        omega
      · simp [same]

theorem length_foldl_modify (taken : List Nat) : ∀ indegree : List Nat,
    (taken.foldl (fun indegree i => indegree.modify i (· - 1)) indegree).length =
      indegree.length := by
  induction taken with
  | nil => exact fun _ => rfl
  | cons j taken ih => exact fun indegree => (ih _).trans (length_modify ..)

variable {node : NodeHandle} {after : Dependencies}

theorem countP_emitted (waited ordered : List NodeHandle) (fresh : node ∉ ordered) :
    waited.countP (· ∉ ordered ++ [node]) = waited.countP (· ∉ ordered) - waited.count node := by
  have split : waited.countP (· ∉ ordered) =
      waited.countP (· ∉ ordered ++ [node]) + waited.count node := by
    induction waited with
    | nil => rfl
    | cons first waited ih =>
      rw [countP_cons, countP_cons, count_cons, ih]
      by_cases same : first = node
      · subst same
        simp [fresh]
        omega
      · by_cases come : first ∈ ordered
        · simp [come, same]
        · simp [come, same]
          omega
  omega

variable {dependents : List (List Nat)} {given : Option (List NodeHandle)}

theorem OrderLoop.Waits.emit (waits : loop.Waits dependencies nodes) (distinct : nodes.Nodup)
    (describes : ∀ i node, nodes[i]? = some node → ∀ j other, nodes[j]? = some other →
      (dependents.getD j []).count i = (dependencies node).count other) {ready : Nat}
    (there : nodes[ready]? = some node) (fresh : node ∉ loop.ordered) :
    (loop.emit nodes dependents ready).Waits dependencies nodes ∧
      (loop.emit nodes dependents ready).ordered = loop.ordered ++ [node] := by
  have inside := (List.getElem?_eq_some_iff.mp there).1
  have ordered : (loop.emit nodes dependents ready).ordered = loop.ordered ++ [node] := by
    simp [OrderLoop.emit, there]
  refine ⟨⟨?_, ?_, ?_, ?_⟩, ordered⟩
  · simpa [OrderLoop.emit] using waits.marks
  · exact (length_foldl_modify _ _).trans waits.indegrees
  · intro i other here
    have marked := waits.emitted i other here
    rw [ordered]
    by_cases same : ready = i
    · subst same
      obtain rfl : node = other := some.inj (there.symm.trans here)
      simp [OrderLoop.emit, waits.marks, inside]
    · have different : other ≠ node := by
        rintro rfl
        exact same ((getElem?_inj inside distinct).mp (there.trans here.symm))
      simpa [OrderLoop.emit, getElem?_set_ne same, different] using marked
  · intro i other here
    rw [ordered, countP_emitted _ _ fresh, ← waits.indegree i other here,
      ← describes i other here ready node there]
    exact getD_foldl_modify _ _ _

theorem OrderLoop.run_eq (distinct : nodes.Nodup)
    (describes : ∀ i node, nodes[i]? = some node → ∀ j other, nodes[j]? = some other →
      (dependents.getD j []).count i = (dependencies node).count other) :
    ∀ (rounds : Nat) (loop : OrderLoop), loop.Waits dependencies nodes →
      OrderLoop.run nodes dependents rounds loop =
        order dependencies nodes rounds loop.ordered := by
  intro rounds
  induction rounds with
  | zero => exact fun _ _ => rfl
  | succ rounds ih =>
    intro loop waits
    rw [OrderLoop.run, order, waits.ready]
    cases found : loop.ready nodes.length with
    | none => rfl
    | some ready =>
      have inside := mem_range.mp (mem_of_find?_eq_some found)
      have there := getElem?_eq_getElem inside
      have first := waits.ready
      rw [found, bind_some, there] at first
      have fresh : nodes[ready] ∉ loop.ordered := by
        have isReady := find?_some first
        exact (by simpa using isReady : ReadyFirst.Ready _ _ _).1
      obtain ⟨next, ordered⟩ := waits.emit distinct describes there fresh
      rw [bind_some, there]
      exact (ih _ next).trans (by rw [ordered])

theorem edges_of_nodes
    (describes : edges.Describes nodes fun k => (nodes[k]?.map dependencies).getD []) :
    edges.indegree.length = nodes.length ∧
      (∀ i node, nodes[i]? = some node →
        edges.indegree.getD i 0 = (dependencies node).length) ∧
      ∀ i node, nodes[i]? = some node → ∀ j other, nodes[j]? = some other →
        (edges.dependents.getD j []).count i = (dependencies node).count other := by
  refine ⟨describes.indegrees, ?_, ?_⟩
  · intro i node there
    rw [describes.indegree, there]
    rfl
  · intro i node there j other at_
    rw [describes.dependents i j other at_, there]
    rfl

/-- The function takes the earliest ready nodes of a graph whose nodes are distinct and have all
their dependencies in the graph; it refuses every other graph. -/
theorem topologicallyOrderGraph_eq (dependencies : Dependencies) (nodes : List NodeHandle) :
    (¬ (0 ∉ nodes ∧ nodes.Nodup ∧ ReadyFirst.Closed dependencies nodes) ∧
        topologicallyOrderGraph dependencies nodes = none) ∨
      (0 ∉ nodes ∧ nodes.Nodup ∧ ReadyFirst.Closed dependencies nodes) ∧
        topologicallyOrderGraph dependencies nodes =
          order dependencies nodes nodes.length [] := by
  have index := nodeIndex_eq nodes 0 []
  simp only [AssocMap.contains, AssocMap.find?_nil, isSome_none, implies_true, and_true,
    nil_append] at index
  unfold topologicallyOrderGraph
  rw [index]
  by_cases proper : 0 ∉ nodes ∧ nodes.Nodup
  · obtain ⟨present, distinct⟩ := proper
    rw [if_pos ⟨present, distinct⟩]
    have empty : Edges.Describes
        ⟨replicate nodes.length 0, replicate nodes.length []⟩ nodes fun _ => [] := by
      refine ⟨by simp, by simp, ?_, ?_⟩
      · intro i
        simp only [getD_eq_getElem?_getD, getElem?_replicate]
        split <;> rfl
      · intro i j node _
        simp only [getD_eq_getElem?_getD, getElem?_replicate]
        split <;> rfl
    rcases addAllDependencies_spec dependencies distinct nodes (i := 0)
        (by simp) (by simp) empty with
      ⟨refused, node, member, dependency, needed, outside⟩ | ⟨edges, added, describes, closed⟩
    · refine .inl ⟨fun proper => outside (proper.2.2 node member dependency needed), ?_⟩
      simp only [refused]
    · refine .inr ⟨⟨present, distinct, closed⟩, ?_⟩
      simp only [added]
      have described : edges.Describes nodes fun k => (nodes[k]?.map dependencies).getD [] := by
        simpa using describes
      obtain ⟨length, indegree, dependents⟩ := edges_of_nodes described
      refine OrderLoop.run_eq distinct dependents _ _ ?_
      refine ⟨by simp, length, ?_, ?_⟩
      · intro i node _
        simp only [getD_eq_getElem?_getD, getElem?_replicate]
        split <;> simp
      · intro i node there
        rw [indegree i node there]
        simp
  · rw [if_neg proper]
    exact .inl ⟨fun whole => proper ⟨whole.1, whole.2.1⟩, rfl⟩

theorem topologicallyOrderGraph_isSome_iff :
    (topologicallyOrderGraph dependencies nodes).isSome ↔ Orderable dependencies nodes := by
  rcases topologicallyOrderGraph_eq dependencies nodes with
    ⟨improper, refused⟩ | ⟨⟨present, distinct, closed⟩, same⟩
  · rw [refused]
    constructor
    · intro ordered
      cases ordered
    · intro orderable
      exact absurd ⟨orderable.present, orderable.distinct, orderable.inside⟩ improper
  · rw [same, order_isSome_iff closed distinct]
    exact ⟨fun acyclic => ⟨closed, distinct, present, acyclic⟩, Orderable.acyclic⟩

theorem topologicallyOrderGraph_spec {ordered : List NodeHandle}
    (succeeded : topologicallyOrderGraph dependencies nodes = some ordered) :
    ordered.Perm nodes ∧ ReadyFirst.EarliestReady dependencies nodes ordered := by
  rcases topologicallyOrderGraph_eq dependencies nodes with
    ⟨_, refused⟩ | ⟨⟨_, distinct, _⟩, same⟩
  · rw [refused] at succeeded
    cases succeeded
  · rw [same] at succeeded
    obtain ⟨earliest, length⟩ := order_earliest .nil succeeded
    exact ⟨earliest.perm (by simpa using length), earliest⟩

/-! ## Graphs that grow -/

theorem mem_of_assignLoop (rest : List NodeHandle) :
    ∀ {assigned result : List NodeHandle}, assignLoop nodes node assigned rest = some result →
      (∀ dependency ∈ assigned, dependency ∈ nodes) →
      ∀ dependency ∈ result, dependency ∈ nodes := by
  induction rest with
  | nil =>
    intro assigned result done known
    cases done
    exact known
  | cons dependency rest ih =>
    intro assigned result done known
    rw [assignLoop] at done
    split at done
    · cases done
    · next accepted =>
        obtain ⟨contained, -⟩ := not_or.mp accepted
        have member : dependency ∈ nodes := by
          have := not_not.mp contained
          rw [graphContainsNode, Bool.and_eq_true] at this
          exact contains_iff_mem.mp this.2
        refine ih done ?_
        intro other there
        rcases mem_append.mp there with before | last
        · exact known other before
        · exact mem_singleton.mp last ▸ member

theorem Orderable.snoc (orderable : Orderable dependencies nodes)
 (present : node ≠ 0) (fresh : node ∉ nodes)
    (same : ∀ other ∈ nodes, after other = dependencies other)
    (needs : ∀ dependency ∈ after node, dependency ∈ nodes) :
    Orderable after (nodes ++ [node]) where
  inside := by
    intro other member dependency needed
    rcases mem_append.mp member with before | last
    · rw [same other before] at needed
      exact mem_append_left _ (orderable.inside other before dependency needed)
    · rw [mem_singleton.mp last] at needed
      exact mem_append_left _ (needs dependency needed)
  distinct := by
    refine nodup_append.mpr ⟨orderable.distinct, nodup_singleton _, ?_⟩
    rintro other member last final rfl
    exact fresh (mem_singleton.mp final ▸ member)
  present := by
    rw [mem_append, mem_singleton, not_or]
    exact ⟨orderable.present, Ne.symm present⟩
  acyclic := by
    have stays : ∀ {start last},
        Relation.TransGen (ReadyFirst.Needs after (nodes ++ [node])) start last →
        last ∈ nodes ∧
          (start ∈ nodes → Relation.TransGen (ReadyFirst.Needs dependencies nodes) start last) := by
      intro start last path
      have one : ∀ {first second}, ReadyFirst.Needs after (nodes ++ [node]) first second →
          second ∈ nodes ∧ (first ∈ nodes → ReadyFirst.Needs dependencies nodes first second) := by
        rintro first second ⟨member, needed⟩
        by_cases before : first ∈ nodes
        · rw [same first before] at needed
          exact ⟨orderable.inside first before second needed, fun _ => ⟨before, needed⟩⟩
        · have last : first = node := by simpa [before] using member
          subst last
          exact ⟨needs second needed, fun there => absurd there before⟩
      induction path with
      | single needed => exact ⟨(one needed).1, fun member => .single ((one needed).2 member)⟩
      | tail _ needed ih =>
        exact ⟨(one needed).1, fun member => (ih.2 member).tail ((one needed).2 ih.1)⟩
    intro other cycle
    obtain ⟨member, path⟩ := stays cycle
    exact orderable.acyclic other (path member)

theorem Orderable.congr (orderable : Orderable dependencies nodes)
    (same : ∀ node ∈ nodes, after node = dependencies node) : Orderable after nodes where
  inside := by
    intro node member
    rw [same node member]
    exact orderable.inside node member
  distinct := orderable.distinct
  present := orderable.present
  acyclic := by
    intro node cycle
    refine orderable.acyclic node (cycle.lift id ?_)
    rintro first second ⟨member, needed⟩
    exact ⟨member, same first member ▸ needed⟩

theorem assignGraphDependencies_other {count : Nat} {status : Bool}
    (assigned : assignGraphDependencies dependencies nodes node given count = (status, after))
    (fresh : node ∉ nodes) : ∀ other ∈ nodes, after other = dependencies other := by
  intro other member
  have different : other ≠ node := fun same => fresh (same ▸ member)
  unfold assignGraphDependencies at assigned
  split at assigned
  · obtain ⟨_, rfl⟩ := Prod.mk.inj assigned
    rfl
  · split at assigned <;> obtain ⟨_, rfl⟩ := Prod.mk.inj assigned <;>
      exact update_of_ne different _ _

theorem mem_of_assignGraphDependencies {count : Nat}
    (assigned : assignGraphDependencies dependencies nodes node given count = (true, after)) :
    ∀ dependency ∈ after node, dependency ∈ nodes := by
  unfold assignGraphDependencies at assigned
  split at assigned
  · cases assigned
  · split at assigned
    · cases assigned
    · next result done =>
        obtain ⟨_, rfl⟩ := Prod.mk.inj assigned
        rw [update_self]
        exact mem_of_assignLoop _ done (by simp)

/-- Graphs that grow by the node operations and by captures can be ordered. -/
theorem Grown.orderable (grown : Grown dependencies nodes) : Orderable dependencies nodes := by
  induction grown with
  | create dependencies =>
    refine ⟨by simp, nodup_nil, by simp, ?_⟩
    intro node cycle
    obtain ⟨_, needs, _⟩ := Relation.TransGen.head'_iff.mp cycle
    exact absurd needs.1 not_mem_nil
  | add _ new assigned ih =>
    exact ih.snoc new.present new.fresh (assignGraphDependencies_other assigned new.fresh)
      (mem_of_assignGraphDependencies assigned)
  | refuse _ new assigned ih => exact ih.congr (assignGraphDependencies_other assigned new.fresh)
  | @capture dependencies after nodes grown node _ new appended ih =>
    obtain ⟨same, rfl⟩ := Prod.mk.inj appended
    cases last : nodes.getLast? with
    | none =>
      simp only [last] at same
      subst same
      refine ih.snoc new.present new.fresh (fun _ _ => rfl) ?_
      rw [new.independent]
      exact fun _ needed => absurd needed not_mem_nil
    | some final =>
      simp only [last] at same
      subst same
      refine ih.snoc new.present new.fresh ?_ ?_
      · intro old member
        have different : old ≠ node := fun same => new.fresh (same ▸ member)
        exact update_of_ne different _ _
      · rw [update_self, new.independent, nil_append]
        intro dependency needed
        exact mem_singleton.mp needed ▸ mem_of_getLast? last
  | elsewhere _ same ih => exact ih.congr same

end

/-- `topologically_order_graph` succeeds exactly on the graphs that can be ordered, which the grown
ones all can; the order has each node once, after its dependencies, and always goes on with the
earliest node whose dependencies have come. -/
theorem topologicallyOrderGraph_exact (dependencies : Dependencies) (nodes : List NodeHandle) :
    ((topologicallyOrderGraph dependencies nodes).isSome ↔ Orderable dependencies nodes) ∧
      (∀ ordered, topologicallyOrderGraph dependencies nodes = some ordered →
        ordered.Perm nodes ∧
          ∀ before node after, ordered = before ++ node :: after →
            (∀ dependency ∈ dependencies node, dependency ∈ before) ∧
              nodes.find? (fun node => node ∉ before ∧
                ∀ dependency ∈ dependencies node, dependency ∈ before) = some node) ∧
      (Grown dependencies nodes → (topologicallyOrderGraph dependencies nodes).isSome) := by
  refine ⟨topologicallyOrderGraph_isSome_iff, ?_, ?_⟩
  · intro ordered succeeded
    obtain ⟨permutation, earliest⟩ := topologicallyOrderGraph_spec succeeded
    refine ⟨permutation, ?_⟩
    intro before node after whole
    exact ⟨(earliest.ready whole).2.2, earliest before node after whole⟩
  · intro grown
    exact topologicallyOrderGraph_isSome_iff.mpr grown.orderable

/-- The dependencies of the first of three nodes on the other two. -/
def lateDependencies : Dependencies := fun node => if node = 10 then [30, 20] else []

/-- The first node comes last. -/
theorem topologicallyOrderGraph_exact_late :
    topologicallyOrderGraph lateDependencies [10, 20, 30] = some [20, 30, 10] ∧
      [20, 30, 10].Perm [10, 20, 30] :=
  have ordered : topologicallyOrderGraph lateDependencies [10, 20, 30] = some [20, 30, 10] := by
    decide
  ⟨ordered, ((topologicallyOrderGraph_exact lateDependencies [10, 20, 30]).2.1 _ ordered).1⟩

end CuMetal.Runtime.Graphs
