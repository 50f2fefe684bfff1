import CuMetal.Ir.CallCycles
import CuMetal.Ir.CallOrder
import CuMetal.Lib.Marking

/-!
# Pruning, and the three views of the call graph

`prune_functions_unreachable_from_kernels` (`compiler/metal/src/lower_to_msl.cpp:5494-5534`) drops
the functions that no kernel can reach. With the verifier and the importer it is the third walk over
the calls of a module.
-/

namespace CuMetal.Metal

open CuMetal.Ir List
open Relation (ReflTransGen TransGen)

variable (module : IrModule)

/-- `indices` (`5503-5508`): a later function of the same name takes the place of an earlier one. -/
def functionIndices : AssocMap String Nat :=
  AssocMap.assignAll [] (module.functions.zipIdx.map fun indexed => (indexed.1.name, indexed.2))

/-- The function that a call operation names (`5517-5520`). -/
def calledIndex (operation : Operation) : Option Nat :=
  if operation.opcode ≠ .call then none
  else (operation.attributes.find? "callee").bind (functionIndices module).find?

/-- The functions that the operations of a function name, in program order. -/
def calledIndices (index : Nat) : List Nat :=
  match module.functions[index]? with
  | none => []
  | some function =>
    function.blocks.flatMap fun block => block.operations.filterMap (calledIndex module)

/-- The worklist before the loop, from its back. -/
def kernelIndices : List Nat :=
  ((module.functions.zipIdx.filter fun indexed => indexed.1.isKernel).map Prod.snd).reverse

/-- `prune_functions_unreachable_from_kernels`. -/
def pruneFunctionsUnreachableFromKernels : IrModule :=
  if kernelIndices module = [] then module
  else
    let reachable := markFrom (calledIndices module) (kernelIndices module)
      (List.replicate module.functions.length false)
    { module with
      functions :=
        (module.functions.zipIdx.filter fun indexed => isMarked reachable indexed.2).map Prod.fst }

/-! ## What is kept -/

/-- A kernel of the module calls its way to the function. -/
def ReachedFromKernel (name : String) : Prop :=
  ∃ kernel ∈ module.functions, kernel.isKernel = true ∧
    ReflTransGen (ModuleCalls module) kernel.name name

/-- No builtin call names a function of the module. -/
def BuiltinsApart : Prop :=
  ∀ function ∈ module.functions, ∀ block ∈ function.blocks, ∀ operation ∈ block.operations,
    operation.opcode = .call → operation.flag "builtin" = true →
      ∀ callee, operation.attributes.find? "callee" = some callee → ¬ Defines module callee

variable {module} {function other : Function}

theorem direct_of_ok (accepted : (verify module).ok = true) (member : function ∈ module.functions)
    {block : BasicBlock} (inBlocks : block ∈ function.blocks) {operation : Operation}
    (inBlock : operation ∈ block.operations) (call : operation.opcode = .call) {callee : String}
    (named : operation.attributes.find? "callee" = some callee) :
    operation.flag "indirect" = false := by
  have functionNamed := name_ne_empty_of_ok accepted member
  simp only [verify, List.isEmpty_iff, List.append_eq_nil_iff, List.flatMap_eq_nil_iff] at accepted
  have silent := accepted.1.2 function member
  unfold functionDiagnostics at silent
  rw [if_neg functionNamed, if_neg (ne_nil_of_mem inBlocks)] at silent
  simp only [append_eq_nil_iff, useDiagnostics, flatMap_eq_nil_iff] at silent
  obtain ⟨b, hb⟩ := getElem?_of_mem inBlocks
  obtain ⟨k, hk⟩ := getElem?_of_mem inBlock
  have legal := (silent.1.2 (block, b) (mk_mem_zipIdx_iff_getElem?.mpr hb) (operation, k)
    (mk_mem_zipIdx_iff_getElem?.mpr hk)).2
  simp only [legalityDiagnostics, append_eq_nil_iff] at legal
  have quiet := legal.2
  unfold callDiagnostics at quiet
  rw [if_neg (by simp [call]), named] at quiet
  dsimp only at quiet
  cases indirect : operation.flag "indirect" with
  | false => rfl
  | true => simp [indirect, complain] at quiet

theorem find?_functionIndices (accepted : (verify module).ok = true) {name : String} {index : Nat} :
    (functionIndices module).find? name = some index ↔
      ∃ function, module.functions[index]? = some function ∧ function.name = name := by
  have keys : (module.functions.zipIdx.map fun indexed => (indexed.1.name, indexed.2)).map
      Prod.fst = module.functions.map Function.name := by
    conv_rhs => rw [← zipIdx_map_fst 0 module.functions]
    rw [map_map, map_map]
    rfl
  have distinct := nodup_names_of_ok accepted
  rw [← keys] at distinct
  rw [functionIndices, AssocMap.find?_assignAll_of_nodup distinct, AssocMap.find?_nil,
    Option.or_none, AssocMap.find?_eq_some_iff distinct, mem_map]
  constructor
  · rintro ⟨⟨function, i⟩, member, same⟩
    cases same
    exact ⟨function, mk_mem_zipIdx_iff_getElem?.mp member, rfl⟩
  · rintro ⟨function, here, rfl⟩
    exact ⟨(function, index), mk_mem_zipIdx_iff_getElem?.mpr here, rfl⟩

theorem mem_calledIndices (accepted : (verify module).ok = true) (apart : BuiltinsApart module)
    {caller callee : Nat} (here : module.functions[caller]? = some function)
    (there : module.functions[callee]? = some other) :
    callee ∈ calledIndices module caller ↔ ModuleCalls module function.name other.name := by
  have member := mem_of_getElem? here
  have otherMember := mem_of_getElem? there
  have defines : ∀ {f : Function}, f ∈ module.functions → Defines module f.name :=
    fun {f} inside => ⟨name_ne_empty_of_ok accepted inside, f, inside, rfl⟩
  have names := nodup_names_of_ok accepted
  unfold calledIndices
  rw [here]
  simp only [mem_flatMap, mem_filterMap, calledIndex]
  constructor
  · rintro ⟨block, inBlocks, operation, inBlock, called⟩
    split at called
    · cases called
    · next call =>
        rw [not_not] at call
        obtain ⟨name, named, found⟩ := Option.bind_eq_some_iff.mp called
        obtain ⟨target, atIndex, same⟩ := (find?_functionIndices accepted).mp found
        cases there.symm.trans atIndex
        subst same
        have own : operation.flag "builtin" = false := by
          cases builtin : operation.flag "builtin" with
          | false => rfl
          | true =>
            exact absurd (defines otherMember)
              (apart function member block inBlocks operation inBlock call builtin _ named)
        have direct := direct_of_ok accepted member inBlocks inBlock call named
        exact ⟨defines member, defines otherMember, function, member, rfl, block, inBlocks,
          operation, inBlock, call, named, direct, own⟩
  · rintro ⟨-, -, source, sourceMember, same, block, inBlocks, operation, inBlock, call, named, -⟩
    obtain rfl : source = function := inj_on_of_nodup_map names sourceMember member same
    refine ⟨block, inBlocks, operation, inBlock, ?_⟩
    rw [if_neg (by simp [call]), named]
    exact (find?_functionIndices accepted).mpr ⟨other, there, rfl⟩

theorem mem_kernelIndices {index : Nat} :
    index ∈ kernelIndices module ↔
      ∃ function, module.functions[index]? = some function ∧ function.isKernel = true := by
  unfold kernelIndices
  rw [mem_reverse, mem_map]
  constructor
  · rintro ⟨⟨function, i⟩, member, rfl⟩
    obtain ⟨inside, kernel⟩ := mem_filter.mp member
    exact ⟨function, mk_mem_zipIdx_iff_getElem?.mp inside, kernel⟩
  · rintro ⟨function, here, kernel⟩
    exact ⟨(function, index),
      mem_filter.mpr ⟨mk_mem_zipIdx_iff_getElem?.mpr here, kernel⟩, rfl⟩

theorem reaches_iff (accepted : (verify module).ok = true) (apart : BuiltinsApart module)
    {first last : Nat} (here : module.functions[first]? = some function)
    (there : module.functions[last]? = some other) :
    ReflTransGen (fun a b => b ∈ calledIndices module a) first last ↔
      ReflTransGen (ModuleCalls module) function.name other.name := by
  constructor
  · intro path
    induction path generalizing other with
    | refl =>
      cases here.symm.trans there
      exact .refl
    | @tail middle last _ step ih =>
      cases known : module.functions[middle]? with
      | none =>
        rw [calledIndices, known] at step
        cases step
      | some between =>
        exact .tail (ih known) ((mem_calledIndices accepted apart known there).mp step)
  · intro path
    have reached : ∀ name, ReflTransGen (ModuleCalls module) function.name name →
        ∃ (i : Nat) (target : Function), module.functions[i]? = some target ∧ target.name = name ∧
          ReflTransGen (fun a b => b ∈ calledIndices module a) first i := by
      intro name path
      induction path with
      | refl => exact ⟨first, function, here, rfl, .refl⟩
      | tail _ call ih =>
        obtain ⟨i, source, atSource, rfl, path⟩ := ih
        obtain ⟨-, target, member, same⟩ := call.2.1
        obtain ⟨j, atTarget⟩ := getElem?_of_mem member
        subst same
        exact ⟨j, target, atTarget, rfl,
          .tail path ((mem_calledIndices accepted apart atSource atTarget).mpr call)⟩
    obtain ⟨i, target, atTarget, same, path⟩ := reached _ path
    have first' := (find?_functionIndices accepted).mpr ⟨target, atTarget, same⟩
    have last' := (find?_functionIndices accepted).mpr ⟨other, there, rfl⟩
    cases first'.symm.trans last'
    exact path

/-- With a kernel in the module, the pruning keeps the functions that kernels can reach. -/
theorem mem_pruned_iff (accepted : (verify module).ok = true) (apart : BuiltinsApart module)
    (kernels : ∃ kernel ∈ module.functions, kernel.isKernel = true) :
    (pruneFunctionsUnreachableFromKernels module).functions.Sublist module.functions ∧
      ∀ function ∈ module.functions,
        function ∈ (pruneFunctionsUnreachableFromKernels module).functions ↔
          ReachedFromKernel module function.name := by
  obtain ⟨kernel, inside, isKernel⟩ := kernels
  obtain ⟨k, atKernel⟩ := getElem?_of_mem inside
  have some_ : kernelIndices module ≠ [] :=
    ne_nil_of_mem (mem_kernelIndices.mpr ⟨kernel, atKernel, isKernel⟩)
  have inRange : ∀ {i : Nat} {function : Function}, module.functions[i]? = some function →
      i < module.functions.length := fun here => (List.getElem?_eq_some_iff.mp here).1
  have bounded : ∀ a, ∀ b ∈ calledIndices module a, b < module.functions.length := by
    intro a b step
    unfold calledIndices at step
    split at step
    · cases step
    · simp only [mem_flatMap, mem_filterMap, calledIndex] at step
      obtain ⟨block, -, operation, -, called⟩ := step
      split at called
      · cases called
      · obtain ⟨name, -, found⟩ := Option.bind_eq_some_iff.mp called
        obtain ⟨target, here, -⟩ := (find?_functionIndices accepted).mp found
        exact inRange here
  have marked : ∀ {i : Nat} {function : Function}, module.functions[i]? = some function →
      (isMarked (markFrom (calledIndices module) (kernelIndices module)
        (replicate module.functions.length false)) i = true ↔
        ReachedFromKernel module function.name) := by
    intro i function here
    rw [isMarked_markFrom_replicate (inRange here) bounded fun a member =>
      inRange (mem_kernelIndices.mp member).choose_spec.1]
    constructor
    · rintro ⟨start, member, path⟩
      obtain ⟨source, atSource, isKernel⟩ := mem_kernelIndices.mp member
      exact ⟨source, mem_of_getElem? atSource, isKernel,
        (reaches_iff accepted apart atSource here).mp path⟩
    · rintro ⟨source, member, isKernel, path⟩
      obtain ⟨j, atSource⟩ := getElem?_of_mem member
      exact ⟨j, mem_kernelIndices.mpr ⟨source, atSource, isKernel⟩,
        (reaches_iff accepted apart atSource here).mpr path⟩
  rw [pruneFunctionsUnreachableFromKernels, if_neg some_]
  constructor
  · have sub := (filter_sublist (p := fun indexed => isMarked (markFrom (calledIndices module)
      (kernelIndices module) (replicate module.functions.length false)) indexed.2)
      (l := module.functions.zipIdx)).map Prod.fst
    rwa [zipIdx_map_fst] at sub
  · intro function member
    obtain ⟨i, here⟩ := getElem?_of_mem member
    rw [← marked here, mem_map]
    constructor
    · rintro ⟨⟨other, j⟩, kept, rfl⟩
      obtain ⟨listed, isMarked_⟩ := mem_filter.mp kept
      have there := mk_mem_zipIdx_iff_getElem?.mp listed
      exact (marked here).mpr ((marked there).mp isMarked_)
    · intro isMarked_
      exact ⟨(function, i),
        mem_filter.mpr ⟨mk_mem_zipIdx_iff_getElem?.mpr here, isMarked_⟩, rfl⟩

theorem pruned_of_no_kernel (none_ : ∀ function ∈ module.functions, function.isKernel = false) :
    pruneFunctionsUnreachableFromKernels module = module := by
  have empty : kernelIndices module = [] := by
    rw [eq_nil_iff_forall_not_mem]
    intro index member
    obtain ⟨function, here, kernel⟩ := mem_kernelIndices.mp member
    rw [none_ function (mem_of_getElem? here)] at kernel
    cases kernel
  rw [pruneFunctionsUnreachableFromKernels, if_pos empty]

/-- The verifier reports a recursive call graph exactly when a function can reach itself; the
importer either finds a cycle that the entry can reach or imports what the entry can reach, each
function after its callees; and in an accepted module with a kernel the pruning keeps what kernels
can reach. -/
theorem call_graphs :
    (∀ module : IrModule,
      (∃ diagnostic ∈ (verify module).diagnostics, diagnostic.ReportsRecursion) ↔
        ∃ name, TransGen (ModuleCalls module) name name) ∧
    (∀ (module : PtxModule) (entry : EntryFunction) (entryName : String),
      selectEntry module entryName = .ok entry →
      (ReachesCycle module entry → ∃ name, importOrder module entry = .error (.recursive name)) ∧
      (¬ ReachesCycle module entry →
        ∃ order, importOrder module entry = .ok order ∧ CalleesFirst module entry order)) ∧
    (∀ module : IrModule, (∀ function ∈ module.functions, function.isKernel = false) →
      pruneFunctionsUnreachableFromKernels module = module) ∧
    ∀ module : IrModule, (verify module).ok = true → BuiltinsApart module →
      (∃ kernel ∈ module.functions, kernel.isKernel = true) →
      (pruneFunctionsUnreachableFromKernels module).functions.Sublist module.functions ∧
        ∀ function ∈ module.functions,
          function ∈ (pruneFunctionsUnreachableFromKernels module).functions ↔
            ReachedFromKernel module function.name :=
  ⟨verify_reports_iff, fun module entry _ _ => importOrder_spec module entry,
    fun _ none_ => pruned_of_no_kernel none_,
    fun _ accepted apart kernels => mem_pruned_iff accepted apart kernels⟩

/-- The blocks of a function that calls another one or none. -/
def bodyCalling (callee : Option String) : List BasicBlock :=
  [{ id := 1
     name := "bb0"
     operations := (callee.toList.map fun callee =>
         { opcode := .call, attributes := [("callee", callee)] }) ++ [{ opcode := .return }] }]

def helperCalling (name : String) (callee : Option String) : Function :=
  { name := name, returnType := IrType.voidType, blocks := bodyCalling callee }

def scaleKernel : Function :=
  { helperCalling "scale" (some "twice") with isKernel := true, kernelAbi := some {} }

/-- A kernel that calls one of two helpers. -/
def scaleModule : IrModule :=
  { functions :=
      [scaleKernel, helperCalling "spare" (some "twice"), helperCalling "twice" none] }

def scaleEntry : EntryFunction :=
  ⟨"scale", [{ opcode := "call.uni", operands := ["twice", "()"] }, { opcode := "ret" }], by decide⟩

def twice : EntryFunction := ⟨"twice", [{ opcode := "ret" }], by decide⟩

def spare : EntryFunction :=
  ⟨"spare", [{ opcode := "call.uni", operands := ["twice", "()"] }], by decide⟩

theorem mem_scaleModule (member : function ∈ scaleModule.functions) :
    function = scaleKernel ∨ function = helperCalling "spare" (some "twice") ∨
      function = helperCalling "twice" none := by
  simpa [scaleModule] using member

theorem attributes_bodyCalling {callee : Option String} {block : BasicBlock}
    (inBlocks : block ∈ bodyCalling callee) {operation : Operation}
    (inBlock : operation ∈ block.operations) (call : operation.opcode = .call) :
    ∃ target ∈ callee, operation.attributes = [("callee", target)] := by
  obtain rfl := mem_singleton.mp inBlocks
  rcases mem_append.mp inBlock with calls | returns
  · obtain ⟨target, named, rfl⟩ := mem_map.mp calls
    exact ⟨target, Option.mem_toList.mp named, rfl⟩
  · obtain rfl := mem_singleton.mp returns
    cases call

theorem attributes_scaleModule (member : function ∈ scaleModule.functions) {block : BasicBlock}
    (inBlocks : block ∈ function.blocks) {operation : Operation}
    (inBlock : operation ∈ block.operations) (call : operation.opcode = .call) :
    operation.attributes = [("callee", "twice")] := by
  rcases mem_scaleModule member with rfl | rfl | rfl
  · obtain ⟨_, ⟨⟩, same⟩ := attributes_bodyCalling inBlocks inBlock call
    exact same
  · obtain ⟨_, ⟨⟩, same⟩ := attributes_bodyCalling inBlocks inBlock call
    exact same
  · obtain ⟨_, ⟨⟩, -⟩ := attributes_bodyCalling inBlocks inBlock call

theorem callee_scaleModule {caller callee : String} (calls : ModuleCalls scaleModule caller callee) :
    callee = "twice" := by
  obtain ⟨-, -, function, member, -, block, inBlocks, operation, inBlock, call, named, -⟩ := calls
  rw [attributes_scaleModule member inBlocks inBlock call] at named
  cases named
  rfl

/-- The verifier accepts the module, the pruning leaves out the helper that the kernel does not
call, and the import has the other helper before the entry. -/
theorem call_graphs_kernel :
    (verify scaleModule).ok = true ∧
      (¬ ∃ name, TransGen (ModuleCalls scaleModule) name name) ∧
      (∀ function ∈ scaleModule.functions,
        function ∈ (pruneFunctionsUnreachableFromKernels scaleModule).functions ↔
          function.name ≠ "spare") ∧
      importOrder ⟨[scaleEntry], [spare, twice]⟩ scaleEntry = .ok [twice, scaleEntry] ∧
      CalleesFirst ⟨[scaleEntry], [spare, twice]⟩ scaleEntry [twice, scaleEntry] := by
  obtain ⟨recursion, walk, -, pruning⟩ := call_graphs
  have accepted : (verify scaleModule).ok = true := by decide
  have silent : (verify scaleModule).diagnostics = [] := by decide
  have apart : BuiltinsApart scaleModule := by
    intro function member block inBlocks operation inBlock call builtin
    rw [Operation.flag, attributes_scaleModule member inBlocks inBlock call] at builtin
    cases builtin
  obtain ⟨-, kept⟩ := pruning scaleModule accepted apart ⟨_, mem_cons_self, rfl⟩
  have order : importOrder ⟨[scaleEntry], [spare, twice]⟩ scaleEntry = .ok [twice, scaleEntry] := rfl
  have acyclic : ¬ ReachesCycle ⟨[scaleEntry], [spare, twice]⟩ scaleEntry := by
    intro cycle
    obtain ⟨name, failed⟩ := (walk _ scaleEntry "" rfl).1 cycle
    cases order.symm.trans failed
  obtain ⟨found, ok, first⟩ := (walk _ scaleEntry "" rfl).2 acyclic
  cases order.symm.trans ok
  have called : ModuleCalls scaleModule "scale" "twice" :=
    ⟨⟨by decide, _, mem_cons_self, rfl⟩,
      ⟨by decide, helperCalling "twice" none, by simp [scaleModule], rfl⟩,
      _, mem_cons_self, rfl, _, mem_cons_self, _, mem_cons_self, rfl, rfl, rfl, rfl⟩
  refine ⟨accepted, ?_, fun function member => ?_, order, first⟩
  · rw [← recursion, silent]
    simp
  · rw [kept function member]
    constructor
    · rintro ⟨kernel, inside, isKernel, path⟩ same
      rcases path.cases_tail with root | ⟨_, _, call⟩
      · rcases mem_scaleModule inside with rfl | rfl | rfl
        · exact absurd (root.symm.trans same) (by decide)
        · cases isKernel
        · cases isKernel
      · exact absurd ((callee_scaleModule call).symm.trans same) (by decide)
    · intro other
      rcases mem_scaleModule member with rfl | rfl | rfl
      · exact ⟨_, member, rfl, .refl⟩
      · exact absurd rfl other
      · exact ⟨_, mem_cons_self, rfl, .single called⟩

def helperModule : IrModule :=
  { functions := [helperCalling "helper" none] }

/-- An entry that calls nothing, and a helper that calls itself. -/
def quietEntry : EntryFunction := ⟨"kernel", [{ opcode := "ret" }], by decide⟩

def selfCalling : EntryFunction :=
  ⟨"helper", [{ opcode := "call.uni", operands := ["helper", "()"] }], by decide⟩

/-- A module without kernels keeps a helper that no kernel can reach, and a cycle that the entry
cannot reach is no error. -/
theorem call_graphs_apart :
    ((verify helperModule).ok = true ∧
      ∃ function ∈ (pruneFunctionsUnreachableFromKernels helperModule).functions,
        ¬ ReachedFromKernel helperModule function.name) ∧
    (TransGen (CallsByName ⟨[quietEntry], [selfCalling]⟩ quietEntry) "helper" "helper" ∧
      importOrder ⟨[quietEntry], [selfCalling]⟩ quietEntry = .ok [quietEntry]) := by
  refine ⟨⟨by decide, ?_⟩, .single ?_, rfl⟩
  · have noKernel : ∀ function ∈ helperModule.functions, function.isKernel = false := by
      intro function member
      obtain rfl := mem_singleton.mp member
      rfl
    rw [pruned_of_no_kernel noKernel]
    refine ⟨_, mem_cons_self, ?_⟩
    rintro ⟨kernel, member, isKernel, -⟩
    rw [noKernel kernel member] at isKernel
    cases isKernel
  · exact ⟨selfCalling, rfl, _, mem_cons_self, by decide, rfl, rfl⟩

end CuMetal.Metal
