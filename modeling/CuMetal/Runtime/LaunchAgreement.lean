import CuMetal.Ir.SignatureFacts
import CuMetal.Runtime.LaunchArguments
import Mathlib.Data.List.Nodup
import Mathlib.Data.List.TakeWhile

/-!
# What a launch binds

The object that a launch binds at each buffer index of a kernel from one of the importers, and when
it is the object of the role that the importer gave the index. The importer and the registration
list the variables of a module each in an order of its own.
-/

namespace CuMetal.Runtime.Launch

open List

open Ir (KernelSource Role Signature signature_declared)

/-! ## The variables of a module -/

/-- How a declaration starts. -/
inductive Linkage
  | visible
  | external
  | weak
  | unlinked
  deriving DecidableEq

/-- A `.global` or `.const` declaration of a PTX module, and where its name is found: by the
importer in the operands of the kernel or a helper that it reaches (`referenced`) and of the
module's stores (`written`), by the registration in the text of the kernel's own body (`mentioned`)
and of the module's stores (`stored`). -/
structure Declaration where
  name : String
  linkage : Linkage
  (initialized referenced written mentioned stored : Bool)

/-- A literal that the compiler has moved out of a function. -/
def Declaration.promoted (declaration : Declaration) : Bool :=
  "__const_$".toList.isPrefixOf declaration.name.toList

/-- `module_global_symbols` (`ptx_importer.cpp:4054-4092`, `4136-4151`): first the initialised
ones. -/
def importedVariables (declarations : List Declaration) : List Declaration :=
  (declarations.filter fun declared => declared.initialized && declared.referenced &&
      !(declared.linkage == .unlinked && (declared.promoted || !declared.written))) ++
    declarations.filter fun declared => !declared.initialized && declared.referenced

/-- `module_constant_symbols` (`4104-4130`). -/
def importedConstants (constants : List Declaration) : List Declaration :=
  constants.filter fun constant => !constant.initialized && constant.referenced

/-- `find_referenced_external_global_symbols` (`ptx/src/lower_to_llvm.cpp:10126-10325`). -/
def registeredVariables (declarations : List Declaration) : List Declaration :=
  declarations.filter fun declared => declared.mentioned && (!declared.initialized ||
    declared.linkage == .visible || declared.stored && !declared.promoted)

/-- `find_referenced_external_constant_symbols` (`10126-10307`). -/
def registeredConstants (constants : List Declaration) : List Declaration :=
  constants.filter fun constant => !constant.initialized && constant.mentioned

/-- The PTX importer has these variables and constants from the module. Where the other importer has
its own from is the compiler's matter. -/
def TakenFrom (declarations constants : List Declaration) : KernelSource → Prop
  | .nvvm .. => True
  | .ptx _ globals constantNames _ =>
    globals = (importedVariables declarations).map Declaration.name ∧
      constantNames = (importedConstants constants).map Declaration.name

/-- A kernel from one of the importers, the declarations of the PTX module that is registered with
it, and its record in the registration table. Neither importer takes a kernel in that needs the
device heap or the launch queue. -/
structure TypedKernel where
  source : KernelSource
  declarations : List Declaration
  constants : List Declaration
  record : RegisteredKernel
  taken : TakenFrom declarations constants source
  argInfo : record.argInfo.length = source.parameterCount
  resolved : record.argInfoResolved = true
  globals : record.globalSymbols.map GlobalSymbol.name =
    (registeredVariables declarations).map Declaration.name
  constantNames : record.constantSymbols.map ConstantSymbol.name =
    (registeredConstants constants).map Declaration.name
  distinct : (declarations.map Declaration.name).Nodup
  buffers : (record.globalSymbols.filterMap GlobalSymbol.buffer).Nodup
  formats : record.printfFormats.isEmpty = !source.usesPrintf
  noHeap : record.usesDeviceHeap = false
  noQueue : record.usesDeviceLaunchQueue = false

namespace TypedKernel

/-- The variables that a launch puts into the list, in its order. -/
def registeredNames (kernel : TypedKernel) : List String :=
  (registeredVariables kernel.declarations).map Declaration.name

/-- Whether a launch puts the constant buffer into the list. -/
def hasConstants (kernel : TypedKernel) : Bool := !(registeredConstants kernel.constants).isEmpty

end TypedKernel

/-- The object of a role in a launch. -/
def resourceOf (host : Host) (record : RegisteredKernel) (args : List (Option Slot)) :
    Role → Option Resource
  | .parameter i => (userArgument host record args i).map KernelArg.resource
  | .globalSymbol name =>
    (record.globalSymbols.find? fun symbol => symbol.name = name).bind fun symbol =>
      symbol.buffer.map .globalSymbol
  | .constantSymbols => some .constantBuffer
  | .printfBuffer => some .printfBuffer
  | .printfCapacity => some (.bytes host.printfCapacity)

/-- Every index that the kernel declares has the object of its role. -/
def Agrees (host : Host) (kernel : TypedKernel) (args : List (Option Slot))
    (signature : Signature) (table : AssocMap Nat Resource) : Prop :=
  ∃ abi, signature.kernelAbi = some abi ∧ ∀ binding ∈ abi.bindings,
    ∃ resource, resourceOf host kernel.record args binding.role = some resource ∧
      table.find? binding.bindingIndex = some resource

/-- A launch that can agree: no null slot among the arguments; the registration lists first what the
importer has numbered, in its order; nothing else comes between that and printf; the constants that
the importer binds are registered; and no numbered argument is at an index that the pipeline takes
for itself. -/
structure KeepsPositions (kernel : TypedKernel) (needs : PipelineNeeds)
    (args : List (Option Slot)) : Prop where
  slots : ∀ i < kernel.source.parameterCount, (slotAt args i).isSome
  order : kernel.source.globalNames <+: kernel.registeredNames
  printing : kernel.source.usesPrintf = true →
    kernel.registeredNames.length = kernel.source.globalNames.length ∧ kernel.hasConstants = false
  constants : kernel.source.usesConstants = true → kernel.hasConstants = true
  free : ∀ reserved ∈ reservedBindings needs, kernel.source.numbered ≤ reserved.1

/-- What a pipeline takes for itself. -/
def Resource.isReserved : Resource → Bool
  | .atomicLockBank | .deviceClock | .gridBarrier => true
  | _ => false

theorem reservedBindings_nodup (needs : PipelineNeeds) :
    ((reservedBindings needs).map Prod.fst).Nodup := by
  obtain ⟨lockBank, deviceClock, gridBarrier⟩ := needs
  cases lockBank <;> cases deviceClock <;> cases gridBarrier <;> decide

variable {needs : PipelineNeeds} {host : Host} {args : List (Option Slot)} {i index : Nat}
  {argument : KernelArg} {resource : Resource} {kernel : TypedKernel} {arguments : List KernelArg}
  {users globals : List Resource} {source : KernelSource}

theorem reservedBindings_isReserved {reserved : Nat × Resource}
    (mem : reserved ∈ reservedBindings needs) :
    reserved.2.isReserved = true ∧ reserved.1 ≤ 29 := by
  have all : ∀ reserved ∈ reservedBindings needs,
      reserved.2.isReserved = true ∧ reserved.1 ≤ 29 := by
    obtain ⟨lockBank, deviceClock, gridBarrier⟩ := needs
    cases lockBank <;> cases deviceClock <;> cases gridBarrier <;> decide
  exact all reserved mem

theorem userArgument_spec {kernel : RegisteredKernel}
    (built : userArgument host kernel args i = some argument) :
    argument.bindingIndex = none ∧ argument.resource.isReserved = false ∧
      argument.resource ≠ .constantBuffer := by
  unfold userArgument at built
  split at built
  · cases built
  · simp only at built
    split at built
    · split at built
      · cases built
        exact ⟨rfl, rfl, nofun⟩
      · split at built
        · cases built
          exact ⟨rfl, rfl, nofun⟩
        · split at built
          · cases built
            exact ⟨rfl, rfl, nofun⟩
          · cases built
    · split at built
      · cases built
      · cases built
        exact ⟨rfl, rfl, nofun⟩

theorem userArgument_isSome_slot {kernel : RegisteredKernel}
    (built : userArgument host kernel args i = some argument) : (slotAt args i).isSome = true := by
  unfold userArgument at built
  split at built
  · cases built
  · next found => rw [found]; rfl

variable {symbol : GlobalSymbol}

theorem globalArgument_spec (built : globalArgument symbol = some argument) :
    argument.bindingIndex = none ∧ symbol.buffer.map Resource.globalSymbol =
      some argument.resource := by
  unfold globalArgument at built
  split at built
  · cases built
  · next found =>
      split at built
      · cases built
      · cases built
        exact ⟨rfl, by rw [found]; rfl⟩

theorem resourceOf_isReserved {record : RegisteredKernel} {role : Role}
    (found : resourceOf host record args role = some resource) :
    resource.isReserved = false := by
  cases role with
  | parameter i =>
    obtain ⟨argument, built, rfl⟩ := Option.map_eq_some_iff.mp found
    exact (userArgument_spec built).2.1
  | globalSymbol name =>
    obtain ⟨symbol, _, found⟩ := Option.bind_eq_some_iff.mp found
    obtain ⟨buffer, _, rfl⟩ := Option.map_eq_some_iff.mp found
    rfl
  | constantSymbols | printfBuffer | printfCapacity =>
    cases found
    rfl

/-! ## The argument list -/

theorem leadingSlots_of_all {limit : Nat}
    (all : ∀ i < limit, (slotAt args i).isSome) : leadingSlots args limit = limit := by
  have every : (range limit).takeWhile (fun i => (slotAt args i).isSome) =
      range limit :=
    takeWhile_eq_self_iff.mpr fun i mem => all i (mem_range.mp mem)
  rw [leadingSlots, every, length_range]

/-- What a launch puts into the list: arguments of the caller and variables, which are bound where
they stand, the constants, and printf. -/
structure Layout (host : Host) (kernel : TypedKernel) (args : List (Option Slot))
    (arguments : List KernelArg) (users globals : List Resource) : Prop where
  listed : arguments = (users ++ globals).map (fun resource => ⟨resource, none⟩) ++
    (if kernel.hasConstants then [⟨.constantBuffer, some 30⟩] else []) ++
    (if kernel.source.usesPrintf then [⟨.printfBuffer, none⟩, ⟨.bytes host.printfCapacity, none⟩]
      else [])
  userCount : users.length = leadingSlots args kernel.source.parameterCount
  user : ∀ i < users.length, resourceOf host kernel.record args (.parameter i) = users[i]?
  notConstants : ∀ resource ∈ users, resource ≠ .constantBuffer
  globalCount : globals.length = kernel.registeredNames.length
  global : ∀ (i : Nat) (name : String), kernel.registeredNames[i]? = some name →
    resourceOf host kernel.record args (.globalSymbol name) = globals[i]?
  own : ∃ buffers : List Nat, buffers.Nodup ∧ globals = buffers.map .globalSymbol

theorem argCount_eq {args : Option (List (Option Slot))} {count : Nat}
    (counted : argCount kernel.record args = some count) :
    count = leadingSlots (args.getD []) kernel.source.parameterCount := by
  rw [← kernel.argInfo]
  unfold argCount at counted
  cases args with
  | none =>
    simp only at counted
    split at counted
    · next empty =>
        cases counted
        rw [isEmpty_iff.mp empty]
        rfl
    · cases counted
  | some slots =>
    simp only [kernel.resolved, if_true] at counted
    split at counted
    · cases counted
      rfl
    · next empty =>
        cases counted
        have none_ : kernel.record.argInfo = [] := by simpa using empty
        rw [none_]
        rfl

theorem find?_symbol {symbols : List GlobalSymbol}
    (distinct : (symbols.map GlobalSymbol.name).Nodup) (mem : symbol ∈ symbols) :
    symbols.find? (fun other => other.name = symbol.name) = some symbol := by
  induction symbols with
  | nil => cases mem
  | cons head tail ih =>
    rw [map_cons, nodup_cons] at distinct
    rcases mem_cons.mp mem with rfl | mem
    · simp
    · have different : head.name ≠ symbol.name := by
        intro same
        exact distinct.1 (same ▸ mem_map_of_mem mem)
      rw [find?_cons_of_neg (by simpa using different)]
      exact ih distinct.2 mem

theorem map_resource_of_none (none_ : ∀ argument ∈ arguments, argument.bindingIndex = none) :
    arguments = (arguments.map KernelArg.resource).map fun resource => ⟨resource, none⟩ := by
  rw [map_map]
  refine (map_id arguments).symm.trans (map_congr_left fun argument mem => ?_)
  rw [Function.comp_apply, ← none_ argument mem]
  rfl

theorem constantArguments_eq {constants : List KernelArg}
    (built : constantArguments host kernel.record = some constants) :
    constants = if kernel.hasConstants then [⟨.constantBuffer, some 30⟩] else [] := by
  have listed : kernel.hasConstants = !kernel.record.constantSymbols.isEmpty := by
    rw [TypedKernel.hasConstants, ← isEmpty_map (f := Declaration.name), ← kernel.constantNames,
      isEmpty_map]
  unfold constantArguments at built
  cases empty : kernel.record.constantSymbols.isEmpty with
  | true =>
    rw [empty] at built listed
    rw [listed]
    cases built
    rfl
  | false =>
    rw [empty] at built listed
    rw [listed]
    simp only [Bool.false_eq_true, if_false] at built
    split at built
    · cases built
    split at built
    · cases built
    split at built
    · cases built
    · cases built
      rfl

theorem providedArgument_eq {needed : Bool} {rest : List KernelArg}
    (built : providedArgument host needed resource rest = some arguments) :
    arguments = if needed then ⟨resource, none⟩ :: rest else [] := by
  unfold providedArgument at built
  cases needed with
  | false =>
    cases built
    rfl
  | true =>
    simp only [Bool.not_true, Bool.false_eq_true, if_false] at built
    split at built
    · cases built
      rfl
    · cases built

/-- The variables of a list of arguments are the buffers of the symbols. -/
theorem globals_eq {symbols : List GlobalSymbol} {globals : List KernelArg}
    (built : symbols.map globalArgument = globals.map some) :
    globals.map KernelArg.resource =
      (symbols.filterMap GlobalSymbol.buffer).map Resource.globalSymbol := by
  induction symbols generalizing globals with
  | nil => cases globals with
    | nil => rfl
    | cons _ _ => cases built
  | cons symbol symbols ih => cases globals with
    | nil => cases built
    | cons argument globals =>
      obtain ⟨first, rest⟩ := cons_eq_cons.mp built
      obtain ⟨buffer, found, same⟩ := Option.map_eq_some_iff.mp (globalArgument_spec first).2
      rw [map_cons, ih rest, filterMap_cons_some found, map_cons, same]

/-- The parts that a launch puts its arguments together from. -/
theorem launchArguments_parts {record : RegisteredKernel} {args : Option (List (Option Slot))}
    (listed : launchArguments host record args = some arguments) :
    ∃ count users globals constants heap printing queue,
      argCount record args = some count ∧
        (range count).map (userArgument host record (args.getD [])) = users.map some ∧
        record.globalSymbols.map globalArgument = globals.map some ∧
        constantArguments host record = some constants ∧
        providedArgument host record.usesDeviceHeap .deviceHeap [] = some heap ∧
        providedArgument host (!record.printfFormats.isEmpty) .printfBuffer
          [⟨.bytes host.printfCapacity, none⟩] = some printing ∧
        providedArgument host record.usesDeviceLaunchQueue .deviceLaunchQueue
          [⟨.bytes host.launchQueueBytes, none⟩] = some queue ∧
        arguments = users ++ globals ++ constants ++ heap ++ printing ++ queue := by
  unfold launchArguments at listed
  obtain ⟨count, counted, listed⟩ := Option.bind_eq_some_iff.mp listed
  obtain ⟨users, usersBuilt, listed⟩ := Option.bind_eq_some_iff.mp listed
  obtain ⟨globals, globalsBuilt, listed⟩ := Option.bind_eq_some_iff.mp listed
  obtain ⟨constants, constantsBuilt, listed⟩ := Option.bind_eq_some_iff.mp listed
  obtain ⟨heap, heapBuilt, listed⟩ := Option.bind_eq_some_iff.mp listed
  obtain ⟨printing, printingBuilt, listed⟩ := Option.bind_eq_some_iff.mp listed
  obtain ⟨queue, queueBuilt, listed⟩ := Option.bind_eq_some_iff.mp listed
  exact ⟨count, users, globals, constants, heap, printing, queue, counted,
    mapM_eq_some usersBuilt, mapM_eq_some globalsBuilt, constantsBuilt, heapBuilt, printingBuilt,
    queueBuilt, (Option.some.inj listed).symm⟩

theorem launchArguments_layout {args : Option (List (Option Slot))}
    (listed : launchArguments host kernel.record args = some arguments) :
    ∃ users globals, Layout host kernel (args.getD []) arguments users globals := by
  obtain ⟨count, users, globals, constants, heap, printing, queue, counted, usersBuilt,
    globalsBuilt, constantsBuilt, heapBuilt, printingBuilt, queueBuilt, rfl⟩ :=
    launchArguments_parts listed
  have userAt : ∀ i < count, userArgument host kernel.record (args.getD []) i = users[i]? := by
    intro i inside
    have here := congrArg (·[i]?) usersBuilt
    simp only [getElem?_map, getElem?_range inside, Option.map_some] at here
    cases found : users[i]? with
    | none => simp [found] at here
    | some argument => simpa [found] using here
  have userCount : users.length = count := by
    simpa using (congrArg length usersBuilt).symm
  have globalCount : globals.length = kernel.record.globalSymbols.length := by
    simpa using (congrArg length globalsBuilt).symm
  have plainUsers : ∀ argument ∈ users, argument.bindingIndex = none := by
    intro argument mem
    obtain ⟨i, inside, rfl⟩ := mem_iff_getElem.mp mem
    exact (userArgument_spec ((userAt i (userCount ▸ inside)).trans
      (getElem?_eq_getElem inside))).1
  have plainGlobals : ∀ argument ∈ globals, argument.bindingIndex = none := by
    intro argument mem
    have built : some argument ∈ kernel.record.globalSymbols.map globalArgument :=
      globalsBuilt ▸ mem_map_of_mem mem
    obtain ⟨symbol, _, built⟩ := mem_map.mp built
    exact (globalArgument_spec built).1
  refine ⟨users.map KernelArg.resource, globals.map KernelArg.resource, ?_, ?_, ?_, ?_, ?_, ?_, ?_⟩
  · have heapEmpty := providedArgument_eq heapBuilt
    have queueEmpty := providedArgument_eq queueBuilt
    rw [kernel.noHeap, if_neg Bool.false_ne_true] at heapEmpty
    rw [kernel.noQueue, if_neg Bool.false_ne_true] at queueEmpty
    rw [map_append, ← map_resource_of_none plainUsers, ← map_resource_of_none plainGlobals,
      constantArguments_eq constantsBuilt, providedArgument_eq printingBuilt, heapEmpty,
      queueEmpty, kernel.formats]
    simp
  · rw [length_map, userCount, argCount_eq counted]
  · intro i inside
    rw [length_map, userCount] at inside
    rw [getElem?_map, ← userAt i inside]
    rfl
  · intro resource mem
    obtain ⟨argument, inUsers, rfl⟩ := mem_map.mp mem
    obtain ⟨i, inside, rfl⟩ := mem_iff_getElem.mp inUsers
    exact (userArgument_spec ((userAt i (userCount ▸ inside)).trans
      (getElem?_eq_getElem inside))).2.2
  · rw [length_map, globalCount, TypedKernel.registeredNames, ← kernel.globals, length_map]
  · intro i name here
    rw [TypedKernel.registeredNames, ← kernel.globals, getElem?_map] at here
    obtain ⟨symbol, found, rfl⟩ := Option.map_eq_some_iff.mp here
    have distinct : (kernel.record.globalSymbols.map GlobalSymbol.name).Nodup := by
      rw [kernel.globals]
      exact kernel.distinct.sublist (filter_sublist.map _)
    have looked := find?_symbol distinct (mem_of_getElem? found)
    change (find? (fun other : GlobalSymbol => other.name = symbol.name) _).bind _ = _
    rw [looked, Option.bind_some]
    have built := congrArg (·[i]?) globalsBuilt
    simp only [getElem?_map, found, Option.map_some] at built
    cases argument : globals[i]? with
    | none => simp [argument] at built
    | some argument' =>
      rw [argument, Option.map_some] at built
      rw [getElem?_map, argument]
      exact (globalArgument_spec (Option.some.inj built)).2
  · exact ⟨_, kernel.buffers, globals_eq globalsBuilt⟩

/-- Where each argument is bound, and what. -/
def boundAt (arguments : List KernelArg) : List (Nat × Resource) :=
  arguments.zipIdx.map fun (argument, i) => (argument.bindingIndex.getD i, argument.resource)

variable {table : AssocMap Nat Resource}

theorem bindArguments_eq (bound : bindArguments needs arguments = some table) :
    arguments.length ≤ 31 ∧
      table = AssocMap.assignAll [] (boundAt arguments ++ reservedBindings needs) := by
  unfold bindArguments at bound
  split at bound
  · cases bound
  · next few =>
      obtain ⟨places, built, rfl⟩ := Option.map_eq_some_iff.mp bound
      refine ⟨by omega, ?_⟩
      have same : places.map some = (boundAt arguments).map some := by
        rw [← mapM_eq_some built, boundAt, map_map]
        refine map_congr_left fun indexed mem => ?_
        have success : ∃ place, bindArgument indexed = some place := by
          have here := mem_map_of_mem (f := bindArgument) mem
          rw [mapM_eq_some built] at here
          obtain ⟨place, _, found⟩ := mem_map.mp here
          exact ⟨place, found.symm⟩
        obtain ⟨place, success⟩ := success
        unfold bindArgument at success ⊢
        split at success
        · cases success
        split at success
        · cases success
        · next valid inside => rw [if_neg valid, if_neg inside]; rfl
      rw [map_injective_iff.mpr (fun _ _ => Option.some.inj) same]

/-- The index after those that are bound where they stand and the constants. -/
def nextPosition (kernel : TypedKernel) (users globals : List Resource) : Nat :=
  (users ++ globals).length + if kernel.hasConstants then 1 else 0

theorem Layout.boundAt_eq (layout : Layout host kernel args arguments users globals) :
    boundAt arguments = (users ++ globals).zipIdx.map Prod.swap ++
      (if kernel.hasConstants then [(30, .constantBuffer)] else []) ++
      (if kernel.source.usesPrintf then
        [(nextPosition kernel users globals, .printfBuffer),
          (nextPosition kernel users globals + 1, .bytes host.printfCapacity)] else []) := by
  have plain : ∀ resources : List Resource,
      (map (fun resource => (⟨resource, none⟩ : KernelArg)) resources).zipIdx.map
        (fun (argument, i) => (argument.bindingIndex.getD i, argument.resource)) =
      resources.zipIdx.map Prod.swap := by
    intro resources
    rw [zipIdx_map, map_map]
    rfl
  rw [boundAt, layout.listed, zipIdx_append, zipIdx_append, map_append,
    map_append, plain]
  unfold nextPosition
  cases kernel.hasConstants <;> cases kernel.source.usesPrintf <;>
    simp [Nat.add_assoc]

theorem Layout.mem_boundAt (layout : Layout host kernel args arguments users globals) :
    (index, resource) ∈ boundAt arguments ↔ (users ++ globals)[index]? = some resource ∨
      kernel.hasConstants = true ∧ index = 30 ∧ resource = .constantBuffer ∨
      kernel.source.usesPrintf = true ∧
        (index = nextPosition kernel users globals ∧ resource = .printfBuffer ∨
          index = nextPosition kernel users globals + 1 ∧
            resource = .bytes host.printfCapacity) := by
  have positions : (index, resource) ∈ (users ++ globals).zipIdx.map Prod.swap ↔
      (users ++ globals)[index]? = some resource := by
    rw [mem_map]
    constructor
    · rintro ⟨⟨found, i⟩, mem, same⟩
      cases same
      exact mem_zipIdx_iff_getElem?.mp mem
    · intro here
      exact ⟨(resource, index), mem_zipIdx_iff_getElem?.mpr here, rfl⟩
  rw [layout.boundAt_eq, mem_append, mem_append, positions, or_assoc]
  cases kernel.hasConstants <;> cases kernel.source.usesPrintf <;> simp

/-! ## The agreement -/

/-- At an index that is given out for a role there is its object. -/
def Holds (host : Host) (kernel : TypedKernel) (args : List (Option Slot))
    (table : AssocMap Nat Resource) (declared : Nat × Role) : Prop :=
  ∃ resource, resourceOf host kernel.record args declared.2 = some resource ∧
    table.find? declared.1 = some resource

theorem agrees_iff_declared {signature : Signature}
    (imported : kernel.source.signature = .ok signature) :
    Agrees host kernel args signature table ↔
      ∀ declared ∈ kernel.source.declared, Holds host kernel args table declared := by
  obtain ⟨abi, found, _, _, listed⟩ := (signature_declared imported).parallel
  constructor
  · rintro ⟨abi', found', agrees⟩ declared mem
    cases found.symm.trans found'
    obtain ⟨binding, inAbi, rfl⟩ := mem_map.mp (listed.mem_iff.mpr mem)
    exact agrees binding inAbi
  · intro holds
    refine ⟨abi, found, fun binding inAbi => ?_⟩
    exact holds _ (listed.mem_iff.mp (mem_map_of_mem inAbi))

theorem declared_parameter (inside : i < source.parameterCount) :
    (i, .parameter i) ∈ source.declared := by
  simp [KernelSource.declared, inside]

theorem declared_global {name : String} (here : source.globalNames[i]? = some name) :
    (source.parameterCount + i, .globalSymbol name) ∈ source.declared := by
  have mem : (name, source.parameterCount + i) ∈
      source.globalNames.zipIdx source.parameterCount := by
    rw [mem_zipIdx_iff_le_and_getElem?_sub]
    exact ⟨by omega, by simpa using here⟩
  simp only [KernelSource.declared, mem_append]
  exact .inl (.inl (.inr (mem_map.mpr ⟨_, mem, rfl⟩)))

theorem declared_printf (prints : source.usesPrintf = true) :
    (source.parameterCount + source.globalNames.length, .printfBuffer) ∈ source.declared ∧
      (source.parameterCount + source.globalNames.length + 1, .printfCapacity) ∈
        source.declared := by
  simp [KernelSource.declared, prints]

theorem declared_numbered (inside : index < source.numbered) :
    ∃ role, (index, role) ∈ source.declared := by
  unfold KernelSource.numbered at inside
  by_cases parameter : index < source.parameterCount
  · exact ⟨_, declared_parameter parameter⟩
  by_cases global : index < source.parameterCount + source.globalNames.length
  · have bound : index - source.parameterCount < source.globalNames.length := by omega
    have mem := declared_global (getElem?_eq_getElem bound)
    rw [Nat.add_sub_cancel' (by omega)] at mem
    exact ⟨_, mem⟩
  cases prints : source.usesPrintf with
  | false => simp [prints] at inside; omega
  | true =>
    rw [prints, if_pos rfl] at inside
    by_cases ring : index = source.parameterCount + source.globalNames.length
    · exact ⟨_, ring ▸ (declared_printf prints).1⟩
    · have capacity : index = source.parameterCount + source.globalNames.length + 1 := by omega
      exact ⟨_, capacity ▸ (declared_printf prints).2⟩

variable {declared : Nat × Role}

/-- An object that is bound by the list, if the pipeline does not take it for itself. -/
theorem Holds.mem_boundAt (holds : Holds host kernel args
    (AssocMap.assignAll [] (boundAt arguments ++ reservedBindings needs)) declared) :
    ∃ resource, resourceOf host kernel.record args declared.2 = some resource ∧
      (declared.1, resource) ∈ boundAt arguments := by
  obtain ⟨resource, found, bound⟩ := holds
  refine ⟨resource, found, ?_⟩
  rcases mem_append.mp (AssocMap.mem_of_find?_assignAll bound) with bound | reserved
  · exact bound
  · have own := resourceOf_isReserved found
    rw [(reservedBindings_isReserved reserved).1] at own
    cases own

/-- What stands behind the arguments of the caller is a variable. -/
theorem Layout.global_of_position (layout : Layout host kernel args arguments users globals)
    (here : (users ++ globals)[users.length + i]? = some resource) :
    globals[i]? = some resource ∧ ∃ buffer, resource = .globalSymbol buffer := by
  rw [getElem?_append_right (Nat.le_add_right _ _), Nat.add_sub_cancel_left] at here
  obtain ⟨buffers, -, rfl⟩ := layout.own
  obtain ⟨buffer, -, rfl⟩ := mem_map.mp (mem_of_getElem? here)
  exact ⟨here, buffer, rfl⟩

/-- A variable whose object stands at a place is the one that is registered there. -/
theorem Layout.name_of_position (layout : Layout host kernel args arguments users globals)
    {name : String} (found : resourceOf host kernel.record args (.globalSymbol name) = some resource)
    (here : globals[i]? = some resource) : kernel.registeredNames[i]? = some name := by
  obtain ⟨symbol, looked, -⟩ := Option.bind_eq_some_iff.mp found
  have named : symbol.name = name := by simpa using find?_some looked
  have listed : name ∈ kernel.registeredNames := by
    rw [TypedKernel.registeredNames, ← kernel.globals, ← named]
    exact mem_map_of_mem (mem_of_find?_eq_some looked)
  obtain ⟨j, there⟩ := mem_iff_getElem?.mp listed
  have bound := layout.global j name there
  rw [found] at bound
  obtain ⟨buffers, distinct, rfl⟩ := layout.own
  have nodup : (buffers.map Resource.globalSymbol).Nodup :=
    Nodup.map (fun _ _ same => Resource.globalSymbol.inj same) distinct
  have inside := (List.getElem?_eq_some_iff.mp here).1
  rw [(List.getElem?_inj inside nodup).mp (here.trans bound)]
  exact there

theorem keepsPositions_of_holds (layout : Layout host kernel args arguments users globals)
    (holds : ∀ declared ∈ kernel.source.declared, Holds host kernel args
      (AssocMap.assignAll [] (boundAt arguments ++ reservedBindings needs)) declared) :
    KeepsPositions kernel needs args := by
  have slots : ∀ i < kernel.source.parameterCount, (slotAt args i).isSome := by
    intro i inside
    obtain ⟨resource, found, _⟩ := holds _ (declared_parameter inside)
    obtain ⟨argument, built, _⟩ := Option.map_eq_some_iff.mp found
    exact userArgument_isSome_slot built
  have userCount : users.length = kernel.source.parameterCount := by
    rw [layout.userCount, leadingSlots_of_all slots]
  have order : kernel.source.globalNames <+: kernel.registeredNames := by
    rw [prefix_iff_getElem?]
    intro i inside
    obtain ⟨resource, found, bound⟩ :=
      (holds _ (declared_global (getElem?_eq_getElem inside))).mem_boundAt
    rw [← userCount, layout.mem_boundAt] at bound
    obtain ⟨symbol, -, mapped⟩ := Option.bind_eq_some_iff.mp found
    obtain ⟨buffer, -, rfl⟩ := Option.map_eq_some_iff.mp mapped
    rcases bound with here | ⟨-, -, other⟩ | ⟨-, ⟨-, other⟩ | ⟨-, other⟩⟩
    · exact layout.name_of_position found (layout.global_of_position here).1
    · cases other
    · cases other
    · cases other
  refine ⟨slots, order, fun prints => ?_, fun uses => ?_, fun reserved mem => ?_⟩
  · -- The ring is nowhere but at the next position.
    obtain ⟨resource, ring, bound⟩ := (holds _ (declared_printf prints).1).mem_boundAt
    cases ring
    rw [← userCount, layout.mem_boundAt] at bound
    rcases bound with here | ⟨-, -, other⟩ | ⟨-, ⟨next, -⟩ | ⟨-, other⟩⟩
    · obtain ⟨-, buffer, other⟩ := layout.global_of_position here
      cases other
    · cases other
    · have fewer := order.length_le
      rw [nextPosition, length_append, layout.globalCount] at next
      cases has : kernel.hasConstants <;> simp only [has, if_true] at next
      · exact ⟨by simpa using next.symm, rfl⟩
      · omega
    · cases other
  · have declared : (30, Role.constantSymbols) ∈ kernel.source.declared := by
      simp [KernelSource.declared, uses]
    obtain ⟨resource, found, bound⟩ := (holds _ declared).mem_boundAt
    cases found
    rcases layout.mem_boundAt.mp bound with here | ⟨has, -⟩ | ⟨-, ⟨-, other⟩ | ⟨-, other⟩⟩
    · rcases mem_append.mp (mem_of_getElem? here) with user | global
      · exact absurd rfl (layout.notConstants _ user)
      · obtain ⟨buffers, -, rfl⟩ := layout.own
        obtain ⟨buffer, -, other⟩ := mem_map.mp global
        cases other
    · exact has
    · cases other
    · cases other
  · -- What the pipeline takes is bound last.
    by_contra covered
    obtain ⟨role, declared⟩ := declared_numbered (Nat.lt_of_not_le covered)
    obtain ⟨resource, found, bound⟩ := holds _ declared
    rw [AssocMap.find?_assignAll_append (reservedBindings_nodup needs) mem] at bound
    cases bound
    have own := resourceOf_isReserved found
    rw [(reservedBindings_isReserved mem).1] at own
    cases own

theorem Layout.length_eq (layout : Layout host kernel args arguments users globals) :
    arguments.length = nextPosition kernel users globals +
      if kernel.source.usesPrintf then 2 else 0 := by
  rw [layout.listed, nextPosition]
  cases kernel.hasConstants <;> cases kernel.source.usesPrintf <;>
    simp [Nat.add_assoc]

/-- Without printf next to constants, no index is bound twice by the list. -/
theorem Layout.boundAt_unique
    (layout : Layout host kernel args arguments users globals) (few : arguments.length ≤ 31)
    (apart : kernel.source.usesPrintf = true → kernel.hasConstants = false)
    {left right : Resource} (first : (index, left) ∈ boundAt arguments)
    (second : (index, right) ∈ boundAt arguments) : left = right := by
  rw [layout.length_eq] at few
  rw [layout.mem_boundAt] at first second
  have inside : ∀ {resource : Resource}, (users ++ globals)[index]? = some resource →
      index < (users ++ globals).length := fun here => (List.getElem?_eq_some_iff.mp here).1
  have next : nextPosition kernel users globals = (users ++ globals).length +
    if kernel.hasConstants then 1 else 0 := rfl
  rcases first with here | ⟨refers, last, rfl⟩ | ⟨prints, places⟩
  · have bound := inside here
    rcases second with other | ⟨refers, last, _⟩ | ⟨_, ⟨place, _⟩ | ⟨place, _⟩⟩
    · exact Option.some.inj (here.symm.trans other)
    · rw [refers, if_pos rfl] at next
      omega
    · omega
    · omega
  · rcases second with other | ⟨_, _, rfl⟩ | ⟨prints, _⟩
    · have bound := inside other
      rw [refers, if_pos rfl] at next
      omega
    · rfl
    · exact absurd refers (by simp [apart prints])
  · rcases second with other | ⟨refers, _⟩ | ⟨_, places'⟩
    · have bound := inside other
      rcases places with ⟨place, _⟩ | ⟨place, _⟩ <;> omega
    · exact absurd refers (by simp [apart prints])
    · rcases places with ⟨place, rfl⟩ | ⟨place, rfl⟩ <;>
        rcases places' with ⟨place', rfl⟩ | ⟨place', rfl⟩
      · rfl
      · omega
      · omega
      · rfl

theorem Layout.mem_of_declared (layout : Layout host kernel args arguments users globals)
    (userCount : users.length = kernel.source.parameterCount)
    (keeps : KeepsPositions kernel needs args)
    (mem : declared ∈ kernel.source.declared) :
    ∃ resource, resourceOf host kernel.record args declared.2 = some resource ∧
      (declared.1, resource) ∈ boundAt arguments := by
  rw [KernelSource.declared, mem_append, mem_append, mem_append] at mem
  rcases mem with ((parameter | global) | printing) | constants
  · obtain ⟨i, inside, rfl⟩ := mem_map.mp parameter
    have bound : i < users.length := userCount ▸ mem_range.mp inside
    refine ⟨users[i], by rw [layout.user i bound, getElem?_eq_getElem bound], ?_⟩
    rw [layout.mem_boundAt, getElem?_append_left bound]
    exact .inl (getElem?_eq_getElem bound)
  · obtain ⟨⟨name, index⟩, listed, rfl⟩ := mem_map.mp global
    obtain ⟨after, here⟩ := mem_zipIdx_iff_le_and_getElem?_sub.mp listed
    obtain ⟨inside, named⟩ := List.getElem?_eq_some_iff.mp here
    have registered := prefix_iff_getElem?.mp keeps.order _ inside
    rw [named] at registered
    have bound : index - kernel.source.parameterCount < globals.length := by
      rw [layout.globalCount]
      exact (List.getElem?_eq_some_iff.mp registered).1
    refine ⟨globals[index - kernel.source.parameterCount], ?_, ?_⟩
    · rw [layout.global _ _ registered, getElem?_eq_getElem bound]
    · have past : users.length ≤ index := by
        rw [userCount]
        exact after
      rw [layout.mem_boundAt, getElem?_append_right past, userCount]
      exact .inl (getElem?_eq_getElem bound)
  · cases prints : kernel.source.usesPrintf with
    | false => simp [prints] at printing
    | true =>
      have next : nextPosition kernel users globals =
          kernel.source.parameterCount + kernel.source.globalNames.length := by
        obtain ⟨same, without⟩ := keeps.printing prints
        simp [nextPosition, without, userCount, layout.globalCount, same]
      rw [prints, if_pos rfl, mem_cons, mem_singleton] at printing
      rcases printing with rfl | rfl
      · exact ⟨_, rfl, layout.mem_boundAt.mpr (.inr (.inr ⟨prints, .inl ⟨next.symm, rfl⟩⟩))⟩
      · refine ⟨_, rfl, layout.mem_boundAt.mpr (.inr (.inr ⟨prints, .inr ⟨?_, rfl⟩⟩))⟩
        rw [next]
  · cases uses : kernel.source.usesConstants with
    | false => simp [uses] at constants
    | true =>
      rw [uses, if_pos rfl, mem_singleton] at constants
      subst constants
      exact ⟨_, rfl, layout.mem_boundAt.mpr (.inr (.inl ⟨keeps.constants uses, rfl, rfl⟩))⟩

/-- An index that the importer gives out is numbered or that of the constants. -/
theorem declared_index (mem : declared ∈ source.declared) :
    declared.1 < source.numbered ∨ declared.1 = 30 := by
  rw [KernelSource.declared, mem_append, mem_append, mem_append] at mem
  unfold KernelSource.numbered
  rcases mem with ((parameter | global) | printing) | constants
  · obtain ⟨i, inside, rfl⟩ := mem_map.mp parameter
    have := mem_range.mp inside
    simp only
    omega
  · obtain ⟨⟨name, index⟩, listed, rfl⟩ := mem_map.mp global
    obtain ⟨after, here⟩ := mem_zipIdx_iff_le_and_getElem?_sub.mp listed
    have bound := (List.getElem?_eq_some_iff.mp here).1
    simp only
    omega
  · cases prints : source.usesPrintf with
    | false => simp [prints] at printing
    | true =>
      rw [prints, if_pos rfl, mem_cons, mem_singleton] at printing
      rcases printing with rfl | rfl <;> simp
  · cases uses : source.usesConstants with
    | false => simp [uses] at constants
    | true =>
      rw [uses, if_pos rfl, mem_singleton] at constants
      exact .inr (constants ▸ rfl)

/-- A kernel that keeps positions has all its objects where they are declared. -/
theorem holds_of_keepsPositions
    (layout : Layout host kernel args arguments users globals) (few : arguments.length ≤ 31)
    (keeps : KeepsPositions kernel needs args) :
    ∀ declared ∈ kernel.source.declared, Holds host kernel args
      (AssocMap.assignAll [] (boundAt arguments ++ reservedBindings needs)) declared := by
  intro declared mem
  have userCount : users.length = kernel.source.parameterCount := by
    rw [layout.userCount, leadingSlots_of_all keeps.slots]
  obtain ⟨resource, found, bound⟩ := layout.mem_of_declared userCount keeps mem
  refine ⟨resource, found, AssocMap.find?_assignAll_of_unique (mem_append_left _ bound) ?_⟩
  intro other placed
  rcases mem_append.mp placed with placed | reserved
  · exact layout.boundAt_unique few (fun prints => (keeps.printing prints).2) placed bound
  · have above := keeps.free _ reserved
    have below := (reservedBindings_isReserved reserved).2
    rcases declared_index mem with numbered | last
    · exact absurd numbered (Nat.not_lt_of_le above)
    · simp only [last] at below
      omega

/-- A launch of a kernel from one of the importers binds at every index that the kernel declares
the object of its role, exactly if the kernel keeps positions. -/
theorem launch_agrees_iff {host : Host} {kernel : TypedKernel} {needs : PipelineNeeds}
    {args : Option (List (Option Slot))} {signature : Signature}
    (imported : kernel.source.signature = .ok signature) {table : AssocMap Nat Resource}
    (launched : launch host kernel.record needs args = some table) :
    Agrees host kernel (args.getD []) signature table ↔
      KeepsPositions kernel needs (args.getD []) := by
  obtain ⟨arguments, listed, bound⟩ := Option.bind_eq_some_iff.mp launched
  obtain ⟨users, globals, layout⟩ := launchArguments_layout listed
  obtain ⟨few, rfl⟩ := bindArguments_eq bound
  rw [agrees_iff_declared imported]
  exact ⟨keepsPositions_of_holds layout, holds_of_keepsPositions layout few⟩

/-- A host with all buffers, and no allocation. -/
def plainHost : Host where
  resolve _ := none
  relocate bytes := bytes
  provides _ := true
  printfCapacity := [0, 0, 16, 0]
  launchQueueBytes := [0, 0, 4, 0]

/-- Declarations that are visible and that the kernel refers to. -/
def declaration (initialized : Bool) (name : String) : Declaration :=
  ⟨name, .visible, initialized, true, true, true, true⟩

/-- A kernel with a 32-bit parameter that prints, refers to an initialised variable and to one
declared behind it, and perhaps to a constant. -/
def printingKernel (constants : List String) : TypedKernel where
  source := .ptx [("n", .integer 32)] ["limit", "counter"] constants true
  declarations := [declaration true "limit", declaration false "counter"]
  constants := constants.map (declaration false)
  record := {
    argInfo := [⟨.bytes, 4⟩]
    argInfoResolved := true
    printfFormats := ["%d"]
    usesDeviceHeap := false
    usesDeviceLaunchQueue := false
    constantSymbols := constants.map fun name => ⟨name, true, 0, 16⟩
    constantBufferSize := 16
    globalSymbols := [⟨"limit", some 6, 4⟩, ⟨"counter", some 7, 4⟩] }
  taken := ⟨rfl, by simp [importedConstants, declaration, Function.comp_def, filter_map]⟩
  argInfo := rfl
  resolved := rfl
  globals := rfl
  constantNames := by simp [registeredConstants, declaration, Function.comp_def, filter_map]
  distinct := by decide
  buffers := show [6, 7].Nodup by decide
  formats := rfl
  noHeap := rfl
  noQueue := rfl

/-- A slot with the number five. -/
def fiveSlot : Slot where
  word := 5
  bytesAt size := (5 :: List.replicate 7 0).take size

/-- Printing works without constants. -/
theorem printing_agrees : ∃ signature table,
    (printingKernel []).source.signature = .ok signature ∧
      launch plainHost (printingKernel []).record ⟨true, true, true⟩ (some [some fiveSlot]) =
        some table ∧
      Agrees plainHost (printingKernel []) [some fiveSlot] signature table := by
  refine ⟨_, _, rfl, rfl, (@launch_agrees_iff plainHost (printingKernel [])
    ⟨true, true, true⟩ (some [some fiveSlot]) _ rfl _ rfl).mpr ⟨?_, ⟨[], rfl⟩,
      fun _ => ⟨rfl, rfl⟩, nofun, by decide⟩⟩
  intro i inside
  obtain rfl : i = 0 := Nat.lt_one_iff.mp inside
  rfl

/-- With a constant the ring is bound where the capacity is declared. -/
theorem printing_with_constant_disagrees :
    ¬ ∀ (host : Host) (kernel : TypedKernel) (needs : PipelineNeeds)
      (args : Option (List (Option Slot))) (signature : Signature) (table : AssocMap Nat Resource),
      kernel.source.signature = .ok signature →
      launch host kernel.record needs args = some table →
      Agrees host kernel (args.getD []) signature table := by
  intro always
  obtain ⟨abi, found, agrees⟩ := always plainHost (printingKernel ["table"]) ⟨false, false, false⟩
    (some [some fiveSlot]) _ _ rfl rfl
  cases found
  obtain ⟨resource, wanted, bound⟩ := agrees
    ⟨.bytes, 4, 4, .integer 32, some "printf_capacity"⟩
      (mem_of_getElem? (i := 4) rfl)
  cases wanted
  revert bound
  decide

end CuMetal.Runtime.Launch
