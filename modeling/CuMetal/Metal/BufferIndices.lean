import CuMetal.Ir.SignatureFacts
import CuMetal.Ir.Verify
import CuMetal.Metal.HiddenParameters
import Mathlib.Data.List.Range

/-!
# Buffer indices of an emitted kernel

The `[[buffer(n)]]` attributes of a kernel: those of the imported arguments and the three indices
that the lowering reserves (`compiler/metal/src/lower_to_msl.cpp`). They are apart exactly when the
arguments that are numbered from 0 on leave the reserved indices free.
-/

namespace CuMetal.Metal

open Ir List Prod HiddenParameter

/-- A parameter of an emitted function with its attributes; its type is left out. -/
structure EmittedParameter where
  name : String
  attributes : List MslAttribute

/-- The index that the attribute of the `i`-th argument carries (`lower_to_msl.cpp:5243-5249`). -/
def bindingIndexOf (kernelAbi : Option KernelBindings) (i : Nat) : Nat :=
  match kernelAbi with
  | none => i
  | some abi =>
    match abi.arguments[i]? with
    | none => i
    | some argument => argument.bindingIndices.headD i

/-- The parameters of the arguments (`5230-5263`). -/
def argumentParameters (function : Function) (kernelAbi : Option KernelBindings) :
    List EmittedParameter :=
  function.arguments.zipIdx.map fun (argument, i) =>
    { name := argument.name
      attributes :=
        if function.isKernel then
          [{ name := "buffer", index := some (bindingIndexOf kernelAbi i) }]
        else [] }

/-- All parameters of an emitted function (`5230-5474`). -/
def emittedParameters (function : Function) (kernelAbi : Option KernelBindings)
    (hidden : HiddenSignature) : List EmittedParameter :=
  argumentParameters function kernelAbi ++
    hidden.parameters.map fun parameter => ⟨parameter.name, parameter.attributes⟩

/-- The `n` of the `[[buffer(n)]]` attributes. -/
def bufferIndices (parameters : List EmittedParameter) : List Nat :=
  parameters.flatMap fun parameter => parameter.attributes.filterMap fun attached =>
    if attached.name = "buffer" then attached.index else none

/-- No two parameters share an index, and Metal has all of them. -/
def Collisionless (indices : List Nat) : Prop :=
  indices.Nodup ∧ ∀ index ∈ indices, index ≤ 30

variable {function : Function}

/-- The attributes of the arguments carry the indices that the importer declared. -/
theorem argumentParameters_bufferIndices {signature : Signature} {roles : List (Nat × Role)}
    (declared : Declared signature roles) (kernel : function.isKernel = true)
    (lengths : function.arguments.length = signature.arguments.length) :
    (bufferIndices (argumentParameters function signature.kernelAbi)).Perm
      (roles.map Prod.fst) := by
  obtain ⟨abi, some_, length, same, perm⟩ := declared.parallel
  have here : bufferIndices (argumentParameters function signature.kernelAbi) =
      abi.bindings.map KernelBinding.bindingIndex := by
    have lengths : abi.bindings.length = function.arguments.length := by
      rw [lengths, ← length, ← length_map KernelArgument.bindingIndices, same, length_map]
    have each : ∀ i, bindingIndexOf signature.kernelAbi i =
        ((abi.bindings[i]?).map KernelBinding.bindingIndex).getD i := by
      intro i
      have at_ := congrArg (fun l => l[i]?) same
      simp only [getElem?_map] at at_
      simp only [bindingIndexOf, some_]
      cases found : abi.arguments[i]? with
      | none =>
        rw [found, Option.map_none] at at_
        simp [Option.map_eq_none_iff.mp at_.symm]
      | some argument =>
        rw [found, Option.map_some] at at_
        obtain ⟨binding, foundBinding, single⟩ := Option.map_eq_some_iff.mp at_.symm
        simp [foundBinding, ← single]
    have mapped : bufferIndices (argumentParameters function signature.kernelAbi) =
        (range function.arguments.length).map (bindingIndexOf signature.kernelAbi) := by
      rw [List.range_eq_range', ← List.zipIdx_map_snd 0 function.arguments, List.map_map]
      simp only [bufferIndices, argumentParameters, kernel, if_true, flatMap_map,
        filterMap_cons, filterMap_nil]
      exact map_eq_flatMap.symm
    rw [mapped]
    refine ext_getElem? fun i => ?_
    rw [getElem?_map, getElem?_map]
    by_cases inside : i < abi.bindings.length
    · simp [← lengths, inside, each]
    · simp [← lengths, inside]
  rw [here]
  have indices := perm.map fst
  rwa [List.map_map] at indices

/-- The importers number from 0 on, and give the constants the index 30. -/
theorem declared_indices (source : KernelSource) :
    source.declared.map Prod.fst =
      List.range source.numbered ++ if source.usesConstants then [30] else [] := by
  have printing : (if source.usesPrintf then
      [(source.parameterCount + source.globalNames.length, Role.printfBuffer),
        (source.parameterCount + source.globalNames.length + 1, .printfCapacity)]
      else []).map fst =
      range' (source.parameterCount + source.globalNames.length)
        (if source.usesPrintf then 2 else 0) := by
    cases source.usesPrintf <;> rfl
  have constants : (if source.usesConstants then [(30, Role.constantSymbols)] else []).map
      fst = if source.usesConstants then [30] else [] := by
    cases source.usesConstants <;> rfl
  have parameters : ((range source.parameterCount).map fun i =>
      (i, Role.parameter i)).map fst = range' 0 source.parameterCount := by
    rw [List.map_map, ← List.range_eq_range']
    exact map_id _
  have globals : (globalRoles source.parameterCount source.globalNames).map fst =
      range' (0 + source.parameterCount) source.globalNames.length := by
    rw [globalRoles, List.map_map, Nat.zero_add, ← List.zipIdx_map_snd]
    rfl
  have joined : range' 0 source.parameterCount ++
      range' (0 + source.parameterCount) source.globalNames.length ++
      range' (source.parameterCount + source.globalNames.length)
        (if source.usesPrintf then 2 else 0) = range source.numbered := by
    rw [range'_append_1, range_eq_range', KernelSource.numbered,
      ← @range'_append_1 0 (source.parameterCount + source.globalNames.length), zero_add]
  have listed : source.declared =
      (range source.parameterCount).map (fun i => (i, Role.parameter i)) ++
        globalRoles source.parameterCount source.globalNames ++
        (if source.usesPrintf then
          [(source.parameterCount + source.globalNames.length, .printfBuffer),
            (source.parameterCount + source.globalNames.length + 1, .printfCapacity)] else []) ++
        (if source.usesConstants then [(30, .constantSymbols)] else []) := rfl
  rw [listed, map_append, map_append, map_append, parameters, globals, printing,
    constants, joined]

theorem bufferIndices_append (left right : List EmittedParameter) :
    bufferIndices (left ++ right) = bufferIndices left ++ bufferIndices right :=
  flatMap_append ..

def HiddenParameter.emitted (parameter : HiddenParameter) : EmittedParameter :=
  ⟨parameter.name, parameter.attributes⟩

variable {module : IrModule} {tables : UsageTables}

theorem declareShared_bufferIndices {globals : List String} :
    ∀ {state last : HiddenSignature × Nat},
      globals.foldlM (declareShared module) state = .ok last →
      bufferIndices (last.1.parameters.map emitted) =
        bufferIndices (state.1.parameters.map emitted) := by
  induction globals with
  | nil =>
    intro state last done
    cases done
    rfl
  | cons global rest ih =>
    intro state last done
    rw [foldlM_cons] at done
    obtain ⟨next, declared, done⟩ := bind_eq_ok done
    rw [ih done]
    unfold declareShared at declared
    split at declared
    · cases declared
    · split at declared
      · split at declared
        · cases declared
        · cases declared
          rw [map_append, bufferIndices_append]
          exact append_nil _
      · split at declared
        · cases declared
        · cases declared
          rfl

theorem sharedSignature_bufferIndices {shared : HiddenSignature}
    (declared : sharedSignature module tables function = .ok shared) :
    bufferIndices (shared.parameters.map emitted) = [] := by
  unfold sharedSignature at declared
  split at declared
  · cases declared
    rfl
  · rename_i globals _
    split at declared
    · cases folded : globals.foldlM (declareShared module) ({}, 0) with
      | error message =>
        rw [folded] at declared
        cases declared
      | ok last =>
        rw [folded] at declared
        cases declared
        exact declareShared_bufferIndices folded
    · cases declared
      simp [bufferIndices, emitted]

def reservedIndices (constants : Bool) (tables : UsageTables) (function : Function) : List Nat :=
  (if constants then [30] else []) ++
    (if valueAt tables.wideAtomic function.name then [29] else []) ++
    (if (valueAt tables.builtin function.name).deviceClock then [28] else []) ++
    (if (valueAt tables.builtin function.name).gridBarrier then [27] else [])

theorem bufferIndices_optional (needed : Bool) (parameter : HiddenParameter) :
    bufferIndices ((if needed then [parameter] else []).map emitted) =
      if needed then bufferIndices [parameter.emitted] else [] := by
  cases needed <;> rfl

theorem hiddenSignature_bufferIndices (kernel : function.isKernel = true)
    {lowered : List Operation} {hidden : HiddenSignature}
    (declared : hiddenSignature module tables function lowered = .ok hidden) :
    bufferIndices (hidden.parameters.map emitted) =
      reservedIndices false tables function := by
  unfold hiddenSignature at declared
  obtain ⟨shared, declares, declared⟩ := bind_eq_ok declared
  cases declared
  have none_ := sharedSignature_bufferIndices declares
  have attached : ∀ type name binding index, bufferIndices
      [(hiddenParameter function type name binding index).emitted] =
        if binding = "buffer" then index.toList else [] := by
    intro type name binding index
    by_cases buffer : binding = "buffer"
    · cases index <;>
        simp [bufferIndices, emitted, hiddenParameter, kernelAttribute, kernel,
          buffer]
    · simp [bufferIndices, emitted, hiddenParameter, kernelAttribute, kernel,
        buffer]
  simp only [map_append, bufferIndices_append, none_, bufferIndices_optional, attached]
  simp [reservedIndices]

theorem collisionless_range_append {count : Nat} {reserved : List Nat}
    (distinct : reserved.Nodup) (bounded : ∀ index ∈ reserved, index ≤ 30) :
    Collisionless (List.range count ++ reserved) ↔
      count ≤ 31 ∧ ∀ index ∈ reserved, count ≤ index := by
  unfold Collisionless
  rw [nodup_append]
  constructor
  · rintro ⟨⟨_, _, apart⟩, inside⟩
    refine ⟨?_, fun index mem => ?_⟩
    · by_contra many
      have last := inside 31 (mem_append_left _ (mem_range.mpr (by omega)))
      omega
    · by_contra covered
      exact apart index (mem_range.mpr (by omega)) index mem rfl
  · rintro ⟨few, free⟩
    refine ⟨⟨nodup_range, distinct, ?_⟩, ?_⟩
    · rintro index mem other mem' rfl
      exact absurd (mem_range.mp mem) (by have := free index mem'; omega)
    · intro index mem
      rcases mem_append.mp mem with mem | mem
      · have := mem_range.mp mem
        omega
      · exact bounded index mem

theorem Collisionless.perm {left right : List Nat} (perm : left.Perm right) :
    Collisionless left ↔ Collisionless right := by
  unfold Collisionless
  rw [perm.nodup_iff]
  simp only [perm.mem_iff]

/-- Whether the numbered arguments of a kernel leave the indices free that it takes besides. -/
def LeavesReserved (source : KernelSource) (tables : UsageTables) (function : Function) : Prop :=
  source.numbered ≤ 31 ∧
    ∀ index ∈ reservedIndices source.usesConstants tables function, source.numbered ≤ index

/-- The buffer indices of an emitted kernel are apart and Metal has them all, exactly if its
numbered arguments leave those free that are reserved for what else it needs. -/
theorem bufferIndices_collisionless_iff {source : KernelSource} {signature : Signature}
    (imported : source.signature = .ok signature) {module : IrModule} {tables : UsageTables}
    {function : Function} (kernel : function.isKernel = true)
    (sameArguments : function.arguments.map FunctionArgument.name =
      signature.arguments.map Prod.fst) {lowered : List Operation} {hidden : HiddenSignature}
    (declared : hiddenSignature module tables function lowered = .ok hidden) :
    Collisionless (bufferIndices (emittedParameters function signature.kernelAbi hidden)) ↔
      LeavesReserved source tables function := by
  have lengths : function.arguments.length = signature.arguments.length := by
    simpa using congrArg length sameArguments
  have arguments := argumentParameters_bufferIndices (signature_declared imported) kernel lengths
  rw [declared_indices] at arguments
  have perm : (bufferIndices (emittedParameters function signature.kernelAbi hidden)).Perm
      (range source.numbered ++
        reservedIndices source.usesConstants tables function) := by
    have rest := hiddenSignature_bufferIndices kernel declared
    unfold emittedParameters
    rw [bufferIndices_append]
    refine (arguments.append_right _).trans ?_
    rw [show bufferIndices (hidden.parameters.map fun parameter =>
      ⟨parameter.name, parameter.attributes⟩) = reservedIndices false tables function from rest]
    simp [reservedIndices, append_assoc]
  rw [Collisionless.perm perm, LeavesReserved]
  refine collisionless_range_append ?_ ?_
  · unfold reservedIndices
    cases source.usesConstants <;> cases valueAt tables.wideAtomic function.name <;>
      cases (valueAt tables.builtin function.name).deviceClock <;>
      cases (valueAt tables.builtin function.name).gridBarrier <;> decide
  · unfold reservedIndices
    cases source.usesConstants <;> cases valueAt tables.wideAtomic function.name <;>
      cases (valueAt tables.builtin function.name).deviceClock <;>
      cases (valueAt tables.builtin function.name).gridBarrier <;> decide

private def widePointer : IrType := .pointer (.integer 64) .device

/-- The parameters of a PTX entry that takes `n` pointers. -/
def pointerParameters (n : Nat) : List (String × IrType) :=
  (List.range n).map fun i => ("p" ++ toString i, widePointer)

/-- A kernel that takes `n` pointers and adds atomically to what the first one points to. -/
def atomicKernel (n : Nat) : Function where
  name := "accumulate"
  isKernel := true
  kernelAbi := some {}
  arguments := (List.range n).map fun i =>
    { value := i + 1, name := "p" ++ toString i, type := widePointer }
  pointerProvenance := (List.range n).map fun i => (i + 1, { baseKind := .kernelArgument })
  blocks := [{
    id := 1
    name := "entry"
    operations := [
      { opcode := .metalAtomic
        results := [n + 1]
        resultTypes := [.integer 64]
        operands := [.valueRef 1 widePointer, { type := .integer 64, text := "1" }]
        attributes := [("atomic_op", "add")]
        memoryScope := .device
        memoryOrdering := .relaxed },
      { opcode := .return }] }]

def atomicModule (n : Nat) : IrModule where
  stage := .metalLegalized
  functions := [atomicKernel n]

/-- What the kernel declares besides its pointers. -/
private def lockBank : HiddenSignature where
  parameters := [hiddenParameter (atomicKernel 0) atomicUintPointer "cm_atomic_lock_bank" "buffer"
    (some 29)]

private theorem atomicModule_tables {n : Nat}
    (builtin : analyzeBuiltinUsage (atomicModule n) = [("accumulate", {})])
    (shared : analyzeSharedUsage (atomicModule n) = [("accumulate", [])])
    (wide : analyzeWideAtomicUsage (atomicModule n) = [("accumulate", true)]) :
    usageTables (atomicModule n) =
      ⟨[("accumulate", {})], [("accumulate", [])], [("accumulate", true)]⟩ := by
  rw [usageTables, builtin, shared, wide]

/-- The thirtieth pointer has the index of the lock bank. -/
theorem thirtyPointers_collide :
    ∃ signature, (KernelSource.ptx (pointerParameters 30) [] [] false).signature = .ok signature ∧
      (verify (atomicModule 30)).ok = true ∧
      (hiddenSignature (atomicModule 30) (usageTables (atomicModule 30)) (atomicKernel 30)
        (operationsOf (atomicKernel 30))) = .ok lockBank ∧
      ¬ Collisionless
        (bufferIndices (emittedParameters (atomicKernel 30) signature.kernelAbi lockBank)) := by
  have tables := atomicModule_tables (n := 30) (by decide +kernel) (by decide +kernel)
    (by decide +kernel)
  refine ⟨_, rfl, by decide +kernel, by rw [tables]; rfl, ?_⟩
  rintro ⟨distinct, _⟩
  revert distinct
  decide +kernel

/-- Two pointers leave the index of the lock bank free. -/
theorem twoPointers_collisionless :
    ∃ signature, (KernelSource.ptx (pointerParameters 2) [] [] false).signature = .ok signature ∧
      Collisionless
        (bufferIndices (emittedParameters (atomicKernel 2) signature.kernelAbi lockBank)) := by
  have tables := atomicModule_tables (n := 2) (by decide +kernel) (by decide +kernel)
    (by decide +kernel)
  refine ⟨_, rfl, (@bufferIndices_collisionless_iff (.ptx (pointerParameters 2) [] [] false) _ rfl
    (atomicModule 2) (usageTables (atomicModule 2)) (atomicKernel 2) rfl (by decide +kernel)
    (operationsOf (atomicKernel 2)) lockBank (by rw [tables]; rfl)).mpr ?_⟩
  rw [tables]
  exact ⟨by decide, by decide⟩

end CuMetal.Metal
