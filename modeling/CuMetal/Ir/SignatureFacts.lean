import CuMetal.Ir.KernelSignature
import CuMetal.Lib.Except
import Mathlib.Data.List.Induction
import Mathlib.Data.List.Perm.Basic

/-!
# What the importers declare

The bindings that either importer gives a kernel are those of `KernelSource.declared`: parameters,
variables and printf are numbered from 0 on in this order, and the constants have index 30.
-/

namespace CuMetal.Ir

open List Signature

theorem roleOf_global (logical : Nat) (name : String) :
    roleOf logical (some ("global_symbol:" ++ name)) = .globalSymbol name := by
  have different : ∀ other : String, other.toList.head? ≠ some 'g' →
      "global_symbol:" ++ name ≠ other := by
    intro other head same
    rw [← same] at head
    simp at head
  simp only [roleOf, if_neg (different "constant_symbols" (by decide)),
    if_neg (different "printf_buffer" (by decide)), if_neg (different "printf_capacity" (by decide))]
  simp [show "global_symbol:".length = 14 from rfl]

/-- The bindings of a kernel's signature, in some order, and that its arguments carry them. -/
structure Declared (signature : Signature) (roles : List (Nat × Role)) : Prop where
  parallel : ∃ abi, signature.kernelAbi = some abi ∧
    abi.arguments.length = signature.arguments.length ∧
    abi.arguments.map KernelArgument.bindingIndices =
      abi.bindings.map (fun binding => [binding.bindingIndex]) ∧
    (abi.bindings.map fun binding => (binding.bindingIndex, binding.role)).Perm roles

theorem declared_start : Declared (.start true) [] :=
  ⟨⟨[], []⟩, rfl, rfl, rfl, .refl _⟩

variable {signature : Signature} {roles : List (Nat × Role)}

theorem Declared.perm {roles' : List (Nat × Role)}
    (declared : Declared signature roles) (perm : roles.Perm roles') : Declared signature roles' := by
  obtain ⟨abi, some_, length, same, listed⟩ := declared.parallel
  exact ⟨abi, some_, length, same, listed.trans perm⟩

theorem Declared.snoc
    (declared : Declared signature roles) (name : String) (type : IrType) (kind : ArgumentKind)
    (bindingKind : BindingKind) (index : Nat) (role bindingRole : Option String) :
    Declared (signature.declare name type kind bindingKind index role bindingRole)
      (roles ++ [(index, roleOf signature.arguments.length bindingRole)]) := by
  obtain ⟨abi, some_, length, same, listed⟩ := declared.parallel
  refine ⟨_, by rw [declare, some_]; rfl, ?_, ?_, ?_⟩
  · simp [declare, length]
  · simp [same]
  · rw [map_append, ← length]
    exact listed.append_right _

theorem Declared.printf (declared : Declared signature roles) (index : Nat) :
    Declared (signature.declarePrintf index)
      (roles ++ [(index, .printfBuffer), (index + 1, .printfCapacity)]) := by
  have ring := declared.snoc "__cumetal_printf_buffer" (.pointer (.integer 32) .device) .pointer
    .buffer index (some "printf_buffer") (some "printf_buffer")
  have capacity := ring.snoc "__cumetal_printf_capacity" (.integer 32) .scalar .bytes (index + 1)
    (some "printf_capacity") (some "printf_capacity")
  rw [append_assoc] at capacity
  exact capacity

@[simp] theorem length_declare (signature : Signature) (name : String) (type : IrType)
    (kind : ArgumentKind) (bindingKind : BindingKind) (index : Nat)
    (role bindingRole : Option String) :
    (signature.declare name type kind bindingKind index role bindingRole).arguments.length =
      signature.arguments.length + 1 := by
  simp [declare]

/-- The name of the argument that all constants of an NVVM module share. -/
def constantsName : String := "__cumetal_constant_symbols"

def namesConstants (signature : Signature) : Bool :=
  signature.arguments.any fun argument => argument.1 = constantsName

theorem namesConstants_declare (signature : Signature) (name : String) (type : IrType)
    (kind : ArgumentKind) (bindingKind : BindingKind) (index : Nat)
    (role bindingRole : Option String) :
    namesConstants (signature.declare name type kind bindingKind index role bindingRole) =
      (namesConstants signature || decide (name = constantsName)) := by
  simp [namesConstants, declare]

theorem globalName_ne (name : String) : "__cumetal_global_" ++ name ≠ constantsName := by
  intro same
  have letters := congrArg (fun s => s.toList.take 11) same
  simp [constantsName] at letters

theorem defaultName_ne (i : Nat) : "arg" ++ toString i ≠ constantsName := by
  intro same
  have letters := congrArg (fun s => s.toList.take 1) same
  simp [constantsName] at letters

theorem nvvmParameters_declared (parameters : List NvvmParameter) :
    ∃ state, parameters.foldl NvvmState.parameter ⟨0, .start true⟩ = state ∧
      Declared state.signature
        ((List.range parameters.length).map fun i => (i, .parameter i)) ∧
      state.argumentIndex = parameters.length ∧
      state.signature.arguments.length = parameters.length ∧
      namesConstants state.signature =
        parameters.any fun parameter => parameter.name = constantsName := by
  induction parameters using reverseRecOn with
  | nil => exact ⟨_, rfl, declared_start, rfl, rfl, rfl⟩
  | append_singleton parameters parameter ih =>
    obtain ⟨state, folded, declared, index, length, named⟩ := ih
    refine ⟨state.parameter parameter, by rw [foldl_append, folded]; rfl, ?_, ?_, ?_, ?_⟩
    · have next := declared.snoc
        (if parameter.name = "" then "arg" ++ toString state.argumentIndex else parameter.name)
        parameter.type
        (if parameter.byval then .aggregate
          else if parameter.type.isPointer then .pointer else .scalar)
        (if parameter.type.isPointer then .buffer else .bytes) state.argumentIndex none none
      rw [length_append, length_singleton, range_succ, map_append]
      rw [length, index] at next
      rw [NvvmState.parameter, index]
      exact next
    · simp [NvvmState.parameter, index]
    · simp [NvvmState.parameter, length]
    · rw [NvvmState.parameter, namesConstants_declare, named, any_append]
      by_cases unnamed : parameter.name = ""
      · rw [if_pos unnamed, decide_eq_false (defaultName_ne state.argumentIndex)]
        simp [unnamed, constantsName]
      · simp [unnamed]

/-- Variables that are numbered from an index on. -/
def globalRoles (index : Nat) (names : List String) : List (Nat × Role) :=
  (names.zipIdx index).map fun (name, i) => (i, .globalSymbol name)

theorem nvvmGlobals_declared {references : ExternalGlobalInfo → Bool}
    (globals : List ExternalGlobalInfo) : ∀ {state last : NvvmState} {roles : List (Nat × Role)},
    Declared state.signature roles →
    globals.foldlM (NvvmState.global true references) state = .ok last →
    Declared last.signature
        (roles ++ globalRoles state.argumentIndex
            ((globals.filter fun info => references info && !info.constant).map
              ExternalGlobalInfo.name) ++
          if globals.any (fun info => references info && info.constant) &&
            !namesConstants state.signature then [(30, .constantSymbols)] else []) ∧
      last.argumentIndex = state.argumentIndex +
        (globals.filter fun info => references info && !info.constant).length := by
  induction globals with
  | nil =>
    intro state last roles declared done
    cases done
    exact ⟨by simpa [globalRoles] using declared, by simp⟩
  | cons info rest ih =>
    intro state last roles declared done
    rw [foldlM_cons] at done
    obtain ⟨next, placed, done⟩ := bind_eq_ok done
    unfold NvvmState.global at placed
    by_cases used : references info = true
    · rw [if_neg (by simp [used])] at placed
      by_cases constant : info.constant = true
      · rw [if_pos constant] at placed
        change (if namesConstants state.signature = true then _ else _) = _ at placed
        by_cases taken : namesConstants state.signature = true
        · rw [if_pos taken] at placed
          cases placed
          obtain ⟨declared', count⟩ := ih declared done
          exact ⟨by simpa [taken, constant] using declared', by simpa [constant] using count⟩
        · rw [if_neg taken] at placed
          cases placed
          have named : namesConstants (state.signature.declare "__cumetal_constant_symbols"
              (Signature.bytePointer .constant) .pointer .buffer 30 (some "constant_symbols")
              (some "constant_symbols")) = true := by
            simp [namesConstants_declare, constantsName]
          obtain ⟨declared', count⟩ := ih (declared.snoc "__cumetal_constant_symbols"
            (Signature.bytePointer .constant) .pointer .buffer 30 (some "constant_symbols")
            (some "constant_symbols")) done
          refine ⟨declared'.perm ?_, by simpa [constant] using count⟩
          simp only [named, Bool.not_true, Bool.and_false, Bool.false_eq_true, if_false,
            append_nil, append_assoc]
          refine Perm.append_left _ ?_
          have first : roleOf state.signature.arguments.length (some "constant_symbols") =
              .constantSymbols := rfl
          simp only [first, List.any_cons, used, constant, taken, Bool.and_self, Bool.true_or,
            Bool.not_false, if_true, Bool.not_true, Bool.and_false, filter_cons,
            Bool.false_eq_true, if_false]
          exact perm_append_comm
      · rw [if_neg constant] at placed
        split at placed
        · cases placed
        · cases placed
          obtain ⟨declared', count⟩ := ih (declared.snoc ("__cumetal_global_" ++ info.name)
            (Signature.bytePointer .device) .pointer .buffer state.argumentIndex
            (some ("global_symbol:" ++ info.name)) (some ("global_symbol:" ++ info.name))) done
          rw [namesConstants_declare, roleOf_global] at declared'
          refine ⟨by simpa [globalRoles, globalName_ne, constant, used] using declared', ?_⟩
          rw [count]
          simp [used, constant]
          omega
    · rw [if_pos (by simp [used])] at placed
      cases placed
      obtain ⟨declared', count⟩ := ih declared done
      exact ⟨by simpa [used] using declared', by simpa [used] using count⟩

theorem ptxParameters_declared (parameters : List (String × IrType)) :
    ∃ signature, parameters.foldl ptxParameter (.start true) = signature ∧
      Declared signature ((List.range parameters.length).map fun i => (i, .parameter i)) ∧
      signature.arguments.length = parameters.length := by
  induction parameters using reverseRecOn with
  | nil => exact ⟨_, rfl, declared_start, rfl⟩
  | append_singleton parameters parameter ih =>
    obtain ⟨signature, folded, declared, length⟩ := ih
    refine ⟨signature.ptxParameter parameter, by rw [foldl_append, folded]; rfl, ?_, ?_⟩
    · have next := declared.snoc parameter.1 parameter.2
        (if parameter.2.isPointer then .pointer else .scalar)
        (if parameter.2.isPointer then .buffer else .bytes) signature.arguments.length none none
      rw [length_append, length_singleton, range_succ, map_append]
      simp only [length] at next ⊢
      rw [ptxParameter, length]
      exact next
    · simp [ptxParameter, length]

theorem ptxGlobals_declared (globals : List String) :
    ∀ {signature last : Signature} {roles : List (Nat × Role)},
    Declared signature roles → globals.foldlM ptxGlobal signature = .ok last →
    Declared last (roles ++ globalRoles signature.arguments.length globals) ∧
      last.arguments.length = signature.arguments.length + globals.length := by
  induction globals with
  | nil =>
    intro signature last roles declared done
    cases done
    exact ⟨by simpa [globalRoles] using declared, rfl⟩
  | cons symbol rest ih =>
    intro signature last roles declared done
    rw [foldlM_cons] at done
    obtain ⟨next, placed, done⟩ := bind_eq_ok done
    unfold ptxGlobal at placed
    split at placed
    · cases placed
    · cases placed
      obtain ⟨declared', length⟩ := ih (declared.snoc ("__cumetal_global_" ++ symbol)
        (bytePointer .device) .pointer .buffer signature.arguments.length
        (some ("global_symbol:" ++ symbol)) (some ("global_symbol:" ++ symbol))) done
      rw [roleOf_global, length_declare] at declared'
      rw [length_declare] at length
      exact ⟨by simpa [globalRoles] using declared', by rw [length, length_cons]; omega⟩

theorem signature_declared {source : KernelSource}
    (imported : source.signature = .ok signature) : Declared signature source.declared := by
  cases source with
  | nvvm parameters references externalGlobals usesVprintf =>
    change allocateFunction true parameters references externalGlobals usesVprintf = _ at imported
    unfold allocateFunction at imported
    obtain ⟨started, folded, declared, index, _, named⟩ := nvvmParameters_declared parameters
    simp only [folded] at imported
    obtain ⟨state, placed, imported⟩ := bind_eq_ok imported
    obtain ⟨declared, count⟩ := nvvmGlobals_declared externalGlobals declared placed
    rw [index] at declared count
    rw [named] at declared
    cases usesVprintf with
    | false =>
      cases imported
      rw [KernelSource.declared, KernelSource.usesPrintf, if_neg Bool.false_ne_true,
        append_nil]
      exact declared
    | true =>
      simp only [Bool.not_true, Bool.false_eq_true, if_false] at imported
      split at imported
      · cases imported
      · cases imported
        refine (declared.printf state.argumentIndex).perm ?_
        have next : state.argumentIndex = parameters.length +
            (KernelSource.nvvm parameters references externalGlobals true).globalNames.length := by
          rw [count, KernelSource.globalNames, length_map]
        rw [next, append_assoc]
        exact (perm_append_comm.append_left _).trans (append_assoc .. ▸ .refl _)
  | ptx parameters globals constants usesPrintf =>
    change materializeFunction true parameters globals constants usesPrintf = _ at imported
    unfold materializeFunction at imported
    obtain ⟨entry, folded, declared, length⟩ := ptxParameters_declared parameters
    simp only [if_true, folded] at imported
    obtain ⟨bound, placed, imported⟩ := bind_eq_ok imported
    obtain ⟨declared, count⟩ := ptxGlobals_declared globals declared placed
    rw [length] at declared count
    -- All but the constants.
    have printing : Declared (if usesPrintf = true then
        bound.declarePrintf bound.arguments.length else bound)
        ((range parameters.length).map (fun i => (i, .parameter i)) ++
          globalRoles parameters.length globals ++ if usesPrintf then
            [(parameters.length + globals.length, .printfBuffer),
              (parameters.length + globals.length + 1, .printfCapacity)] else []) := by
      rw [← count]
      cases usesPrintf with
      | false => simpa using declared
      | true => exact declared.printf _
    have listed : (KernelSource.ptx parameters globals constants usesPrintf).declared =
        (range parameters.length).map (fun i => (i, .parameter i)) ++
          globalRoles parameters.length globals ++ (if usesPrintf then
            [(parameters.length + globals.length, .printfBuffer),
              (parameters.length + globals.length + 1, .printfCapacity)] else []) ++
          if !constants.isEmpty && !false then [(30, .constantSymbols)] else [] := rfl
    split at imported
    · cases imported
    · rw [listed]
      cases none_ : constants.isEmpty with
      | true =>
        rw [if_pos (by simp [none_])] at imported
        cases imported
        simpa using printing
      | false =>
        rw [if_neg (by simp [none_])] at imported
        by_cases full : 30 < (if usesPrintf = true then
            bound.declarePrintf bound.arguments.length else bound).arguments.length
        · rw [if_pos full] at imported
          cases imported
        · rw [if_neg full] at imported
          cases imported
          exact printing.snoc "__cumetal_constant_buffer" (bytePointer .constant)
            .pointer .buffer 30 none (some "constant_symbols")

end CuMetal.Ir
