import CuMetal.Ir.HiddenArguments
import CuMetal.Ir.SignatureFacts

/-!
# Agreement of hidden arguments

The operands that the importer appends to a call are those for the hidden arguments of the callee,
in number, order and type, and each of them is the caller's own argument for the same global or the
ring.
-/

namespace CuMetal.Ir

open List

theorem find?_key {α κ : Type} [DecidableEq κ] {key : α → κ} {items : List α}
    (distinct : (items.map key).Nodup) {item : α} (mem : item ∈ items) :
    items.find? (fun other => key other = key item) = some item := by
  induction items with
  | nil => cases mem
  | cons head rest ih =>
    rw [map_cons, nodup_cons] at distinct
    rcases mem_cons.mp mem with rfl | mem
    · simp
    · have other : key head ≠ key item := by
        intro same
        exact distinct.1 (same ▸ mem_map_of_mem mem)
      rw [find?_cons_of_neg (by simpa using other)]
      exact ih distinct.2 mem

section References

variable {module_ : NvvmModule}

variable {function : NvvmFunction}

theorem function?_of_mem (mem : function ∈ module_.functions) :
    module_.function? function.name = some function :=
  find?_key module_.distinct mem

theorem mem_of_function? {name : String}
    (found : module_.function? name = some function) : function ∈ module_.functions :=
  mem_of_find?_eq_some found

def Calls (module_ : NvvmModule) (caller : NvvmFunction) (call : NvvmCall)
    (callee : NvvmFunction) : Prop :=
  caller ∈ module_.functions ∧ module_.function? call.callee = some callee ∧
    ∃ instruction ∈ caller.blocks.flatten, instruction.call = some call

variable {caller callee : NvvmFunction} {call : NvvmCall}

theorem Calls.descends (calls : Calls module_ caller call callee) (ends : NvvmInstruction → Bool) :
    Descends (module_.searchBody ends) caller.name callee.name := by
  obtain ⟨mem, found, instruction, inside, calling⟩ := calls
  refine ⟨ends instruction, mem_map.mpr ⟨instruction, ?_, ?_⟩⟩
  · rw [NvvmModule.instructions, function?_of_mem mem]
    exact inside
  · rw [NvvmModule.callee?, calling, Option.bind_some, found]
    rfl

theorem searchFrom_iff (mem : function ∈ module_.functions) (ends : NvvmInstruction → Bool) :
    module_.searchFrom ends function = true ↔
      ∃ last, Reaches (module_.searchBody ends) function.name last ∧
        Hits (module_.searchBody ends) last := by
  have closed : ∀ name ∈ (module_.functions.map NvvmFunction.name).toFinset, ∀ next,
      Descends (module_.searchBody ends) name next →
        next ∈ (module_.functions.map NvvmFunction.name).toFinset := by
    rintro name _ next ⟨hit, step⟩
    obtain ⟨instruction, _, same⟩ := mem_map.mp step
    obtain ⟨callee, found, rfl⟩ := Option.map_eq_some_iff.mp (congrArg Prod.snd same)
    obtain ⟨call, _, known⟩ := Option.bind_eq_some_iff.mp found
    exact mem_toFinset.mpr (mem_map_of_mem (mem_of_function? known))
  refine search_iff closed ?_ ?_
  · exact mem_toFinset.mpr (mem_map_of_mem mem)
  · exact Nat.lt_succ_of_le ((toFinset_card_le _).trans (length_map ..).le)

theorem Calls.searchFrom (calls : Calls module_ caller call callee)
    {ends : NvvmInstruction → Bool} (found : module_.searchFrom ends callee = true) :
    module_.searchFrom ends caller = true := by
  obtain ⟨last, reaches, hits⟩ := (searchFrom_iff (mem_of_function? calls.2.1) ends).mp found
  exact (searchFrom_iff calls.1 ends).mpr ⟨last, .head (calls.descends ends) reaches, hits⟩

end References

/-! ## Where the arguments stand -/

/-- The globals that get an argument, or an operand, of their own: of the constants, the first one
after which none is `declared`. -/
def ownGlobals (references : ExternalGlobalInfo → Bool) :
    Bool → List ExternalGlobalInfo → List ExternalGlobalInfo
  | _, [] => []
  | declared, info :: rest =>
    if !references info || (info.constant && declared) then ownGlobals references declared rest
    else info :: ownGlobals references (declared || info.constant) rest

/-- Whether two globals are reached through one argument. -/
def sharesArgument (info other : ExternalGlobalInfo) : Bool :=
  if info.constant then other.constant else !other.constant && other.name == info.name

variable {info : ExternalGlobalInfo} {isKernel : Bool} {references : ExternalGlobalInfo → Bool}
  {scope : FunctionScope} {globals : List ExternalGlobalInfo}

theorem sharesArgument_constant (constant : info.constant = true)
    (other : ExternalGlobalInfo) : sharesArgument info other = other.constant := by
  simp [sharesArgument, constant]

def hiddenArgument (info : ExternalGlobalInfo) : String × IrType :=
  if info.constant then (constantsName, Signature.bytePointer .constant)
  else ("__cumetal_global_" ++ info.name, Signature.bytePointer .device)

def ExternalGlobalInfo.hiddenRole (info : ExternalGlobalInfo) : String :=
  if info.constant then "constant_symbols" else "global_symbol:" ++ info.name

def Signature.roles (signature : Signature) : Option (List (Option String)) :=
  signature.kernelAbi.map fun abi => abi.arguments.map KernelArgument.hiddenRole

theorem roles_declare (signature : Signature) (name : String) (type : IrType)
    (kind : ArgumentKind) (bindingKind : BindingKind) (index : Nat)
    (role bindingRole : Option String) :
    (signature.declare name type kind bindingKind index role bindingRole).roles =
      signature.roles.map (· ++ [role]) := by
  cases known : signature.kernelAbi <;> simp [Signature.roles, Signature.declare, known]

theorem ownGlobals_append (references : ExternalGlobalInfo → Bool) (info : ExternalGlobalInfo) :
    ∀ (declared : Bool) (globals : List ExternalGlobalInfo),
    ownGlobals references declared (globals ++ [info]) =
      ownGlobals references declared globals ++
        if !references info || (info.constant &&
          (declared || globals.any fun other => references other && other.constant)) then []
        else [info] := by
  intro declared globals
  induction globals generalizing declared with
  | nil =>
    simp only [List.nil_append, ownGlobals, List.any_nil, Bool.or_false]
  | cons head rest ih =>
    -- the head is skipped, or it is the argument of its own, or it makes the constants known
    cases referenced : references head <;> cases constant : head.constant <;> cases declared <;>
      simp [ownGlobals, referenced, constant, ih]

def constantsIndex (arguments : List (String × IrType)) : Nat :=
  arguments.findIdx fun argument => argument.1 = constantsName

/-- What `allocate_function` has done after some of the globals. -/
structure Allocated (references : ExternalGlobalInfo → Bool) (started : FunctionScope)
    (globals : List ExternalGlobalInfo) (scope : FunctionScope) : Prop where
  parameterCount : scope.parameterCount = started.parameterCount
  printf : scope.printf = started.printf
  arguments : scope.arguments = started.arguments ++
    (ownGlobals references (namesConstants started.state.signature) globals).map hiddenArgument
  roles : scope.state.signature.roles = started.state.signature.roles.map
    (· ++ (ownGlobals references (namesConstants started.state.signature) globals).map
      fun info => some info.hiddenRole)
  names : namesConstants scope.state.signature =
    (namesConstants started.state.signature ||
      globals.any fun other => references other && other.constant)
  absent : ∀ name, (∀ info ∈ globals, references info = true → info.name ≠ name) →
    scope.externalGlobals.find? name = started.externalGlobals.find? name
  constants : ∀ info ∈ globals, references info = true → info.constant = true →
    scope.externalGlobals.find? info.name = some (constantsIndex scope.arguments)
  own : ∀ info ∈ globals, references info = true →
    info.constant = false ∨ namesConstants started.state.signature = false →
    ∃ i other, (ownGlobals references (namesConstants started.state.signature) globals)[i]? =
        some other ∧ sharesArgument info other = true ∧
      scope.externalGlobals.find? info.name = some (started.arguments.length + i)

variable {last started : FunctionScope} {arguments : List (String × IrType)}

theorem global_cases (done : scope.global isKernel references info = .ok last) :
    (references info = false ∧ last = scope) ∨
    (references info = true ∧ info.constant = true ∧ namesConstants scope.state.signature = true ∧
      last = { scope with
        externalGlobals :=
          scope.externalGlobals.assign info.name (constantsIndex scope.arguments) }) ∨
    (references info = true ∧
      (info.constant = true → namesConstants scope.state.signature = false) ∧
      last.parameterCount = scope.parameterCount ∧ last.printf = scope.printf ∧
      last.arguments = scope.arguments ++ [hiddenArgument info] ∧
      last.state.signature.roles =
        scope.state.signature.roles.map (· ++ [some info.hiddenRole]) ∧
      last.externalGlobals =
        scope.externalGlobals.assign info.name scope.arguments.length) := by
  unfold FunctionScope.global NvvmState.global at done
  cases referenced : references info with
  | false =>
    simp only [referenced, Bool.not_false, if_true] at done
    cases done
    exact .inl ⟨rfl, rfl⟩
  | true =>
    simp only [referenced, Bool.not_true, Bool.false_eq_true, if_false] at done
    cases constant : info.constant with
    | true =>
      simp only [constant, if_true] at done
      cases named : namesConstants scope.state.signature with
      | true =>
        have any : (scope.state.signature.arguments.any fun argument =>
            argument.1 = "__cumetal_constant_symbols") = true := named
        rw [if_pos any] at done
        cases done
        obtain ⟨argument, mem, same⟩ := any_eq_true.mp any
        have found : (scope.arguments.findIdx? fun argument =>
            argument.1 = "__cumetal_constant_symbols") =
            some (scope.arguments.findIdx fun argument => argument.1 = constantsName) :=
          findIdx?_eq_some_of_exists ⟨argument, mem, same⟩
        refine .inr (.inl ⟨rfl, rfl, rfl, ?_⟩)
        rw [found]
        rfl
      | false =>
        have any : (scope.state.signature.arguments.any fun argument =>
            argument.1 = "__cumetal_constant_symbols") = false := named
        have missing : (scope.arguments.findIdx? fun argument =>
            argument.1 = "__cumetal_constant_symbols") = none := by
          rw [findIdx?_eq_none_iff]
          intro argument mem
          simpa using any_eq_false.mp any argument mem
        rw [if_neg (by rw [any]; exact Bool.false_ne_true), missing] at done
        cases done
        refine .inr (.inr ⟨rfl, fun _ => rfl, rfl, rfl, by simp [hiddenArgument, constant]; rfl,
          (roles_declare ..).trans ?_, rfl⟩)
        rw [ExternalGlobalInfo.hiddenRole, if_pos constant]
    | false =>
      simp only [constant, Bool.false_eq_true, if_false] at done
      split at done
      · cases done
      · cases done
        refine .inr (.inr ⟨rfl, fun impossible => Bool.noConfusion impossible, rfl, rfl,
          by simp [hiddenArgument, constant]; rfl, (roles_declare ..).trans ?_, rfl⟩)
        rw [ExternalGlobalInfo.hiddenRole, if_neg (by simp [constant])]

theorem hiddenArgument_named (info : ExternalGlobalInfo) :
    decide ((hiddenArgument info).1 = constantsName) = info.constant := by
  unfold hiddenArgument
  cases info.constant with
  | true => simp
  | false => simpa using globalName_ne info.name

theorem constantsIndex_append
    (named : (arguments.any fun argument => argument.1 = constantsName) = true)
    (others : List (String × IrType)) :
    constantsIndex (arguments ++ others) = constantsIndex arguments := by
  have inside : constantsIndex arguments < arguments.length := by
    obtain ⟨argument, mem, same⟩ := any_eq_true.mp named
    exact findIdx_lt_length_of_exists ⟨argument, mem, same⟩
  unfold constantsIndex at inside ⊢
  rw [findIdx_append, if_pos inside]

theorem constantsIndex_snoc
    (unnamed : (arguments.any fun argument => argument.1 = constantsName) = false)
    {argument : String × IrType} (same : argument.1 = constantsName) :
    constantsIndex (arguments ++ [argument]) = arguments.length := by
  have all : constantsIndex arguments = arguments.length := by
    rw [constantsIndex, findIdx_eq_length]
    intro other mem
    simpa using any_eq_false.mp unnamed other mem
  unfold constantsIndex at all ⊢
  rw [findIdx_append, all, if_neg (lt_irrefl _)]
  simp [findIdx_cons, same]

theorem Allocated.start (references : ExternalGlobalInfo → Bool) (started : FunctionScope) :
    Allocated references started [] started where
  parameterCount := rfl
  printf := rfl
  arguments := by simp [ownGlobals]
  roles := by simp [ownGlobals]
  names := by simp
  absent _ _ := rfl
  constants _ mem := absurd mem not_mem_nil
  own _ mem := absurd mem not_mem_nil

theorem Allocated.snoc (allocated : Allocated references started globals scope)
    (fresh : ∀ other ∈ globals, other.name ≠ info.name)
    (done : scope.global isKernel references info = .ok last) :
    Allocated references started (globals ++ [info]) last := by
  have known := allocated.names
  rcases global_cases done with ⟨silent, rfl⟩ | ⟨referenced, constant, named, rfl⟩ |
    ⟨referenced, first, count, printf, arguments, roles, bound⟩
  · have skipped := ownGlobals_append references info
      (namesConstants started.state.signature) globals
    rw [silent, Bool.not_false, Bool.true_or, if_pos rfl, List.append_nil] at skipped
    refine ⟨allocated.parameterCount, allocated.printf, ?_, ?_, ?_, fun name missing => ?_,
      fun other mem used => ?_, fun other mem used => ?_⟩
    · rw [skipped, allocated.arguments]
    · rw [skipped, allocated.roles]
    · simp [known, silent]
    · exact allocated.absent name fun other mem => missing other (mem_append_left _ mem)
    · rcases mem_append.mp mem with mem | mem
      · exact allocated.constants other mem used
      · rw [mem_singleton.mp mem, silent] at used
        cases used
    · rcases mem_append.mp mem with mem | mem
      · rw [skipped]
        exact allocated.own other mem used
      · rw [mem_singleton.mp mem, silent] at used
        cases used
  · have skipped := ownGlobals_append references info
      (namesConstants started.state.signature) globals
    rw [referenced, constant, ← known, named, Bool.not_true, Bool.false_or, Bool.true_and,
      if_pos rfl, append_nil] at skipped
    refine ⟨allocated.parameterCount, allocated.printf, ?_, ?_, ?_, fun name missing => ?_,
      fun other mem used constant' => ?_, fun other mem used either => ?_⟩
    · rw [skipped]
      exact allocated.arguments
    · rw [skipped]
      exact allocated.roles
    · simp [known, referenced, constant]
      simpa [known] using named
    · have other := missing info (by simp) referenced
      rw [AssocMap.find?_assign, if_neg other]
      exact allocated.absent name fun other mem => missing other (mem_append_left _ mem)
    · rw [AssocMap.find?_assign]
      rcases mem_append.mp mem with mem | mem
      · rw [if_neg (fresh other mem).symm]
        exact allocated.constants other mem used constant'
      · rw [mem_singleton.mp mem, if_pos rfl]
    · rw [AssocMap.find?_assign, skipped]
      rcases mem_append.mp mem with mem | mem
      · rw [if_neg (fresh other mem).symm]
        exact allocated.own other mem used either
      · obtain rfl := mem_singleton.mp mem
        -- an earlier constant has the argument
        have unnamed := either.resolve_left (by simp [constant])
        rw [known, unnamed, Bool.false_or] at named
        obtain ⟨earlier, inside, both⟩ := any_eq_true.mp named
        obtain ⟨used', constant'⟩ := (Bool.and_eq_true _ _).mp both
        obtain ⟨i, first, here, shares, found⟩ := allocated.own earlier inside used' (.inr unnamed)
        rw [allocated.constants earlier inside used' constant'] at found
        rw [if_pos rfl]
        refine ⟨i, first, here, ?_, found⟩
        rw [sharesArgument_constant constant]
        rwa [sharesArgument_constant constant'] at shares
  · have kept : ownGlobals references (namesConstants started.state.signature)
        (globals ++ [info]) =
        ownGlobals references (namesConstants started.state.signature) globals ++ [info] := by
      rw [ownGlobals_append, ← known, referenced]
      cases constant : info.constant with
      | false => simp
      | true => simp [first constant]
    refine ⟨count.trans allocated.parameterCount, printf.trans allocated.printf, ?_, ?_, ?_,
      fun name missing => ?_, fun other mem used constant => ?_, fun other mem used either => ?_⟩
    · rw [arguments, kept, allocated.arguments, map_append, append_assoc]
      rfl
    · rw [roles, kept, allocated.roles]
      cases started.state.signature.roles <;> simp
    · have all : namesConstants last.state.signature =
          (namesConstants scope.state.signature || info.constant) := by
        have step : last.state.signature.arguments = _ := arguments
        rw [namesConstants, step, any_append, namesConstants]
        simp [hiddenArgument_named]
      rw [all, known, any_append]
      simp [referenced, Bool.or_assoc]
    · have other := missing info (by simp) referenced
      rw [bound, AssocMap.find?_assign, if_neg other]
      exact allocated.absent name fun other mem => missing other (mem_append_left _ mem)
    · rw [bound, AssocMap.find?_assign, arguments]
      rcases mem_append.mp mem with mem | mem
      · have named : namesConstants scope.state.signature = true := by
          rw [known, Bool.or_eq_true, any_eq_true]
          exact .inr ⟨other, mem, by simp [used, constant]⟩
        rw [if_neg (fresh other mem).symm, constantsIndex_append named]
        exact allocated.constants other mem used constant
      · obtain rfl := mem_singleton.mp mem
        rw [if_pos rfl, constantsIndex_snoc (first constant)]
        simp [hiddenArgument, constant]
    · rw [bound, AssocMap.find?_assign, kept]
      rcases mem_append.mp mem with mem | mem
      · rw [if_neg (fresh other mem).symm]
        obtain ⟨i, own, here, shares, found⟩ := allocated.own other mem used either
        exact ⟨i, own, by rw [List.getElem?_append_left (List.getElem?_eq_some_iff.mp here).1, here],
          shares, found⟩
      · obtain rfl := mem_singleton.mp mem
        refine ⟨_, other, getElem?_concat_length .., ?_, ?_⟩
        · cases constant : other.constant <;> simp [sharesArgument, constant]
        · rw [if_pos rfl, allocated.arguments, length_append, length_map]

theorem globals_allocated (globals : List ExternalGlobalInfo) :
    (globals.map ExternalGlobalInfo.name).Nodup → ∀ {scope : FunctionScope},
    globals.foldlM (FunctionScope.global isKernel references) started = .ok scope →
    Allocated references started globals scope := by
  induction globals using reverseRecOn with
  | nil =>
    intro _ scope done
    cases done
    exact .start references started
  | append_singleton globals info ih =>
    intro distinct scope done
    rw [map_append, nodup_append] at distinct
    obtain ⟨distinct, _, fresh⟩ := distinct
    rw [foldlM_append] at done
    obtain ⟨middle, before, done⟩ := bind_eq_ok done
    obtain ⟨last, after, done⟩ := bind_eq_ok done
    cases done
    exact (ih distinct before).snoc
      (fun other mem => fresh _ (mem_map_of_mem mem) _ (by simp)) after

def parameterScope (isKernel : Bool) (parameters : List NvvmParameter) : FunctionScope :=
  ⟨parameters.length, parameters.foldl NvvmState.parameter ⟨0, .start isKernel⟩, [], none⟩

/-- Whether a parameter has the name of the buffer of the constants. -/
def NvvmFunction.shadows (function : NvvmFunction) : Bool :=
  function.parameters.any fun parameter => parameter.name = constantsName

theorem parameterScope_arguments (isKernel : Bool) (parameters : List NvvmParameter) :
    (parameterScope isKernel parameters).arguments.length = parameters.length ∧
      namesConstants (parameterScope isKernel parameters).state.signature =
        parameters.any fun parameter => parameter.name = constantsName := by
  unfold parameterScope
  simp only
  induction parameters using reverseRecOn with
  | nil => exact ⟨rfl, rfl⟩
  | append_singleton parameters parameter ih =>
    rw [foldl_append, length_append, any_append, ← ih.1, ← ih.2]
    generalize parameters.foldl NvvmState.parameter ⟨0, .start isKernel⟩ = state
    refine ⟨length_declare .., ?_⟩
    change namesConstants (Signature.declare ..) = _
    rw [namesConstants_declare]
    by_cases unnamed : parameter.name = ""
    · have default := defaultName_ne state.argumentIndex
      have empty : "" ≠ constantsName := by decide
      simp only [unnamed, if_true, default, List.any_cons, List.any_nil, Bool.or_false, empty]
    · simp [unnamed]

theorem parameterScope_roles (parameters : List NvvmParameter) :
    (parameterScope true parameters).state.signature.roles =
      some (List.replicate parameters.length none) := by
  unfold parameterScope
  simp only
  induction parameters using reverseRecOn with
  | nil => rfl
  | append_singleton parameters parameter ih =>
    rw [foldl_append, length_append]
    refine (roles_declare ..).trans ?_
    rw [ih, Option.map_some, length_singleton, replicate_succ']

def ringArguments : List (String × IrType) :=
  [("__cumetal_printf_buffer", .pointer (.integer 32) .device),
    ("__cumetal_printf_capacity", .integer 32)]

/-- What `allocate_function` leaves. -/
structure Allocates (isKernel : Bool) (parameters : List NvvmParameter)
    (references : ExternalGlobalInfo → Bool) (globals : List ExternalGlobalInfo)
    (usesVprintf : Bool) (scope middle : FunctionScope) : Prop where
  allocated : Allocated references (parameterScope isKernel parameters) globals middle
  parameterCount : scope.parameterCount = parameters.length
  externalGlobals : scope.externalGlobals = middle.externalGlobals
  arguments : scope.arguments = middle.arguments ++ if usesVprintf then ringArguments else []
  roles : scope.state.signature.roles = middle.state.signature.roles.map
    (· ++ if usesVprintf then [some "printf_buffer", some "printf_capacity"] else [])
  printf : scope.printf =
    if usesVprintf then some (middle.arguments.length, middle.arguments.length + 1) else none

theorem allocateScope_spec {parameters : List NvvmParameter}
    {usesVprintf : Bool} (distinct : (globals.map ExternalGlobalInfo.name).Nodup)
    (done : allocateScope isKernel parameters references globals usesVprintf = .ok scope) :
    ∃ middle, Allocates isKernel parameters references globals usesVprintf scope middle := by
  obtain ⟨middle, folded, done⟩ := bind_eq_ok done
  have allocated := globals_allocated globals distinct folded
  refine ⟨middle, ?_⟩
  cases usesVprintf with
  | false =>
    cases done
    exact ⟨allocated, allocated.parameterCount, rfl, (append_nil _).symm, by simp,
      allocated.printf⟩
  | true =>
    simp only [Bool.not_true, Bool.false_eq_true, if_false] at done
    split at done
    · cases done
    · cases done
      refine ⟨allocated, allocated.parameterCount, rfl,
        by simp [Signature.declarePrintf, Signature.declare, ringArguments], ?_, rfl⟩
      change (Signature.declare ..).roles = _
      rw [roles_declare, roles_declare]
      cases middle.state.signature.roles <;> simp

theorem global_state (isKernel : Bool) (references : ExternalGlobalInfo → Bool)
    (scope : FunctionScope) (info : ExternalGlobalInfo) :
    (scope.global isKernel references info).map FunctionScope.state =
      scope.state.global isKernel references info := by
  unfold FunctionScope.global
  cases referenced : references info with
  | false => simp [NvvmState.global, referenced, Except.map]
  | true =>
    cases NvvmState.global isKernel references scope.state info with
    | error _ => rfl
    | ok _ => rfl

theorem globals_state (isKernel : Bool) (references : ExternalGlobalInfo → Bool)
    (globals : List ExternalGlobalInfo) (scope : FunctionScope) :
    (globals.foldlM (FunctionScope.global isKernel references) scope).map FunctionScope.state =
      globals.foldlM (NvvmState.global isKernel references) scope.state := by
  induction globals generalizing scope with
  | nil => rfl
  | cons info rest ih =>
    rw [foldlM_cons, foldlM_cons, ← global_state isKernel references scope info]
    cases scope.global isKernel references info with
    | error _ => rfl
    | ok middle => exact ih middle

theorem allocateScope_signature (isKernel : Bool) (parameters : List NvvmParameter)
    (references : ExternalGlobalInfo → Bool) (globals : List ExternalGlobalInfo)
    (usesVprintf : Bool) :
    (allocateScope isKernel parameters references globals usesVprintf).map
        (fun scope => scope.state.signature) =
      allocateFunction isKernel parameters references globals usesVprintf := by
  have folded := globals_state isKernel references globals (parameterScope isKernel parameters)
  unfold allocateScope allocateFunction
  change _ = (globals.foldlM (NvvmState.global isKernel references)
    (parameterScope isKernel parameters).state >>= _)
  rw [← folded]
  change Except.map _ (globals.foldlM (FunctionScope.global isKernel references)
    (parameterScope isKernel parameters) >>= _) = _
  cases globals.foldlM (FunctionScope.global isKernel references)
      (parameterScope isKernel parameters) with
  | error _ => rfl
  | ok middle =>
    change Except.map _ (if _ then _ else _) = if _ then _ else _
    cases usesVprintf with
    | false => rfl
    | true =>
      by_cases conflict : isKernel = true ∧ 29 ≤ middle.state.argumentIndex + 1
      · simp [conflict]
        rfl
      · simp only [conflict, Bool.not_true, Bool.false_eq_true, if_false]
        rfl

/-- The operands of a call for the globals, if the caller has them all. -/
theorem appendGlobals_eq {caller : FunctionScope} {place : ExternalGlobalInfo → Nat}
    (bound : ∀ info ∈ globals, references info = true →
      caller.externalGlobals.find? info.name = some (place info)) (declared : Bool) :
    appendGlobals references caller declared globals =
      .ok ((ownGlobals references declared globals).map fun info => .own (place info)) := by
  induction globals generalizing declared with
  | nil => rfl
  | cons info rest ih =>
    have later := ih fun other mem used => bound other (mem_cons_of_mem _ mem) used
    rw [appendGlobals, ownGlobals]
    cases referenced : references info with
    | false => simpa using later declared
    | true =>
      have here := bound info mem_cons_self referenced
      simp only [here, Bool.not_true, Bool.false_eq_true, if_false, Bool.false_or]
      split
      · exact later declared
      · rw [later]
        rfl

end CuMetal.Ir
