import CuMetal.Lib.AssocMap
import CuMetal.Lib.GuardedRun

/-!
# Registered kernels and symbols

The two registries of kernels and `__device__` variables: that of native modules
(`runtime/registration/native_registration.cpp`) and that of fat binaries
(`runtime/registration/registration.cpp`), with the lookups of a launch and of a symbol copy. What
belongs to constants, arguments, printf and metallibs is left out.
-/

namespace CuMetal.Runtime.Registration

/-- A host address, of a kernel stub or of the shadow of a variable. -/
abbrev Address := BitVec 64

/-- A place that a symbol copy reads or writes: host memory, or the contents of a buffer object. -/
inductive Location
  | host (address : Address)
  | buffer (identity : Nat)
  deriving DecidableEq

/-- `ExternalGlobalSymbol` (`compiler/ptx/lower_to_llvm.h`): a module-scope variable that an entry
refers to. -/
structure ExternalGlobalSymbol where
  name : String
  sizeBytes : Nat
  modulePrivateInitialized : Bool
  deriving DecidableEq

/-- What the registries ask the PTX compiler about a source. -/
structure PtxCompiler (P : Type) where
  findArgInfoForPtxEntry : P → String → Bool
  findReferencedExternalGlobalSymbols : P → String → List ExternalGlobalSymbol
  /-- The length of the initializer. -/
  findInitializedGlobalBytes : P → String → Option Nat

/-- `RegisteredGlobalSymbol` (`registration.h`), with the host symbol that it was found by: the
lookup itself does not hand that out. -/
structure RegisteredGlobalSymbol where
  name : String
  buffer : Option Nat
  size : Nat
  foundBy : Option Address
  deriving DecidableEq

/-- The variables that a `RegisteredKernel` binds. -/
structure RegisteredKernel where
  globalSymbols : List RegisteredGlobalSymbol

/-- `NativeSymbol` (`native_registration.cpp:26-33`). -/
structure NativeSymbol where
  name : String
  hostSymbol : Address
  size : Nat
  constant : Bool
  globalBuffer : Option Nat

/-- `NativeModule` (`20-24`). -/
structure NativeModule where
  hostFunctions : List Address
  hostSymbols : List Address

/-- `CuMetalSymbolDescriptor`. -/
structure SymbolDescriptor where
  name : String
  hostSymbol : Address
  size : Nat
  constant : Bool

/-- `CuMetalKernelDescriptor`. -/
structure KernelDescriptor where
  hostStub : Address
  symbolIndices : List Nat

/-- `CuMetalModuleDescriptor`; whether the rest of it is valid, and its metallib could be written.
-/
structure ModuleDescriptor where
  symbols : List SymbolDescriptor
  kernels : List KernelDescriptor
  restValid : Bool

/-- `validate_descriptor` (`92-175`). -/
def ModuleDescriptor.valid (descriptor : ModuleDescriptor) : Bool :=
  descriptor.restValid && !descriptor.kernels.isEmpty &&
    descriptor.symbols.all (fun symbol => symbol.hostSymbol != 0 && symbol.size != 0) &&
    decide (descriptor.symbols.map SymbolDescriptor.hostSymbol).Nodup &&
    descriptor.kernels.all (fun kernel => kernel.hostStub != 0 &&
      kernel.symbolIndices.all (· < descriptor.symbols.length)) &&
    decide (descriptor.kernels.map KernelDescriptor.hostStub).Nodup

/-- The `State` of `native_registration.cpp` (`35-40`). -/
structure NativeState where
  modules : AssocMap Nat NativeModule
  kernels : AssocMap Address RegisteredKernel
  symbols : AssocMap Address NativeSymbol

/-- `RegistrationModule` (`registration.cpp:404-428`). -/
structure RegistrationModule (P : Type) where
  ptxSource : P
  privateGlobalBuffers : AssocMap String Nat

/-- `RegistrationRecord` (`430-444`). -/
structure RegistrationRecord where
  moduleHandle : Nat
  kernelName : String
  externalGlobalSymbols : List ExternalGlobalSymbol
  argInfoResolved : Bool

/-- `RegistrationSymbolRecord` (`446-454`). -/
structure RegistrationSymbolRecord where
  moduleHandle : Nat
  deviceAddress : Address
  deviceName : String
  size : Nat
  constant : Bool
  requiresMetalStorage : Bool
  globalBuffer : Option Nat

/-- The two registries, the next module handle (0 is the null handle) and the number of the next
buffer that the backend makes. -/
structure State (P : Type) where
  native : NativeState
  modules : AssocMap Nat (RegistrationModule P)
  kernels : AssocMap Address RegistrationRecord
  symbols : AssocMap Address RegistrationSymbolRecord
  nextHandle : Nat
  nextBuffer : Nat

section Calls

variable {P : Type} (compiler : PtxCompiler P)

namespace State

variable (s : State P)

/-- The symbols of a new native module, and the next buffer (`254-277`); `allocates` tells for which
symbols the backend has memory. -/
def prepareSymbols (allocates : Address → Bool) :
    List SymbolDescriptor → Nat → Option (List NativeSymbol × Nat)
  | [], nextBuffer => some ([], nextBuffer)
  | symbol :: rest, nextBuffer =>
    if symbol.constant then
      (prepareSymbols allocates rest nextBuffer).map fun prepared =>
        (⟨symbol.name, symbol.hostSymbol, symbol.size, true, none⟩ :: prepared.1, prepared.2)
    else if allocates symbol.hostSymbol then
      (prepareSymbols allocates rest (nextBuffer + 1)).map fun prepared =>
        (⟨symbol.name, symbol.hostSymbol, symbol.size, false, some nextBuffer⟩ :: prepared.1,
          prepared.2)
    else none

/-- The variables that the indices of a kernel name (`302-324`). -/
def prepareKernel (prepared : List NativeSymbol) (kernel : KernelDescriptor) : RegisteredKernel :=
  ⟨kernel.symbolIndices.filterMap fun index =>
    match prepared[index]? with
    | some symbol =>
      if symbol.constant then none
      else some ⟨symbol.name, symbol.globalBuffer, symbol.size, some symbol.hostSymbol⟩
    | none => none⟩

/-- `cumetalRegisterModule` (`243-356`): the state after it, if it succeeds. -/
def cumetalRegisterModule (descriptor : ModuleDescriptor) (allocates : Address → Bool) :
    Option (State P) :=
  if !descriptor.valid then none
  else
    match prepareSymbols allocates descriptor.symbols s.nextBuffer with
    | none => none
    | some (prepared, nextBuffer) =>
      if descriptor.kernels.any (fun kernel => s.native.kernels.contains kernel.hostStub) ||
          descriptor.symbols.any (fun symbol => s.native.symbols.contains symbol.hostSymbol) then
        none
      else
        some { s with
          native :=
            { symbols := s.native.symbols ++
                prepared.map fun symbol => (symbol.hostSymbol, symbol)
              kernels := s.native.kernels ++
                descriptor.kernels.map fun kernel =>
                  (kernel.hostStub, prepareKernel prepared kernel)
              modules := s.native.modules ++
                [(s.nextHandle, ⟨descriptor.kernels.map KernelDescriptor.hostStub,
                  descriptor.symbols.map SymbolDescriptor.hostSymbol⟩)] }
          nextHandle := s.nextHandle + 1
          nextBuffer }

/-- `cumetalUnregisterModule` (`358-373`). -/
def cumetalUnregisterModule (handle : Nat) : State P :=
  match s.native.modules.find? handle with
  | none => s
  | some module =>
    { s with
      native :=
        { kernels := List.filter (fun binding => binding.1 ∉ module.hostFunctions)
            s.native.kernels
          symbols := List.filter (fun binding => binding.1 ∉ module.hostSymbols)
            s.native.symbols
          modules := List.filter (fun binding => binding.1 ≠ handle) s.native.modules } }

/-- `native_registration::lookup_symbol` (`194-214`). -/
def nativeLookupSymbol (hostSymbol : Address) : Option Location :=
  if hostSymbol = 0 then none
  else
    match s.native.symbols.find? hostSymbol with
    | none => none
    | some symbol =>
      if symbol.constant then some (.host symbol.hostSymbol)
      else symbol.globalBuffer.map .buffer

/-- `__cudaRegisterFatBinary` (`1991-2017`). -/
def cudaRegisterFatBinary (ptxSource : P) : State P :=
  { s with
    modules := s.modules ++ [(s.nextHandle, ⟨ptxSource, []⟩)]
    nextHandle := s.nextHandle + 1 }

/-- `__cudaUnregisterFatBinary` (`2048-2086`). -/
def cudaUnregisterFatBinary (handle : Nat) : State P :=
  if handle = 0 then s
  else
    { s with
      kernels := List.filter (fun binding => binding.2.moduleHandle ≠ handle) s.kernels
      symbols := List.filter (fun binding => binding.2.moduleHandle ≠ handle) s.symbols
      modules := List.filter (fun binding => binding.1 ≠ handle) s.modules }

/-- The name that `__cudaRegisterFunction` chooses (`2107-2115`): empty if there is none. -/
def chosenName (deviceFunction deviceName : String) : String :=
  if deviceName = "" then deviceFunction else deviceName

/-- `__cudaRegisterFunction` (`2088-2155`). -/
def cudaRegisterFunction (handle : Nat) (hostFunction : Address)
    (deviceFunction deviceName : String) : State P :=
  if hostFunction = 0 ∨ chosenName deviceFunction deviceName = "" then s
  else
    { s with
      kernels := s.kernels.assign hostFunction
        ⟨handle, chosenName deviceFunction deviceName, [], false⟩ }

/-- `__cudaRegisterVar` (`2157-2224`). `addressIsName` tells whether the device address is the device
name: the two pointers are equal, or the strings they point to. -/
def cudaRegisterVar (handle : Nat) (hostVar deviceAddress : Address) (addressIsName : Bool)
    (deviceName : String) (size : Nat) (constant : Bool) : State P :=
  if hostVar = 0 then s
  else
    let requiresMetalStorage := deviceAddress = 0 ∨ addressIsName
    { s with
      symbols := s.symbols.assign hostVar
        ⟨handle, if requiresMetalStorage then hostVar else deviceAddress, deviceName, size, constant,
          requiresMetalStorage, none⟩ }

/-- `ensure_registered_global_symbol_buffer` (`1555-1610`): the buffer, if there is one now. -/
def ensureRegisteredGlobalSymbolBuffer (hostSymbol : Address) (allocates : Bool) :
    Option Nat × State P :=
  match s.symbols.find? hostSymbol with
  | none => (none, s)
  | some symbol =>
    if symbol.constant ∨ !symbol.requiresMetalStorage ∨ symbol.deviceAddress = 0 ∨
        symbol.size = 0 then (none, s)
    else
      match symbol.globalBuffer with
      | some buffer => (some buffer, s)
      | none =>
        if allocates then
          (some s.nextBuffer,
            { s with
              symbols := s.symbols.assign hostSymbol
                { symbol with globalBuffer := some s.nextBuffer }
              nextBuffer := s.nextBuffer + 1 })
        else (none, s)

/-- `ensure_private_global_symbol_buffer` (`1612-1660`). -/
def ensurePrivateGlobalSymbolBuffer (handle : Nat) (symbol : ExternalGlobalSymbol)
    (allocates : Bool) : Option Nat × State P :=
  if symbol.name = "" ∨ symbol.sizeBytes = 0 ∨ !symbol.modulePrivateInitialized then (none, s)
  else
    match s.modules.find? handle with
    | none => (none, s)
    | some module =>
      match module.privateGlobalBuffers.find? symbol.name with
      | some buffer => (some buffer, s)
      | none =>
        if compiler.findInitializedGlobalBytes module.ptxSource symbol.name =
            some symbol.sizeBytes ∧ allocates then
          (some s.nextBuffer,
            { s with
              modules := s.modules.assign handle
                { module with
                  privateGlobalBuffers :=
                    module.privateGlobalBuffers ++ [(symbol.name, s.nextBuffer)] }
              nextBuffer := s.nextBuffer + 1 })
        else (none, s)

/-- The host symbol that is registered in the module for the variable (`1768-1780`): the first one,
in whatever order the map has them. -/
def registeredFor (handle : Nat) (expected : ExternalGlobalSymbol) : Option Address :=
  (List.find? (fun binding => binding.2.moduleHandle = handle ∧ !binding.2.constant ∧
    binding.2.deviceName = expected.name ∧ binding.2.size = expected.sizeBytes) s.symbols).map
    Prod.fst

/-- The binding of a variable that a kernel refers to (`1765-1799`). -/
def bindGlobal (handle : Nat) (allocates : String → Bool) (expected : ExternalGlobalSymbol) :
    RegisteredGlobalSymbol × State P :=
  match s.registeredFor handle expected with
  | some hostSymbol =>
    let (buffer, next) :=
      s.ensureRegisteredGlobalSymbolBuffer hostSymbol (allocates expected.name)
    (⟨expected.name, buffer, expected.sizeBytes, some hostSymbol⟩, next)
  | none =>
    let (buffer, next) :=
      s.ensurePrivateGlobalSymbolBuffer compiler handle expected (allocates expected.name)
    (⟨expected.name, buffer, expected.sizeBytes, none⟩, next)

/-- The bindings of all variables that a kernel refers to. -/
def bindGlobals (handle : Nat) (allocates : String → Bool) :
    List ExternalGlobalSymbol → State P → List RegisteredGlobalSymbol × State P
  | [], s => ([], s)
  | expected :: rest, s =>
    let (binding, next) := s.bindGlobal compiler handle allocates expected
    let (bindings, last) := bindGlobals handle allocates rest next
    (binding :: bindings, last)

/-- What the PTX of its module tells of a kernel (`1686-1714`). -/
def resolved (record : RegistrationRecord) : RegistrationRecord :=
  if record.argInfoResolved then record
  else
    match s.modules.find? record.moduleHandle with
    | none => record
    | some module =>
      { record with
        argInfoResolved := compiler.findArgInfoForPtxEntry module.ptxSource record.kernelName
        externalGlobalSymbols :=
          compiler.findReferencedExternalGlobalSymbols module.ptxSource record.kernelName }

/-- `lookup_registered_kernel` (`1662-1801`). -/
def lookupRegisteredKernel (hostFunction : Address) (allocates : String → Bool) :
    Option RegisteredKernel × State P :=
  match s.kernels.find? hostFunction with
  | none => (none, s)
  | some found =>
    let record := s.resolved compiler found
    let next := { s with kernels := s.kernels.assign hostFunction record }
    let (bindings, last) :=
      bindGlobals compiler record.moduleHandle allocates record.externalGlobalSymbols next
    (some ⟨bindings⟩, last)

/-- The lookup of a launch (`cuda_runtime.cpp:5836-5839`). -/
def lookupKernel (hostFunction : Address) (allocates : String → Bool) :
    Option RegisteredKernel × State P :=
  match s.native.kernels.find? hostFunction with
  | some kernel => (some kernel, s)
  | none => s.lookupRegisteredKernel compiler hostFunction allocates

/-- `lookup_registered_symbol` (`1910-1941`). -/
def lookupRegisteredSymbol (hostSymbol : Address) (allocates : Bool) :
    Option Location × State P :=
  match s.symbols.find? hostSymbol with
  | none => (none, s)
  | some symbol =>
    if symbol.deviceAddress = 0 then (none, s)
    else if symbol.constant ∨ !symbol.requiresMetalStorage then
      (some (.host symbol.deviceAddress), s)
    else
      let (buffer, next) := s.ensureRegisteredGlobalSymbolBuffer hostSymbol allocates
      (buffer.map .buffer, next)

/-- The lookup of a symbol copy (`cuda_runtime.cpp:1636-1641`). -/
def lookupSymbol (hostSymbol : Address) (allocates : Bool) : Option Location × State P :=
  match s.nativeLookupSymbol hostSymbol with
  | some location => (some location, s)
  | none => s.lookupRegisteredSymbol hostSymbol allocates

/-- `checked_symbol_ptr` (`1628-1653`): the start of what a symbol copy reads or writes. A symbol
that no registry knows is taken for an address. -/
def checkedSymbolPtr (symbol : Address) (allocates : Bool) : Location :=
  (s.lookupSymbol symbol allocates).1.getD (.host symbol)

/-- `reset_device_state` of both registries (`native_registration.cpp:218-225`,
`registration.cpp:1951-1962`), as `cudaDeviceReset` calls them. -/
def resetDeviceState : State P :=
  { s with
    native := { s.native with
      symbols := List.map (fun binding => (binding.1, { binding.2 with globalBuffer := none }))
        s.native.symbols }
    symbols := List.map (fun binding => (binding.1, { binding.2 with globalBuffer := none }))
      s.symbols
    modules := List.map (fun binding => (binding.1, { binding.2 with privateGlobalBuffers := [] }))
      s.modules }

end State

/-- A call. `allocates` tells for what the backend has memory. -/
inductive Action (P : Type)
  | registerModule (descriptor : ModuleDescriptor) (allocates : Address → Bool)
  | unregisterModule (handle : Nat)
  | registerFatBinary (ptxSource : P)
  | unregisterFatBinary (handle : Nat)
  | registerFunction (handle : Nat) (hostFunction : Address) (deviceFunction deviceName : String)
  | registerVar (handle : Nat) (hostVar deviceAddress : Address) (addressIsName : Bool)
      (deviceName : String) (size : Nat) (constant : Bool)
  | launch (hostFunction : Address) (allocates : String → Bool)
  | copySymbol (symbol : Address) (allocates : Bool)
  | deviceReset

/-- The state after a call, and whether its registration or lookup succeeded. -/
def call (s : State P) : Action P → State P × Bool
  | .registerModule descriptor allocates =>
    match s.cumetalRegisterModule descriptor allocates with
    | some next => (next, true)
    | none => (s, false)
  | .unregisterModule handle => (s.cumetalUnregisterModule handle, true)
  | .registerFatBinary ptxSource => (s.cudaRegisterFatBinary ptxSource, true)
  | .unregisterFatBinary handle => (s.cudaUnregisterFatBinary handle, true)
  | .registerFunction handle hostFunction deviceFunction deviceName =>
    (s.cudaRegisterFunction handle hostFunction deviceFunction deviceName,
      hostFunction ≠ 0 ∧ State.chosenName deviceFunction deviceName ≠ "")
  | .registerVar handle hostVar deviceAddress addressIsName deviceName size constant =>
    (s.cudaRegisterVar handle hostVar deviceAddress addressIsName deviceName size constant,
      hostVar ≠ 0)
  | .launch hostFunction allocates =>
    let (kernel, next) := s.lookupKernel compiler hostFunction allocates
    (next, kernel.isSome)
  | .copySymbol symbol allocates =>
    let (location, next) := s.lookupSymbol symbol allocates
    (next, location.isSome)
  | .deviceReset => (s.resetDeviceState, true)

/-- Nothing registered. -/
def initial : State P where
  native := ⟨[], [], []⟩
  modules := []
  kernels := []
  symbols := []
  nextHandle := 1
  nextBuffer := 0

end Calls

end CuMetal.Runtime.Registration
