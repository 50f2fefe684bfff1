import CuMetal.Driver.AbiSidecar
import CuMetal.Lib.GuardedRun
import CuMetal.Lib.Holdings
import Mathlib.Data.Finset.Option

/-!
# Modules and functions of the driver

The calls of `runtime/driver/cuda_driver.cpp` that create, use and delete the records of modules and
functions, by any number of threads. A section under the driver mutex is one step; what a call does
between its sections is done in steps of its own.
-/

namespace CuMetal.Driver.Modules

/-- A pointer to a record, which is also the handle of the caller. -/
abbrev Handle := BitVec 64

/-- `CUmod_st` (`cuda_driver.cpp:38-42`). A record has a number of its own, since an address may be
used again once its record has been deleted. -/
structure ModuleRecord where
  metallibPath : String
  ownsMetallibPath : Bool
  functions : List Handle := []
  serial : Nat

def ModuleRecord.ownedPath (record : ModuleRecord) : Option String :=
  if record.ownsMetallibPath then some record.metallibPath else none

/-- `CUfunc_st` (`44-50`); the number of its module's record is kept with the pointer to it. -/
structure FunctionRecord where
  module : Handle
  moduleSerial : Nat
  description : DriverFunction
  serial : Nat

/-- Where the call of a thread stands. -/
inductive Call
  /-- Outside these calls. -/
  | idle
  /-- In `cuModuleLoadData`, after its check. -/
  | loading
  /-- In `create_module_from_path`, before it looks for the file. -/
  | staged (path : String) (owns : Bool)
  /-- The record has been made and is not in `DriverState::modules` yet. -/
  | created (module : Handle) (record : ModuleRecord)
  /-- The load has failed, and its file is to be removed. -/
  | failed (path : String)
  /-- In `cuModuleGetFunction`, after its first section. -/
  | validated (module : Handle) (serial : Nat) (name : String)
  | allocated (module : Handle) (serial : Nat) (function : Handle)
  | described (module : Handle) (serial : Nat) (function : Handle)
  /-- In `cuLaunchKernel`, after its section. -/
  | launching (function : Handle) (serial : Nat)
  /-- In `cudaLaunchKernel`, which has pointers into both records. -/
  | launched (function : Handle) (serial : Nat) (module : Handle) (moduleSerial : Nat)
  /-- In `query_function_properties`, after its section. -/
  | querying
  /-- In `cuModuleUnload`, after `require_initialized_context`. -/
  | unloading (module : Handle)
  | erased (module : Handle) (serial : Nat) (ownedPath : Option String)
  | deleted (ownedPath : Option String)

/-- The driver state, the records, the files that exist, and where every thread stands. `faulted`
tells that a step has used a record after its deletion. -/
structure World where
  modules : Finset Handle := ∅
  functions : Finset Handle := ∅
  moduleHeap : Handle → Option ModuleRecord := fun _ => none
  functionHeap : Handle → Option FunctionRecord := fun _ => none
  nextSerial : Nat := 0
  files : Finset String := ∅
  calls : Nat → Call := fun _ => .idle
  faulted : Bool := false

namespace World

variable (world : World)

def setCall (thread : Nat) (call : Call) : World :=
  { world with calls := Function.update world.calls thread call }

def setModule (module : Handle) (record : Option ModuleRecord) : World :=
  { world with moduleHeap := Function.update world.moduleHeap module record }

def setFunction (function : Handle) (record : Option FunctionRecord) : World :=
  { world with functionHeap := Function.update world.functionHeap function record }

/-- The thread uses a record that is gone. Nothing is said about what the call does then. -/
def fault (thread : Nat) : World := { world.setCall thread .idle with faulted := true }

/-- The record at the address, if it is still the one of this number. -/
def module? (module : Handle) (serial : Nat) : Option ModuleRecord :=
  (world.moduleHeap module).filter fun record => record.serial = serial

def function? (function : Handle) (serial : Nat) : Option FunctionRecord :=
  (world.functionHeap function).filter fun record => record.serial = serial

/-- `operator new` may return the address. -/
def Free (address : Handle) : Prop :=
  address ≠ 0 ∧ world.moduleHeap address = none ∧ world.functionHeap address = none

instance (address : Handle) : Decidable (world.Free address) :=
  decidable_of_iff (address ≠ 0 ∧ (world.moduleHeap address).isNone ∧
    (world.functionHeap address).isNone) (by simp [Free])

end World

/-- The steps of the calls. A check that fails returns and changes nothing, and needs no step. -/
inductive Action
  /-- `cuModuleLoad` up to `create_module_from_path` (`1435-1452`). -/
  | load (path : String)
  /-- The check of `cuModuleLoadData` (`1454-1468`). -/
  | loadData
  /-- The image is staged in a file, which the module is to own or not (`1470-1527`). -/
  | stage (path : String) (owns : Bool)
  /-- `cuModuleLoadData` returns an error; a temporary file may have been removed (`576-583`,
  `620-624`). -/
  | stageFails (removed : Option String)
  /-- `create_module_from_path` finds the file and makes the record (`334-348`). -/
  | create (module : Handle)
  | createFails
  /-- The section of `create_module_from_path` (`350-353`). -/
  | insert
  /-- The staged file is removed after a failure (`1492-1495`, `1514-1517`). -/
  | discard
  /-- The first section of `cuModuleGetFunction` (`1577-1594`). -/
  | getFunction (module : Handle) (name : String)
  /-- The record is made (`1596-1601`). -/
  | allocate (function : Handle)
  | allocateFails
  /-- `load_function_argument_count` (`1602`), with what it finds on disk. -/
  | describe (sidecar : Option Sidecar) (recorded : Option Nat)
  /-- The second section of `cuModuleGetFunction` (`1604-1608`). -/
  | link
  /-- The section of `cuLaunchKernel` (`1633-1645`). -/
  | launch (function : Handle)
  /-- `cuLaunchKernel` returns before it has read the function (`1667-1699`). -/
  | refuse
  /-- `cuLaunchKernel` reads the function and returns an error (`1739-1745`). -/
  | refuseArgument
  /-- `cuLaunchKernel` describes the kernel (`1762-1767`). -/
  | describeKernel
  /-- `cudaLaunchKernel` reads the path and the name, and returns. -/
  | launchKernel
  /-- The section of `query_function_properties` (`198-213`). -/
  | getAttribute (function : Handle)
  | finishQuery
  /-- `require_initialized_context` in `cuModuleUnload` (`1539-1546`). -/
  | unload (module : Handle)
  /-- The section of `cuModuleUnload` (`1551-1567`). -/
  | erase
  /-- `delete module` (`1569`). -/
  | delete
  | removeFile

variable (world : World) (thread : Nat)

/-- `is_valid_module_locked`, which also gives the number of the record. -/
def getFunction (module : Handle) (name : String) : World :=
  if module ∈ world.modules then
    match world.moduleHeap module with
    | none => world.fault thread
    | some record => world.setCall thread (.validated module record.serial name)
  else world

/-- The new record of a function (`1596-1601`). -/
def allocateFunction (module : Handle) (serial : Nat) (name : String) (function : Handle) : World :=
  ({ world with nextSerial := world.nextSerial + 1 }.setFunction function
    (some ⟨module, serial, { kernelName := name }, world.nextSerial⟩)).setCall thread
      (.allocated module serial function)

/-- `load_function_argument_count` reads the path of the module and writes the function. -/
def describeFunction (module : Handle) (serial : Nat) (function : Handle)
    (sidecar : Option Sidecar) (recorded : Option Nat) : World :=
  match world.module? module serial, world.functionHeap function with
  | some _, some record =>
    (world.setFunction function (some { record with
      description := loadFunctionArgumentCount sidecar recorded record.description })).setCall
        thread (.described module serial function)
  | _, _ => world.fault thread

/-- `cuda_driver.cpp:1604-1608`. -/
def linkFunction (module : Handle) (serial : Nat) (function : Handle) : World :=
  match world.module? module serial with
  | some record =>
    ({ world with functions := insert function world.functions }.setModule module
      (some { record with functions := record.functions ++ [function] })).setCall thread .idle
  | none => world.fault thread

/-- `is_valid_function_locked` in `cuLaunchKernel`. -/
def launchFunction (function : Handle) : World :=
  if function ∈ world.functions then
    match world.functionHeap function with
    | none => world.fault thread
    | some record => world.setCall thread (.launching function record.serial)
  else world

/-- `cuda_driver.cpp:1762-1767`: the addresses of the path and of the name. -/
def describeKernel (function : Handle) (serial : Nat) : World :=
  match world.function? function serial with
  | none => world.fault thread
  | some record =>
    match world.module? record.module record.moduleSerial with
    | none => world.fault thread
    | some _ => world.setCall thread
        (.launched function serial record.module record.moduleSerial)

/-- `query_function_properties` copies the path and the name. -/
def queryFunctionProperties (function : Handle) : World :=
  if function ∈ world.functions then
    match world.functionHeap function with
    | none => world.fault thread
    | some record =>
      match world.module? record.module record.moduleSerial with
      | none => world.fault thread
      | some _ => world.setCall thread .querying
  else world

/-- The section of `cuModuleUnload`. To delete a function that is gone is a fault. -/
def eraseModule (module : Handle) : World :=
  if module ∈ world.modules then
    match world.moduleHeap module with
    | none => world.fault thread
    | some record =>
      if record.functions.Nodup ∧
          record.functions.all fun function => (world.functionHeap function).isSome then
        { world with
          modules := world.modules.erase module
          functions := world.functions \ record.functions.toFinset
          moduleHeap :=
            Function.update world.moduleHeap module (some { record with functions := [] })
          functionHeap := fun function =>
            if function ∈ record.functions then none else world.functionHeap function
          calls := Function.update world.calls thread
            (.erased module record.serial record.ownedPath) }
      else world.fault thread
  else world.setCall thread .idle

/-- `delete module`. -/
def deleteModule (module : Handle) (serial : Nat) (ownedPath : Option String) : World :=
  match world.module? module serial with
  | none => world.fault thread
  | some _ => (world.setModule module none).setCall thread (.deleted ownedPath)

/-- The step of a thread, where it can be taken. -/
def step (move : Nat × Action) : Option World :=
  let thread := move.1
  match world.calls thread, move.2 with
  | .idle, .load path => some (world.setCall thread (.staged path false))
  | .idle, .loadData => some (world.setCall thread .loading)
  | .loading, .stage path owns =>
    some ({ world with files := insert path world.files }.setCall thread (.staged path owns))
  | .loading, .stageFails removed =>
    some ({ world with files := world.files \ removed.toFinset }.setCall thread .idle)
  | .staged path owns, .create module =>
    if path ∈ world.files ∧ world.Free module then
      let record : ModuleRecord :=
        { metallibPath := path, ownsMetallibPath := owns, serial := world.nextSerial }
      some (({ world with nextSerial := world.nextSerial + 1 }.setModule module
        (some record)).setCall thread (.created module record))
    else none
  | .staged path owns, .createFails =>
    some (world.setCall thread (if owns then .failed path else .idle))
  | .created module _, .insert =>
    some ({ world with modules := insert module world.modules }.setCall thread .idle)
  | .failed path, .discard =>
    some ({ world with files := world.files.erase path }.setCall thread .idle)
  | .idle, .getFunction module name => some (getFunction world thread module name)
  | .validated module serial name, .allocate function =>
    if world.Free function then
      some (allocateFunction world thread module serial name function)
    else none
  | .validated _ _ _, .allocateFails => some (world.setCall thread .idle)
  | .allocated module serial function, .describe sidecar recorded =>
    some (describeFunction world thread module serial function sidecar recorded)
  | .described module serial function, .link =>
    some (linkFunction world thread module serial function)
  | .idle, .launch function => some (launchFunction world thread function)
  | .launching _ _, .refuse => some (world.setCall thread .idle)
  | .launching function serial, .refuseArgument =>
    some (if (world.function? function serial).isSome then world.setCall thread .idle
      else world.fault thread)
  | .launching function serial, .describeKernel =>
    some (describeKernel world thread function serial)
  | .launched function serial module moduleSerial, .launchKernel =>
    some (if (world.function? function serial).isSome ∧ (world.module? module moduleSerial).isSome
      then world.setCall thread .idle else world.fault thread)
  | .idle, .getAttribute function => some (queryFunctionProperties world thread function)
  | .querying, .finishQuery => some (world.setCall thread .idle)
  | .idle, .unload module => some (world.setCall thread (.unloading module))
  | .unloading module, .erase => some (eraseModule world thread module)
  | .erased module serial ownedPath, .delete =>
    some (deleteModule world thread module serial ownedPath)
  | .deleted ownedPath, .removeFile =>
    some ({ world with files := world.files \ ownedPath.toFinset }.setCall thread .idle)
  | _, _ => none

end CuMetal.Driver.Modules
