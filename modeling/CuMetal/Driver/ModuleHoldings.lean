import CuMetal.Driver.ModuleCalls

/-!
# What threads and modules hold

The records and files that a thread or a module of the table has to delete, what a thread relies on
between two steps, and the invariant of the driver state.
-/

namespace CuMetal.Driver.Modules

open List

open CuMetal.Holdings (Exclusive)

/-- What is deleted or removed by the one that holds it. -/
inductive Resource
  | module (module : Handle)
  | function (function : Handle)
  | file (path : String)

/-- The threads, and the modules of the table. -/
inductive Agent
  | thread (thread : Nat)
  | module (module : Handle)
  deriving DecidableEq

def fileOf (path : Option String) : List Resource := path.toList.map .file

def ModuleRecord.resources (record : ModuleRecord) (module : Handle) : List Resource :=
  .module module :: (record.functions.map .function ++ fileOf record.ownedPath)

/-- What a thread holds. -/
def Call.resources : Call → List Resource
  | .staged path owns => fileOf (if owns then some path else none)
  | .created module record => .module module :: fileOf record.ownedPath
  | .failed path => [.file path]
  | .allocated _ _ function => [.function function]
  | .described _ _ function => [.function function]
  | .erased module _ ownedPath => .module module :: fileOf ownedPath
  | .deleted ownedPath => fileOf ownedPath
  | _ => []

namespace World

variable (world : World)

def holds : Agent → List Resource
  | .thread thread => (world.calls thread).resources
  | .module module =>
    if module ∈ world.modules then
      match world.moduleHeap module with
      | some record => record.resources module
      | none => []
    else []

def Exists : Resource → Prop
  | .module module => (world.moduleHeap module).isSome
  | .function function => (world.functionHeap function).isSome
  | .file path => path ∈ world.files

/-- The module is in the table, and its record is still the one of this number. -/
def Loaded (module : Handle) (serial : Nat) : Prop :=
  module ∈ world.modules ∧ ∃ record, world.moduleHeap module = some record ∧ record.serial = serial

/-- The function is in the table, with this record. -/
def Linked (function : Handle) (record : FunctionRecord) : Prop :=
  function ∈ world.functions ∧ world.functionHeap function = some record

/-- A thread has checked the module, or a function of it, and is going to use it. -/
def Pins : Call → Handle → Prop
  | .validated checked _ _, module => checked = module
  | .allocated checked _ _, module => checked = module
  | .described checked _ _, module => checked = module
  | .launching function _, module =>
    ∃ record, world.functionHeap function = some record ∧ record.module = module
  | .launched _ _ checked _, module => checked = module
  | _, _ => False

/-- What holds between the steps of a call. -/
def CallOk : Call → Prop
  | .created module record => world.moduleHeap module = some record ∧ record.functions = []
  | .validated module serial _ => world.Loaded module serial
  | .allocated module serial function => world.Loaded module serial ∧
      ∃ record, world.functionHeap function = some record ∧ record.module = module ∧
        record.moduleSerial = serial
  | .described module serial function => world.Loaded module serial ∧
      ∃ record, world.functionHeap function = some record ∧ record.module = module ∧
        record.moduleSerial = serial
  | .launching function serial => ∃ record, world.Linked function record ∧ record.serial = serial
  | .launched function serial module moduleSerial => ∃ record, world.Linked function record ∧
      record.serial = serial ∧ record.module = module ∧ record.moduleSerial = moduleSerial
  | .erased module serial _ => ∃ record, world.moduleHeap module = some record ∧
      record.serial = serial
  | _ => True

/-- The function belongs to this module of the table, which lists it. -/
def BelongsTo (function : Handle) (module : Handle) : Prop :=
  module ∈ world.modules ∧ ∃ record, world.functionHeap function = some record ∧
    record.module = module ∧ ∃ owner, world.moduleHeap module = some owner ∧
      record.moduleSerial = owner.serial ∧ function ∈ owner.functions

/-- The invariant. -/
structure Sound : Prop where
  unfaulted : world.faulted = false
  exclusive : Exclusive world.holds
  backed : ∀ agent resource, resource ∈ world.holds agent → world.Exists resource
  loaded : ∀ module ∈ world.modules, (world.moduleHeap module).isSome
  linked : ∀ function ∈ world.functions, ∃ module, world.BelongsTo function module
  listed : ∀ module ∈ world.modules, ∀ record, world.moduleHeap module = some record →
    ∀ function ∈ record.functions, function ∈ world.functions ∧ world.BelongsTo function module
  calls : ∀ thread, world.CallOk (world.calls thread)

end World

namespace World

variable {world next : World} {thread : Nat}

@[simp]
theorem holds_thread (other : Nat) :
    world.holds (.thread other) = (world.calls other).resources := rfl

variable {module function : Handle} {record : ModuleRecord} {resource : Resource}

theorem holds_module (member : module ∈ world.modules)
    (found : world.moduleHeap module = some record) :
    world.holds (.module module) = record.resources module := by
  simp only [holds, if_pos member, found]

theorem holds_absent (absent : module ∉ world.modules) :
    world.holds (.module module) = [] := by
  simp only [holds, if_neg absent]

/-- The step leaves to the others what their calls rely on. -/
structure Keeps (world next : World) (call : Call) : Prop where
  loaded : ∀ module serial, world.Pins call module → world.Loaded module serial →
    next.Loaded module serial
  linked : ∀ function record, world.Linked function record → world.Pins call record.module →
    next.Linked function record
  module : ∀ module, .module module ∈ call.resources →
    next.moduleHeap module = world.moduleHeap module
  function : ∀ function, .function function ∈ call.resources →
    next.functionHeap function = world.functionHeap function

theorem CallOk.keeps {call : Call} (ok : world.CallOk call) (keeps : world.Keeps next call) :
    next.CallOk call := by
  cases call with
  | created module record =>
    exact ⟨(keeps.module module (by simp [Call.resources])).trans ok.1, ok.2⟩
  | validated module serial name => exact keeps.loaded module serial rfl ok
  | allocated module serial function =>
    have same := keeps.function function (by simp [Call.resources])
    exact ⟨keeps.loaded module serial rfl ok.1, same ▸ ok.2⟩
  | described module serial function =>
    have same := keeps.function function (by simp [Call.resources])
    exact ⟨keeps.loaded module serial rfl ok.1, same ▸ ok.2⟩
  | launching function serial =>
    obtain ⟨record, linked, number⟩ := ok
    exact ⟨record, keeps.linked function record linked ⟨record, linked.2, rfl⟩, number⟩
  | launched function serial module moduleSerial =>
    obtain ⟨record, linked, number, owner, number'⟩ := ok
    exact ⟨record, keeps.linked function record linked owner.symm, number, owner, number'⟩
  | erased module serial ownedPath =>
    obtain ⟨record, found, number⟩ := ok
    have same := keeps.module module (by simp [Call.resources])
    exact ⟨record, same.trans found, number⟩
  | _ => trivial

/-- A step of one thread keeps the invariant if it keeps the tables and its own call in order, and
leaves the others what they rely on. -/
theorem Sound.after (sound : world.Sound) (thread : Nat) (unfaulted : next.faulted = false)
    (others : ∀ other, other ≠ thread → next.calls other = world.calls other)
    (exclusive : Exclusive next.holds)
    (backed : ∀ agent resource, resource ∈ next.holds agent → next.Exists resource)
    (loaded : ∀ module ∈ next.modules, (next.moduleHeap module).isSome)
    (linked : ∀ function ∈ next.functions, ∃ module, next.BelongsTo function module)
    (listed : ∀ module ∈ next.modules, ∀ record, next.moduleHeap module = some record →
      ∀ function ∈ record.functions, function ∈ next.functions ∧ next.BelongsTo function module)
    (keeps : ∀ other, other ≠ thread → world.Keeps next (world.calls other))
    (mine : next.CallOk (next.calls thread)) : next.Sound := by
  refine ⟨unfaulted, exclusive, backed, loaded, linked, listed, ?_⟩
  intro other
  by_cases same : other = thread
  · exact same ▸ mine
  · rw [others other same]
    exact (sound.calls other).keeps (keeps other same)

def Same (world next : World) : Resource → Prop
  | .module module => next.moduleHeap module = world.moduleHeap module
  | .function function => next.functionHeap function = world.functionHeap function
  | .file path => path ∈ next.files

section

variable (sound : world.Sound)
include sound

theorem Sound.holder (member : function ∈ world.functions) :
    ∃ module, world.BelongsTo function module ∧
      Resource.function function ∈ world.holds (.module module) := by
  obtain ⟨module, belongs⟩ := sound.linked function member
  obtain ⟨inTable, _, _, _, owner, found, _, lists⟩ := id belongs
  refine ⟨module, belongs, ?_⟩
  rw [holds_module inTable found]
  exact mem_cons_of_mem _ (mem_append_left _ (mem_map_of_mem lists))

theorem Sound.holdsItself (member : module ∈ world.modules) :
    Resource.module module ∈ world.holds (.module module) := by
  obtain ⟨record, found⟩ := Option.isSome_iff_exists.mp (sound.loaded module member)
  rw [holds_module member found]
  exact mem_cons_self

theorem Sound.nodup_functions (member : module ∈ world.modules)
    (found : world.moduleHeap module = some record) : record.functions.Nodup := by
  have all := holds_module member found ▸ sound.exclusive.nodup (.module module)
  exact (nodup_append.mp (nodup_cons.mp all).2).1.of_map _

/-- A step that leaves the tables alone, and what the other agents hold. -/
theorem Sound.own (thread : Nat) (unfaulted : next.faulted = false)
    (others : ∀ other, other ≠ thread → next.calls other = world.calls other)
    (modules : next.modules = world.modules) (functions : next.functions = world.functions)
    (same : ∀ agent, agent ≠ .thread thread → ∀ resource ∈ world.holds agent, world.Same next
      resource) (nodup : (next.calls thread).resources.Nodup)
    (sources : ∀ resource ∈ (next.calls thread).resources, resource ∈ (world.calls
      thread).resources ∨ ∀ agent, resource ∉ world.holds agent)
    (backed : ∀ resource ∈ (next.calls thread).resources, next.Exists resource)
    (mine : next.CallOk (next.calls thread)) : next.Sound := by
  have sameModule : ∀ module ∈ world.modules,
      next.moduleHeap module = world.moduleHeap module := by
    intro module member
    exact same (.module module) (by simp) _ (sound.holdsItself member)
  have sameFunction : ∀ function ∈ world.functions,
      next.functionHeap function = world.functionHeap function := by
    intro function member
    obtain ⟨module, _, held⟩ := sound.holder member
    exact same (.module module) (by simp) _ held
  have belongs : ∀ function ∈ world.functions, ∀ module, world.BelongsTo function module →
      next.BelongsTo function module := by
    intro function member module belongs
    simp only [BelongsTo, modules, sameFunction function member, sameModule module belongs.1]
    exact belongs
  have rest : ∀ agent, agent ≠ .thread thread → next.holds agent = world.holds agent := by
    intro agent different
    cases agent with
    | thread other => rw [holds_thread, holds_thread, others other fun eq => different (eq ▸ rfl)]
    | module module =>
      simp only [holds, modules]
      split
      · next member => rw [sameModule module member]
      · rfl
  refine sound.after thread unfaulted others
    (sound.exclusive.change (.thread thread) rest nodup sources) ?_ ?_ ?_ ?_ ?_ mine
  · intro agent resource held
    by_cases eq : agent = .thread thread
    · subst eq
      exact backed resource held
    · rw [rest agent eq] at held
      have before := sound.backed agent resource held
      have kept := same agent eq resource held
      cases resource with
      | file path => exact kept
      | module module => exact (congrArg Option.isSome kept).trans before
      | function function => exact (congrArg Option.isSome kept).trans before
  · intro module member
    rw [modules] at member
    rw [sameModule module member]
    exact sound.loaded module member
  · intro function member
    rw [functions] at member
    obtain ⟨module, before⟩ := sound.linked function member
    exact ⟨module, belongs function member module before⟩
  · intro module member record found function lists
    rw [modules] at member
    rw [sameModule module member] at found
    have before := sound.listed module member record found function lists
    rw [functions]
    exact ⟨before.1, belongs function before.1 module before.2⟩
  · intro other different
    have agent : Agent.thread other ≠ .thread thread := fun eq => different (by cases eq; rfl)
    refine ⟨?_, ?_, fun module held => same _ agent _ held,
      fun function held => same _ agent _ held⟩
    · rintro module serial _ ⟨member, found⟩
      exact ⟨modules ▸ member, (sameModule module member).symm ▸ found⟩
    · rintro function record ⟨member, found⟩ _
      exact ⟨functions ▸ member, (sameFunction function member).trans found⟩

/-- A step that changes only where its thread stands, and what it holds not at all. -/
theorem Sound.stands {thread : Nat} {call : Call}
    (same : call.resources = (world.calls thread).resources) (ok : world.CallOk call) :
    (world.setCall thread call).Sound := by
  have now : (world.setCall thread call).calls thread = call := by simp [setCall]
  refine sound.own thread sound.unfaulted (fun other different => by simp [setCall, different])
    rfl rfl ?_ ?_ ?_ ?_ ?_
  · intro agent _ resource held
    cases resource with
    | file path => exact sound.backed agent _ held
    | _ => rfl
  · rw [now, same]
    exact sound.exclusive.nodup (.thread thread)
  · rw [now, same]
    exact fun resource member => .inl member
  · rw [now, same]
    exact fun resource member => sound.backed (.thread thread) resource member
  · rw [now]
    cases call <;> exact ok

end

variable {agent : Agent} {own : Resource} {address : Handle}

theorem Sound.distinct (sound : world.Sound) (different : agent ≠ .thread thread)
    (held : resource ∈ world.holds agent) (mine : own ∈ (world.calls thread).resources) :
    resource ≠ own := by
  intro eq
  exact different (sound.exclusive.apart held (eq ▸ mine))

theorem Sound.free_module (sound : world.Sound) (free : world.Free address) (agent : Agent) :
    .module address ∉ world.holds agent := by
  intro held
  have found : (world.moduleHeap address).isSome := sound.backed agent _ held
  simp [free.2.1] at found

theorem Sound.free_function (sound : world.Sound) (free : world.Free address) (agent : Agent) :
    .function address ∉ world.holds agent := by
  intro held
  have found : (world.functionHeap address).isSome := sound.backed agent _ held
  simp [free.2.2] at found

theorem Loaded.module? {serial : Nat} (loaded : world.Loaded module serial) :
    ∃ record, world.module? module serial = some record ∧
      world.moduleHeap module = some record ∧ record.serial = serial := by
  obtain ⟨_, record, found, number⟩ := loaded
  exact ⟨record, by simp [World.module?, found, number], found, number⟩

theorem Linked.function? {record : FunctionRecord} (linked : world.Linked function record) :
    world.function? function record.serial = some record := by
  simp [World.function?, linked.2]

theorem Sound.module?_of_linked (sound : world.Sound) {record : FunctionRecord}
    (linked : world.Linked function record) :
    ∃ owner, world.module? record.module record.moduleSerial = some owner := by
  obtain ⟨module, _, record', found, pointer, owner, foundOwner, number, _⟩ :=
    sound.linked function linked.1
  obtain rfl := Option.some.inj (found.symm.trans linked.2)
  exact ⟨owner, by simp [World.module?, pointer, foundOwner, number]⟩

theorem mem_fileOf {path : Option String} :
    resource ∈ fileOf path ↔ ∃ file, path = some file ∧ resource = .file file := by
  cases path <;> simp [fileOf]

theorem nodup_fileOf (path : Option String) : (fileOf path).Nodup := by
  cases path <;> simp [fileOf]

/-- What a module of the table holds, no thread and no other module holds. -/
theorem Sound.distinctModule (sound : world.Sound) (member : module ∈ world.modules)
    (found : world.moduleHeap module = some record) (different : agent ≠ .module module)
    (held : resource ∈ world.holds agent) (theirs : own ∈ record.resources module) :
    resource ≠ own := by
  intro eq
  rw [← holds_module member found] at theirs
  exact different (sound.exclusive.apart held (eq ▸ theirs))

theorem mem_resources_function
    (member : function ∈ record.functions) : .function function ∈ record.resources module :=
  mem_cons_of_mem _ (mem_append_left _ (mem_map_of_mem member))

theorem mem_resources_module (record : ModuleRecord) (module : Handle) :
    .module module ∈ record.resources module := mem_cons_self

/-- A step of a thread that changes one module of the table leaves the others what they hold. -/
theorem holds_rest (calls : ∀ other, other ≠ thread → next.calls other = world.calls other)
    (modules : ∀ other, other ≠ module → (other ∈ next.modules ↔ other ∈ world.modules))
    (heap : ∀ other, other ≠ module → next.moduleHeap other = world.moduleHeap other)
    (agent : Agent) (left : agent ≠ .thread thread) (right : agent ≠ .module module) :
    next.holds agent = world.holds agent := by
  cases agent with
  | thread other => rw [holds_thread, holds_thread, calls other fun eq => left (eq ▸ rfl)]
  | module other =>
    have different : other ≠ module := fun eq => right (eq ▸ rfl)
    simp only [holds, modules other different, heap other different]

theorem Sound.exchange (sound : world.Sound) (thread : Nat) (module : Handle)
    (calls : ∀ other, other ≠ thread → next.calls other = world.calls other)
    (modules : ∀ other, other ≠ module → (other ∈ next.modules ↔ other ∈ world.modules))
    (heap : ∀ other, other ≠ module → next.moduleHeap other = world.moduleHeap other)
    (handed : (next.holds (.thread thread) ++ next.holds (.module module)).Subperm
      (world.holds (.thread thread) ++ world.holds (.module module))) :
    Exclusive next.holds ∧
      ∀ agent resource, resource ∈ next.holds agent → world.Exists resource := by
  have rest := holds_rest calls modules heap
  refine ⟨sound.exclusive.transfer (by simp) rest handed, ?_⟩
  intro agent resource held
  by_cases involved : agent = .thread thread ∨ agent = .module module
  · have both : resource ∈ next.holds (.thread thread) ++ next.holds (.module module) := by
      rcases involved with rfl | rfl
      · exact mem_append_left _ held
      · exact mem_append_right _ held
    rcases mem_append.mp (handed.subset both) with before | before
    · exact sound.backed _ resource before
    · exact sound.backed _ resource before
  · obtain ⟨left, right⟩ := not_or.mp involved
    exact sound.backed agent resource (rest agent left right ▸ held)

end World

end CuMetal.Driver.Modules
