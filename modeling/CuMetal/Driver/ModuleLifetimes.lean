import CuMetal.Driver.ModuleHoldings

/-!
# How long modules and functions live

The invariant is kept by every step that unloads no module in use and stages no file of a path in
use. A module that is unloaded while a call is going to use it is used after its deletion.
-/

namespace CuMetal.Driver.Modules

open Function List Option Call World

open CuMetal.Guarded (Run Always Steps)

namespace World

/-- Modules and functions are valid: every function of the table belongs to a module of the table
that lists it once, no step has used a record after its deletion, and the files that the modules
own exist. -/
structure Valid (world : World) : Prop where
  functions : ∀ function ∈ world.functions, ∃ record owner,
    world.functionHeap function = some record ∧ record.module ∈ world.modules ∧
      world.moduleHeap record.module = some owner ∧ owner.functions.count function = 1
  unfaulted : world.faulted = false
  files : ∀ module ∈ world.modules, ∃ record, world.moduleHeap module = some record ∧
    ∀ path ∈ record.ownedPath, path ∈ world.files

end World

/-- No module is unloaded while a thread is going to use it, and no file is staged or removed under
a path that a module or a thread owns. -/
def Undisturbed (world : World) (move : Nat × Action) : Prop :=
  match world.calls move.1, move.2 with
  | .unloading module, .erase => ∀ thread, ¬ world.Pins (world.calls thread) module
  | _, .stage path true => ∀ agent, .file path ∉ world.holds agent
  | _, .stageFails (some path) => ∀ agent, .file path ∉ world.holds agent
  | _, _ => True

variable {record : ModuleRecord} {move : Nat × Action}

namespace World

variable {world next : World} {thread : Nat}

/-! ## One lemma for each step -/

section

variable (sound : world.Sound)

include sound

/-- A step that changes the files, and gives its thread at most a file of its own. -/
theorem Sound.files {files : Finset String} (path : Option String)
    {call : Call} (resources : call.resources = fileOf path)
    (same : ∀ agent, agent ≠ .thread thread → ∀ file, .file file ∈ world.holds agent →
      file ∈ files)
    (sources : ∀ file, path = some file → .file file ∈ (world.calls thread).resources ∨
      ∀ agent, .file file ∉ world.holds agent)
    (backed : ∀ file, path = some file → file ∈ files) (ok : world.CallOk call) :
    ({ world with files := files }.setCall thread call).Sound := by
  have now : ({ world with files := files }.setCall thread call).calls thread = call := by
    simp [setCall]
  refine sound.own thread sound.unfaulted (fun other different => by simp [setCall, different])
    rfl rfl ?_ ?_ ?_ ?_ ?_
  · intro agent different resource held
    cases resource with
    | file file => exact same agent different file held
    | _ => rfl
  · rw [now, resources]
    exact nodup_fileOf path
  · rw [now, resources]
    intro resource member
    obtain ⟨file, given, rfl⟩ := mem_fileOf.mp member
    exact sources file given
  · rw [now, resources]
    intro resource member
    obtain ⟨file, given, rfl⟩ := mem_fileOf.mp member
    exact backed file given
  · rw [now]
    cases call <;> exact ok

variable {module function : Handle} {serial : Nat}

theorem Sound.create {path : String} {owns : Bool} (here : world.calls thread = .staged path owns)
    (owned : record.ownedPath = if owns then some path else none) (empty : record.functions = [])
    (free : world.Free module) :
    (({ world with nextSerial := world.nextSerial + 1 }.setModule module (some record)).setCall
      thread (.created module record)).Sound := by
  have old : (world.calls thread).resources = fileOf record.ownedPath := by
    rw [here, owned, resources]
  refine sound.own thread sound.unfaulted (fun other different => by
    simp [setCall, setModule, different]) rfl rfl ?_ ?_ ?_ ?_ ?_
  · intro agent _ resource held
    cases resource with
    | file file => exact sound.backed agent _ held
    | function function => rfl
    | module other =>
      have different : other ≠ module := fun eq => sound.free_module free agent (eq ▸ held)
      simp [Same, setCall, setModule, different]
  · simp only [setCall, update_self, resources, nodup_cons, nodup_fileOf,
      and_true]
    intro member
    obtain ⟨_, _, impossible⟩ := mem_fileOf.mp member
    cases impossible
  · simp only [setCall, update_self]
    intro resource member
    rcases mem_cons.mp member with rfl | member
    · exact .inr (sound.free_module free)
    · exact .inl (old ▸ member)
  · simp only [setCall, update_self, resources]
    intro resource member
    rcases mem_cons.mp member with rfl | member
    · simp [Exists, setModule]
    · have before := sound.backed (.thread thread) resource
        (by rw [holds_thread, old]; exact member)
      obtain ⟨file, _, rfl⟩ := mem_fileOf.mp member
      exact before
  · simp [setCall, setModule, CallOk, empty]

theorem Sound.allocateFunction
    {name : String} (here : world.calls thread = .validated module serial name)
    (free : world.Free function) :
    (allocateFunction world thread module serial name function).Sound := by
  have ok := sound.calls thread
  rw [here] at ok
  refine sound.own thread sound.unfaulted (fun other different => by
    simp [Modules.allocateFunction, setCall, setFunction, different]) rfl rfl ?_ ?_ ?_ ?_ ?_
  · intro agent _ resource held
    cases resource with
    | file file => exact sound.backed agent _ held
    | module module => rfl
    | function other =>
      have different : other ≠ function := fun eq => sound.free_function free agent (eq ▸ held)
      simp [Same, Modules.allocateFunction, setCall, setFunction, different]
  · simp [Modules.allocateFunction, setCall, Call.resources]
  · simp only [Modules.allocateFunction, setCall, update_self, Call.resources,
      mem_singleton]
    rintro resource rfl
    exact .inr (sound.free_function free)
  · simp [Modules.allocateFunction, setCall, setFunction, Call.resources, Exists]
  · simp only [Modules.allocateFunction, setCall, update_self, CallOk]
    exact ⟨ok, _, update_self .., rfl, rfl⟩

theorem Sound.describeFunction (sidecar : Option Sidecar) (recorded : Option Nat)
    (here : world.calls thread = .allocated module serial function) :
    (describeFunction world thread module serial function sidecar recorded).Sound := by
  have ok := sound.calls thread
  rw [here] at ok
  obtain ⟨loaded, record, found, pointer, number⟩ := ok
  obtain ⟨owner, live, _⟩ := loaded.module?
  have mine : Resource.function function ∈ (world.calls thread).resources := by
    simp [here, resources]
  simp only [Modules.describeFunction, live, found]
  refine sound.own thread sound.unfaulted (fun other different => by
    simp [setCall, setFunction, different]) rfl rfl ?_ ?_ ?_ ?_ ?_
  · intro agent different resource held
    cases resource with
    | file file => exact sound.backed agent _ held
    | module module => rfl
    | function other =>
      have : other ≠ function := fun eq => sound.distinct different held mine (eq ▸ rfl)
      simp [Same, setCall, setFunction, this]
  · simp [setCall, resources]
  · simp only [setCall, update_self, resources, mem_singleton]
    rintro resource rfl
    exact .inl mine
  · simp [setCall, setFunction, resources, Exists]
  · simp only [setCall, update_self, CallOk]
    exact ⟨loaded, _, update_self .., pointer, number⟩

theorem Sound.deleteModule
    {ownedPath : Option String} (here : world.calls thread = .erased module serial ownedPath) :
    (deleteModule world thread module serial ownedPath).Sound := by
  have ok := sound.calls thread
  rw [here] at ok
  obtain ⟨record, found, number⟩ := ok
  have live : world.module? module serial = some record := by simp [module?, found, number]
  have old : (world.calls thread).resources = .module module :: fileOf ownedPath := by
    rw [here, resources]
  have mine : Resource.module module ∈ (world.calls thread).resources := by simp [old]
  simp only [Modules.deleteModule, live]
  refine sound.own thread sound.unfaulted (fun other different => by
    simp [setCall, setModule, different]) rfl rfl ?_ ?_ ?_ ?_ ?_
  · intro agent different resource held
    cases resource with
    | file file => exact sound.backed agent _ held
    | function function => rfl
    | module other =>
      have : other ≠ module := fun eq => sound.distinct different held mine (eq ▸ rfl)
      simp [Same, setCall, setModule, this]
  · simp [setCall, resources, nodup_fileOf]
  · simp only [setCall, update_self]
    exact fun resource member => .inl (old ▸ mem_cons_of_mem _ member)
  · simp only [setCall, update_self, resources]
    intro resource member
    have before := sound.backed (.thread thread) resource
      (by rw [holds_thread, old]; exact mem_cons_of_mem _ member)
    obtain ⟨file, _, rfl⟩ := mem_fileOf.mp member
    exact before
  · simp [setCall, CallOk]

theorem Sound.insertModule (here : world.calls thread = .created module record) :
    ({ world with modules := insert module world.modules }.setCall thread .idle).Sound := by
  have ok := sound.calls thread
  rw [here] at ok
  obtain ⟨found, empty⟩ := ok
  have old : world.holds (.thread thread) = record.resources module := by
    rw [holds_thread, here, resources, ModuleRecord.resources, empty, map_nil,
      nil_append]
  have absent : module ∉ world.modules := by
    intro member
    have held : Resource.module module ∈ world.holds (.thread thread) :=
      old ▸ mem_resources_module record module
    cases sound.exclusive.apart held (sound.holdsItself member)
  generalize shape : { world with modules := insert module world.modules }.setCall thread .idle =
    next
  have modules : next.modules = insert module world.modules := by rw [← shape]; rfl
  have functions : next.functions = world.functions := by rw [← shape]; rfl
  have heap : next.moduleHeap = world.moduleHeap := by rw [← shape]; rfl
  have functionHeap : next.functionHeap = world.functionHeap := by rw [← shape]; rfl
  have idle : next.calls thread = .idle := by simp [← shape, setCall]
  have calls : ∀ other, other ≠ thread → next.calls other = world.calls other := by
    intro other different
    simp [← shape, setCall, different]
  obtain ⟨exclusive, backed⟩ := sound.exchange thread module calls
    (fun other different => by simp [modules, different]) (fun _ _ => by rw [heap]) (by
      rw [old, holds_absent absent, holds_thread, idle, append_nil,
        holds_module (modules ▸ Finset.mem_insert_self ..) (heap ▸ found)]
      exact Subperm.refl _)
  have stays : ∀ {function owner}, world.BelongsTo function owner →
      next.BelongsTo function owner := by
    rintro function owner ⟨member, belongs⟩
    simp only [BelongsTo, modules, heap, functionHeap]
    exact ⟨Finset.mem_insert_of_mem member, belongs⟩
  refine sound.after thread (by rw [← shape]; exact sound.unfaulted) calls exclusive ?_ ?_ ?_ ?_ ?_
    (by rw [idle]; trivial)
  · intro agent resource held
    have exist := backed agent resource held
    rw [← shape]
    cases resource <;> exact exist
  · intro other member
    rw [modules] at member
    rw [heap]
    rcases Finset.mem_insert.mp member with rfl | member
    · exact isSome_iff_exists.mpr ⟨record, found⟩
    · exact sound.loaded other member
  · intro function member
    obtain ⟨owner, belongs⟩ := sound.linked function (functions ▸ member)
    exact ⟨owner, stays belongs⟩
  · intro other member record' found' function lists
    rw [modules] at member
    rw [heap] at found'
    rcases Finset.mem_insert.mp member with rfl | member
    · obtain rfl := some.inj (found.symm.trans found')
      simp [empty] at lists
    · have listed := sound.listed other member record' found' function lists
      exact ⟨functions ▸ listed.1, stays listed.2⟩
  · intro other _
    refine ⟨?_, ?_, fun _ _ => by rw [heap], fun _ _ => by rw [functionHeap]⟩
    · rintro held serial _ ⟨member, entry⟩
      exact ⟨modules ▸ Finset.mem_insert_of_mem member, heap ▸ entry⟩
    · rintro entry record' ⟨member, found'⟩ _
      exact ⟨functions ▸ member, functionHeap ▸ found'⟩

/-- The second section of `cuModuleGetFunction`, while the module is in the table. -/
theorem Sound.linkFunction (here : world.calls thread = .described module serial function) :
    (linkFunction world thread module serial function).Sound := by
  have ok := sound.calls thread
  rw [here] at ok
  obtain ⟨loaded, record, description, pointer, number⟩ := ok
  obtain ⟨owner, live, found, ownerNumber⟩ := loaded.module?
  have old : world.holds (.thread thread) = [.function function] := by
    rw [holds_thread, here, resources]
  simp only [Modules.linkFunction, live]
  generalize shape : ({ world with functions := insert function world.functions }.setModule module
    (some { owner with functions := owner.functions ++ [function] })).setCall thread .idle = next
  have foundNext : next.moduleHeap module =
      some { owner with functions := owner.functions ++ [function] } := by
    simp [← shape, setCall, setModule]
  have heap : ∀ other, other ≠ module → next.moduleHeap other = world.moduleHeap other := by
    intro other different
    simp [← shape, setCall, setModule, different]
  have calls : ∀ other, other ≠ thread → next.calls other = world.calls other := by
    intro other different
    simp [← shape, setCall, setModule, different]
  have modules : next.modules = world.modules := by rw [← shape]; rfl
  have functions : next.functions = insert function world.functions := by rw [← shape]; rfl
  have functionHeap : next.functionHeap = world.functionHeap := by rw [← shape]; rfl
  have idle : next.calls thread = .idle := by simp [← shape, setCall]
  obtain ⟨exclusive, backed⟩ := sound.exchange thread module calls
    (fun other _ => by rw [modules]) heap (by
      rw [old, holds_thread, idle, holds_module loaded.1 found,
        holds_module (modules ▸ loaded.1) foundNext]
      apply Perm.subperm
      simp only [resources, ModuleRecord.resources, ModuleRecord.ownedPath, map_append,
        map_cons, map_nil, nil_append, append_assoc, singleton_append]
      exact (perm_middle.cons _).trans (.swap ..))
  have mine : next.BelongsTo function module :=
    ⟨modules ▸ loaded.1, record, functionHeap ▸ description, pointer, _, foundNext,
      number.trans ownerNumber.symm, by simp⟩
  have stays : ∀ {other holder}, world.BelongsTo other holder → next.BelongsTo other holder := by
    rintro other holder ⟨member, entry, foundEntry, pointer, owner', found', same, lists⟩
    refine ⟨modules ▸ member, entry, functionHeap ▸ foundEntry, pointer, ?_⟩
    by_cases eq : holder = module
    · subst eq
      obtain rfl := some.inj (found.symm.trans found')
      exact ⟨_, foundNext, same, mem_append_left _ lists⟩
    · exact ⟨owner', (heap holder eq).trans found', same, lists⟩
  refine sound.after thread (by rw [← shape]; exact sound.unfaulted) calls exclusive ?_ ?_ ?_ ?_ ?_
    (by rw [idle]; trivial)
  · intro agent resource held
    have exist := backed agent resource held
    cases resource with
    | function other => exact (congrArg isSome (congrFun functionHeap other)).trans exist
    | file path => rw [← shape]; exact exist
    | module other =>
      by_cases eq : other = module
      · simp [Exists, eq, foundNext]
      · exact (congrArg isSome (heap other eq)).trans exist
  · intro other member
    by_cases eq : other = module
    · simp [eq, foundNext]
    · rw [heap other eq]
      exact sound.loaded other (modules ▸ member)
  · intro other member
    rw [functions] at member
    rcases Finset.mem_insert.mp member with rfl | member
    · exact ⟨module, mine⟩
    · obtain ⟨holder, belongs⟩ := sound.linked other member
      exact ⟨holder, stays belongs⟩
  · intro other member record' found' listedFunction lists
    rw [modules] at member
    rw [functions]
    by_cases eq : other = module
    · subst eq
      obtain rfl := some.inj (foundNext.symm.trans found')
      rcases mem_append.mp lists with lists | last
      · have listed := sound.listed other member owner found listedFunction lists
        exact ⟨Finset.mem_insert_of_mem listed.1, stays listed.2⟩
      · obtain rfl := mem_singleton.mp last
        exact ⟨Finset.mem_insert_self .., mine⟩
    · rw [heap other eq] at found'
      have listed := sound.listed other member record' found' listedFunction lists
      exact ⟨Finset.mem_insert_of_mem listed.1, stays listed.2⟩
  · intro other different
    refine ⟨?_, ?_, ?_, fun _ _ => congrFun functionHeap _⟩
    · rintro held serial' _ ⟨member, record', found', same⟩
      refine ⟨modules ▸ member, ?_⟩
      by_cases eq : held = module
      · subst eq
        obtain rfl := some.inj (found.symm.trans found')
        exact ⟨_, foundNext, same⟩
      · exact ⟨record', (heap held eq).trans found', same⟩
    · rintro entry record' ⟨member, found'⟩ _
      exact ⟨functions ▸ Finset.mem_insert_of_mem member, functionHeap ▸ found'⟩
    · intro held member
      apply heap
      rintro rfl
      rw [← holds_thread] at member
      cases sound.exclusive.apart member (sound.holdsItself loaded.1)

/-- The section of `cuModuleUnload`, on a module that no call is going to use. -/
theorem Sound.eraseModule (here : world.calls thread = .unloading module)
    (unused : ∀ other, ¬ world.Pins (world.calls other) module) :
    (eraseModule world thread module).Sound := by
  unfold Modules.eraseModule
  by_cases inTable : module ∈ world.modules
  case neg =>
    rw [if_neg inTable]
    exact sound.stands (by rw [here]; rfl) trivial
  rw [if_pos inTable]
  obtain ⟨record, found⟩ := isSome_iff_exists.mp (sound.loaded module inTable)
  have held := holds_module inTable found
  have nodup := sound.nodup_functions inTable found
  have live : (record.functions.all fun function => (world.functionHeap function).isSome) := by
    refine all_eq_true.mpr fun function member => ?_
    exact sound.backed (.module module) _ (held ▸ mem_resources_function member)
  simp only [found, if_pos (show _ ∧ _ from ⟨nodup, live⟩)]
  generalize shape : ({ world with
    modules := world.modules.erase module
    functions := world.functions \ record.functions.toFinset
    moduleHeap := update world.moduleHeap module (some { record with functions := [] })
    functionHeap := fun function =>
      if function ∈ record.functions then none else world.functionHeap function
    calls := update world.calls thread
      (.erased module record.serial record.ownedPath) } : World) = next
  have modules : next.modules = world.modules.erase module := by rw [← shape]
  have functions : next.functions = world.functions \ record.functions.toFinset := by rw [← shape]
  have heap : ∀ other, other ≠ module → next.moduleHeap other = world.moduleHeap other := by
    intro other different
    simp [← shape, different]
  have foundNext : next.moduleHeap module = some { record with functions := [] } := by
    simp [← shape]
  have functionHeap : ∀ function, function ∉ record.functions →
      next.functionHeap function = world.functionHeap function := by
    intro function absent
    simp [← shape, absent]
  have stands : next.calls thread = .erased module record.serial record.ownedPath := by
    simp [← shape]
  have calls : ∀ other, other ≠ thread → next.calls other = world.calls other := by
    intro other different
    simp [← shape, different]
  obtain ⟨exclusive, backed⟩ := sound.exchange thread module calls
    (fun other different => by simp [modules, different]) heap (by
      rw [holds_absent (by simp [modules]), holds_thread, holds_thread, here, stands, held,
        append_nil]
      exact (sublist_append_right _ _).cons_cons _ |>.subperm)
  -- The functions of the module are those of no other agent.
  have apart : ∀ {agent function}, agent ≠ .module module →
      .function function ∈ world.holds agent → function ∉ record.functions := by
    intro agent function different other member
    exact sound.distinctModule inTable found different other (mem_resources_function member) rfl
  have stays : ∀ {function holder}, holder ≠ module → world.BelongsTo function holder →
      function ∉ record.functions ∧ next.BelongsTo function holder := by
    rintro function holder different
      ⟨member, entry, foundEntry, pointer, owner, found', same, lists⟩
    have absent : function ∉ record.functions := by
      have other : Resource.function function ∈ world.holds (.module holder) := by
        rw [holds_module member found']
        exact mem_resources_function lists
      exact apart (by simp [different]) other
    exact ⟨absent, modules ▸ Finset.mem_erase.mpr ⟨different, member⟩, entry,
      (functionHeap function absent).trans foundEntry, pointer, owner,
      (heap holder different).trans found', same, lists⟩
  refine sound.after thread (by rw [← shape]; exact sound.unfaulted) calls exclusive ?_ ?_ ?_ ?_ ?_
    (by rw [stands]; exact ⟨_, foundNext, rfl⟩)
  · intro agent resource mine
    have exist := backed agent resource mine
    cases resource with
    | file path => rw [← shape]; exact exist
    | module other =>
      by_cases eq : other = module
      · simp [Exists, eq, foundNext]
      · exact (congrArg isSome (heap other eq)).trans exist
    | function function =>
      refine (congrArg isSome (functionHeap function ?_)).trans exist
      by_cases left : agent = .thread thread
      · simp [left, stands, resources, mem_fileOf] at mine
      · by_cases right : agent = .module module
        · rw [right, holds_absent (by simp [modules])] at mine
          cases mine
        · have others : ∀ other, other ≠ module →
              (other ∈ next.modules ↔ other ∈ world.modules) :=
            fun other different => by simp [modules, different]
          rw [holds_rest calls others heap agent left right] at mine
          exact apart right mine
  · intro other member
    obtain ⟨different, member⟩ := Finset.mem_erase.mp (modules ▸ member)
    rw [heap other different]
    exact sound.loaded other member
  · intro function member
    rw [functions, Finset.mem_sdiff, List.mem_toFinset] at member
    obtain ⟨holder, belongs⟩ := sound.linked function member.1
    refine ⟨holder, (stays ?_ belongs).2⟩
    rintro rfl
    obtain ⟨_, _, _, _, owner, found', _, lists⟩ := belongs
    obtain rfl := some.inj (found.symm.trans found')
    exact member.2 lists
  · intro other member record' found' function lists
    obtain ⟨different, member⟩ := Finset.mem_erase.mp (modules ▸ member)
    rw [heap other different] at found'
    obtain ⟨linked, belongs⟩ := sound.listed other member record' found' function lists
    obtain ⟨absent, belongs⟩ := stays different belongs
    rw [functions, Finset.mem_sdiff, List.mem_toFinset]
    exact ⟨⟨linked, absent⟩, belongs⟩
  · intro other different
    refine ⟨?_, ?_, ?_, ?_⟩
    · rintro pinned serial pins ⟨member, entry⟩
      have other : pinned ≠ module := fun eq => unused other (eq ▸ pins)
      exact ⟨modules ▸ Finset.mem_erase.mpr ⟨other, member⟩, (heap pinned other).symm ▸ entry⟩
    · rintro function entry ⟨member, foundEntry⟩ pins
      have other : entry.module ≠ module := fun eq => unused other (eq ▸ pins)
      have absent : function ∉ record.functions := by
        intro lists
        obtain ⟨_, _, _, foundEntry', pointer, _⟩ :=
          sound.listed module inTable record found _ lists
        obtain rfl := some.inj (foundEntry.symm.trans foundEntry')
        exact other pointer
      refine ⟨?_, (functionHeap function absent).trans foundEntry⟩
      rw [functions, Finset.mem_sdiff, List.mem_toFinset]
      exact ⟨member, absent⟩
    · intro mine member
      apply heap
      rw [← holds_thread] at member
      rintro rfl
      cases sound.exclusive.apart member (sound.holdsItself inTable)
    · intro mine member
      rw [← holds_thread] at member
      exact functionHeap mine (apart (by simp) member)

theorem Sound.getFunction (module : Handle) (name : String)
    (here : world.calls thread = .idle) : (getFunction world thread module name).Sound := by
  unfold Modules.getFunction
  by_cases inTable : module ∈ world.modules
  · obtain ⟨record, found⟩ := isSome_iff_exists.mp (sound.loaded module inTable)
    simp only [if_pos inTable, found]
    exact sound.stands (by rw [here]; rfl) ⟨inTable, record, found, rfl⟩
  · rw [if_neg inTable]
    exact sound

theorem Sound.linked_of_mem
    (member : function ∈ world.functions) : ∃ record, world.Linked function record := by
  obtain ⟨module, _, record, found, _⟩ := sound.linked function member
  exact ⟨record, member, found⟩

theorem Sound.launchFunction (function : Handle)
    (here : world.calls thread = .idle) : (launchFunction world thread function).Sound := by
  unfold Modules.launchFunction
  by_cases member : function ∈ world.functions
  · obtain ⟨record, linked⟩ := sound.linked_of_mem member
    simp only [if_pos member, linked.2]
    exact sound.stands (by rw [here]; rfl) ⟨record, linked, rfl⟩
  · rw [if_neg member]
    exact sound

/-- `query_function_properties` reads a function of the table, and its module. -/
theorem Sound.queryFunctionProperties (function : Handle)
    (here : world.calls thread = .idle) :
    (queryFunctionProperties world thread function).Sound := by
  unfold Modules.queryFunctionProperties
  by_cases member : function ∈ world.functions
  · obtain ⟨record, linked⟩ := sound.linked_of_mem member
    obtain ⟨owner, live⟩ := sound.module?_of_linked linked
    simp only [if_pos member, linked.2, live]
    exact sound.stands (by rw [here]; rfl) trivial
  · rw [if_neg member]
    exact sound

theorem Sound.describeKernel (here : world.calls thread = .launching function serial) :
    (describeKernel world thread function serial).Sound := by
  have ok := sound.calls thread
  rw [here] at ok
  obtain ⟨record, linked, rfl⟩ := ok
  obtain ⟨owner, live⟩ := sound.module?_of_linked linked
  simp only [Modules.describeKernel, linked.function?, live]
  exact sound.stands (by rw [here]; rfl) ⟨record, linked, rfl, rfl, rfl⟩

/-- The invariant is kept by every step that unloads no module in use and stages no file of a path
in use. -/
theorem Sound.step (undisturbed : Undisturbed world move) (stepped : step world move = some next) :
    next.Sound := by
  obtain ⟨thread, action⟩ := move
  have ok := sound.calls thread
  unfold Modules.step at stepped
  simp only at stepped
  split at stepped
  · next path here =>
    cases stepped
    exact sound.stands (by rw [here]; rfl) trivial
  · next here =>
    cases stepped
    exact sound.stands (by rw [here]; rfl) trivial
  · next path owns here =>
    cases stepped
    refine sound.files (if owns then some path else none) rfl ?_ ?_ ?_ trivial
    · exact fun agent _ file held => Finset.mem_insert_of_mem (sound.backed agent _ held)
    · intro file owned
      cases owns with
      | false => cases owned
      | true =>
        cases owned
        exact .inr (by simpa only [Undisturbed, here] using undisturbed)
    · intro file owned
      cases owns with
      | false => cases owned
      | true =>
        cases owned
        exact Finset.mem_insert_self ..
  · next removed here =>
    cases stepped
    refine sound.files none rfl ?_ nofun
      nofun trivial
    intro agent _ file held
    refine Finset.mem_sdiff.mpr ⟨sound.backed agent _ held, ?_⟩
    rw [mem_toFinset]
    rintro rfl
    have unowned : ∀ agent, .file file ∉ world.holds agent := by
      simpa only [Undisturbed, here] using undisturbed
    exact unowned agent held
  · next path owns module here =>
    split at stepped
    · next allowed =>
      cases stepped
      exact sound.create here rfl rfl allowed.2
    · cases stepped
  · next path owns here =>
    cases stepped
    cases owns with
    | false => exact sound.stands (by rw [here]; rfl) trivial
    | true => exact sound.stands (by rw [here]; rfl) trivial
  · next module record here =>
    cases stepped
    exact sound.insertModule here
  · next path here =>
    cases stepped
    refine sound.files none rfl ?_ nofun
      nofun trivial
    intro agent different file held
    refine Finset.mem_erase.mpr ⟨?_, sound.backed agent _ held⟩
    rintro rfl
    exact sound.distinct different held (by rw [here, resources]; exact mem_cons_self) rfl
  · next module name here =>
    cases stepped
    exact sound.getFunction module name here
  · next module serial name function here =>
    split at stepped
    · next free =>
      cases stepped
      exact sound.allocateFunction here free
    · cases stepped
  · next module serial name here =>
    cases stepped
    exact sound.stands (by rw [here]; rfl) trivial
  · next module serial function sidecar recorded here =>
    cases stepped
    exact sound.describeFunction sidecar recorded here
  · next module serial function here =>
    cases stepped
    exact sound.linkFunction here
  · next function here =>
    cases stepped
    exact sound.launchFunction function here
  · next function serial here =>
    cases stepped
    exact sound.stands (by rw [here]; rfl) trivial
  · next function serial here =>
    rw [here] at ok
    obtain ⟨record, linked, rfl⟩ := ok
    rw [linked.function?, if_pos isSome_some] at stepped
    cases stepped
    exact sound.stands (by rw [here]; rfl) trivial
  · next function serial here =>
    cases stepped
    exact sound.describeKernel here
  · next function serial module moduleSerial here =>
    rw [here] at ok
    obtain ⟨record, linked, rfl, rfl, rfl⟩ := ok
    obtain ⟨owner, live⟩ := sound.module?_of_linked linked
    rw [linked.function?, live, if_pos ⟨isSome_some, isSome_some⟩] at stepped
    cases stepped
    exact sound.stands (by rw [here]; rfl) trivial
  · next function here =>
    cases stepped
    exact sound.queryFunctionProperties function here
  · next here =>
    cases stepped
    exact sound.stands (by rw [here]; rfl) trivial
  · next module here =>
    cases stepped
    exact sound.stands (by rw [here]; rfl) trivial
  · next module here =>
    cases stepped
    exact sound.eraseModule here (by simpa only [Undisturbed, here] using undisturbed)
  · next module serial ownedPath here =>
    cases stepped
    exact sound.deleteModule here
  · next ownedPath here =>
    cases stepped
    refine sound.files none rfl ?_ nofun
      nofun trivial
    intro agent different file held
    refine Finset.mem_sdiff.mpr ⟨sound.backed agent _ held, ?_⟩
    rw [mem_toFinset]
    rintro rfl
    exact sound.distinct different held (by simp [here, resources, fileOf]) rfl
  · cases stepped

end

theorem sound_empty : ({} : World).Sound := by
  have nothing : ∀ agent, ({} : World).holds agent = [] := by
    intro agent
    cases agent <;> rfl
  refine ⟨rfl, ⟨fun agent => by simp [nothing], ?_⟩, ?_, ?_, ?_, ?_, fun _ => trivial⟩
  · intro first second resource held
    simp [nothing] at held
  · intro agent resource held
    simp [nothing] at held
  · exact fun _ member => absurd member (Finset.notMem_empty _)
  · exact fun _ member => absurd member (Finset.notMem_empty _)
  · exact fun _ member => absurd member (Finset.notMem_empty _)

theorem Sound.valid (sound : world.Sound) : world.Valid := by
  refine ⟨?_, sound.unfaulted, ?_⟩
  · intro function member
    obtain ⟨_, inTable, record, found, rfl, owner, foundOwner, _, lists⟩ :=
      sound.linked function member
    have nodup := sound.nodup_functions inTable foundOwner
    exact ⟨record, owner, found, inTable, foundOwner, count_eq_one_of_mem nodup lists⟩
  · intro module member
    obtain ⟨record, found⟩ := isSome_iff_exists.mp (sound.loaded module member)
    refine ⟨record, found, ?_⟩
    intro path owned
    refine sound.backed (.module module) (.file path) ?_
    rw [holds_module member found]
    exact mem_cons_of_mem _ (mem_append_right _ (mem_fileOf.mpr ⟨path, owned, rfl⟩))

end World

/-- In every run from the first state whose steps unload no module in use, and stage no file of a
path in use, modules and functions are always valid. -/
theorem modules_valid {trail : List (World × Nat × Action)} {last : World}
    (run : Run (Steps step) {} trail last)
    (undisturbed : ∀ visited ∈ trail, Undisturbed visited.1 visited.2) :
    Always World.Valid trail last := by
  have always : Always World.Sound trail last :=
    run.invariant (fun _ _ _ sound good stepped => sound.step good stepped) sound_empty
      undisturbed
  exact ⟨fun visited member => (always.1 visited member).valid, always.2.valid⟩

section

variable {world next : World} {move : Nat × Action}

/-- A step leaves the calls of the other threads where they are. -/
theorem calls_of_step (stepped : step world move = some next) {other : Nat}
    (apart : other ≠ move.1) : next.calls other = world.calls other := by
  obtain ⟨thread, action⟩ := move
  have mine : ∀ call, update world.calls thread call other = world.calls other :=
    fun call => update_of_ne apart ..
  simp only [step] at stepped
  split at stepped
  all_goals try split at stepped
  all_goals cases stepped
  all_goals
    try simp only [getFunction, allocateFunction, describeFunction, linkFunction, launchFunction,
      describeKernel, queryFunctionProperties, Modules.eraseModule, deleteModule]
    repeat' split
  all_goals simp [setCall, setModule, setFunction, fault, mine]

/-- The call uses no module. -/
def Call.standsAside : Call → Bool
  | .idle | .unloading _ => true
  | _ => false

/-- Two threads take turns: nobody uses a module when one is unloaded, and what is staged is new. -/
def takesTurn (world : World) (move : Nat × Action) : Bool :=
  move.1 < 2 &&
    match move.2 with
    | .erase => (world.calls 0).standsAside && (world.calls 1).standsAside
    | .stage path _ => path ∉ world.files
    | .stageFails _ => false
    | _ => true

/-- The invariant, and no other thread is in a call. -/
def Turns (world : World) : Prop := world.Sound ∧ ∀ thread, 2 ≤ thread → world.calls thread = .idle

theorem undisturbed_of_turns (turns : Turns world) (takes : takesTurn world move = true) :
    Undisturbed world move := by
  obtain ⟨sound, others⟩ := turns
  obtain ⟨thread, action⟩ := move
  obtain ⟨-, takes⟩ := (Bool.and_eq_true ..).mp takes
  have aside : ∀ (module : Handle) {call : Call}, call.standsAside = true →
      ¬ world.Pins call module := by
    intro module call stands
    cases call with
    | idle | unloading => exact id
    | _ => cases stands
  have fresh : ∀ path, path ∉ world.files → ∀ agent, .file path ∉ world.holds agent :=
    fun path new agent held => new (sound.backed agent _ held)
  unfold Undisturbed
  split
  next module _ erases =>
    dsimp only at erases
    rw [erases, Bool.and_eq_true] at takes
    rintro (_ | _ | other)
    · exact aside module takes.1
    · exact aside module takes.2
    · rw [others _ (by omega)]
      exact id
  next path stages =>
    dsimp only at stages
    rw [stages] at takes
    exact fresh path (of_decide_eq_true takes)
  next fails =>
    dsimp only at fails
    rw [fails] at takes
    cases takes
  next => trivial

theorem Turns.step (turns : Turns world) (takes : takesTurn world move = true)
    (stepped : Modules.step world move = some next) : Turns next := by
  refine ⟨turns.1.step (undisturbed_of_turns turns takes) stepped, fun thread many => ?_⟩
  have few := of_decide_eq_true ((Bool.and_eq_true ..).mp takes).1
  rw [calls_of_step stepped (by omega)]
  exact turns.2 thread many

end

/-- One thread loads a module from an image, a second one makes a function of it, which the first
one launches while the second one is about to unload the module. -/
def sharedModule : List (Nat × Action) :=
  [(0, .loadData), (0, .stage "module.metallib" true), (0, .create 16), (0, .insert),
    (1, .getFunction 16 "k"), (1, .allocate 32), (1, .describe none none), (1, .link),
    (0, .launch 32), (1, .unload 16), (0, .describeKernel), (0, .launchKernel), (1, .erase),
    (1, .delete), (1, .removeFile)]

theorem sharedModule_valid : ∃ trail last,
    trail.map Prod.snd = sharedModule ∧ Always World.Valid trail last := by
  have ran : (Guarded.execute (fun world move =>
      if takesTurn world move = true then step world move else none) {} sharedModule).isSome =
        true := by decide +kernel
  obtain ⟨last, executed⟩ := isSome_iff_exists.mp ran
  obtain ⟨trail, moves, run, takes⟩ :=
    @Guarded.run_of_guarded _ _ step (fun world move => takesTurn world move = true) _ _ _ _ executed
  have turns : Always Turns trail last :=
    run.invariant (fun _ _ _ turns takes stepped => turns.step takes stepped)
      ⟨sound_empty, fun _ _ => rfl⟩ takes
  exact ⟨trail, last, moves, modules_valid run fun visited mem =>
    undisturbed_of_turns (turns.1 visited mem) (takes visited mem)⟩

/-- From here a run may use a record that is gone. -/
def MayFault (world : World) : Prop :=
  ∃ trail last, Run (Steps step) world trail last ∧ last.faulted = true

theorem MayFault.of_step {world next : World} (stepped : step world move = some next)
    (later : MayFault next) : MayFault world := by
  obtain ⟨trail, last, run, faulted⟩ := later
  exact ⟨_, last, .cons stepped run, faulted⟩

section

variable {world : World} {module function : Handle} {serial : Nat} {name : String}

/-- A thread describes a function of a module that has been deleted since it checked it. -/
theorem mayFault_validated (first : world.calls 0 = .validated module serial name)
    (gone : world.moduleHeap module = none) (free : world.Free function) : MayFault world := by
  have allocates : step world (0, .allocate function) =
      some (allocateFunction world 0 module serial name function) := by
    simp [step, first, free]
  refine .of_step allocates ?_
  have describes : step (allocateFunction world 0 module serial name function)
      (0, .describe none none) =
        some ((allocateFunction world 0 module serial name function).fault 0) := by
    simp [step, allocateFunction, setCall, setFunction, describeFunction,
      module?, gone]
  exact .of_step describes ⟨_, _, .nil _, rfl⟩

theorem mayFault_erased {files : Option String}
    (first : world.calls 0 = .validated module serial name)
    (second : world.calls 1 = .erased module serial files)
    (found : world.moduleHeap module = some record) (number : record.serial = serial)
    (free : world.Free function) : MayFault world := by
  have live : world.module? module serial = some record := by simp [module?, found, number]
  have deletes : step world (1, .delete) =
      some ((world.setModule module none).setCall 1 (.deleted files)) := by
    simp [step, second, deleteModule, live]
  refine .of_step deletes ?_
  obtain ⟨valid, noModule, noFunction⟩ := free
  have other : function ≠ module := by
    rintro rfl
    simp [noModule] at found
  generalize eq : (world.setModule module none).setCall 1 (.deleted files) = deleted
  have first : deleted.calls 0 = .validated module serial name := by
    simp [← eq, setCall, setModule, first]
  have gone : deleted.moduleHeap module = none := by simp [← eq, setCall, setModule]
  have free : deleted.Free function :=
    ⟨valid, by simp [← eq, setCall, setModule, other, noModule],
      by simp [← eq, setCall, setModule, noFunction]⟩
  exact mayFault_validated first gone free

/-- Thread 1 unloads a module after thread 0 has checked it for `cuModuleGetFunction`. Thread 0 then
reads the path of a record that is gone. -/
theorem mayFault_idle (inTable : module ∈ world.modules) (first : world.calls 0 = .idle)
    (second : world.calls 1 = .idle) (found : world.moduleHeap module = some record)
    (empty : record.functions = []) (free : world.Free function) (name : String) :
    MayFault world := by
  have checks : step world (0, .getFunction module name) =
      some (world.setCall 0 (.validated module record.serial name)) := by
    simp [step, first, getFunction, inTable, found]
  refine .of_step checks ?_
  generalize eq : world.setCall 0 (.validated module record.serial name) = checked
  have unloads : step checked (1, .unload module) =
      some (checked.setCall 1 (.unloading module)) := by
    simp [step, ← eq, setCall, second]
  refine .of_step unloads ?_
  have erases : step (checked.setCall 1 (.unloading module)) (1, .erase) =
      some (eraseModule (checked.setCall 1 (.unloading module)) 1 module) := by
    simp [step, setCall]
  refine .of_step erases ?_
  have erased : eraseModule (checked.setCall 1 (.unloading module)) 1 module =
      ({ checked with modules := checked.modules.erase module }.setModule module
        (some { record with functions := [] })).setCall 1
          (.erased module record.serial record.ownedPath) := by
    simp [eraseModule, ← eq, inTable, found, empty, setCall, setModule]
  rw [erased]
  obtain ⟨valid, noModule, noFunction⟩ := free
  have other : function ≠ module := by
    rintro rfl
    simp [noModule] at found
  generalize eq' : ({ checked with modules := checked.modules.erase module }.setModule module
    (some { record with functions := [] })).setCall 1
      (.erased module record.serial record.ownedPath) = erased
  have free : erased.Free function :=
    ⟨valid, by simp [← eq', ← eq, setCall, setModule, other, noModule],
      by simp [← eq', ← eq, setCall, setModule, noFunction]⟩
  have first : erased.calls 0 = .validated module record.serial name := by
    simp [← eq', ← eq, setCall, setModule]
  have second : erased.calls 1 = .erased module record.serial record.ownedPath := by
    simp [← eq', setCall]
  have found : erased.moduleHeap module = some { record with functions := [] } := by
    simp [← eq', setCall, setModule]
  exact mayFault_erased first second found rfl free

end

/-- Modules and functions are not valid in all runs. -/
theorem racingUnload_faults : ¬ ∀ trail last, Run (Steps step) {} trail last →
    Always World.Valid trail last := by
  intro valid
  have mayFault : MayFault {} :=
    .of_step (show step {} (0, .loadData) = some _ from rfl)
    (.of_step (show step _ (0, .stage "module.metallib" true) = some _ from rfl)
    (.of_step (show step _ (0, .create 16) = some _ from rfl)
    (.of_step (show step _ (0, .insert) = some _ from rfl)
    (mayFault_idle (by exact Finset.mem_insert_self 16 ∅) rfl rfl rfl rfl
      (show World.Free _ 32 from ⟨by decide, rfl, rfl⟩) "k"))))
  obtain ⟨trail, last, run, faulted⟩ := mayFault
  have unfaulted := (valid trail last run).2.unfaulted
  rw [faulted] at unfaulted
  cases unfaulted

end CuMetal.Driver.Modules
