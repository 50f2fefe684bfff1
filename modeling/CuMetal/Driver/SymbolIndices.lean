import CuMetal.Driver.SymbolFacts
import CuMetal.Ir.HiddenFacts
import CuMetal.Metal.BufferIndices
import CuMetal.Runtime.LaunchAgreement

/-!
# Agreement of symbol indices

The symbols that the driver finds in the printed signature of a kernel are those that the importer
gave the kernel hidden arguments for, exactly when names survive the printing and no word of the
signature contains the text of another symbol.
-/

namespace CuMetal.Driver

open List ExternalSymbol Runtime.Launch

open Ir (ExternalGlobalInfo KernelSource NvvmParameter Role Signature)
open Metal (HiddenParameter IsSearchWord MslType cleanName isWordChar separators signatureWords
  toString_digits)
open Runtime.Launch (Host RegisteredKernel Slot launchArguments slotAt)

def ExternalSymbol.info (symbol : ExternalSymbol) : ExternalGlobalInfo :=
  ⟨symbol.name, symbol.constant⟩

/-- The parameters of a kernel's arguments (`lower_to_msl.cpp:5230-5263`); the lowering chooses their
types. -/
def loweredParameters (signature : Signature) (types : List MslType) : List HiddenParameter :=
  (signature.arguments.zip types).zipIdx.map fun entry =>
    { type := entry.1.2
      name := entry.1.1.1
      attributes :=
        [{ name := "buffer", index := some (Metal.bindingIndexOf signature.kernelAbi entry.2) }] }

/-- A kernel of an executable: what the importer made of it, and the text that was generated from
that. The lowering adds parameters of its own. -/
structure NativeKernel where
  parameters : List NvvmParameter
  references : ExternalGlobalInfo → Bool
  usesVprintf : Bool
  signature : Signature
  types : List MslType
  lowering : List HiddenParameter
  generated : GeneratedText
  imported : Ir.allocateFunction true parameters references
    (generated.symbols.map ExternalSymbol.info) usesVprintf = .ok signature
  typed : types.length = signature.arguments.length
  emitted : generated.parameters = loweredParameters signature types ++ lowering

namespace NativeKernel

def source (kernel : NativeKernel) : KernelSource :=
  .nvvm kernel.parameters kernel.references (kernel.generated.symbols.map ExternalSymbol.info)
    kernel.usesVprintf

/-- Whether the kernel takes a symbol: a variable in a hidden argument of its own, or a constant in
the buffer of all constants. -/
def takes (kernel : NativeKernel) (symbol : ExternalSymbol) : Bool :=
  if symbol.constant then kernel.source.usesConstants else kernel.references symbol.info

/-- The indices of the symbols that the kernel takes. -/
def takenIndices (kernel : NativeKernel) : List Nat :=
  (kernel.generated.symbols.zipIdx.filter fun entry => kernel.takes entry.1).map Prod.snd

def words (kernel : NativeKernel) : List (List Char) :=
  signatureWords kernel.generated.kernelName kernel.generated.parameters

/-- A kernel whose symbols the printed signature tells: the names of the variables that it refers to
are identifiers, and what stands for another symbol is part of no word. -/
structure TellsSymbols (kernel : NativeKernel) : Prop where
  kept : ∀ symbol ∈ kernel.generated.symbols, symbol.constant = false →
    kernel.references symbol.info = true → cleanName symbol.name = symbol.name.toList
  unmentioned : ∀ symbol ∈ kernel.generated.symbols, symbol.constant = false →
    kernel.references symbol.info = false → ∀ word ∈ kernel.words,
      ¬ searchText symbol.name <:+: word
  constants : ∀ symbol ∈ kernel.generated.symbols, symbol.constant = true →
    kernel.source.usesConstants = false → ∀ word ∈ kernel.words, ¬ constantsText <:+: word

/-- The record of the kernel after registration. -/
def record (kernel : NativeKernel) (buffer : Nat → Nat) (descriptor : KernelDescriptor) :
    RegisteredKernel :=
  registerKernel (parseNativeSourceSymbols kernel.generated.text) buffer descriptor

/-- The driver derives the symbols that the kernel takes, and a launch puts the buffer of each
variable where the importer declared it. -/
structure BindsSymbols (kernel : NativeKernel) : Prop where
  indices : symbolIndices kernel.generated.text kernel.generated.kernelName =
    some kernel.takenIndices
  bound : ∀ (buffer : Nat → Nat) (descriptor : KernelDescriptor),
    descriptor.arguments.length = kernel.parameters.length →
    symbolIndices kernel.generated.text kernel.generated.kernelName =
      some descriptor.symbolIndices →
    ∀ (host : Host) (args : List (Option Slot)) arguments,
    (∀ i < kernel.parameters.length, (slotAt args i).isSome) →
    launchArguments host (kernel.record buffer descriptor) (some args) = some arguments →
    ∀ place name, (place, Role.globalSymbol name) ∈ kernel.source.declared →
      ∃ (index : Nat) (symbol : ExternalSymbol),
        kernel.generated.symbols[index]? = some symbol ∧ symbol.name = name ∧
        arguments[place]? = some ⟨.globalSymbol (buffer index), none⟩

end NativeKernel

variable {name : String} {symbol : ExternalSymbol}

theorem cleanName_eq_iff :
    cleanName name = name.toList ↔ ∀ c ∈ name.toList, isWordChar c = true := by
  constructor
  · intro same c mem
    rw [← same] at mem
    exact Metal.cleanName_word mem
  · intro words
    have single : ∀ c ∈ name.toList,
        (if isWordChar c then [c] else replicate c.utf8Size '_') = [c] := by
      intro c mem
      rw [if_pos (words c mem)]
    rw [cleanName, flatMap_congr single]
    exact flatMap_singleton' _

theorem word_subset (type : MslType) : ∀ c ∈ type.word, isWordChar c = true ∨ c ∈ separators := by
  have plain : ∀ type : MslType, ∀ c ∈ type.text.toList, isWordChar c = true ∨ c ∈ separators := by
    intro type c mem
    refine (type.text_chars mem).imp_right fun mark => ?_
    have marks : [' ', '*', '&'] ⊆ separators := by decide
    exact marks mark
  induction type with
  | pointer element space ih => exact ih
  | reference element space ih => exact ih
  | _ => exact plain _

/-- The words of a signature have no other characters than those of identifiers and the marks. -/
theorem signatureWords_chars {parameters : List HiddenParameter}
    (attributes : ∀ parameter ∈ parameters, ∀ attribute_ ∈ parameter.attributes, ∀ c ∈
      attribute_.name.toList, isWordChar c = true) :
    ∀ word ∈ signatureWords name parameters, ∀ c ∈ word,
      isWordChar c = true ∨ c ∈ separators := by
  intro word mem c inside
  rcases mem_cons.mp mem with rfl | mem
  · exact .inl (Metal.sanitizeIdentifier_word _ inside)
  obtain ⟨parameter, here, mem⟩ := mem_flatMap.mp mem
  rcases mem_cons.mp mem with rfl | mem
  · exact word_subset _ c inside
  rcases mem_cons.mp mem with rfl | mem
  · exact .inl (Metal.sanitizeIdentifier_word _ inside)
  obtain ⟨attribute_, attached, mem⟩ := mem_flatMap.mp mem
  rcases mem_cons.mp mem with rfl | mem
  · exact .inl (attributes parameter here attribute_ attached c inside)
  · obtain ⟨index, _, rfl⟩ := Option.map_eq_some_iff.mp (Option.mem_toList.mp mem)
    exact .inl (Metal.isWordChar_of_isDigit (toString_digits index inside))

theorem searchText_eq (name : String) :
    searchText name = "cm___cumetal_global_".toList ++ name.toList := by
  simp [searchText]

theorem searchText_search (plain : symbol.IsPlain) :
    IsSearchWord (searchText symbol.name) where
  plain c separator := by
    rw [searchText_eq, mem_append, not_or]
    exact ⟨not_mem_of_all (by decide) c separator, plain.name c separator⟩
  long := by
    rw [searchText_eq, length_append]
    exact Nat.lt_add_right _ (by decide)

theorem constantsText_search : IsSearchWord constantsText :=
  ⟨not_mem_of_all (by decide), by decide⟩

theorem filter_indices {α : Type} {items : List α} {takes finds : α → Bool} :
    (items.zipIdx.filter fun entry => finds entry.1).map Prod.snd =
        (items.zipIdx.filter fun entry => takes entry.1).map Prod.snd ↔
      ∀ item ∈ items, finds item = takes item := by
  have mem_indices : ∀ (test : α → Bool) (i : Nat),
      i ∈ (items.zipIdx.filter fun entry => test entry.1).map Prod.snd ↔
        ∃ item, items[i]? = some item ∧ test item = true := by
    intro test i
    simp only [mem_map, mem_filter]
    constructor
    · rintro ⟨⟨item, j⟩, ⟨mem, passes⟩, rfl⟩
      exact ⟨item, mem_zipIdx_iff_getElem?.mp mem, passes⟩
    · rintro ⟨item, here, passes⟩
      exact ⟨(item, i), ⟨mem_zipIdx_iff_getElem?.mpr here, passes⟩, rfl⟩
  constructor
  · intro same item mem
    obtain ⟨i, inside, rfl⟩ := mem_iff_getElem.mp mem
    have iff_ := mem_indices finds i
    rw [same, mem_indices takes i] at iff_
    simp only [getElem?_eq_getElem inside, Option.some.injEq, exists_eq_left'] at iff_
    exact Bool.eq_iff_iff.mpr iff_.symm
  · intro agree
    refine congrArg _ (filter_congr fun entry mem => agree entry.1 ?_)
    exact (mem_zipIdx' mem).2 ▸ getElem_mem _

namespace NativeKernel

section

variable (kernel : NativeKernel)

theorem distinct_names :
    ((kernel.generated.symbols.map info).map ExternalGlobalInfo.name).Nodup := by
  rw [map_map]
  exact kernel.generated.distinct

theorem allocates : ∃ scope middle,
    scope.state.signature = kernel.signature ∧
      Ir.Allocates true kernel.parameters kernel.references
        (kernel.generated.symbols.map info) kernel.usesVprintf scope middle := by
  have imported := kernel.imported
  rw [← Ir.allocateScope_signature] at imported
  cases allocated : Ir.allocateScope true kernel.parameters kernel.references
      (kernel.generated.symbols.map info) kernel.usesVprintf with
  | error _ =>
    rw [allocated] at imported
    cases imported
  | ok scope =>
    rw [allocated] at imported
    obtain ⟨middle, spec⟩ := Ir.allocateScope_spec kernel.distinct_names allocated
    exact ⟨scope, middle, Except.ok.inj imported, spec⟩

theorem global_argument (mem : symbol ∈ kernel.generated.symbols)
    (constant : symbol.constant = false) (referenced : kernel.references symbol.info = true) :
    ∃ argument ∈ kernel.signature.arguments, argument.1 = "__cumetal_global_" ++ symbol.name := by
  obtain ⟨scope, middle, same, spec⟩ := kernel.allocates
  obtain ⟨i, other, own, shares, _⟩ :=
    spec.allocated.own symbol.info (mem_map_of_mem mem) referenced (.inl constant)
  have variable_ : other.constant = false ∧ other.name = symbol.name := by
    simpa [Ir.sharesArgument, info, constant] using shares
  refine ⟨Ir.hiddenArgument other, ?_, ?_⟩
  · rw [← same]
    change _ ∈ scope.arguments
    rw [spec.arguments, spec.allocated.arguments]
    exact mem_append_left _ (mem_append_right _
      (mem_map_of_mem (mem_of_getElem? own)))
  · rw [Ir.hiddenArgument, if_neg (by simp [variable_.1]), variable_.2]

theorem constants_argument (uses : kernel.source.usesConstants = true) :
    ∃ argument ∈ kernel.signature.arguments, argument.1 = Ir.constantsName := by
  obtain ⟨scope, middle, same, spec⟩ := kernel.allocates
  have refers : ((kernel.generated.symbols.map info).any fun other =>
      kernel.references other && other.constant) = true := ((Bool.and_eq_true _ _).mp uses).1
  have named := spec.allocated.names
  rw [refers, Bool.or_true] at named
  obtain ⟨argument, mem, name⟩ := any_eq_true.mp named
  refine ⟨argument, ?_, by simpa using name⟩
  rw [← same]
  change _ ∈ scope.arguments
  rw [spec.arguments]
  exact mem_append_left _ mem

end

variable {argument : String × Ir.IrType}

theorem argument_parameter (kernel : NativeKernel) (mem : argument ∈ kernel.signature.arguments) :
    ∃ parameter ∈ kernel.generated.parameters, parameter.name = argument.1 := by
  obtain ⟨i, inside, rfl⟩ := mem_iff_getElem.mp mem
  have typed : i < kernel.types.length := kernel.typed ▸ inside
  have entry : ((kernel.signature.arguments[i], kernel.types[i]), i) ∈
      (kernel.signature.arguments.zip kernel.types).zipIdx := by
    refine mem_zipIdx_iff_getElem?.mpr ?_
    rw [getElem?_zip_eq_some]
    exact ⟨getElem?_eq_getElem inside, getElem?_eq_getElem typed⟩
  rw [kernel.emitted]
  exact ⟨_, mem_append_left _ (mem_map.mpr ⟨_, entry, rfl⟩), rfl⟩

theorem argument_word (kernel : NativeKernel) (mem : argument ∈ kernel.signature.arguments) :
    (Metal.sanitizeIdentifier argument.1).toList ∈ kernel.words := by
  obtain ⟨parameter, here, name⟩ := kernel.argument_parameter mem
  rw [← name]
  exact mem_cons_of_mem _
    (mem_flatMap.mpr ⟨parameter, here, mem_cons_of_mem _ mem_cons_self⟩)

/-- The text of a search occurs in the signature exactly if it occurs in a word. -/
theorem occurs_iff (kernel : NativeKernel) {pattern : List Char} (search : IsSearchWord pattern) :
    pattern <:+: kernel.generated.signature ↔ ∃ word ∈ kernel.words, pattern <:+: word :=
  search.signature ..

def finds (kernel : NativeKernel) (symbol : ExternalSymbol) : Bool :=
  symbol.constant && constantsText <:+: kernel.generated.signature ||
    !symbol.constant && searchText symbol.name <:+: kernel.generated.signature

section

variable (kernel : NativeKernel)

theorem symbolIndices_eq :
    symbolIndices kernel.generated.text kernel.generated.kernelName =
      some ((kernel.generated.symbols.zipIdx.filter fun entry => kernel.finds entry.1).map
        Prod.snd) := by
  rw [symbolIndices, kernel.generated.kernelSignature_text, kernel.generated.parse_text,
    Option.map_some, zipIdx_map, filter_map, map_map]
  rfl

/-- The driver finds the constants of a kernel that takes them, and else those that a word names. -/
theorem finds_constant (constant : symbol.constant = true) :
    kernel.finds symbol = kernel.takes symbol ↔ (kernel.source.usesConstants = false →
      ∀ word ∈ kernel.words, ¬ constantsText <:+: word) := by
  have occurs := kernel.occurs_iff constantsText_search
  simp only [finds, takes, constant, Bool.true_and, Bool.not_true, Bool.false_and, Bool.or_false,
    if_true]
  cases uses : kernel.source.usesConstants with
  | false =>
    rw [decide_eq_false_iff_not, occurs]
    push Not
    exact ⟨fun absent _ => absent, fun absent => absent rfl⟩
  | true =>
    obtain ⟨argument, mem, name⟩ := kernel.constants_argument uses
    have word := kernel.argument_word mem
    rw [name] at word
    have found : constantsText <:+: kernel.generated.signature :=
      occurs.mpr ⟨_, word, by decide⟩
    simp [found]

/-- The driver finds a variable that the kernel refers to exactly if its name is printed as it is,
and another one exactly if a word has its text. -/
theorem finds_variable (mem : symbol ∈ kernel.generated.symbols)
    (constant : symbol.constant = false) :
    kernel.finds symbol = kernel.takes symbol ↔
      (kernel.references symbol.info = true → cleanName symbol.name = symbol.name.toList) ∧
      (kernel.references symbol.info = false → ∀ word ∈ kernel.words,
        ¬ searchText symbol.name <:+: word) := by
  have plain := kernel.generated.plain symbol mem
  have occurs := kernel.occurs_iff (searchText_search plain)
  simp only [finds, takes, constant, Bool.false_and, Bool.not_false, Bool.true_and, Bool.false_or,
    Bool.false_eq_true, if_false]
  cases referenced : kernel.references symbol.info with
  | false =>
    rw [decide_eq_false_iff_not, occurs]
    push Not
    exact ⟨fun absent => ⟨fun used => Bool.noConfusion used, fun _ => absent⟩,
      fun absent => absent.2 rfl⟩
  | true =>
    rw [decide_eq_true_iff, occurs]
    constructor
    · rintro ⟨word, inside, here⟩
      refine ⟨fun _ => cleanName_eq_iff.mpr fun c letter => ?_,
        fun unused => Bool.noConfusion unused⟩
      have letter' : c ∈ searchText symbol.name := by
        rw [searchText_eq]
        exact mem_append_right _ letter
      refine (signatureWords_chars kernel.generated.attributes word inside c
        (here.subset letter')).resolve_right fun mark => ?_
      exact plain.name c mark letter
    · intro kept
      obtain ⟨argument, inside, name⟩ := kernel.global_argument mem constant referenced
      have word := kernel.argument_word inside
      rw [name, Metal.sanitizeIdentifier_hidden, kept.1 rfl, ← searchText_eq] at word
      exact ⟨_, word, infix_rfl⟩

theorem indices_iff :
    symbolIndices kernel.generated.text kernel.generated.kernelName = some kernel.takenIndices ↔
      kernel.TellsSymbols := by
  rw [symbolIndices_eq, Option.some.injEq, takenIndices, filter_indices]
  constructor
  · intro agree
    refine ⟨fun symbol mem constant => ?_, fun symbol mem constant => ?_,
      fun symbol mem constant => ?_⟩
    · exact ((kernel.finds_variable mem constant).mp (agree symbol mem)).1
    · exact ((kernel.finds_variable mem constant).mp (agree symbol mem)).2
    · exact (kernel.finds_constant constant).mp (agree symbol mem)
  · intro tells symbol mem
    cases constant : symbol.constant with
    | false =>
      exact (kernel.finds_variable mem constant).mpr
        ⟨tells.kept symbol mem constant, tells.unmentioned symbol mem constant⟩
    | true => exact (kernel.finds_constant constant).mpr (tells.constants symbol mem constant)

end

/-! ## What a launch binds -/

/-- The variables that the kernel takes, with their indices. -/
def takenVariables (kernel : NativeKernel) : List (ExternalSymbol × Nat) :=
  kernel.generated.symbols.zipIdx.filter fun entry =>
    kernel.references entry.1.info && !entry.1.constant

theorem globalNames_eq (kernel : NativeKernel) :
    kernel.source.globalNames = kernel.takenVariables.map fun entry => entry.1.name := by
  have symbols : kernel.generated.symbols = kernel.generated.symbols.zipIdx.map Prod.fst :=
    (zipIdx_map_fst 0 _).symm
  rw [source, KernelSource.globalNames, filter_map, map_map, takenVariables]
  conv_lhs => rw [symbols]
  rw [filter_map, map_map]
  rfl

/-- The variable of an entry, after registration. -/
def registered (buffer : Nat → Nat) (entry : ExternalSymbol × Nat) : Runtime.Launch.GlobalSymbol :=
  ⟨entry.1.name, some (buffer entry.2), entry.1.source.size⟩

theorem record_globalSymbols (kernel : NativeKernel) (buffer : Nat → Nat)
    {descriptor : KernelDescriptor} (indices : descriptor.symbolIndices = kernel.takenIndices) :
    (kernel.record buffer descriptor).globalSymbols =
      kernel.takenVariables.map (registered buffer) := by
  change descriptor.symbolIndices.filterMap (globalAt _ buffer) = _
  rw [indices, takenIndices, takenVariables, filterMap_map, ← filterMap_eq_map',
    filterMap_filter, filterMap_filter]
  refine filterMap_congr fun entry mem => ?_
  have here : (parseNativeSourceSymbols kernel.generated.text)[entry.2]? =
      some entry.1.source := by
    rw [kernel.generated.parse_text, getElem?_map, mem_zipIdx_iff_getElem?.mp mem]
    rfl
  simp only [Function.comp_apply, globalAt, here, Option.bind_some, takes, registered]
  change (if _ then (if entry.1.constant = true then none else _) else none) = _
  cases entry.1.constant with
  | true => simp
  | false =>
    cases kernel.references entry.1.info with
    | false => simp
    | true =>
      simp only [Bool.false_eq_true, if_false, if_true, Bool.not_false]
      rfl

theorem resolved (kernel : NativeKernel) (buffer : Nat → Nat) (descriptor : KernelDescriptor) :
    (kernel.record buffer descriptor).argInfoResolved = true := rfl

variable {kernel : NativeKernel}

theorem declared_global {place : Nat}
    (declared : (place, Role.globalSymbol name) ∈ kernel.source.declared) :
    ∃ j, place = kernel.parameters.length + j ∧ kernel.source.globalNames[j]? = some name := by
  simp only [KernelSource.declared, mem_append] at declared
  rcases declared with ((parameter | global) | printing) | constants
  · obtain ⟨i, _, same⟩ := mem_map.mp parameter
    cases same
  · obtain ⟨entry, mem, same⟩ := mem_map.mp global
    obtain ⟨inside, here⟩ := mem_zipIdx_iff_le_and_getElem?_sub.mp mem
    cases same
    exact ⟨entry.2 - kernel.parameters.length, (Nat.add_sub_cancel' inside).symm, here⟩
  · split at printing
    · simp at printing
    · cases printing
  · split at constants
    · simp at constants
    · cases constants

/-- The list of a launch has the variables after the arguments of the caller. -/
theorem launchArguments_globals {host : Host} {record : RegisteredKernel}
    {args : List (Option Slot)} {arguments : List Runtime.Launch.KernelArg}
    (resolved : record.argInfoResolved = true)
    (slots : ∀ i < record.argInfo.length, (slotAt args i).isSome)
    (listed : launchArguments host record (some args) = some arguments) :
    ∀ (j : Nat) symbol, record.globalSymbols[j]? = some symbol →
      ∃ argument, arguments[record.argInfo.length + j]? = some argument ∧
        globalArgument symbol = some argument := by
  obtain ⟨count, users, globals, _, _, _, _, counted, usersBuilt, globalsBuilt, -, -, -, -, rfl⟩ :=
    launchArguments_parts listed
  have all : count = record.argInfo.length := by
    unfold argCount at counted
    simp only [resolved, if_true] at counted
    split at counted
    · cases counted
      exact leadingSlots_of_all slots
    · next empty =>
        cases counted
        have none_ : record.argInfo = [] := by simpa using empty
        rw [none_]
        rfl
  have userCount : users.length = record.argInfo.length := by
    rw [← all]
    simpa using (congrArg length usersBuilt).symm
  intro j symbol here
  have built := congrArg (·[j]?) globalsBuilt
  simp only [getElem?_map, here, Option.map_some] at built
  obtain ⟨argument, found, same⟩ := Option.map_eq_some_iff.mp built.symm
  refine ⟨argument, ?_, same.symm⟩
  simp only [append_assoc]
  rw [getElem?_append_right (by omega), userCount, Nat.add_sub_cancel_left,
    List.getElem?_append_left (List.getElem?_eq_some_iff.mp found).1, found]

/-- With the right indices every variable is bound where the kernel expects it. -/
theorem bound_of_indices
    (indices : symbolIndices kernel.generated.text kernel.generated.kernelName = some
      kernel.takenIndices) : kernel.BindsSymbols where
  indices := indices
  bound buffer descriptor length derived host args arguments slots listed place name declared := by
    rw [indices, Option.some.injEq] at derived
    obtain ⟨j, rfl, named⟩ := declared_global declared
    rw [globalNames_eq, getElem?_map] at named
    obtain ⟨entry, here, rfl⟩ := Option.map_eq_some_iff.mp named
    have count : (kernel.record buffer descriptor).argInfo.length = kernel.parameters.length :=
      length
    obtain ⟨argument, placed, built⟩ := launchArguments_globals (resolved kernel buffer descriptor)
      (by rwa [count]) listed j (registered buffer entry) (by
        rw [record_globalSymbols kernel buffer derived.symm, getElem?_map, here]
        rfl)
    refine ⟨entry.2, entry.1, ?_, rfl, ?_⟩
    · exact mem_zipIdx_iff_getElem?.mp (mem_filter.mp (mem_of_getElem? here)).1
    · rw [← count, placed]
      unfold globalArgument registered at built
      simp only at built
      split at built
      · cases built
      · exact congrArg some (Option.some.inj built).symm

/-- A native kernel binds the symbols that it takes exactly if its signature tells them. -/
theorem bindsSymbols_iff (kernel : NativeKernel) : kernel.BindsSymbols ↔ kernel.TellsSymbols :=
  ⟨fun binds => kernel.indices_iff.mp binds.indices,
    fun tells => bound_of_indices (kernel.indices_iff.mpr tells)⟩

/-- Two variables, one of which has a name that begins with the other's. -/
private def counterSymbols : List ExternalSymbol :=
  [⟨"counter", 4, 4, 0, false, false, []⟩, ⟨"counter2", 4, 4, 0, false, false, []⟩]

/-- A kernel that refers to the second one only. -/
private def countingKernel : NativeKernel where
  parameters := []
  references info := info.name == "counter2"
  usesVprintf := false
  signature := ((Signature.start true).declare "__cumetal_global_counter2"
    (Signature.bytePointer .device) .pointer .buffer 0 (some "global_symbol:counter2")
    (some "global_symbol:counter2"))
  types := [.pointer (.uint 8) .device]
  lowering := []
  generated :=
    { symbols := counterSymbols
      kernelName := "count"
      parameters := [{ type := .pointer (.uint 8) .device
                       name := "__cumetal_global_counter2"
                       attributes := [{ name := "buffer", index := some 0 }] }]
      before := []
      between := []
      after := []
      plain := by
        intro symbol mem
        simp only [counterSymbols, List.mem_cons, List.not_mem_nil, or_false] at mem
        rcases mem with rfl | rfl
        · exact ⟨by decide, not_mem_of_all (by decide), by simp⟩
        · exact ⟨by decide, not_mem_of_all (by decide), by simp⟩
      distinct := by decide +kernel
      named := by decide +kernel
      attributes := by
        intro parameter mem attribute_ attached
        rw [List.mem_singleton.mp mem] at attached
        rw [List.mem_singleton.mp attached]
        exact List.all_eq_true.mp (by decide)
      beforeRecords := by decide +kernel
      betweenRecords := by decide +kernel
      afterRecords := by decide +kernel
      beforeKernel := by decide +kernel
      betweenKernel := by decide +kernel }
  imported := rfl
  typed := rfl
  emitted := rfl

/-- The text of the first variable is part of the word of the second one, so that the driver derives
both. -/
theorem bindsSymbols_counterexample : ¬ countingKernel.BindsSymbols := by
  intro binds
  have tells := countingKernel.indices_iff.mp binds.indices
  have word : "cm___cumetal_global_counter2".toList ∈ countingKernel.words := by decide +kernel
  refine tells.unmentioned ⟨"counter", 4, 4, 0, false, false, []⟩ ?_ rfl ?_ _ word ?_
  · exact mem_cons_self
  · decide +kernel
  · decide +kernel

end NativeKernel

end CuMetal.Driver
