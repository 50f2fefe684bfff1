import CuMetal.Runtime.Registration

/-!
# One storage for each registered variable

The books of the two registries, what each lookup may change, and that a kernel is bound to the
buffer that a copy of its variable reaches, in every run without the calls that break it.
-/

namespace CuMetal.Runtime.Registration

open CuMetal.Guarded List AssocMap

variable {P : Type} {compiler : PtxCompiler P} {s t : State P}

/-- Every variable of a native kernel is one of its module, with the buffer of that variable. -/
structure NativeBooks (native : NativeState) (nextHandle : Nat) : Prop where
  bound : ∀ handle module, native.modules.find? handle = some module → handle < nextHandle
  listed : ∀ handle module, native.modules.find? handle = some module →
    ∀ h ∈ module.hostSymbols, native.symbols.find? h ≠ none
  apart : ∀ handle handle' module module', native.modules.find? handle = some module →
    native.modules.find? handle' = some module' → ∀ h ∈ module.hostSymbols,
    h ∈ module'.hostSymbols → handle = handle'
  binds : ∀ f kernel, native.kernels.find? f = some kernel →
    ∃ handle module, native.modules.find? handle = some module ∧ f ∈ module.hostFunctions ∧
      ∀ g ∈ kernel.globalSymbols, ∃ h ∈ module.hostSymbols, ∃ symbol, g.foundBy = some h ∧ h ≠ 0 ∧
        native.symbols.find? h = some symbol ∧ symbol.constant = false ∧
        symbol.globalBuffer = g.buffer

def State.ptxOf (s : State P) (handle : Nat) : Option P :=
  (s.modules.find? handle).map RegistrationModule.ptxSource

def NativeSymbol.bare (symbol : NativeSymbol) : NativeSymbol :=
  { symbol with globalBuffer := none }

def RegistrationSymbolRecord.bare (symbol : RegistrationSymbolRecord) : RegistrationSymbolRecord :=
  { symbol with globalBuffer := none }

/-- No two variables of a fat binary share a name, and a variable is registered as the PTX has it. -/
structure FatBooks (compiler : PtxCompiler P) (s : State P) : Prop where
  positive : 0 < s.nextHandle
  bound : ∀ handle, s.ptxOf handle ≠ none → 0 < handle ∧ handle < s.nextHandle
  kernelKeys : (s.kernels.map Prod.fst).Nodup
  symbolKeys : (s.symbols.map Prod.fst).Nodup
  handles : ∀ h symbol, s.symbols.find? h = some symbol →
    symbol.moduleHandle = 0 ∨ s.ptxOf symbol.moduleHandle ≠ none
  externals : ∀ f record, s.kernels.find? f = some record →
    record.externalGlobalSymbols = [] ∨ ∃ ptx, s.ptxOf record.moduleHandle = some ptx ∧
      record.externalGlobalSymbols =
        compiler.findReferencedExternalGlobalSymbols ptx record.kernelName
  unique : ∀ h h' symbol symbol', s.symbols.find? h = some symbol →
    s.symbols.find? h' = some symbol' → symbol.moduleHandle = symbol'.moduleHandle →
    symbol.deviceName = symbol'.deviceName → symbol.moduleHandle ≠ 0 → h = h'
  sized : ∀ h symbol ptx kernelName, s.symbols.find? h = some symbol →
    s.ptxOf symbol.moduleHandle = some ptx →
    ∀ expected ∈ compiler.findReferencedExternalGlobalSymbols ptx kernelName,
      expected.name = symbol.deviceName → expected.modulePrivateInitialized = true →
      symbol.constant = false ∧ symbol.size = expected.sizeBytes

/-- The books of both registries; no variable is in both. -/
structure Books (compiler : PtxCompiler P) (s : State P) : Prop where
  native : NativeBooks s.native s.nextHandle
  fat : FatBooks compiler s
  apart : ∀ h, s.native.symbols.find? h ≠ none → s.symbols.find? h = none

theorem initial_books (compiler : PtxCompiler P) : Books compiler initial where
  native := by constructor <;> simp [initial]
  fat := by constructor <;> simp [initial, State.ptxOf]
  apart := by simp [initial]

/-- The same fat binaries, kernels and variables, but for the buffers of the variables. -/
structure Alike (s t : State P) : Prop where
  kernels : t.kernels = s.kernels
  ptxOf : ∀ handle, t.ptxOf handle = s.ptxOf handle
  nextHandle : t.nextHandle = s.nextHandle
  symbolKeys : (s.symbols.map Prod.fst).Nodup → (t.symbols.map Prod.fst).Nodup
  symbols : ∀ h, (t.symbols.find? h).map RegistrationSymbolRecord.bare =
    (s.symbols.find? h).map RegistrationSymbolRecord.bare

variable {h : Address} {symbol : RegistrationSymbolRecord} {b handle : Nat} {allocates : Bool}
  {expected : ExternalGlobalSymbol} {g : RegisteredGlobalSymbol} {prepared : List NativeSymbol}
  {descriptor : ModuleDescriptor} {map : AssocMap Address NativeSymbol} {ν : Type}

theorem Alike.find? (alike : Alike s t) (found : t.symbols.find? h = some symbol) :
    ∃ before, s.symbols.find? h = some before ∧ before.bare = symbol.bare := by
  have same := alike.symbols h
  rw [found, Option.map_some] at same
  exact Option.map_eq_some_iff.mp same.symm

theorem FatBooks.of_alike (books : FatBooks compiler s) (alike : Alike s t) :
    FatBooks compiler t where
  positive := alike.nextHandle ▸ books.positive
  bound := by simpa only [alike.ptxOf, alike.nextHandle] using books.bound
  kernelKeys := alike.kernels ▸ books.kernelKeys
  symbolKeys := alike.symbolKeys books.symbolKeys
  handles := by
    intro h symbol found
    obtain ⟨before, foundBefore, same⟩ := alike.find? found
    have modules := congrArg RegistrationSymbolRecord.moduleHandle same
    simp only [RegistrationSymbolRecord.bare] at modules
    rw [alike.ptxOf, ← modules]
    exact books.handles h before foundBefore
  externals := by
    intro f record found
    simp only [alike.ptxOf]
    exact books.externals f record (alike.kernels ▸ found)
  unique := by
    intro h h' symbol symbol' found found' module name live
    obtain ⟨before, foundBefore, same⟩ := alike.find? found
    obtain ⟨before', foundBefore', same'⟩ := alike.find? found'
    have modules := congrArg RegistrationSymbolRecord.moduleHandle same
    have modules' := congrArg RegistrationSymbolRecord.moduleHandle same'
    have names := congrArg RegistrationSymbolRecord.deviceName same
    have names' := congrArg RegistrationSymbolRecord.deviceName same'
    simp only [RegistrationSymbolRecord.bare] at modules modules' names names'
    exact books.unique h h' before before' foundBefore foundBefore'
      (by rw [modules, modules', module]) (by rw [names, names', name]) (by rwa [modules])
  sized := by
    intro h symbol ptx kernelName found ptxOf expected mem named isPrivate
    obtain ⟨before, foundBefore, same⟩ := alike.find? found
    have modules := congrArg RegistrationSymbolRecord.moduleHandle same
    have names := congrArg RegistrationSymbolRecord.deviceName same
    have constants := congrArg RegistrationSymbolRecord.constant same
    have sizes := congrArg RegistrationSymbolRecord.size same
    simp only [RegistrationSymbolRecord.bare] at modules names constants sizes
    rw [← constants, ← sizes]
    exact books.sized h before ptx kernelName foundBefore
      (by rw [modules, ← alike.ptxOf]; exact ptxOf) expected mem (by rw [names, named]) isPrivate

def State.bufferOf (s : State P) (h : Address) : Option Nat :=
  (s.symbols.find? h).bind RegistrationSymbolRecord.globalBuffer

/-- What the lookups do: variables get buffers, and keep those they have. -/
structure Fills (s t : State P) : Prop extends Alike s t where
  native : t.native = s.native
  keeps : ∀ h b, s.bufferOf h = some b → t.bufferOf h = some b

theorem Fills.refl (s : State P) : Fills s s where
  kernels := rfl
  ptxOf _ := rfl
  nextHandle := rfl
  symbolKeys := id
  symbols _ := rfl
  native := rfl
  keeps _ _ := id

theorem Fills.trans {u : State P} (first : Fills s t) (second : Fills t u) : Fills s u where
  kernels := second.kernels.trans first.kernels
  ptxOf handle := (second.ptxOf handle).trans (first.ptxOf handle)
  nextHandle := second.nextHandle.trans first.nextHandle
  symbolKeys distinct := second.symbolKeys (first.symbolKeys distinct)
  symbols h := (second.symbols h).trans (first.symbols h)
  native := second.native.trans first.native
  keeps h b found := second.keeps h b (first.keeps h b found)

theorem Books.of_fills (books : Books compiler s) (fills : Fills s t) : Books compiler t where
  native := by rw [fills.native, fills.nextHandle]; exact books.native
  fat := books.fat.of_alike fills.toAlike
  apart := by
    intro h known
    have absent := books.apart h (fills.native ▸ known)
    have same := fills.symbols h
    rw [absent] at same
    exact Option.map_eq_none_iff.mp same

def RegistrationSymbolRecord.HasStorage (symbol : RegistrationSymbolRecord) : Prop :=
  ¬ (symbol.constant ∨ !symbol.requiresMetalStorage ∨ symbol.deviceAddress = 0 ∨ symbol.size = 0)

/-- A variable of a fat binary with its buffer. -/
def FatStored (s : State P) (h : Address) (b : Nat) : Prop :=
  ∃ symbol, s.symbols.find? h = some symbol ∧ symbol.HasStorage ∧ symbol.globalBuffer = some b

theorem FatStored.of_fills (stored : FatStored s h b) (fills : Fills s t) : FatStored t h b := by
  obtain ⟨symbol, found, has, buffer⟩ := stored
  have kept := fills.keeps h b (by simp [State.bufferOf, found, buffer])
  obtain ⟨after, foundAfter, bufferAfter⟩ := Option.bind_eq_some_iff.mp kept
  obtain ⟨before, foundBefore, same⟩ := fills.find? foundAfter
  obtain rfl : symbol = before := Option.some.inj (found.symm.trans foundBefore)
  refine ⟨after, foundAfter, ?_, bufferAfter⟩
  have constants := congrArg RegistrationSymbolRecord.constant same
  have requires := congrArg RegistrationSymbolRecord.requiresMetalStorage same
  have addresses := congrArg RegistrationSymbolRecord.deviceAddress same
  have sizes := congrArg RegistrationSymbolRecord.size same
  simp only [RegistrationSymbolRecord.bare] at constants requires addresses sizes
  rw [RegistrationSymbolRecord.HasStorage, ← constants, ← requires, ← addresses, ← sizes]
  exact has

theorem fills_assign
    (found : s.symbols.find? h = some symbol) (none : symbol.globalBuffer = none) (b n : Nat) :
    Fills s { s with
      symbols := s.symbols.assign h { symbol with globalBuffer := some b }
      nextBuffer := n } where
  kernels := rfl
  ptxOf _ := rfl
  nextHandle := rfl
  symbolKeys distinct := nodup_assign distinct _ _
  symbols h' := by
    rw [find?_assign]
    by_cases same : h = h'
    · subst same
      rw [if_pos rfl, found]
      rfl
    · rw [if_neg same]
  native := rfl
  keeps h' b' kept := by
    have other : h ≠ h' := by
      rintro rfl
      simp [State.bufferOf, found, none] at kept
    simpa only [State.bufferOf, find?_assign, if_neg other] using kept

theorem ensureRegistered_spec (s : State P) (h : Address) (allocates : Bool) :
    Fills s (s.ensureRegisteredGlobalSymbolBuffer h allocates).2 ∧
      ∀ b, (s.ensureRegisteredGlobalSymbolBuffer h allocates).1 = some b →
        FatStored (s.ensureRegisteredGlobalSymbolBuffer h allocates).2 h b := by
  unfold State.ensureRegisteredGlobalSymbolBuffer
  cases found : s.symbols.find? h with
  | none => exact ⟨.refl s, by simp⟩
  | some symbol =>
    by_cases without : symbol.constant ∨ !symbol.requiresMetalStorage ∨
        symbol.deviceAddress = 0 ∨ symbol.size = 0
    · simp only [if_pos without]
      exact ⟨.refl s, by simp⟩
    · simp only [if_neg without]
      cases buffer : symbol.globalBuffer with
      | some b =>
        refine ⟨.refl s, fun b' same => ?_⟩
        cases same
        exact ⟨symbol, found, without, buffer⟩
      | none =>
        cases allocates with
        | false => exact ⟨.refl s, by simp⟩
        | true =>
          refine ⟨fills_assign found buffer _ _, fun b same => ?_⟩
          cases same
          exact ⟨{ symbol with globalBuffer := some s.nextBuffer },
            by simp [find?_assign], without, rfl⟩

theorem ensureRegistered_stored (stored : FatStored s h b)
    (allocates : Bool) : s.ensureRegisteredGlobalSymbolBuffer h allocates = (some b, s) := by
  obtain ⟨symbol, found, has, buffer⟩ := stored
  simp only [State.ensureRegisteredGlobalSymbolBuffer, found, if_neg has, buffer]

theorem ensureRegistered_none
    (none_ : (s.ensureRegisteredGlobalSymbolBuffer h allocates).1 = none) :
    (s.ensureRegisteredGlobalSymbolBuffer h allocates).2 = s := by
  unfold State.ensureRegisteredGlobalSymbolBuffer at none_ ⊢
  cases found : s.symbols.find? h with
  | none => rfl
  | some symbol =>
    by_cases without : symbol.constant ∨ !symbol.requiresMetalStorage ∨
        symbol.deviceAddress = 0 ∨ symbol.size = 0
    · simp only [if_pos without]
    · cases buffer : symbol.globalBuffer with
      | some b => simp only [found, if_neg without, buffer, reduceCtorEq] at none_
      | none =>
        cases allocates with
        | false => simp only [if_neg without, buffer, Bool.false_eq_true, if_false]
        | true => simp only [found, if_neg without, buffer, if_true, reduceCtorEq] at none_

theorem ensurePrivate_fills (s : State P) (handle : Nat) (expected : ExternalGlobalSymbol)
    (allocates : Bool) :
    Fills s (s.ensurePrivateGlobalSymbolBuffer compiler handle expected allocates).2 := by
  unfold State.ensurePrivateGlobalSymbolBuffer
  split
  · exact .refl s
  · split
    · exact .refl s
    · rename_i module found
      split
      · exact .refl s
      · split
        · refine { Fills.refl s with ptxOf := fun handle' => ?_ }
          simp only [State.ptxOf, find?_assign]
          by_cases same : handle = handle'
          · subst same
            simp [found]
          · simp [same]
        · exact .refl s

theorem registeredFor_some (distinct : (s.symbols.map Prod.fst).Nodup)
    (found : s.registeredFor handle expected = some h) :
    ∃ symbol, s.symbols.find? h = some symbol ∧ symbol.moduleHandle = handle ∧
      symbol.deviceName = expected.name := by
  obtain ⟨⟨h', symbol⟩, first, rfl⟩ := Option.map_eq_some_iff.mp found
  have holds := find?_some first
  simp only [decide_eq_true_eq] at holds
  exact ⟨symbol, (find?_eq_some_iff distinct).mpr (mem_of_find?_eq_some first),
    holds.1, holds.2.2.1⟩

theorem registeredFor_ne_none (found : s.symbols.find? h = some symbol)
    (module : symbol.moduleHandle = handle) (variable_ : symbol.constant = false)
    (name : symbol.deviceName = expected.name) (size : symbol.size = expected.sizeBytes) :
    s.registeredFor handle expected ≠ none := by
  intro absent
  have none := find?_eq_none.mp (Option.map_eq_none_iff.mp absent) _
    (mem_of_find? found)
  simp [module, variable_, name, size] at none

theorem bindGlobal_fills (s : State P) (handle : Nat) (allocates : String → Bool)
    (expected : ExternalGlobalSymbol) :
    Fills s (s.bindGlobal compiler handle allocates expected).2 := by
  unfold State.bindGlobal
  cases s.registeredFor handle expected with
  | some h => exact (ensureRegistered_spec s h _).1
  | none => exact ensurePrivate_fills s handle expected _

theorem bindGlobal_name (s : State P) (handle : Nat) (allocates : String → Bool)
    (expected : ExternalGlobalSymbol) :
    (s.bindGlobal compiler handle allocates expected).1.name = expected.name := by
  unfold State.bindGlobal
  cases s.registeredFor handle expected <;> rfl

/-- A private buffer is only made for a variable that the PTX initializes. -/
theorem ensurePrivate_isPrivate
    (made : (s.ensurePrivateGlobalSymbolBuffer compiler handle expected allocates).1 = some b) :
    expected.modulePrivateInitialized = true := by
  unfold State.ensurePrivateGlobalSymbolBuffer at made
  split at made
  · exact absurd made (by simp)
  · rename_i usable
    simp only [not_or, Bool.not_eq_true, Bool.not_eq_false'] at usable
    exact usable.2.2

/-- A reference that is bound to a buffer is bound to that of the variable of its name. -/
theorem bindGlobal_bound (books : FatBooks compiler s) {ptx : P}
    {kernelName : String} {allocates : String → Bool} (ptxOf : s.ptxOf handle = some ptx)
    (mem : expected ∈ compiler.findReferencedExternalGlobalSymbols ptx kernelName)
    (bound : (s.bindGlobal compiler handle allocates expected).1.buffer = some b)
    (found : s.symbols.find? h = some symbol) (module : symbol.moduleHandle = handle)
    (name : symbol.deviceName = expected.name) :
    FatStored (s.bindGlobal compiler handle allocates expected).2 h b := by
  have live : handle ≠ 0 := Nat.pos_iff_ne_zero.mp (books.bound handle (by simp [ptxOf])).1
  unfold State.bindGlobal at bound ⊢
  cases registered : s.registeredFor handle expected with
  | some h' =>
    rw [registered] at bound
    obtain ⟨symbol', found', module', name'⟩ := registeredFor_some books.symbolKeys registered
    obtain rfl : h = h' := books.unique h h' symbol symbol' found found'
      (module.trans module'.symm) (name.trans name'.symm) (module ▸ live)
    exact (ensureRegistered_spec s h _).2 b bound
  | none =>
    rw [registered] at bound
    obtain ⟨variable_, size⟩ := books.sized h symbol ptx kernelName found (module ▸ ptxOf)
      expected mem name.symm (ensurePrivate_isPrivate bound)
    exact absurd registered (registeredFor_ne_none found module variable_ name size)

theorem bindGlobals_fills (handle : Nat) (allocates : String → Bool)
    (expected : List ExternalGlobalSymbol) : ∀ s : State P,
    Fills s (State.bindGlobals compiler handle allocates expected s).2 := by
  induction expected with
  | nil => exact Fills.refl
  | cons first rest ih =>
    intro s
    exact (bindGlobal_fills s handle allocates first).trans (ih _)

theorem mem_bindGlobals {allocates : String → Bool}
    {expected : List ExternalGlobalSymbol} : ∀ {s : State P},
    g ∈ (State.bindGlobals compiler handle allocates expected s).1 →
    ∃ e ∈ expected, ∃ t, Fills s t ∧ g = (t.bindGlobal compiler handle allocates e).1 ∧
      Fills (t.bindGlobal compiler handle allocates e).2
        (State.bindGlobals compiler handle allocates expected s).2 := by
  induction expected with
  | nil => exact fun mem => absurd mem (by simp [State.bindGlobals])
  | cons first rest ih =>
    intro s mem
    rcases mem_cons.mp mem with rfl | mem
    · exact ⟨first, mem_cons_self, s, .refl s, rfl, bindGlobals_fills _ _ rest _⟩
    · obtain ⟨e, member, t, before, same, after⟩ := ih mem
      exact ⟨e, mem_cons_of_mem _ member, t,
        (bindGlobal_fills s handle allocates first).trans before, same, after⟩

theorem FatBooks.resolve (books : FatBooks compiler s) {f : Address} {record : RegistrationRecord}
    (found : s.kernels.find? f = some record) :
    FatBooks compiler { s with kernels := s.kernels.assign f (s.resolved compiler record) } ∧
      ((s.resolved compiler record).externalGlobalSymbols = [] ∨
        ∃ ptx, s.ptxOf (s.resolved compiler record).moduleHandle = some ptx ∧
          (s.resolved compiler record).externalGlobalSymbols =
            compiler.findReferencedExternalGlobalSymbols ptx
              (s.resolved compiler record).kernelName) := by
  have externals : (s.resolved compiler record).externalGlobalSymbols = [] ∨
      ∃ ptx, s.ptxOf (s.resolved compiler record).moduleHandle = some ptx ∧
        (s.resolved compiler record).externalGlobalSymbols =
          compiler.findReferencedExternalGlobalSymbols ptx
            (s.resolved compiler record).kernelName := by
    unfold State.resolved
    split
    · exact books.externals f record found
    · split
      · exact books.externals f record found
      · rename_i module foundModule
        exact .inr ⟨module.ptxSource, by simp [State.ptxOf, foundModule], rfl⟩
  refine ⟨{ books with kernelKeys := ?_, externals := ?_ }, externals⟩
  · exact nodup_assign books.kernelKeys _ _
  · intro f' record' found'
    rw [find?_assign] at found'
    split at found'
    · cases found'
      exact externals
    · exact books.externals f' record' found'

/-! ## Kernels and copies agree -/

/-- The variable `h` is what the kernel `f` refers to by its binding `g`. -/
def Names (s : State P) (f : Address) (g : RegisteredGlobalSymbol) (h : Address) : Prop :=
  if s.native.kernels.contains f then g.foundBy = some h
  else ∃ record symbol, s.kernels.find? f = some record ∧ s.symbols.find? h = some symbol ∧
    symbol.moduleHandle = record.moduleHandle ∧ symbol.deviceName = g.name

/-- A launch binds a variable to the buffer that the lookup of the variable returns after it. -/
def Agree (compiler : PtxCompiler P) (s : State P) : Prop :=
  ∀ f allocates kernel next, s.lookupKernel compiler f allocates = (some kernel, next) →
    ∀ g ∈ kernel.globalSymbols, ∀ b, g.buffer = some b → ∀ h, Names s f g h →
      ∀ allocates', (next.lookupSymbol h allocates').1 = some (.buffer b)

def Stored (s : State P) (h : Address) (b : Nat) : Prop :=
  (h ≠ 0 ∧ ∃ symbol, s.native.symbols.find? h = some symbol ∧ symbol.constant = false ∧
    symbol.globalBuffer = some b) ∨
  (s.native.symbols.find? h = none ∧ FatStored s h b)

theorem nativeLookup_of_absent (absent : s.native.symbols.find? h = none) :
    s.nativeLookupSymbol h = none := by
  simp [State.nativeLookupSymbol, absent]

theorem Stored.lookupSymbol (stored : Stored s h b) (allocates : Bool) :
    s.lookupSymbol h allocates = (some (.buffer b), s) := by
  rcases stored with ⟨nonzero, symbol, found, variable_, buffer⟩ | ⟨absent, stored⟩
  · have native : s.nativeLookupSymbol h = some (.buffer b) := by
      rw [State.nativeLookupSymbol, if_neg nonzero, found]
      simp [variable_, buffer]
    simp only [State.lookupSymbol, native]
  · obtain ⟨symbol, found, has, buffer⟩ := id stored
    have ensured := ensureRegistered_stored stored allocates
    simp only [RegistrationSymbolRecord.HasStorage, not_or] at has
    simp only [State.lookupSymbol, nativeLookup_of_absent absent, State.lookupRegisteredSymbol,
      found, has.2.2.1, if_false, has.1, has.2.1, or_self, ensured]
    rfl

theorem Stored.of_fills (stored : Stored s h b) (fills : Fills s t) :
    Stored t h b := by
  rcases stored with ⟨nonzero, symbol, found, rest⟩ | ⟨absent, stored⟩
  · exact .inl ⟨nonzero, symbol, by rw [fills.native]; exact found, rest⟩
  · exact .inr ⟨by rw [fills.native]; exact absent, stored.of_fills fills⟩

theorem Stored.unique {b' : Nat} (stored : Stored s h b) (stored' : Stored s h b') : b = b' := by
  have same := (stored.lookupSymbol true).symm.trans (stored'.lookupSymbol true)
  simpa using same

theorem lookupSymbol_fills (s : State P) (h : Address) (allocates : Bool) :
    Fills s (s.lookupSymbol h allocates).2 := by
  unfold State.lookupSymbol
  split
  · exact .refl s
  · unfold State.lookupRegisteredSymbol
    split
    · exact .refl s
    · split
      · exact .refl s
      · split
        · exact .refl s
        · exact (ensureRegistered_spec s h allocates).1

theorem lookupSymbol_none
    (none_ : (s.lookupSymbol h allocates).1 = none) : (s.lookupSymbol h allocates).2 = s := by
  unfold State.lookupSymbol at none_ ⊢
  cases native : s.nativeLookupSymbol h with
  | some location => rfl
  | none =>
    simp only [native] at none_ ⊢
    unfold State.lookupRegisteredSymbol at none_ ⊢
    cases found : s.symbols.find? h with
    | none => rfl
    | some symbol =>
      rw [found] at none_
      by_cases nowhere : symbol.deviceAddress = 0
      · simp only [if_pos nowhere]
      · by_cases onHost : symbol.constant = true ∨ (!symbol.requiresMetalStorage) = true
        · simp only [if_neg nowhere, if_pos onHost]
        · simp only [if_neg nowhere, if_neg onHost, Option.map_eq_none_iff] at none_ ⊢
          exact ensureRegistered_none none_

section

variable (books : Books compiler s)
include books

theorem lookupSymbol_stored (reached : (s.lookupSymbol h allocates).1 = some (.buffer b)) :
    Stored (s.lookupSymbol h allocates).2 h b := by
  unfold State.lookupSymbol at reached ⊢
  cases native : s.nativeLookupSymbol h with
  | some location =>
    simp only [native, Option.some.injEq] at reached ⊢
    subst reached
    unfold State.nativeLookupSymbol at native
    split at native
    · exact absurd native (by simp)
    · rename_i nonzero
      cases found : s.native.symbols.find? h with
      | none => simp [found] at native
      | some symbol =>
        cases variable_ : symbol.constant with
        | true => simp [found, variable_] at native
        | false => exact .inl ⟨nonzero, symbol, found, variable_, by
            simpa [found, variable_] using native⟩
  | none =>
    simp only [native] at reached ⊢
    unfold State.lookupRegisteredSymbol at reached ⊢
    cases found : s.symbols.find? h with
    | none => simp [found] at reached
    | some symbol =>
      have absent : s.native.symbols.find? h = none := by
        by_contra known
        simp [books.apart h known] at found
      rw [found] at reached
      by_cases nowhere : symbol.deviceAddress = 0
      · simp [nowhere] at reached
      · by_cases onHost : symbol.constant = true ∨ (!symbol.requiresMetalStorage) = true
        · simp only [if_neg nowhere, if_pos onHost] at reached
          simp at reached
        · simp only [if_neg nowhere, if_neg onHost, Option.map_eq_some_iff] at reached ⊢
          obtain ⟨b', made, same⟩ := reached
          cases same
          obtain ⟨fills, stored⟩ := ensureRegistered_spec s h allocates
          exact .inr ⟨fills.native ▸ absent, stored b made⟩

/-- The books after a launch's lookup, and the buffers that variables have. -/
theorem lookupKernel_keeps (f : Address) (allocates : String → Bool) :
    Books compiler (s.lookupKernel compiler f allocates).2 ∧
      ∀ h b, Stored s h b → Stored (s.lookupKernel compiler f allocates).2 h b := by
  unfold State.lookupKernel
  split
  · exact ⟨books, fun _ _ => id⟩
  · unfold State.lookupRegisteredKernel
    split
    · exact ⟨books, fun _ _ => id⟩
    · rename_i record found
      have fills : Fills { s with kernels := s.kernels.assign f (s.resolved compiler record) }
          (State.bindGlobals compiler (s.resolved compiler record).moduleHandle allocates
            (s.resolved compiler record).externalGlobalSymbols
            { s with kernels := s.kernels.assign f (s.resolved compiler record) }).2 :=
        bindGlobals_fills _ _ _ _
      have resolved : Books compiler
          { s with kernels := s.kernels.assign f (s.resolved compiler record) } :=
        { books with fat := (books.fat.resolve found).1 }
      refine ⟨resolved.of_fills fills, fun h b stored => ?_⟩
      have still : Stored
          { s with kernels := s.kernels.assign f (s.resolved compiler record) } h b := stored
      exact still.of_fills fills

theorem launch_stored {f : Address} {allocates : String → Bool} {kernel : RegisteredKernel}
    {next : State P} (launched : s.lookupKernel compiler f allocates = (some kernel, next))
    (mem : g ∈ kernel.globalSymbols) (buffer : g.buffer = some b) (names : Names s f g h) :
    Stored next h b := by
  unfold State.lookupKernel at launched
  cases native : s.native.kernels.find? f with
  | some found =>
    simp only [native, Prod.mk.injEq, Option.some.injEq] at launched
    obtain ⟨rfl, rfl⟩ := launched
    obtain ⟨_, _, _, _, binds⟩ := books.native.binds f found native
    obtain ⟨h', _, symbol, foundBy, nonzero, foundSymbol, variable_, same⟩ := binds g mem
    simp only [Names, AssocMap.contains, native, Option.isSome_some, if_true] at names
    obtain rfl : h' = h := Option.some.inj (foundBy.symm.trans names)
    exact .inl ⟨nonzero, symbol, foundSymbol, variable_, same.trans buffer⟩
  | none =>
    simp only [native] at launched
    simp only [Names, AssocMap.contains, native, Option.isSome_none, Bool.false_eq_true,
      if_false] at names
    obtain ⟨record, symbol, found, foundSymbol, module, name⟩ := names
    simp only [State.lookupRegisteredKernel, found, Prod.mk.injEq, Option.some.injEq] at launched
    obtain ⟨rfl, rfl⟩ := launched
    obtain ⟨resolved, externals⟩ := books.fat.resolve found
    have sameModule : (s.resolved compiler record).moduleHandle = record.moduleHandle := by
      unfold State.resolved
      split
      · rfl
      · split <;> rfl
    obtain ⟨e, member, u, before, rfl, after⟩ := mem_bindGlobals mem
    rw [bindGlobal_name] at name
    rcases externals with none | ⟨ptx, ptxOf, externals⟩
    · simp [none] at member
    · obtain ⟨later, foundLater, same⟩ : ∃ later, u.symbols.find? h = some later ∧
          later.bare = symbol.bare := by
        have sameBare := before.symbols h
        rw [foundSymbol] at sameBare
        exact Option.map_eq_some_iff.mp sameBare
      have modules := congrArg RegistrationSymbolRecord.moduleHandle same
      have names := congrArg RegistrationSymbolRecord.deviceName same
      simp only [RegistrationSymbolRecord.bare] at modules names
      have stored := bindGlobal_bound (resolved.of_alike before.toAlike)
        ((before.ptxOf _).trans ptxOf) (externals ▸ member) buffer foundLater
        (by rw [modules, module, sameModule]) (by rw [names, name])
      have absent : s.native.symbols.find? h = none := by
        by_contra known
        simp [books.apart h known] at foundSymbol
      refine .inr ⟨?_, stored.of_fills after⟩
      rw [((before.trans (bindGlobal_fills u _ _ e)).trans after).native]
      exact absent

theorem Books.agree : Agree compiler s := by
  intro f allocates kernel next launched g mem b buffer h names allocates'
  rw [(launch_stored books launched mem buffer names).lookupSymbol]

end

/-! ## Registration -/

theorem prepareSymbols_hosts {allocates : Address → Bool} {symbols : List SymbolDescriptor} :
    ∀ {n m : Nat} {prepared : List NativeSymbol},
    State.prepareSymbols allocates symbols n = some (prepared, m) →
    prepared.map NativeSymbol.hostSymbol = symbols.map SymbolDescriptor.hostSymbol := by
  induction symbols with
  | nil =>
    intro n m prepared made
    cases made
    rfl
  | cons symbol rest ih =>
    intro n m prepared made
    unfold State.prepareSymbols at made
    split at made
    · obtain ⟨⟨tail, m'⟩, madeTail, same⟩ := Option.map_eq_some_iff.mp made
      cases same
      rw [map_cons, map_cons, ih madeTail]
    · split at made
      · obtain ⟨⟨tail, m'⟩, madeTail, same⟩ := Option.map_eq_some_iff.mp made
        cases same
        rw [map_cons, map_cons, ih madeTail]
      · exact absurd made (by simp)

theorem mem_prepareKernel {kernel : KernelDescriptor}
    (mem : g ∈ (State.prepareKernel prepared kernel).globalSymbols) :
    ∃ symbol ∈ prepared, symbol.constant = false ∧ g.foundBy = some symbol.hostSymbol ∧
      g.buffer = symbol.globalBuffer := by
  obtain ⟨index, _, named⟩ := mem_filterMap.mp mem
  split at named
  · rename_i symbol found
    split at named
    · exact absurd named (by simp)
    · rename_i variable_
      cases named
      exact ⟨symbol, mem_of_getElem? found, by simpa using variable_, rfl, rfl⟩
  · exact absurd named (by simp)

theorem ModuleDescriptor.valid_symbols (valid : descriptor.valid = true) :
    (∀ symbol ∈ descriptor.symbols, symbol.hostSymbol ≠ 0) ∧
      (descriptor.symbols.map SymbolDescriptor.hostSymbol).Nodup := by
  simp only [ModuleDescriptor.valid, Bool.and_eq_true, all_eq_true, decide_eq_true_eq,
    bne_iff_ne] at valid
  exact ⟨fun symbol mem => (valid.1.1.1.2 symbol mem).1, valid.1.1.2⟩

theorem registerModule_cases {allocates : Address → Bool}
    (registered : s.cumetalRegisterModule descriptor allocates = some t) :
    ∃ prepared nextBuffer,
      prepared.map NativeSymbol.hostSymbol = descriptor.symbols.map SymbolDescriptor.hostSymbol ∧
      descriptor.valid = true ∧
      (∀ symbol ∈ descriptor.symbols, s.native.symbols.find? symbol.hostSymbol = none) ∧
      t = { s with
        native :=
          { symbols := s.native.symbols ++ prepared.map fun symbol => (symbol.hostSymbol, symbol)
            kernels := s.native.kernels ++ descriptor.kernels.map fun kernel =>
              (kernel.hostStub, State.prepareKernel prepared kernel)
            modules := s.native.modules ++
              [(s.nextHandle, ⟨descriptor.kernels.map KernelDescriptor.hostStub,
                descriptor.symbols.map SymbolDescriptor.hostSymbol⟩)] }
        nextHandle := s.nextHandle + 1
        nextBuffer } := by
  unfold State.cumetalRegisterModule at registered
  split at registered
  · exact absurd registered (by simp)
  · rename_i valid
    split at registered
    · exact absurd registered (by simp)
    · rename_i prepared nextBuffer made
      split at registered
      · exact absurd registered (by simp)
      · rename_i fresh
        cases registered
        refine ⟨prepared, nextBuffer, prepareSymbols_hosts made, by simpa using valid, ?_, rfl⟩
        intro symbol mem
        simp only [Bool.or_eq_true, not_or, any_eq_true, not_exists, not_and,
          AssocMap.contains, Bool.not_eq_true, Option.isSome_eq_false_iff,
          Option.isNone_iff_eq_none] at fresh
        exact fresh.2 symbol mem

/-- Variables of a new module are found by their host symbols, those of the others as before. -/
theorem find?_prepared {symbol : NativeSymbol} (found : map.find? h = some symbol) :
    AssocMap.find? (map ++ prepared.map fun symbol => (symbol.hostSymbol, symbol)) h =
      some symbol := by
  rw [AssocMap.find?_append, found, Option.some_or]

theorem find?_prepared_new
    (distinct : (prepared.map NativeSymbol.hostSymbol).Nodup) {symbol : NativeSymbol}
    (mem : symbol ∈ prepared) (fresh : map.find? symbol.hostSymbol = none) :
    AssocMap.find? (map ++ prepared.map fun symbol => (symbol.hostSymbol, symbol))
      symbol.hostSymbol = some symbol := by
  rw [AssocMap.find?_append, fresh, Option.none_or, AssocMap.find?_eq_some_iff]
  · exact mem_map.mpr ⟨symbol, mem, rfl⟩
  · simpa [map_map, Function.comp_def] using distinct

/-- The host symbols of the variables that are found after a registration. -/
theorem find?_prepared_cases
    (known : AssocMap.find? (map ++ prepared.map fun symbol => (symbol.hostSymbol, symbol)) h ≠
      none) : map.find? h ≠ none ∨ h ∈ prepared.map NativeSymbol.hostSymbol := by
  rw [AssocMap.find?_append] at known
  by_cases old : map.find? h = none
  · rw [old, Option.none_or] at known
    obtain ⟨symbol, found⟩ := Option.ne_none_iff_exists'.mp known
    obtain ⟨made, mem, same⟩ := mem_map.mp (mem_of_find? found)
    cases same
    exact .inr (mem_map.mpr ⟨_, mem, rfl⟩)
  · exact .inl old

variable {value : ν}

theorem find?_snoc_cases {map : AssocMap Nat ν} {new : Nat} {added : ν}
    (found : AssocMap.find? (map ++ [(new, added)]) handle = some value) :
    map.find? handle = some value ∨ map.find? handle = none ∧ handle = new ∧ value = added := by
  rw [AssocMap.find?_append] at found
  cases old : map.find? handle with
  | some before =>
    rw [old, Option.some_or] at found
    exact .inl found
  | none =>
    rw [old, Option.none_or] at found
    by_cases same : new = handle
    · simp only [AssocMap.find?, same, if_true, Option.some.injEq] at found
      exact .inr ⟨rfl, same.symm, found.symm⟩
    · simp [AssocMap.find?, same] at found

theorem registerModule_books (books : Books compiler s) {allocates : Address → Bool}
    (registered : s.cumetalRegisterModule descriptor allocates = some t)
    (apart : ∀ symbol ∈ descriptor.symbols, s.symbols.find? symbol.hostSymbol = none) :
    Books compiler t := by
  obtain ⟨prepared, nextBuffer, hosts, valid, fresh, rfl⟩ := registerModule_cases registered
  obtain ⟨nonzero, distinct⟩ := ModuleDescriptor.valid_symbols valid
  have newHost : ∀ h ∈ descriptor.symbols.map SymbolDescriptor.hostSymbol,
      s.native.symbols.find? h = none := by
    intro h mem
    obtain ⟨symbol, member, rfl⟩ := mem_map.mp mem
    exact fresh symbol member
  refine ⟨⟨?_, ?_, ?_, ?_⟩, { books.fat with
    positive := Nat.succ_pos _, bound := ?_ }, ?_⟩
  · intro handle module found
    rcases find?_snoc_cases found with old | ⟨_, rfl, _⟩
    · exact Nat.lt_succ_of_lt (books.native.bound handle module old)
    · exact Nat.lt_succ_self _
  · intro handle module found h mem
    rcases find?_snoc_cases found with old | ⟨_, _, rfl⟩
    · obtain ⟨symbol, known⟩ := Option.ne_none_iff_exists'.mp
        (books.native.listed handle module old h mem)
      rw [find?_prepared known]
      exact Option.some_ne_none symbol
    · obtain ⟨symbol, member, rfl⟩ := mem_map.mp (hosts ▸ mem)
      rw [find?_prepared_new (hosts ▸ distinct) member (newHost _ mem)]
      exact Option.some_ne_none symbol
  · intro handle handle' module module' found found' h mem mem'
    rcases find?_snoc_cases found with old | ⟨_, here, rfl⟩
    · rcases find?_snoc_cases found' with old' | ⟨_, here', rfl⟩
      · exact books.native.apart handle handle' module module' old old' h mem mem'
      · exact absurd (newHost h mem') (books.native.listed handle module old h mem)
    · rcases find?_snoc_cases found' with old' | ⟨_, here', rfl⟩
      · exact absurd (newHost h mem) (books.native.listed handle' module' old' h mem')
      · rw [here, here']
  · intro f kernel found
    rw [AssocMap.find?_append] at found
    cases old : s.native.kernels.find? f with
    | some before =>
      rw [old, Option.some_or] at found
      cases found
      obtain ⟨handle, module, foundModule, mem, binds⟩ := books.native.binds f _ old
      refine ⟨handle, module, ?_, mem, fun g member => ?_⟩
      · change find? (s.native.modules ++ _) handle = _
        rw [AssocMap.find?_append, foundModule, Option.some_or]
      · obtain ⟨h, hostMem, symbol, foundBy, ne, known, rest⟩ := binds g member
        exact ⟨h, hostMem, symbol, foundBy, ne, find?_prepared known, rest⟩
    | none =>
      rw [old, Option.none_or] at found
      obtain ⟨descriptorKernel, member, same⟩ := mem_map.mp (mem_of_find? found)
      cases same
      have newHandle : s.native.modules.find? s.nextHandle = none := by
        by_contra known
        obtain ⟨module, known⟩ := Option.ne_none_iff_exists'.mp known
        exact absurd (books.native.bound _ _ known) (Nat.lt_irrefl _)
      refine ⟨s.nextHandle, ⟨descriptor.kernels.map KernelDescriptor.hostStub,
        descriptor.symbols.map SymbolDescriptor.hostSymbol⟩, ?_,
        mem_map.mpr ⟨descriptorKernel, member, rfl⟩, fun g mem => ?_⟩
      · change find? (s.native.modules ++ _) s.nextHandle = _
        rw [AssocMap.find?_append, newHandle, Option.none_or, AssocMap.find?, if_pos rfl]
      · obtain ⟨symbol, prepares, variable_, foundBy, buffer⟩ := mem_prepareKernel mem
        have host : symbol.hostSymbol ∈ descriptor.symbols.map SymbolDescriptor.hostSymbol :=
          hosts ▸ mem_map.mpr ⟨symbol, prepares, rfl⟩
        refine ⟨symbol.hostSymbol, host, symbol, foundBy, ?_,
          find?_prepared_new (hosts ▸ distinct) prepares (newHost _ host), variable_,
          buffer.symm⟩
        obtain ⟨named, namedMem, same⟩ := mem_map.mp host
        exact same ▸ nonzero named namedMem
  · intro handle live
    have bound := books.fat.bound handle live
    exact ⟨bound.1, Nat.lt_succ_of_lt bound.2⟩
  · intro h known
    rcases find?_prepared_cases known with old | new
    · exact books.apart h old
    · obtain ⟨symbol, mem, rfl⟩ := mem_map.mp (hosts ▸ new)
      exact apart symbol mem

theorem find?_erased {κ : Type} [DecidableEq κ] {map : AssocMap κ ν} {erased : List κ} {key : κ}
    (found : AssocMap.find? (List.filter (fun binding => decide (binding.1 ∉ erased)) map) key =
      some value) : key ∉ erased ∧ map.find? key = some value := by
  rw [find?_filter_key map (fun key => decide (key ∉ erased))] at found
  split at found
  · rename_i kept
    exact ⟨by simpa using kept, found⟩
  · exact absurd found (by simp)

theorem find?_kept {κ : Type} [DecidableEq κ] {map : AssocMap κ ν} {erased : List κ}
    {key : κ} (kept : key ∉ erased) :
    AssocMap.find? (List.filter (fun binding => decide (binding.1 ∉ erased)) map) key =
      map.find? key := by
  rw [find?_filter_key map (fun key => decide (key ∉ erased)), if_pos (by simpa using kept)]

theorem find?_without {map : AssocMap Nat ν} {key : Nat}
    (found : AssocMap.find? (List.filter (fun binding => decide (binding.1 ≠ handle)) map) key =
      some value) : key ≠ handle ∧ map.find? key = some value := by
  rw [find?_filter_key map (fun key => decide (key ≠ handle))] at found
  split at found
  · rename_i kept
    exact ⟨by simpa using kept, found⟩
  · exact absurd found (by simp)

theorem find?_other {map : AssocMap Nat ν} {key : Nat} (other : key ≠ handle) :
    AssocMap.find? (List.filter (fun binding => decide (binding.1 ≠ handle)) map) key =
      map.find? key := by
  rw [find?_filter_key map (fun key => decide (key ≠ handle)),
    if_pos (by simpa using other)]

theorem unregisterModule_books (books : Books compiler s) (handle : Nat) :
    Books compiler (s.cumetalUnregisterModule handle) := by
  unfold State.cumetalUnregisterModule
  split
  · exact books
  · rename_i gone foundGone
    -- A module that stays has none of the variables of the one that goes.
    have stays : ∀ handle' module, handle' ≠ handle →
        s.native.modules.find? handle' = some module → ∀ h ∈ module.hostSymbols,
        h ∉ gone.hostSymbols :=
      fun handle' module other found h mem mem' =>
        other (books.native.apart handle' handle module gone found foundGone h mem mem')
    refine ⟨⟨?_, ?_, ?_, ?_⟩, { books.fat with }, ?_⟩
    · intro handle' module found
      exact books.native.bound handle' module (find?_without found).2
    · intro handle' module found h mem
      obtain ⟨other, found⟩ := find?_without found
      rw [find?_kept (stays handle' module other found h mem)]
      exact books.native.listed handle' module found h mem
    · intro handle₁ handle₂ module₁ module₂ found₁ found₂
      exact books.native.apart handle₁ handle₂ module₁ module₂ (find?_without found₁).2
        (find?_without found₂).2
    · intro f kernel found
      obtain ⟨kept, found⟩ := find?_erased found
      obtain ⟨handle', module, foundModule, mem, binds⟩ := books.native.binds f kernel found
      have other : handle' ≠ handle := by
        rintro rfl
        cases foundGone.symm.trans foundModule
        exact kept mem
      refine ⟨handle', module, (find?_other other).trans foundModule, mem, fun g member => ?_⟩
      obtain ⟨h, hostMem, symbol, foundBy, nonzero, known, rest⟩ := binds g member
      exact ⟨h, hostMem, symbol, foundBy, nonzero,
        (find?_kept (stays handle' module other foundModule h hostMem)).trans known, rest⟩
    · intro h known
      obtain ⟨symbol, known⟩ := Option.ne_none_iff_exists'.mp known
      exact books.apart h (by rw [(find?_erased known).2]; exact Option.some_ne_none symbol)

theorem registerFatBinary_books (books : Books compiler s) (ptx : P) :
    Books compiler (s.cudaRegisterFatBinary ptx) := by
  have grows : ∀ handle ptx', s.ptxOf handle = some ptx' →
      (s.cudaRegisterFatBinary ptx).ptxOf handle = some ptx' := by
    intro handle ptx' live
    obtain ⟨module, found, rfl⟩ := Option.map_eq_some_iff.mp live
    simp only [State.ptxOf, State.cudaRegisterFatBinary, AssocMap.find?_append, found,
      Option.some_or, Option.map_some]
  have bound : ∀ handle, (s.cudaRegisterFatBinary ptx).ptxOf handle ≠ none →
      0 < handle ∧ handle < s.nextHandle + 1 := by
    intro handle live
    obtain ⟨ptx', live⟩ := Option.ne_none_iff_exists'.mp live
    obtain ⟨module, found, rfl⟩ := Option.map_eq_some_iff.mp live
    rcases find?_snoc_cases found with old | ⟨_, rfl, _⟩
    · have bound := books.fat.bound handle (by simp [State.ptxOf, old])
      exact ⟨bound.1, Nat.lt_succ_of_lt bound.2⟩
    · exact ⟨books.fat.positive, Nat.lt_succ_self _⟩
  refine ⟨{ books.native with bound := ?_ }, { books.fat with
    positive := Nat.succ_pos _, bound, handles := ?_, externals := ?_, sized := ?_ }, books.apart⟩
  · intro handle module found
    exact Nat.lt_succ_of_lt (books.native.bound handle module found)
  · intro h symbol found
    refine (books.fat.handles h symbol found).imp_right fun live => ?_
    obtain ⟨ptx', live⟩ := Option.ne_none_iff_exists'.mp live
    rw [grows _ _ live]
    exact Option.some_ne_none ptx'
  · intro f record found
    refine (books.fat.externals f record found).imp_right ?_
    rintro ⟨ptx', live, same⟩
    exact ⟨ptx', grows _ _ live, same⟩
  · intro h symbol ptx' kernelName found live
    rcases books.fat.handles h symbol found with null | known
    · have positive := (bound symbol.moduleHandle (by rw [live]; exact Option.some_ne_none _)).1
      exact absurd null (Nat.pos_iff_ne_zero.mp positive)
    · obtain ⟨before, known⟩ := Option.ne_none_iff_exists'.mp known
      rw [grows _ _ known] at live
      cases live
      exact books.fat.sized h symbol _ kernelName found known

theorem find?_value {map : AssocMap Address ν} (keeps : ν → Prop) [DecidablePred keeps]
    (distinct : (map.map Prod.fst).Nodup) {key : Address} :
    AssocMap.find? (List.filter (fun binding => decide (keeps binding.2)) map) key = some value ↔
      map.find? key = some value ∧ keeps value := by
  rw [find?_filter_value distinct (fun value => decide (keeps value)),
    Option.filter_eq_some_iff, decide_eq_true_eq]

theorem unregisterFatBinary_books (books : Books compiler s) (handle : Nat) :
    Books compiler (s.cudaUnregisterFatBinary handle) := by
  unfold State.cudaUnregisterFatBinary
  split
  · exact books
  · rename_i live
    have symbols : ∀ {h symbol}, find? (filter
        (fun binding => decide (binding.2.moduleHandle ≠ handle)) s.symbols) h = some symbol →
        s.symbols.find? h = some symbol ∧ symbol.moduleHandle ≠ handle := fun found =>
      (find?_value (fun symbol : RegistrationSymbolRecord => symbol.moduleHandle ≠ handle)
        books.fat.symbolKeys).mp found
    have ptxOf : ∀ {handle'}, handle' ≠ handle → ∀ {next : State P},
        next.modules = filter (fun binding => decide (binding.1 ≠ handle)) s.modules →
        next.ptxOf handle' = s.ptxOf handle' := by
      intro handle' other next same
      rw [State.ptxOf, same, find?_other other]
      rfl
    refine ⟨books.native, ⟨books.fat.positive, ?_, ?_, ?_, ?_, ?_, ?_, ?_⟩, ?_⟩
    · intro handle' found
      obtain ⟨ptx, live'⟩ := Option.ne_none_iff_exists'.mp found
      obtain ⟨module, foundModule, _⟩ := Option.map_eq_some_iff.mp live'
      refine books.fat.bound handle' ?_
      rw [State.ptxOf, (find?_without foundModule).2]
      exact Option.some_ne_none _
    · exact books.fat.kernelKeys.sublist (filter_sublist.map _)
    · exact books.fat.symbolKeys.sublist (filter_sublist.map _)
    · intro h symbol found
      obtain ⟨found, other⟩ := symbols found
      rw [ptxOf other rfl]
      exact books.fat.handles h symbol found
    · intro f record found
      obtain ⟨found, other⟩ := (find?_value
        (fun record : RegistrationRecord => record.moduleHandle ≠ handle) books.fat.kernelKeys).mp found
      rw [ptxOf other rfl]
      exact books.fat.externals f record found
    · intro h h' symbol symbol' found found'
      exact books.fat.unique h h' symbol symbol' (symbols found).1 (symbols found').1
    · intro h symbol ptx kernelName found live'
      obtain ⟨found, other⟩ := symbols found
      rw [ptxOf other rfl] at live'
      exact books.fat.sized h symbol ptx kernelName found live'
    · intro h known
      rw [Option.eq_none_iff_forall_ne_some]
      intro symbol found
      exact absurd ((books.apart h known).symm.trans (symbols found).1) (by simp)

theorem registerFunction_books (books : Books compiler s) (handle : Nat) (f : Address)
    (deviceFunction deviceName : String) :
    Books compiler (s.cudaRegisterFunction handle f deviceFunction deviceName) := by
  unfold State.cudaRegisterFunction
  split
  · exact books
  · refine { books with fat := { books.fat with kernelKeys := ?_, externals := ?_ } }
    · exact nodup_assign books.fat.kernelKeys _ _
    · intro f' record found
      rw [find?_assign] at found
      split at found
      · cases found
        exact .inl rfl
      · exact books.fat.externals f' record found

/-- What a variable of a fat binary has to be: known to no native module, and the one that the PTX
of its module initializes under that name. -/
def Declared (compiler : PtxCompiler P) (s : State P) (handle : Nat) (hostVar : Address)
    (deviceName : String) (size : Nat) (constant : Bool) : Prop :=
  s.native.symbols.find? hostVar = none ∧
    (handle = 0 ∨ ∃ ptx, s.ptxOf handle = some ptx ∧
      (∀ h symbol, s.symbols.find? h = some symbol → symbol.moduleHandle = handle →
        symbol.deviceName = deviceName → h = hostVar) ∧
      ∀ kernelName, ∀ expected ∈ compiler.findReferencedExternalGlobalSymbols ptx kernelName,
        expected.name = deviceName → expected.modulePrivateInitialized = true →
        constant = false ∧ size = expected.sizeBytes)

theorem registerVar_books (books : Books compiler s)
    {hostVar deviceAddress : Address} {addressIsName : Bool} {deviceName : String} {size : Nat}
    {constant : Bool} (declared : Declared compiler s handle hostVar deviceName size constant) :
    Books compiler
      (s.cudaRegisterVar handle hostVar deviceAddress addressIsName deviceName size constant) := by
  obtain ⟨notNative, declared⟩ := declared
  unfold State.cudaRegisterVar
  split
  · exact books
  · have cases : ∀ {h symbol added}, find? (s.symbols.assign hostVar added) h =
        some symbol → h = hostVar ∧ symbol = added ∨ s.symbols.find? h = some symbol := by
      intro h symbol added found
      rw [find?_assign] at found
      split at found
      · rename_i same
        exact .inl ⟨same.symm, (Option.some.inj found).symm⟩
      · exact .inr found
    refine ⟨books.native, ⟨books.fat.positive, books.fat.bound, books.fat.kernelKeys, ?_, ?_,
      books.fat.externals, ?_, ?_⟩, ?_⟩
    · exact nodup_assign books.fat.symbolKeys _ _
    · intro h symbol found
      rcases cases found with ⟨_, rfl⟩ | found
      · refine declared.imp id ?_
        rintro ⟨ptx, live, _⟩
        exact live ▸ Option.some_ne_none ptx
      · exact books.fat.handles h symbol found
    · intro h h' symbol symbol' found found' module name live
      rcases cases found with ⟨rfl, rfl⟩ | old
      · rcases cases found' with ⟨rfl, rfl⟩ | old'
        · rfl
        · obtain ⟨_, _, only, _⟩ := declared.resolve_left live
          exact (only h' symbol' old' module.symm name.symm).symm
      · rcases cases found' with ⟨rfl, rfl⟩ | old'
        · obtain ⟨_, _, only, _⟩ := declared.resolve_left fun null => live (module.trans null)
          exact only h symbol old module name
        · exact books.fat.unique h h' symbol symbol' old old' module name live
    · intro h symbol ptx kernelName found live expected mem named isPrivate
      rcases cases found with ⟨_, rfl⟩ | found
      · rcases declared with rfl | ⟨ptx', live', _, asDeclared⟩
        · have bound := books.fat.bound 0 (live ▸ Option.some_ne_none ptx)
          exact absurd bound.1 (Nat.lt_irrefl 0)
        · cases live.symm.trans live'
          exact asDeclared kernelName expected mem named isPrivate
      · exact books.fat.sized h symbol ptx kernelName found live expected mem named isPrivate
    · intro h known
      have other : hostVar ≠ h := by
        rintro rfl
        exact known notNative
      change find? (s.symbols.assign hostVar _) h = none
      rw [find?_assign, if_neg other]
      exact books.apart h known

theorem reset_books (books : Books compiler s)
    (unbound : ∀ f kernel, s.native.kernels.find? f = some kernel →
      ∀ g ∈ kernel.globalSymbols, g.buffer = none) : Books compiler s.resetDeviceState := by
  have native : ∀ h, s.resetDeviceState.native.symbols.find? h =
      (s.native.symbols.find? h).map NativeSymbol.bare :=
    fun h => find?_map_value s.native.symbols NativeSymbol.bare h
  have symbols : ∀ h, s.resetDeviceState.symbols.find? h =
      (s.symbols.find? h).map RegistrationSymbolRecord.bare :=
    fun h => find?_map_value s.symbols RegistrationSymbolRecord.bare h
  have alike : Alike s s.resetDeviceState :=
    { kernels := rfl
      ptxOf := by
        intro handle
        have found := find?_map_value s.modules
          (fun module => { module with privateGlobalBuffers := [] }) handle
        simp only [State.ptxOf, State.resetDeviceState, found, Option.map_map]
        rfl
      nextHandle := rfl
      symbolKeys := fun distinct => by
        simpa [State.resetDeviceState, map_map, Function.comp_def] using distinct
      symbols := by
        intro h
        rw [symbols, Option.map_map]
        rfl }
  refine ⟨⟨books.native.bound, ?_, books.native.apart, ?_⟩, books.fat.of_alike alike, ?_⟩
  · intro handle module found h mem
    rw [native]
    exact (Option.map_eq_none_iff.not).mpr (books.native.listed handle module found h mem)
  · intro f kernel found
    obtain ⟨handle, module, foundModule, mem, binds⟩ := books.native.binds f kernel found
    refine ⟨handle, module, foundModule, mem, fun g member => ?_⟩
    obtain ⟨h, hostMem, symbol, foundBy, nonzero, known, variable_, _⟩ := binds g member
    refine ⟨h, hostMem, symbol.bare, foundBy, nonzero, ?_, variable_,
      (unbound f kernel found g member).symm⟩
    rw [native, known]
    rfl
  · intro h known
    rw [native] at known
    rw [symbols, books.apart h fun absent => known (by rw [absent]; rfl)]
    rfl

/-! ## Runs -/

/-- The calls after which every kernel and every copy still agree: no variable is registered by two
modules, or otherwise than its PTX has it, and no reset drops a buffer that a native kernel binds.
-/
def Good (compiler : PtxCompiler P) (s : State P) : Action P → Prop
  | .registerModule descriptor _ =>
    ∀ symbol ∈ descriptor.symbols, s.symbols.find? symbol.hostSymbol = none
  | .registerVar handle hostVar _ _ deviceName size constant =>
    Declared compiler s handle hostVar deviceName size constant
  | .deviceReset =>
    ∀ f kernel, s.native.kernels.find? f = some kernel →
      ∀ g ∈ kernel.globalSymbols, g.buffer = none
  | _ => True

theorem call_registerModule (s : State P) (descriptor : ModuleDescriptor)
    (allocates : Address → Bool) :
    call compiler s (.registerModule descriptor allocates) =
      ((s.cumetalRegisterModule descriptor allocates).getD s,
        (s.cumetalRegisterModule descriptor allocates).isSome) := by
  simp only [call]
  cases s.cumetalRegisterModule descriptor allocates <;> rfl

theorem call_books (s : State P) (action : Action P) (t : State P) (books : Books compiler s)
    (good : Good compiler s action) (stepped : (call compiler s action).1 = t) :
    Books compiler t := by
  subst stepped
  cases action with
  | registerModule descriptor allocates =>
    rw [call_registerModule]
    cases registered : s.cumetalRegisterModule descriptor allocates with
    | none => exact books
    | some next => exact registerModule_books books registered good
  | unregisterModule handle => exact unregisterModule_books books handle
  | registerFatBinary ptx => exact registerFatBinary_books books ptx
  | unregisterFatBinary handle => exact unregisterFatBinary_books books handle
  | registerFunction handle f deviceFunction deviceName =>
    exact registerFunction_books books handle f deviceFunction deviceName
  | registerVar handle hostVar deviceAddress addressIsName deviceName size constant =>
    exact registerVar_books books good
  | launch f allocates => exact (lookupKernel_keeps books f allocates).1
  | copySymbol h allocates => exact books.of_fills (lookupSymbol_fills s h allocates)
  | deviceReset => exact reset_books books good

/-- A registration or lookup that fails leaves the registries as they were. -/
theorem call_failed (s : State P) (action : Action P) (failed : (call compiler s action).2 = false) :
    (call compiler s action).1 = s := by
  cases action with
  | registerModule descriptor allocates =>
    rw [call_registerModule] at failed ⊢
    cases registered : s.cumetalRegisterModule descriptor allocates with
    | none => rfl
    | some next => simp [registered] at failed
  | registerFunction handle f deviceFunction deviceName =>
    have refused : f = 0 ∨ State.chosenName deviceFunction deviceName = "" := by
      by_contra accepted
      simp only [call, decide_eq_false_iff_not] at failed
      exact failed (not_or.mp accepted)
    exact if_pos refused
  | registerVar handle hostVar deviceAddress addressIsName deviceName size constant =>
    have null : hostVar = 0 := by simpa [call] using failed
    exact if_pos null
  | launch f allocates =>
    change (s.lookupKernel compiler f allocates).1.isSome = false at failed
    change (s.lookupKernel compiler f allocates).2 = s
    unfold State.lookupKernel State.lookupRegisteredKernel at failed ⊢
    cases native : s.native.kernels.find? f with
    | some kernel => rfl
    | none =>
      cases found : s.kernels.find? f with
      | none => rfl
      | some record => simp [native, found] at failed
  | copySymbol h allocates =>
    exact lookupSymbol_none (Option.not_isSome_iff_eq_none.mp (by simpa [call] using failed))
  | _ => simp [call] at failed

/-- The calls after which a variable starts anew: its own registration, that of its module, the end
of either, and a reset. -/
def Renews (h : Address) (s : State P) : Action P → Prop
  | .registerModule descriptor _ => h ∈ descriptor.symbols.map SymbolDescriptor.hostSymbol
  | .unregisterModule handle =>
    ∃ module, s.native.modules.find? handle = some module ∧ h ∈ module.hostSymbols
  | .unregisterFatBinary handle =>
    ∃ symbol, s.symbols.find? h = some symbol ∧ symbol.moduleHandle = handle
  | .registerVar _ hostVar _ _ _ _ _ => hostVar = h
  | .deviceReset => True
  | _ => False

theorem call_stored {action : Action P} (books : Books compiler s)
    (stored : Stored s h b) (kept : ¬ Renews h s action) :
    Stored (call compiler s action).1 h b := by
  cases action with
  | registerModule descriptor allocates =>
    rw [call_registerModule]
    cases registered : s.cumetalRegisterModule descriptor allocates with
    | none => exact stored
    | some next =>
      obtain ⟨prepared, nextBuffer, hosts, _, _, rfl⟩ := registerModule_cases registered
      refine stored.imp ?_ ?_
      · rintro ⟨nonzero, symbol, found, rest⟩
        exact ⟨nonzero, symbol, find?_prepared found, rest⟩
      · rintro ⟨absent, rest⟩
        refine ⟨by_contra fun known => ?_, rest⟩
        rcases find?_prepared_cases known with old | new
        · exact old absent
        · refine kept ?_
          change h ∈ descriptor.symbols.map SymbolDescriptor.hostSymbol
          rwa [← hosts]
  | unregisterModule handle =>
    change Stored (s.cumetalUnregisterModule handle) h b
    unfold State.cumetalUnregisterModule
    cases found : s.native.modules.find? handle with
    | none => exact stored
    | some module =>
      have stays : h ∉ module.hostSymbols := fun mem => kept ⟨module, found, mem⟩
      refine stored.imp ?_ ?_
      · rintro ⟨nonzero, symbol, known, rest⟩
        exact ⟨nonzero, symbol, (find?_kept stays).trans known, rest⟩
      · rintro ⟨absent, rest⟩
        exact ⟨(find?_kept stays).trans absent, rest⟩
  | registerFatBinary ptx => exact stored
  | unregisterFatBinary handle =>
    change Stored (s.cudaUnregisterFatBinary handle) h b
    unfold State.cudaUnregisterFatBinary
    split
    · exact stored
    · refine stored.imp id ?_
      rintro ⟨absent, symbol, found, rest⟩
      have other : symbol.moduleHandle ≠ handle := fun same => kept ⟨symbol, found, same⟩
      exact ⟨absent, symbol,
        (find?_value (fun symbol : RegistrationSymbolRecord => symbol.moduleHandle ≠ handle) books.fat.symbolKeys).mpr ⟨found, other⟩, rest⟩
  | registerFunction handle f deviceFunction deviceName =>
    change Stored (s.cudaRegisterFunction handle f deviceFunction deviceName) h b
    unfold State.cudaRegisterFunction
    split <;> exact stored
  | registerVar handle hostVar deviceAddress addressIsName deviceName size constant =>
    change Stored
      (s.cudaRegisterVar handle hostVar deviceAddress addressIsName deviceName size constant) h b
    unfold State.cudaRegisterVar
    split
    · exact stored
    · refine stored.imp id ?_
      rintro ⟨absent, symbol, found, rest⟩
      exact ⟨absent, symbol,
        ((find?_assign _ _ _ _).trans (if_neg kept)).trans found, rest⟩
  | launch f allocates => exact (lookupKernel_keeps books f allocates).2 h b stored
  | copySymbol h' allocates => exact stored.of_fills (lookupSymbol_fills s h' allocates)
  | deviceReset => exact absurd trivial kept

/-- A copy of a variable and a later launch that refers to it, without a call between them after
which the variable starts anew, use one buffer. -/
def Seen (compiler : PtxCompiler P) (trail : List (State P × Action P)) : Prop :=
  ∀ before middle after s₁ s₂ h f allocates₁ allocates₂,
    trail = before ++ (s₁, .copySymbol h allocates₁) :: middle ++ (s₂, .launch f allocates₂) :: after →
    (∀ visited ∈ middle, ¬ Renews h visited.1 visited.2) →
    ∀ b, (s₁.lookupSymbol h allocates₁).1 = some (.buffer b) →
    ∀ kernel next, s₂.lookupKernel compiler f allocates₂ = (some kernel, next) →
    ∀ g ∈ kernel.globalSymbols, Names s₂ f g h → ∀ b', g.buffer = some b' → b' = b

def Steps (compiler : PtxCompiler P) (s : State P) (action : Action P) (t : State P) : Prop :=
  (call compiler s action).1 = t

theorem seen_of_good {u : State P} {trail : List (State P × Action P)}
    (run : Run (Steps compiler) s trail u) (start : Books compiler s)
    (good : ∀ visited ∈ trail, Good compiler visited.1 visited.2) : Seen compiler trail := by
  rintro before middle after s₁ s₂ h f allocates₁ allocates₂ rfl untouched b reached kernel next
    launched g mem names b' buffer
  obtain ⟨_, left, right⟩ := run.of_append
  cases right
  obtain ⟨_, first, second⟩ := left.of_append
  cases second with
  | cons copied rest =>
    have books₁ : Books compiler s₁ :=
      (first.invariant call_books start fun visited mem => good visited (by simp [mem])).2
    subst copied
    have keeps : ∀ s action t, Books compiler s ∧ Stored s h b →
        Good compiler s action ∧ ¬ Renews h s action → Steps compiler s action t →
        Books compiler t ∧ Stored t h b :=
      fun s action t inv allowed stepped =>
        ⟨call_books s action t inv.1 allowed.1 stepped,
          stepped ▸ call_stored inv.1 inv.2 allowed.2⟩
    have kept := rest.invariant keeps
      ⟨books₁.of_fills (lookupSymbol_fills s₁ h allocates₁), lookupSymbol_stored books₁ reached⟩
      (fun visited mem => ⟨good visited (by simp [mem]), untouched visited mem⟩)
    obtain ⟨books₂, stored⟩ := kept.2
    have bound := launch_stored books₂ launched mem buffer names
    have still := (lookupKernel_keeps books₂ f allocates₂).2 h b stored
    rw [launched] at still
    exact bound.unique still

/-- In a run of these calls a launch binds a variable to the buffer that a copy reaches, a failed
call changes nothing, and what a copy wrote is what a later launch uses. -/
theorem symbols_share_storage {u : State P} {trail : List (State P × Action P)}
    (run : Run (Steps compiler) initial trail u)
    (good : ∀ visited ∈ trail, Good compiler visited.1 visited.2) :
    Always (Agree compiler) trail u ∧
      (∀ visited ∈ trail, (call compiler visited.1 visited.2).2 = false →
        (call compiler visited.1 visited.2).1 = visited.1) ∧ Seen compiler trail := by
  have start := initial_books compiler
  have always := run.invariant call_books start good
  exact ⟨⟨fun visited mem => (always.1 visited mem).agree, always.2.agree⟩,
    fun visited _ => call_failed visited.1 visited.2, seen_of_good run start good⟩

/-- A compiler that finds in a source the variables that the source is. -/
def listCompiler : PtxCompiler (List ExternalGlobalSymbol) where
  findArgInfoForPtxEntry _ _ := true
  findReferencedExternalGlobalSymbols ptx _ := ptx
  findInitializedGlobalBytes ptx name :=
    (ptx.find? fun symbol => symbol.name = name).map ExternalGlobalSymbol.sizeBytes

/-- A variable of a fat binary that is copied to between two launches. -/
def fatCalls : List (Action (List ExternalGlobalSymbol)) :=
  [.registerFatBinary [⟨"v", 4, true⟩], .registerVar 1 0x10 0 false "v" 4 false,
    .registerFunction 1 0x20 "k" "", .launch 0x20 fun _ => true, .copySymbol 0x10 true,
    .launch 0x20 fun _ => true]

theorem symbols_share_storage_fat :
    Always (Agree listCompiler)
      (trailOf (fun s action => (call listCompiler s action).1) initial fatCalls)
      (fatCalls.foldl (fun s action => (call listCompiler s action).1) initial) := by
  refine (symbols_share_storage (run_trailOf _ fatCalls initial) ?_).1
  refine forall_mem_cons.mpr ⟨trivial, forall_mem_cons.mpr ⟨?_, ?_⟩⟩
  · refine ⟨rfl, .inr ⟨[⟨"v", 4, true⟩], rfl, fun h symbol found => ?_, ?_⟩⟩
    · exact absurd found (by simp [call, initial, State.cudaRegisterFatBinary])
    · simp [listCompiler]
  · simp [trailOf, Good]

/-- A native module with one variable and a kernel that binds it. -/
def nativeCalls : List (Action (List ExternalGlobalSymbol)) :=
  [.registerModule ⟨[⟨"v", 0x10, 4, false⟩], [⟨0x20, [0]⟩], true⟩ fun _ => true, .deviceReset]

/-- After a reset the native kernel still binds the buffer, and the copy writes to the host. -/
theorem reset_splits_storage :
    ∃ trail u, Run (Steps listCompiler) initial trail u ∧ trail.map Prod.snd = nativeCalls ∧
      u.checkedSymbolPtr 0x10 true = .host 0x10 ∧ ¬ Always (Agree listCompiler) trail u := by
  refine ⟨_, _, run_trailOf _ nativeCalls initial, rfl, by decide, fun always => ?_⟩
  have agree := always.2 0x20 (fun _ => true) ⟨[⟨"v", some 0, 4, some 0x10⟩]⟩ _ rfl
    ⟨"v", some 0, 4, some 0x10⟩ mem_cons_self 0 rfl 0x10 (by rfl) true
  exact absurd agree (by decide)

end CuMetal.Runtime.Registration
