import CuMetal.Ir.HiddenFacts

/-!
# Calls and hidden arguments

A call passes the hidden arguments that the callee has, each bound to what the callee takes it for,
and so does every chain of calls from a kernel.
-/

namespace CuMetal.Ir

open Bool List Option CallOperand ExternalGlobalInfo FunctionScope

/-- Where the arguments of a function stand. -/
structure ScopeFacts (module_ : NvvmModule) (function : NvvmFunction) (scope : FunctionScope) :
    Prop where
  parameterCount : scope.parameterCount = function.parameters.length
  arguments : ∃ parameters, parameters.length = function.parameters.length ∧
    scope.arguments = parameters ++
      (ownGlobals (module_.functionReferencesGlobal function) function.shadows
        module_.externalGlobals).map hiddenArgument ++
      if module_.functionUsesVprintf function then ringArguments else []
  own : ∀ info ∈ module_.externalGlobals, module_.functionReferencesGlobal function info = true →
    info.constant = false ∨ function.shadows = false →
    ∃ i other, (ownGlobals (module_.functionReferencesGlobal function) function.shadows
        module_.externalGlobals)[i]? = some other ∧ sharesArgument info other = true ∧
      scope.externalGlobals.find? info.name = some (function.parameters.length + i)
  constants : ∃ base, (function.shadows = true → base < function.parameters.length) ∧
    ∀ info ∈ module_.externalGlobals, module_.functionReferencesGlobal function info = true →
      info.constant = true → scope.externalGlobals.find? info.name = some base
  used : ∀ name base, scope.externalGlobals.find? name = some base →
    ∃ info ∈ module_.externalGlobals,
      module_.functionReferencesGlobal function info = true ∧ info.name = name
  printf : scope.printf =
    if module_.functionUsesVprintf function then
      some (function.parameters.length +
          (ownGlobals (module_.functionReferencesGlobal function) function.shadows
            module_.externalGlobals).length,
        function.parameters.length +
          (ownGlobals (module_.functionReferencesGlobal function) function.shadows
            module_.externalGlobals).length + 1)
    else none

theorem scope_facts {module_ : NvvmModule} {function : NvvmFunction} {scope : FunctionScope}
    (done : module_.scope function = .ok scope) : ScopeFacts module_ function scope := by
  obtain ⟨middle, spec⟩ := allocateScope_spec module_.distinctGlobals done
  obtain ⟨count, shadows⟩ := parameterScope_arguments function.isKernel function.parameters
  have allocated := spec.allocated
  have declared : namesConstants
      (parameterScope function.isKernel function.parameters).state.signature =
      function.shadows := shadows
  have arguments := allocated.arguments
  have own := allocated.own
  rw [declared] at arguments own
  refine ⟨spec.parameterCount, ⟨_, count, ?_⟩, fun info mem used either => ?_,
    ⟨constantsIndex middle.arguments, fun shadowing => ?_, fun info mem used constant => ?_⟩,
    fun name base found => ?_, ?_⟩
  · rw [spec.arguments, arguments]
  · rw [spec.externalGlobals, ← count]
    exact own info mem used either
  · rw [arguments, constantsIndex_append (shadows.trans shadowing), ← count]
    obtain ⟨argument, inside, same⟩ := any_eq_true.mp (shadows.trans shadowing)
    exact findIdx_lt_length_of_exists ⟨argument, inside, same⟩
  · rw [spec.externalGlobals]
    exact allocated.constants info mem used constant
  · rw [spec.externalGlobals] at found
    by_contra missing
    push Not at missing
    rw [allocated.absent name fun info mem used => missing info mem used] at found
    cases found
  · rw [spec.printf, arguments, length_append, length_map, count]

variable {kernel : NvvmFunction} {references : ExternalGlobalInfo → Bool}
  {other : ExternalGlobalInfo}

theorem scope_roles {module_ : NvvmModule} {scope : FunctionScope}
    (isKernel : kernel.isKernel = true) (done : module_.scope kernel = .ok scope) :
    scope.state.signature.roles = some (List.replicate kernel.parameters.length none ++
      (ownGlobals (module_.functionReferencesGlobal kernel) kernel.shadows
        module_.externalGlobals).map (fun info => some info.hiddenRole) ++
      if module_.functionUsesVprintf kernel then [some "printf_buffer", some "printf_capacity"]
      else []) := by
  obtain ⟨middle, spec⟩ := allocateScope_spec module_.distinctGlobals done
  have roles := spec.allocated.roles
  have shadows : namesConstants
      (parameterScope kernel.isKernel kernel.parameters).state.signature = kernel.shadows :=
    (parameterScope_arguments kernel.isKernel kernel.parameters).2
  rw [shadows, isKernel, parameterScope_roles] at roles
  rw [spec.roles, roles]
  rfl

theorem ownGlobals_of_no_constants {globals : List ExternalGlobalInfo}
    (none : ∀ info ∈ globals, references info = true → info.constant = false)
    (declared other : Bool) : ownGlobals references declared globals =
      ownGlobals references other globals := by
  induction globals generalizing declared other with
  | nil => rfl
  | cons info rest ih =>
    have later := ih fun info mem used => none info (mem_cons_of_mem _ mem) used
    simp only [ownGlobals]
    cases referenced : references info with
    | false => simpa using later declared other
    | true =>
      have plain := none info mem_cons_self referenced
      simp only [plain, Bool.not_true, Bool.false_and, Bool.or_false, Bool.false_eq_true,
        if_false]
      rw [later]

theorem mem_of_ownGlobals {info : ExternalGlobalInfo} :
    ∀ {declared : Bool} {globals : List ExternalGlobalInfo},
    info ∈ ownGlobals references declared globals → info ∈ globals ∧ references info = true := by
  intro declared globals mem
  induction globals generalizing declared with
  | nil => cases mem
  | cons head rest ih =>
    rw [ownGlobals] at mem
    split at mem
    · obtain ⟨inside, used⟩ := ih mem
      exact ⟨mem_cons_of_mem _ inside, used⟩
    · next kept =>
        rcases mem_cons.mp mem with rfl | mem
        · refine ⟨mem_cons_self, ?_⟩
          cases used : references info with
          | false => simp [used] at kept
          | true => rfl
        · obtain ⟨inside, used⟩ := ih mem
          exact ⟨mem_cons_of_mem _ inside, used⟩

theorem hiddenArgument_type {info : ExternalGlobalInfo}
    (shares : sharesArgument info other = true) :
    (hiddenArgument other).2 = (hiddenArgument info).2 := by
  unfold sharesArgument at shares
  unfold hiddenArgument
  cases constant : info.constant with
  | true =>
    simp only [constant, if_true] at shares
    simp [shares]
  | false =>
    simp only [constant, false_eq_true, if_false, and_eq_true, not_eq_true'] at shares
    simp [shares.1]

/-- The type of an operand that is an argument of the calling function. -/
def FunctionScope.typeOf? (scope : FunctionScope) : CallOperand → Option IrType
  | .passed _ => none
  | .own position => scope.arguments[position]?.map Prod.snd

/-- The operands of a call agree with the hidden arguments of the callee: there is one for each, of
its type, and at the place that the callee takes for a global or the ring stands the hidden argument
that the caller takes for it. -/
structure CallAgrees (caller callee : FunctionScope) (argumentCount : Nat)
    (operands : List CallOperand) : Prop where
  aligned : callee.parameterCount < callee.arguments.length →
    operands.length = callee.arguments.length
  typed : (operands.drop argumentCount).map caller.typeOf? =
    (callee.arguments.drop callee.parameterCount).map fun argument => some argument.2
  globals : ∀ name position, callee.externalGlobals.find? name = some position →
    callee.parameterCount ≤ position ∧ ∃ base, caller.externalGlobals.find? name = some base ∧
      caller.parameterCount ≤ base ∧ operands[position]? = some (.own base)
  ring : ∀ buffer capacity, callee.printf = some (buffer, capacity) →
    ∃ buffer' capacity', caller.printf = some (buffer', capacity') ∧
      operands[buffer]? = some (.own buffer') ∧ operands[capacity]? = some (.own capacity')

/-- The function refers to no external global and does not print. -/
def UsesNothing (module_ : NvvmModule) (function : NvvmFunction) : Prop :=
  (∀ info ∈ module_.externalGlobals, module_.functionReferencesGlobal function info = false) ∧
    module_.functionUsesVprintf function = false

/-- The callee needs no hidden argument; or the call stays a call, passes no variadic arguments, and
no parameter of the two functions has the name of the buffer of the constants, if the callee refers
to constants. -/
def KeepsHidden (module_ : NvvmModule) (caller callee : NvvmFunction) (call : NvvmCall) : Prop :=
  UsesNothing module_ callee ∨
    (isReplaced callee call = false ∧ call.argumentCount = callee.parameters.length ∧
      ∀ info ∈ module_.externalGlobals, module_.functionReferencesGlobal callee info = true →
        info.constant = true → caller.shadows = false ∧ callee.shadows = false)

/-! ## One call -/

section OneCall

variable {module_ : NvvmModule} {caller callee : NvvmFunction} {call : NvvmCall}
  {outer inner : FunctionScope}

def FunctionScope.place (scope : FunctionScope) (info : ExternalGlobalInfo) : Nat :=
  (scope.externalGlobals.find? info.name).getD 0

/-- The hidden operands of a call. -/
def hiddenOperands (module_ : NvvmModule) (callee : NvvmFunction) (caller : FunctionScope) :
    List CallOperand :=
  (ownGlobals (module_.functionReferencesGlobal callee) false module_.externalGlobals).map
      (fun info => .own (caller.place info)) ++
    if module_.functionUsesVprintf callee then
      (caller.printf.map fun ring => [.own ring.1, .own ring.2]).getD []
    else []

variable {function : NvvmFunction} {scope : FunctionScope} {info : ExternalGlobalInfo}

theorem ScopeFacts.found (facts : ScopeFacts module_ function scope)
    (mem : info ∈ module_.externalGlobals)
    (used : module_.functionReferencesGlobal function info = true) :
    scope.externalGlobals.find? info.name = some (scope.place info) := by
  have found : ∃ base, scope.externalGlobals.find? info.name = some base := by
    by_cases either : info.constant = false ∨ function.shadows = false
    · obtain ⟨i, _, _, _, found⟩ := facts.own info mem used either
      exact ⟨_, found⟩
    · obtain ⟨constant, shadows⟩ := not_or.mp either
      obtain ⟨base, _, found⟩ := facts.constants
      exact ⟨base, found info mem used (eq_true_of_not_eq_false constant)⟩
  obtain ⟨base, found⟩ := found
  rw [place, found, getD_some]

theorem importCall_eq (calls : Calls module_ caller call callee)
    (outerFacts : ScopeFacts module_ caller outer) :
    module_.importCall outer callee call = .ok (if isReplaced callee call then none
      else some ((List.range call.argumentCount).map passed ++
        hiddenOperands module_ callee outer)) := by
  unfold NvvmModule.importCall
  split
  · rfl
  · have appended := @appendGlobals_eq (module_.functionReferencesGlobal callee)
      module_.externalGlobals outer outer.place
      (fun info mem used => outerFacts.found mem (calls.searchFrom used)) false
    rw [appended]
    change (if _ then _ else _) = _
    unfold hiddenOperands
    cases prints : module_.functionUsesVprintf callee with
    | false => simp [pure, Except.pure]
    | true =>
      have printing : module_.functionUsesVprintf caller = true := calls.searchFrom prints
      rw [outerFacts.printf, printing]
      simp [pure, Except.pure]

theorem ScopeFacts.plain
    (facts : ScopeFacts module_ function scope) (nothing : UsesNothing module_ function) :
    scope.arguments.length = function.parameters.length ∧
      (∀ name, scope.externalGlobals.find? name = none) ∧ scope.printf = none := by
  have none_ : ownGlobals (module_.functionReferencesGlobal function) function.shadows
      module_.externalGlobals = [] := by
    rw [eq_nil_iff_forall_not_mem]
    intro info mem
    obtain ⟨inside, used⟩ := mem_of_ownGlobals mem
    rw [nothing.1 info inside] at used
    cases used
  obtain ⟨parameters, count, arguments⟩ := facts.arguments
  refine ⟨?_, fun name => ?_, ?_⟩
  · rw [arguments, none_, nothing.2]
    simp [count]
  · by_contra found
    obtain ⟨base, found⟩ := ne_none_iff_exists'.mp found
    obtain ⟨info, inside, used, _⟩ := facts.used name base found
    rw [nothing.1 info inside] at used
    cases used
  · rw [facts.printf, nothing.2]
    rfl

theorem agrees_of_usesNothing (innerFacts : ScopeFacts module_ callee inner)
    (nothing : UsesNothing module_ callee) {argumentCount : Nat} {operands : List CallOperand}
    (few : operands.length ≤ argumentCount) : CallAgrees outer inner argumentCount operands := by
  obtain ⟨count, none_, silent⟩ := innerFacts.plain nothing
  refine ⟨fun more => ?_, ?_, fun name position found => ?_, fun buffer capacity found => ?_⟩
  · rw [innerFacts.parameterCount, count] at more
    exact absurd more (lt_irrefl _)
  · rw [drop_eq_nil_of_le few, innerFacts.parameterCount,
      drop_eq_nil_of_le (by rw [count])]
    rfl
  · rw [none_] at found
    cases found
  · rw [silent] at found
    cases found

theorem ScopeFacts.place_eq (facts : ScopeFacts module_ function scope)
    (mem : info ∈ module_.externalGlobals)
    (used : module_.functionReferencesGlobal function info = true)
    (mem' : other ∈ module_.externalGlobals)
    (used' : module_.functionReferencesGlobal function other = true)
    (shares : sharesArgument info other = true) : scope.place other = scope.place info := by
  cases constant : info.constant with
  | true =>
    rw [sharesArgument_constant constant] at shares
    obtain ⟨base, _, found⟩ := facts.constants
    rw [place, place, found info mem used constant,
      found other mem' used' shares]
  | false =>
    have name : other.name = info.name := by
      simp only [sharesArgument, constant, false_eq_true, if_false, and_eq_true,
        beq_iff_eq] at shares
      exact shares.2
    rw [place, place, name]

/-- The argument for a global is hidden, and has the type of its buffer. -/
theorem ScopeFacts.hidden (facts : ScopeFacts module_ function scope)
    (mem : info ∈ module_.externalGlobals)
    (used : module_.functionReferencesGlobal function info = true)
    (either : info.constant = false ∨ function.shadows = false) :
    scope.parameterCount ≤ scope.place info ∧
      scope.typeOf? (.own (scope.place info)) = some (hiddenArgument info).2 := by
  obtain ⟨i, other, own, shares, found⟩ := facts.own info mem used either
  obtain ⟨parameters, count, arguments⟩ := facts.arguments
  have place : scope.place info = function.parameters.length + i := by
    rw [place, found, getD_some]
  rw [place, facts.parameterCount]
  refine ⟨Nat.le_add_right _ _, ?_⟩
  have inside := (List.getElem?_eq_some_iff.mp own).1
  have here : scope.arguments[function.parameters.length + i]? = some (hiddenArgument other) := by
    rw [arguments, append_assoc, ← count, getElem?_append_right (Nat.le_add_right _ _),
      Nat.add_sub_cancel_left, getElem?_append_left (by simpa using inside), getElem?_map,
      own, map_some]
  rw [typeOf?, here, map_some, hiddenArgument_type shares]

theorem ScopeFacts.ringTypes (facts : ScopeFacts module_ function scope)
    (prints : module_.functionUsesVprintf function = true) :
    ∃ buffer capacity, scope.printf = some (buffer, capacity) ∧
      [scope.typeOf? (.own buffer), scope.typeOf? (.own capacity)] =
        ringArguments.map fun argument => some argument.2 := by
  obtain ⟨parameters, count, arguments⟩ := facts.arguments
  rw [prints, if_pos rfl] at arguments
  have printf := facts.printf
  rw [prints, if_pos rfl] at printf
  refine ⟨_, _, printf, ?_⟩
  have length : (parameters ++ (ownGlobals (module_.functionReferencesGlobal function)
      function.shadows module_.externalGlobals).map hiddenArgument).length =
      function.parameters.length + (ownGlobals (module_.functionReferencesGlobal function)
        function.shadows module_.externalGlobals).length := by simp [count]
  simp only [typeOf?, arguments, ← length]
  rw [getElem?_append_right le_rfl, getElem?_append_right (Nat.le_add_right _ _),
    Nat.sub_self, Nat.add_sub_cancel_left]
  rfl

/-- A call of as many arguments as the callee has parameters, if no parameter stands in for the
buffer of the constants. -/
theorem agrees_of_unshadowed (calls : Calls module_ caller call callee)
    (outerFacts : ScopeFacts module_ caller outer) (innerFacts : ScopeFacts module_ callee inner)
    (unshadowed : ∀ info ∈ module_.externalGlobals,
      module_.functionReferencesGlobal callee info = true → info.constant = true →
        caller.shadows = false ∧ callee.shadows = false) :
    CallAgrees outer inner callee.parameters.length
      ((List.range callee.parameters.length).map passed ++
        hiddenOperands module_ callee outer) := by
  have flag : ownGlobals (module_.functionReferencesGlobal callee) callee.shadows
      module_.externalGlobals =
      ownGlobals (module_.functionReferencesGlobal callee) false module_.externalGlobals := by
    by_cases constants : ∃ info ∈ module_.externalGlobals,
        module_.functionReferencesGlobal callee info = true ∧ info.constant = true
    · obtain ⟨info, mem, used, constant⟩ := constants
      rw [(unshadowed info mem used constant).2]
    · push Not at constants
      exact ownGlobals_of_no_constants (fun info mem used =>
        eq_false_of_not_eq_true (constants info mem used)) _ _
  have either : ∀ {shadows : Bool}, ∀ info ∈ module_.externalGlobals,
      module_.functionReferencesGlobal callee info = true →
      (info.constant = true → shadows = false) → info.constant = false ∨ shadows = false := by
    intro shadows info _ _ plain
    cases constant : info.constant with
    | false => exact .inl rfl
    | true => exact .inr (plain constant)
  obtain ⟨parameters, count, arguments⟩ := innerFacts.arguments
  have innerRing := innerFacts.printf
  rw [flag] at arguments innerRing
  have passed : ((range callee.parameters.length).map passed).length =
      callee.parameters.length := by simp
  have hidden : (hiddenOperands module_ callee outer).map outer.typeOf? =
      (inner.arguments.drop callee.parameters.length).map fun argument => some argument.2 := by
    rw [arguments, append_assoc, drop_left' count, hiddenOperands, map_append,
      List.map_append, List.map_map, List.map_map]
    congr 1
    · refine map_congr_left fun info own => ?_
      obtain ⟨mem, used⟩ := mem_of_ownGlobals own
      exact (outerFacts.hidden mem (calls.searchFrom used)
        (either info mem used fun constant => (unshadowed info mem used constant).1)).2
    · cases prints : module_.functionUsesVprintf callee with
      | false => rfl
      | true =>
        obtain ⟨buffer, capacity, printf, types⟩ := outerFacts.ringTypes (calls.searchFrom prints)
        rw [printf]
        exact types
  refine ⟨fun _ => ?_, ?_, fun name position found => ?_, fun buffer capacity found => ?_⟩
  · have same := congrArg length hidden
    rw [length_map, length_map, length_drop] at same
    have more : callee.parameters.length ≤ inner.arguments.length := by
      rw [arguments, append_assoc, length_append, count]
      exact Nat.le_add_right _ _
    rw [length_append, passed, same]
    omega
  · rw [drop_left' passed, innerFacts.parameterCount]
    exact hidden
  · obtain ⟨info, mem, used, rfl⟩ := innerFacts.used name position found
    have used' := calls.searchFrom used
    obtain ⟨i, other, own, shares, here⟩ := innerFacts.own info mem used
      (either info mem used fun constant => (unshadowed info mem used constant).2)
    rw [flag] at own
    rw [found] at here
    cases here
    obtain ⟨mem', other'⟩ := mem_of_ownGlobals (mem_of_getElem? own)
    rw [innerFacts.parameterCount]
    refine ⟨Nat.le_add_right _ _, outer.place info, outerFacts.found mem used',
      (outerFacts.hidden mem used'
        (either info mem used fun constant => (unshadowed info mem used constant).1)).1, ?_⟩
    have inside := (List.getElem?_eq_some_iff.mp own).1
    rw [getElem?_append_right (by rw [passed]; exact Nat.le_add_right _ _), passed,
      Nat.add_sub_cancel_left, hiddenOperands,
      getElem?_append_left (by rw [length_map]; exact inside), getElem?_map, own,
      map_some, outerFacts.place_eq mem used' mem' (calls.searchFrom other') shares]
  · cases prints : module_.functionUsesVprintf callee with
    | false =>
      rw [innerRing, prints] at found
      cases found
    | true =>
      obtain ⟨buffer', capacity', printf, _⟩ := outerFacts.ringTypes (calls.searchFrom prints)
      rw [innerRing, prints] at found
      cases found
      have length : ((range callee.parameters.length).map CallOperand.passed ++
          (ownGlobals (module_.functionReferencesGlobal callee) false
            module_.externalGlobals).map fun info => own (outer.place info)).length =
          callee.parameters.length + (ownGlobals (module_.functionReferencesGlobal callee) false
            module_.externalGlobals).length := by simp
      refine ⟨buffer', capacity', printf, ?_⟩
      rw [hiddenOperands, prints, if_pos rfl, printf, ← append_assoc, ← length]
      constructor
      · rw [getElem?_append_right le_rfl, Nat.sub_self]
        rfl
      · rw [getElem?_append_right (Nat.le_add_right _ _), Nat.add_sub_cancel_left]
        rfl

theorem call_agrees_iff (calls : Calls module_ caller call callee)
    (outerScope : module_.scope caller = .ok outer)
    (innerScope : module_.scope callee = .ok inner) :
    ∃ operands, module_.importCall outer callee call = .ok operands ∧
      (CallAgrees outer inner call.argumentCount (operands.getD []) ↔
        KeepsHidden module_ caller callee call) := by
  have outerFacts := scope_facts outerScope
  have innerFacts := scope_facts innerScope
  refine ⟨_, importCall_eq calls outerFacts, fun agrees => ?_, fun kept => ?_⟩
  · by_cases nothing : UsesNothing module_ callee
    · exact .inl nothing
    · refine .inr ?_
      have unshadowed : ∀ info ∈ module_.externalGlobals,
          module_.functionReferencesGlobal callee info = true → info.constant = true →
          caller.shadows = false ∧ callee.shadows = false := by
        intro info mem used constant
        obtain ⟨within, base, found, above, _⟩ := agrees.globals _ _ (innerFacts.found mem used)
        obtain ⟨base', low, known⟩ := outerFacts.constants
        obtain ⟨position, low', known'⟩ := innerFacts.constants
        rw [known info mem (calls.searchFrom used) constant] at found
        cases found
        rw [place, known' info mem used constant, getD_some] at within
        rw [outerFacts.parameterCount] at above
        rw [innerFacts.parameterCount] at within
        constructor
        · exact eq_false_of_not_eq_true fun shadows => absurd (low shadows) (by omega)
        · exact eq_false_of_not_eq_true fun shadows => absurd (low' shadows) (by omega)
      -- some hidden argument of the caller stands among the operands
      obtain ⟨position, base, here⟩ : ∃ position base,
          ((if isReplaced callee call then none
            else some ((range call.argumentCount).map passed ++
              hiddenOperands module_ callee outer)).getD [])[position]? =
            some (own base) := by
        cases prints : module_.functionUsesVprintf callee with
        | true =>
          obtain ⟨buffer, capacity, printf, _⟩ := innerFacts.ringTypes prints
          obtain ⟨buffer', _, _, here, _⟩ := agrees.ring buffer capacity printf
          exact ⟨buffer, buffer', here⟩
        | false =>
          have some_ : ∃ info ∈ module_.externalGlobals,
              module_.functionReferencesGlobal callee info = true := by
            by_contra none_
            push Not at none_
            exact nothing ⟨fun info mem => eq_false_of_not_eq_true (none_ info mem), prints⟩
          obtain ⟨info, mem, used⟩ := some_
          obtain ⟨_, base, _, _, here⟩ := agrees.globals _ _ (innerFacts.found mem used)
          exact ⟨_, base, here⟩
      have aligned := agrees.aligned
      have lengths := congrArg length agrees.typed
      cases stays : isReplaced callee call with
      | true => simp [stays] at here
      | false =>
        simp only [stays, false_eq_true, if_false, getD_some] at here aligned lengths
        refine ⟨rfl, ?_, unshadowed⟩
        have beyond : call.argumentCount ≤ position := by
          by_contra before
          rw [getElem?_append_left (by simpa using before), getElem?_map] at here
          obtain ⟨_, _, impossible⟩ := map_eq_some_iff.mp here
          cases impossible
        have inside := (List.getElem?_eq_some_iff.mp here).1
        rw [length_map, length_map, length_drop, length_drop,
          innerFacts.parameterCount] at lengths
        rw [innerFacts.parameterCount] at aligned
        have same := aligned (by omega)
        omega
  · rcases kept with nothing | ⟨stays, count, unshadowed⟩
    · refine agrees_of_usesNothing innerFacts nothing ?_
      split
      · exact Nat.zero_le _
      · have none_ : hiddenOperands module_ callee outer = [] := by
          have empty : ownGlobals (module_.functionReferencesGlobal callee) false
              module_.externalGlobals = [] := by
            rw [eq_nil_iff_forall_not_mem]
            intro info mem
            obtain ⟨inside, used⟩ := mem_of_ownGlobals mem
            rw [nothing.1 info inside] at used
            cases used
          rw [hiddenOperands, empty, nothing.2]
          rfl
        simp [none_]
    · rw [stays, count]
      exact agrees_of_unshadowed calls outerFacts innerFacts unshadowed

end OneCall

/-! ## Chains of calls -/

def ExternalGlobalInfo.role (info : ExternalGlobalInfo) : Role :=
  if info.constant then .constantSymbols else .globalSymbol info.name

/-- What the arguments of a kernel hold after a launch: what their descriptors say. -/
def launchValues (abi : KernelBindings) : List Role :=
  abi.arguments.zipIdx.map fun entry => roleOf entry.2 entry.1.hiddenRole

/-- What an operand of a call holds; the arguments of the LLVM call are the callee's parameters. -/
def CallOperand.value (values : List Role) : CallOperand → Role
  | .passed argument => .parameter argument
  | .own position => values[position]?.getD (.parameter position)

/-- The functions that run after a launch, with what their arguments hold, as long as hidden
arguments are kept. -/
inductive Runs (module_ : NvvmModule) : NvvmFunction → FunctionScope → List Role → Prop
  | launch {kernel : NvvmFunction} {scope : FunctionScope} {abi : KernelBindings} :
      kernel.isKernel = true → module_.scope kernel = .ok scope →
      scope.state.signature.kernelAbi = some abi →
      (∀ info ∈ module_.externalGlobals, module_.functionReferencesGlobal kernel info = true →
        info.constant = true → kernel.shadows = false) →
      Runs module_ kernel scope (launchValues abi)
  | call {caller callee : NvvmFunction} {outer inner : FunctionScope} {values : List Role}
      {call : NvvmCall} {operands : List CallOperand} :
      Runs module_ caller outer values → Calls module_ caller call callee →
      module_.scope callee = .ok inner →
      module_.importCall outer callee call = .ok (some operands) →
      KeepsHidden module_ caller callee call →
      Runs module_ callee inner (operands.map (CallOperand.value values))

/-- Where a function takes an argument for a global or the ring, it holds that. -/
structure BindsHidden (module_ : NvvmModule) (scope : FunctionScope) (values : List Role) :
    Prop where
  globals : ∀ info ∈ module_.externalGlobals, ∀ position,
    scope.externalGlobals.find? info.name = some position → values[position]? = some info.role
  ring : ∀ buffer capacity, scope.printf = some (buffer, capacity) →
    values[buffer]? = some .printfBuffer ∧ values[capacity]? = some .printfCapacity

theorem roleOf_hiddenRole (index : Nat) (info : ExternalGlobalInfo) :
    roleOf index (some info.hiddenRole) = info.role := by
  unfold hiddenRole role
  cases info.constant with
  | true => rfl
  | false => exact roleOf_global index info.name

theorem role_eq {info : ExternalGlobalInfo} (shares : sharesArgument info other = true) :
    other.role = info.role := by
  unfold sharesArgument at shares
  unfold role
  cases constant : info.constant with
  | true =>
    simp only [constant, if_true] at shares
    simp [shares]
  | false =>
    simp only [constant, false_eq_true, if_false, and_eq_true, not_eq_true',
      beq_iff_eq] at shares
    simp [shares]

theorem launch_binds {module_ : NvvmModule} {scope : FunctionScope} {abi : KernelBindings}
    (isKernel : kernel.isKernel = true) (allocated : module_.scope kernel = .ok scope)
    (known : scope.state.signature.kernelAbi = some abi)
    (unshadowed : ∀ info ∈ module_.externalGlobals, module_.functionReferencesGlobal kernel info =
      true → info.constant = true → kernel.shadows = false) :
    BindsHidden module_ scope (launchValues abi) := by
  have facts := scope_facts allocated
  have roles := scope_roles isKernel allocated
  have read : ∀ position role, (abi.arguments.map KernelArgument.hiddenRole)[position]? = some role →
      (launchValues abi)[position]? = some (roleOf position role) := by
    intro position role here
    rw [getElem?_map] at here
    obtain ⟨argument, listed, rfl⟩ := map_eq_some_iff.mp here
    rw [launchValues, getElem?_map, getElem?_zipIdx, listed]
    simp
  rw [Signature.roles, known, map_some, some_inj] at roles
  rw [roles] at read
  refine ⟨fun info mem position found => ?_, fun buffer capacity found => ?_⟩
  · obtain ⟨other, mem', used, name⟩ := facts.used info.name position found
    obtain rfl := inj_on_of_nodup_map module_.distinctGlobals mem' mem name
    obtain ⟨i, first, own, shares, here⟩ := facts.own other mem used (by
      cases constant : other.constant with
      | false => exact .inl rfl
      | true => exact .inr (unshadowed other mem used constant))
    rw [found] at here
    cases here
    have inside := (List.getElem?_eq_some_iff.mp own).1
    refine (read _ (some first.hiddenRole) ?_).trans (by rw [roleOf_hiddenRole, role_eq shares])
    rw [append_assoc, getElem?_append_right (by simp), length_replicate,
      Nat.add_sub_cancel_left, getElem?_append_left (by simpa using inside),
      getElem?_map, own, map_some]
  · have printf := facts.printf
    cases prints : module_.functionUsesVprintf kernel with
    | false =>
      rw [printf, prints] at found
      cases found
    | true =>
      rw [printf, prints] at found
      cases found
      rw [prints, if_pos rfl] at read
      have length : (replicate kernel.parameters.length (none : Option String) ++
          (ownGlobals (module_.functionReferencesGlobal kernel) kernel.shadows
            module_.externalGlobals).map fun info => some info.hiddenRole).length =
          kernel.parameters.length + (ownGlobals (module_.functionReferencesGlobal kernel)
            kernel.shadows module_.externalGlobals).length := by simp
      constructor
      · refine (read _ (some "printf_buffer") ?_).trans rfl
        rw [← length, getElem?_append_right le_rfl, Nat.sub_self]
        rfl
      · refine (read _ (some "printf_capacity") ?_).trans rfl
        rw [← length, getElem?_append_right (Nat.le_add_right _ _), Nat.add_sub_cancel_left]
        rfl

/-- In every function that runs after a launch, however deep the calls are, the hidden arguments
hold what the function takes them for. -/
theorem runs_bind {module_ : NvvmModule} {function : NvvmFunction} {scope : FunctionScope}
    {values : List Role} (runs : Runs module_ function scope values) :
    module_.scope function = .ok scope ∧ BindsHidden module_ scope values := by
  induction runs with
  | launch isKernel allocated known unshadowed =>
    exact ⟨allocated, launch_binds isKernel allocated known unshadowed⟩
  | @call caller callee outer inner values call operands _ calls allocated imported keeps ih =>
    obtain ⟨outerScope, binds⟩ := ih
    obtain ⟨operands', imported', agreement⟩ := call_agrees_iff calls outerScope allocated
    rw [imported] at imported'
    cases imported'
    have agrees := agreement.mpr keeps
    rw [getD_some] at agrees
    refine ⟨allocated, fun info mem position found => ?_, fun buffer capacity found => ?_⟩
    · obtain ⟨_, base, known, _, here⟩ := agrees.globals info.name position found
      rw [getElem?_map, here, map_some, value,
        binds.globals info mem base known, getD_some]
    · obtain ⟨buffer', capacity', known, here, there⟩ := agrees.ring buffer capacity found
      obtain ⟨ring, size⟩ := binds.ring buffer' capacity' known
      rw [getElem?_map, getElem?_map, here, there, map_some, map_some,
        value, value, ring, size]
      exact ⟨rfl, rfl⟩

/-- The hidden operands of a call agree with the hidden arguments of the callee exactly if they are
kept; and in every function that calls of this kind lead to from a kernel, the hidden arguments hold
the globals and the ring that the function takes them for. -/
theorem hidden_arguments_agree (module_ : NvvmModule) :
    (∀ (caller callee : NvvmFunction) (call : NvvmCall) (outer inner : FunctionScope),
      Calls module_ caller call callee → module_.scope caller = .ok outer →
      module_.scope callee = .ok inner →
      ∃ operands, module_.importCall outer callee call = .ok operands ∧
        (CallAgrees outer inner call.argumentCount (operands.getD []) ↔
          KeepsHidden module_ caller callee call)) ∧
    ∀ (function : NvvmFunction) (scope : FunctionScope) (values : List Role),
      Runs module_ function scope values → BindsHidden module_ scope values :=
  ⟨fun _ _ _ _ _ calls outerScope innerScope => call_agrees_iff calls outerScope innerScope,
    fun _ _ _ runs => (runs_bind runs).2⟩

/-- A kernel that calls a function with one parameter, which reads a constant. -/
def readerKernel : NvvmFunction where
  name := "kernel"
  isKernel := true
  parameters := [⟨"data", .pointer (.integer 8) .device, false⟩]
  blocks := [[⟨[], some ⟨"reader", 1, false⟩, false⟩, ⟨[], none, true⟩]]

def reader (parameter : String) : NvvmFunction where
  name := "reader"
  isKernel := false
  parameters := [⟨parameter, .pointer (.integer 8) .device, false⟩]
  blocks := [[⟨["table"], none, false⟩, ⟨[], none, true⟩]]

def readerModule (parameter : String) : NvvmModule where
  functions := [readerKernel, reader parameter]
  externalGlobals := [⟨"table", true⟩]
  distinct := by simp [readerKernel, reader]
  distinctGlobals := by simp
  notIntrinsic := by simp [readerKernel, reader]

theorem reader_called (parameter : String) :
    Calls (readerModule parameter) readerKernel ⟨"reader", 1, false⟩ (reader parameter) :=
  ⟨mem_cons_self, rfl, _, mem_cons_self, rfl⟩

theorem reader_agrees : ∃ outer inner operands,
    (readerModule "data").scope readerKernel = .ok outer ∧
      (readerModule "data").scope (reader "data") = .ok inner ∧
      (readerModule "data").importCall outer (reader "data") ⟨"reader", 1, false⟩ = .ok operands ∧
      CallAgrees outer inner 1 (operands.getD []) := by
  obtain ⟨operands, imported, agreement⟩ := (hidden_arguments_agree (readerModule "data")).1
    readerKernel (reader "data") ⟨"reader", 1, false⟩ _ _ (reader_called "data") rfl rfl
  exact ⟨_, _, operands, rfl, rfl, imported,
    agreement.mpr (.inr ⟨rfl, rfl, fun _ _ _ _ => ⟨rfl, rfl⟩⟩)⟩

/-- A parameter with the name of the buffer of the constants takes the place of the hidden
argument. -/
theorem shadowed_reader_disagrees : ¬ ∀ (module_ : NvvmModule) (caller callee : NvvmFunction)
    (call : NvvmCall) (outer inner : FunctionScope) (operands : Option (List CallOperand)),
    Calls module_ caller call callee → module_.scope caller = .ok outer →
    module_.scope callee = .ok inner → module_.importCall outer callee call = .ok operands →
    CallAgrees outer inner call.argumentCount (operands.getD []) := by
  intro agrees
  have typed := (agrees (readerModule constantsName) readerKernel (reader constantsName)
    ⟨"reader", 1, false⟩ _ _ _ (reader_called constantsName) rfl rfl rfl).typed
  exact absurd (congrArg length typed) (by decide)

end CuMetal.Ir
