import CuMetal.Lib.Except
import CuMetal.Ir.VerifyFacts
import CuMetal.Metal.HiddenParameters

/-!
# Hidden parameters agree across calls

The three tables are closed under the calls they follow, so whatever a callee needs its caller
has; and the list at the call site is the list of the callee's parameters.
-/

namespace CuMetal.Metal

open Ir Bool Function List BuiltinUsage HiddenParameter

theorem BuiltinUsage.merge_self (usage : BuiltinUsage) : usage.merge usage = usage := by
  simp [merge]

theorem BuiltinUsage.merge_assoc (a b c : BuiltinUsage) :
    (a.merge b).merge c = a.merge (b.merge c) := by
  simp [BuiltinUsage.merge, Bool.or_assoc]

theorem BuiltinUsage.merge_comm (a b : BuiltinUsage) : a.merge b = b.merge a := by
  simp [BuiltinUsage.merge, Bool.or_comm]

theorem BuiltinUsage.merge_default (usage : BuiltinUsage) :
    usage.merge default = usage := by
  rw [show (default : BuiltinUsage) = {} from rfl]
  simp [merge]

/-- `other` needs nothing that `usage` does not. -/
def BuiltinUsage.Covers (usage other : BuiltinUsage) : Prop := usage.merge other = usage

variable {usage a b : BuiltinUsage} {ν : Type} {module : IrModule} {function caller : Function}
  {callee : String} {tables : UsageTables} {operation : Operation}

theorem BuiltinUsage.Covers.trans (first : usage.Covers a)
    (second : a.Covers b) : usage.Covers b := by
  unfold Covers at *
  rw [← first, merge_assoc, second]

theorem BuiltinUsage.Covers.of_merge_left (both : usage.Covers (a.merge b)) : usage.Covers a := by
  unfold Covers at *
  calc usage.merge a = (usage.merge (a.merge b)).merge a := by rw [both]
    _ = usage.merge ((a.merge a).merge b) := by
      rw [merge_assoc, merge_comm (a.merge b), ← merge_assoc a]
    _ = usage := by rw [merge_self, both]

theorem BuiltinUsage.Covers.of_merge_right (both : usage.Covers (a.merge b)) : usage.Covers b :=
  Covers.of_merge_left (merge_comm a b ▸ both)

def BuiltinUsage.count (usage : BuiltinUsage) : Nat :=
  usage.threadPosition.toNat + usage.threadgroupPosition.toNat +
    usage.threadsPerThreadgroup.toNat + usage.threadgroupsPerGrid.toNat + usage.laneId.toNat +
    usage.deviceClock.toNat + usage.gridBarrier.toNat

theorem BuiltinUsage.count_le (usage : BuiltinUsage) : usage.count ≤ 7 := by
  have small : ∀ flag : Bool, flag.toNat ≤ 1 := toNat_le
  unfold count
  have h1 := small usage.threadPosition
  have h2 := small usage.threadgroupPosition
  have h3 := small usage.threadsPerThreadgroup
  have h4 := small usage.threadgroupsPerGrid
  have h5 := small usage.laneId
  have h6 := small usage.deviceClock
  have h7 := small usage.gridBarrier
  omega

variable {other : BuiltinUsage}

theorem BuiltinUsage.count_lt_of_merge_ne (changes : usage.merge other ≠ usage) :
    usage.count < (usage.merge other).count := by
  -- a flag only goes up, and it stays only if it is the same
  have rises : ∀ a b : Bool, a.toNat ≤ (a || b).toNat ∧ ((a || b).toNat = a.toNat → (a || b) = a) :=
    by decide
  by_contra same
  refine changes ?_
  have h1 := rises usage.threadPosition other.threadPosition
  have h2 := rises usage.threadgroupPosition other.threadgroupPosition
  have h3 := rises usage.threadsPerThreadgroup other.threadsPerThreadgroup
  have h4 := rises usage.threadgroupsPerGrid other.threadgroupsPerGrid
  have h5 := rises usage.laneId other.laneId
  have h6 := rises usage.deviceClock other.deviceClock
  have h7 := rises usage.gridBarrier other.gridBarrier
  simp only [count, merge] at same
  unfold merge
  rw [h1.2 (by omega), h2.2 (by omega), h3.2 (by omega), h4.2 (by omega), h5.2 (by omega),
    h6.2 (by omega), h7.2 (by omega)]

theorem tabulate_eq (module : IrModule) (direct : Function → ν) :
    tabulate module direct = AssocMap.assignAll []
      (module.functions.map fun function => (function.name, direct function)) := by
  rw [tabulate, AssocMap.assignAll, foldl_map]

theorem valueAt_tabulate [Inhabited ν] (module : IrModule) (direct : Function → ν)
    (name : String) : valueAt (tabulate module direct) name = default ∨
      ∃ function ∈ module.functions, valueAt (tabulate module direct) name = direct function := by
  rw [tabulate_eq, valueAt, AssocMap.find?_assignAll]
  cases last : ((module.functions.map fun function => (function.name, direct function)).filter
      fun update => update.1 = name).getLast? with
  | none => exact .inl rfl
  | some update =>
    have member := mem_of_mem_filter (mem_of_getLast? last)
    obtain ⟨function, inside, rfl⟩ := mem_map.mp member
    exact .inr ⟨function, inside, rfl⟩

/-- With distinct names, every function has the entry computed from it. -/
theorem valueAt_tabulate_of_nodup [Inhabited ν]
    (distinct : (module.functions.map Function.name).Nodup) (direct : Function → ν)
 (member : function ∈ module.functions) :
    valueAt (tabulate module direct) function.name = direct function := by
  have keys : ((module.functions.map fun function => (function.name, direct function)).map
      Prod.fst).Nodup := by
    rw [map_map]
    exact distinct
  have found : AssocMap.find? (module.functions.map fun function =>
      (function.name, direct function)) function.name = some (direct function) :=
    (AssocMap.find?_eq_some_iff keys).mpr (mem_map_of_mem member)
  rw [tabulate_eq, valueAt, AssocMap.find?_assignAll_of_nodup keys, found]
  rfl

theorem mergeCallee_eq (usage : AssocMap String BuiltinUsage) (site : String × String) :
    mergeCallee usage site = (valueAt usage site.1).merge (valueAt usage site.2) := by
  unfold mergeCallee
  split
  · next found => rw [valueAt, valueAt, found]; rfl
  · next absent =>
      rw [show valueAt usage site.2 = default by rw [valueAt, absent]; rfl,
        merge_default]

/-- The invariant of the loop: every function keeps what it needs itself. -/
private def KeepsDirect (module : IrModule) (usage : AssocMap String BuiltinUsage) : Prop :=
  ∀ function ∈ module.functions, (valueAt usage function.name).Covers (directUsage function)

theorem analyzeBuiltinUsage_spec (distinct : (module.functions.map Function.name).Nodup) :
    (∀ function ∈ module.functions,
      (valueAt (analyzeBuiltinUsage module) function.name).Covers (directUsage function)) ∧
      ∀ site ∈ followedCalls module, (valueAt (analyzeBuiltinUsage module) site.1).Covers
        (valueAt (analyzeBuiltinUsage module) site.2) := by
  have start : KeepsDirect module (tabulate module directUsage) := by
    intro function member
    rw [valueAt_tabulate_of_nodup distinct directUsage member]
    exact merge_self _
  have keys : ∀ site ∈ followedCalls module, site.1 ∈ module.functions.map name := by
    intro site member
    obtain ⟨function, inside, called⟩ := mem_flatMap.mp member
    obtain ⟨operation, _, named⟩ := mem_filterMap.mp called
    split at named
    · cases named
    · obtain ⟨callee, _, rfl⟩ := Option.map_eq_some_iff.mp named
      exact mem_map_of_mem inside
  obtain ⟨kept, stable⟩ := propagate_spec Prod.fst mergeCallee (KeepsDirect module)
    count 7 keys
    (by
      intro usage holds site _ changes
      rw [mergeCallee_eq] at changes ⊢
      refine ⟨fun function member => ?_, count_lt_of_merge_ne changes,
        count_le _⟩
      rw [valueAt_assign]
      split
      · next same =>
          have before := holds function member
          rw [← same] at before
          unfold BuiltinUsage.Covers at *
          rw [merge_assoc, merge_comm _ (directUsage function),
            ← merge_assoc, before]
      · exact holds function member)
    (show (module.functions.map name).length * 7 < module.functions.length * 7 + 1 by
      rw [length_map]; omega)
    start
  refine ⟨kept, fun site member => ?_⟩
  have still := stable site member
  rw [mergeCallee_eq] at still
  exact still

variable {names : List String}

theorem mem_sortedNames {name : String} : name ∈ sortedNames names ↔ name ∈ names := by
  rw [sortedNames, mem_insertionSort, mem_dedup]

theorem nodup_sortedNames (names : List String) : (sortedNames names).Nodup :=
  (perm_insertionSort _ _).nodup_iff.mpr (nodup_dedup names)

theorem sortedNames_eq_of_length_le {more : List String} (sorted : sortedNames names = names)
    (subset : names ⊆ more) (few : (sortedNames more).length ≤ names.length) :
    sortedNames more = names := by
  have distinct : names.Nodup := sorted ▸ nodup_sortedNames names
  have inside : names ⊆ sortedNames more := fun name member =>
    mem_sortedNames.mpr (subset member)
  have perm := (subperm_of_subset distinct inside).perm_of_length_le few
  have ordered : Pairwise (· ≤ ·) names := sorted ▸ pairwise_insertionSort _ _
  exact (Perm.eq_of_pairwise' ordered (pairwise_insertionSort _ _) perm).symm

/-- The invariant of the loop: every entry is a sorted vector of names that some function uses. -/
private def SortedEntries (module : IrModule) (usage : AssocMap String (List String)) : Prop :=
  ∀ name, sortedNames (valueAt usage name) = valueAt usage name ∧
    valueAt usage name ⊆ module.functions.flatMap directShared

theorem sortedNames_idem (names : List String) :
    sortedNames (sortedNames names) = sortedNames names := by
  rw [sortedNames, dedup_eq_self.mpr (nodup_sortedNames names), sortedNames]
  exact Pairwise.insertionSort_eq (pairwise_insertionSort _ _)

theorem analyzeSharedUsage_spec (member : caller ∈ module.functions)
    (called : callee ∈ (operationsOf caller).filterMap calleeOf) :
    valueAt (analyzeSharedUsage module) callee ⊆
      valueAt (analyzeSharedUsage module) caller.name := by
  have start : SortedEntries module (tabulate module directShared) := by
    intro name
    rcases valueAt_tabulate module directShared name with absent | ⟨function, inside, entry⟩
    · rw [absent]
      exact ⟨rfl, nil_subset _⟩
    · rw [entry]
      exact ⟨sortedNames_idem _, fun name member => mem_flatMap.mpr ⟨function, inside, member⟩⟩
  have merged : ∀ usage, SortedEntries module usage → ∀ function : Function,
      mergeShared usage function ⊆ module.functions.flatMap directShared := by
    intro usage holds function name inside
    rcases mem_append.mp (mem_sortedNames.mp inside) with own | others
    · exact (holds function.name).2 own
    · obtain ⟨other, _, theirs⟩ := mem_flatMap.mp others
      exact (holds other).2 theirs
  obtain ⟨_, stable⟩ := propagate_spec name mergeShared (SortedEntries module)
    length (module.functions.flatMap directShared).length
    (fun function inside => mem_map_of_mem inside)
    (by
      intro usage holds function _ changes
      refine ⟨fun name => ?_, ?_, ?_⟩
      · rw [valueAt_assign]
        split
        · exact ⟨sortedNames_idem _, merged usage holds function⟩
        · exact holds name
      · by_contra few
        exact changes (sortedNames_eq_of_length_le (holds function.name).1
          (subset_append_left _ _) (Nat.le_of_not_lt few))
      · exact (subperm_of_subset (nodup_sortedNames _) (merged usage holds function)).length_le)
    (show (module.functions.map name).length *
        (module.functions.flatMap directShared).length <
          module.functions.length * (module.functions.flatMap directShared).length + 1 by
      rw [length_map]; omega)
    start
  intro name inside
  have still := stable caller member
  change mergeShared (analyzeSharedUsage module) caller =
    valueAt (analyzeSharedUsage module) caller.name at still
  rw [← still]
  exact mem_sortedNames.mpr (mem_append_right _
    (mem_flatMap.mpr ⟨callee, called, inside⟩))

theorem analyzeWideAtomicUsage_spec (member : caller ∈ module.functions)
    (called : callee ∈ (operationsOf caller).filterMap calleeOf)
    (needed : valueAt (analyzeWideAtomicUsage module) callee = true) :
    valueAt (analyzeWideAtomicUsage module) caller.name = true := by
  obtain ⟨_, stable⟩ := propagate_spec name mergeWideAtomic (fun _ => True)
    toNat 1 (fun function inside => mem_map_of_mem inside)
    (by
      intro usage _ function _ changes
      refine ⟨trivial, ?_, toNat_le _⟩
      unfold mergeWideAtomic at changes ⊢
      cases own : valueAt usage function.name with
      | true => rw [own] at changes; exact absurd rfl changes
      | false =>
        rw [own, Bool.false_or] at changes
        rw [Bool.false_or, (Bool.not_eq_false _).mp changes]
        decide)
    (show (module.functions.map name).length * 1 < module.functions.length * 1 + 1 by
      rw [length_map]; omega)
    trivial
  have still := stable caller member
  change mergeWideAtomic (analyzeWideAtomicUsage module) caller =
    valueAt (analyzeWideAtomicUsage module) caller.name at still
  rw [← still, mergeWideAtomic, or_eq_true]
  exact .inr (any_eq_true.mpr ⟨callee, called, needed⟩)

/-! ## Parameters and arguments -/

theorem hiddenArguments_eq (tables : UsageTables) (callee : String) :
    hiddenArguments tables callee =
      (valueAt tables.shared callee).map sharedArgument ++
        (if valueAt tables.wideAtomic callee then
          [.identifier "cm_atomic_lock_bank" atomicUintPointer] else []) ++
        builtinArguments (valueAt tables.builtin callee) := by
  unfold hiddenArguments valueAt
  congr 1
  · congr 1
    · cases tables.shared.find? callee <;> rfl
    · cases tables.wideAtomic.find? callee with
      | none => rfl
      | some needed => cases needed <;> rfl
  · cases tables.builtin.find? callee <;> rfl

theorem builtinArguments_subset (covers : usage.Covers other) :
    builtinArguments other ⊆ builtinArguments usage := by
  -- one flag at a time: an argument of `other` is there because of a flag that `usage` raises too
  have flag : ∀ (a b : Bool) (argument : MslExpression), (a || b) = a →
      (if b then [argument] else []) ⊆ (if a then [argument] else []) := by
    intro a b argument raised
    cases b with
    | false => exact nil_subset _
    | true => rw [Bool.or_true] at raised; rw [← raised]; exact List.Subset.refl _
  have append_subset : ∀ {a b a' b' : List MslExpression}, a ⊆ a' → b ⊆ b' →
      a ++ b ⊆ a' ++ b' := fun first second => append_subset.mpr
    ⟨subset_append_of_subset_left _ first, subset_append_of_subset_right _ second⟩
  unfold BuiltinUsage.Covers BuiltinUsage.merge at covers
  unfold builtinArguments
  refine append_subset (append_subset (append_subset (append_subset (append_subset
    (append_subset ?_ ?_) ?_) ?_) ?_) ?_) ?_
  · exact flag _ _ _ (congrArg deviceClock covers)
  · exact flag _ _ _ (congrArg gridBarrier covers)
  · exact flag _ _ _ (congrArg threadPosition covers)
  · exact flag _ _ _ (congrArg threadgroupPosition covers)
  · exact flag _ _ _ (congrArg threadsPerThreadgroup covers)
  · exact flag _ _ _ (congrArg threadgroupsPerGrid covers)
  · exact flag _ _ _ (congrArg laneId covers)

/-- Lowering an operation asks for nothing that the analysis does not see. -/
theorem directNeeds_covers (operation : Operation) :
    (directNeeds operation).Covers (raisedNeeds operation) := by
  unfold BuiltinUsage.Covers BuiltinUsage.merge directNeeds raisedNeeds
  congr 1
  all_goals grind

theorem foldl_merge_covers {α : Type} (needs : α → BuiltinUsage) {item : α} :
    ∀ (items : List α) (start : BuiltinUsage),
      (items.foldl (fun usage item => usage.merge (needs item)) start).Covers start ∧
        (item ∈ items → (items.foldl (fun usage item => usage.merge (needs item)) start).Covers
          (needs item)) := by
  intro items
  induction items with
  | nil => exact fun start => ⟨start.merge_self, fun member => absurd member not_mem_nil⟩
  | cons head rest ih =>
    intro start
    obtain ⟨grows, seen⟩ := ih (start.merge (needs head))
    rw [foldl_cons]
    refine ⟨grows.of_merge_left, fun member => ?_⟩
    rcases mem_cons.mp member with rfl | later
    · exact grows.of_merge_right
    · exact seen later

variable {lowered : List Operation} {shared : HiddenSignature}

theorem needsAfter_eq (distinct : (module.functions.map Function.name).Nodup)
    (member : function ∈ module.functions) (inside : lowered ⊆ operationsOf function) :
    needsAfter (usageTables module) function lowered =
      valueAt (usageTables module).builtin function.name := by
  have covered : ∀ operation ∈ operationsOf function,
      (valueAt (usageTables module).builtin function.name).Covers (raisedNeeds operation) := by
    intro operation hop
    have direct := (analyzeBuiltinUsage_spec distinct).1 function member
    have seen := (foldl_merge_covers directNeeds (operationsOf function) {}).2 hop
    exact direct.trans (seen.trans (directNeeds_covers operation))
  unfold needsAfter
  induction lowered with
  | nil => rfl
  | cons operation rest ih =>
    rw [foldl_cons, show merge _ _ = _ from
      covered operation (inside mem_cons_self)]
    exact ih fun other hother => inside (mem_cons_of_mem _ hother)

/-- The hidden parameters of a function, as they are passed on: its threadgroup memory, then what
the tables say. -/
theorem arguments_of_hiddenSignature (distinct : (module.functions.map Function.name).Nodup)
    (member : function ∈ module.functions) (inside : lowered ⊆ operationsOf function)
    {signature : HiddenSignature}
    (declared : hiddenSignature module (usageTables module) function lowered = .ok signature) :
    ∃ shared, sharedSignature module (usageTables module) function = .ok shared ∧
      signature.arrays = shared.arrays ∧
      signature.parameters.map argument =
        shared.parameters.map argument ++
          (if valueAt (usageTables module).wideAtomic function.name then
            [.identifier "cm_atomic_lock_bank" atomicUintPointer] else []) ++
          builtinArguments (valueAt (usageTables module).builtin function.name) := by
  unfold hiddenSignature at declared
  rw [needsAfter_eq distinct member inside] at declared
  obtain ⟨shared, hshared, rest⟩ := bind_eq_ok declared
  have pass : ∀ (flag : Bool) (parameter : HiddenParameter),
      (if flag then [parameter] else []).map argument =
        if flag then [parameter.argument] else [] := by
    intro flag parameter
    cases flag <;> rfl
  refine ⟨shared, hshared, ?_⟩
  injection rest with rest
  rw [← rest]
  refine ⟨rfl, ?_⟩
  simp only [map_append, pass, builtinArguments, append_assoc]
  rfl

/-- A kernel declares every threadgroup global it needs, as a parameter or as an array. -/
theorem declareShared_spec {globals : List String} :
    ∀ {state last : HiddenSignature × Nat},
      globals.foldlM (declareShared module) state = .ok last →
        state.1.parameters ⊆ last.1.parameters ∧ state.1.arrays ⊆ last.1.arrays ∧
          ∀ global ∈ globals,
            (∃ parameter ∈ last.1.parameters, sharedArgument global = parameter.argument) ∨
              ∃ array ∈ last.1.arrays, sharedArgument global = .identifier array.1 sharedPointer := by
  induction globals with
  | nil =>
    intro state last done
    injection done with done
    subst done
    exact ⟨Subset.refl _, Subset.refl _, fun _ absurd => by cases absurd⟩
  | cons global globals ih =>
    intro state last done
    rw [foldlM_cons] at done
    obtain ⟨next, declares, rest⟩ := bind_eq_ok done
    obtain ⟨parameters, arrays, later⟩ := ih rest
    -- what this declaration adds
    have added : state.1.parameters ⊆ next.1.parameters ∧ state.1.arrays ⊆ next.1.arrays ∧
        ((∃ parameter ∈ next.1.parameters, sharedArgument global = parameter.argument) ∨
          ∃ array ∈ next.1.arrays, sharedArgument global = .identifier array.1 sharedPointer) := by
      unfold declareShared at declares
      split at declares
      · cases declares
      · split at declares
        · split at declares
          · cases declares
          · injection declares with declares
            subst declares
            exact ⟨subset_append_left _ _, Subset.refl _,
              .inl ⟨_, mem_append_right _ (mem_singleton.mpr rfl), rfl⟩⟩
        · split at declares
          · cases declares
          · injection declares with declares
            subst declares
            exact ⟨Subset.refl _, subset_append_left _ _,
              .inr ⟨_, mem_append_right _ (mem_singleton.mpr rfl), rfl⟩⟩
    refine ⟨Subset.trans added.1 parameters, Subset.trans added.2.1 arrays, fun other member => ?_⟩
    rcases mem_cons.mp member with rfl | member
    · exact added.2.2.imp (fun ⟨parameter, mem, same⟩ => ⟨parameter, parameters mem, same⟩)
        fun ⟨array, mem, same⟩ => ⟨array, arrays mem, same⟩
    · exact later other member

theorem arguments_of_helper (helper : function.isKernel = false)
    (declared : sharedSignature module tables function = .ok shared) :
    shared.parameters.map argument =
      (valueAt tables.shared function.name).map sharedArgument := by
  unfold sharedSignature at declared
  split at declared
  · next absent =>
      injection declared with declared
      rw [← declared, valueAt, absent]
      rfl
  · next globals found =>
      rw [helper, if_neg (by simp)] at declared
      injection declared with declared
      rw [← declared, valueAt, found, map_map]
      rfl

/-- The threadgroup memory that the table gives a function is declared in it. -/
theorem declared_of_shared (declared : sharedSignature module tables function = .ok shared)
    {global : String} (needed : global ∈ valueAt tables.shared function.name) :
    (∃ parameter ∈ shared.parameters, sharedArgument global = parameter.argument) ∨
      function.isKernel = true ∧ ∃ array ∈ shared.arrays,
        sharedArgument global = .identifier array.1 sharedPointer := by
  cases kernel : function.isKernel with
  | false =>
    have member := @mem_map_of_mem _ _ _ _ sharedArgument needed
    rw [← arguments_of_helper kernel declared] at member
    obtain ⟨parameter, mem, same⟩ := mem_map.mp member
    exact .inl ⟨parameter, mem, same.symm⟩
  | true =>
    unfold sharedSignature at declared
    split at declared
    · next absent => rw [valueAt, absent] at needed; cases needed
    · next globals found =>
        rw [valueAt, found] at needed
        rw [if_pos kernel] at declared
        cases folded : globals.foldlM (declareShared module) ({}, 0) with
        | error message => rw [folded] at declared; cases declared
        | ok last =>
          rw [folded] at declared
          injection declared with declared
          subst declared
          exact ((declareShared_spec folded).2.2 global needed).imp_right fun array =>
            ⟨rfl, array⟩

/-- Lowering a function succeeds with a hidden signature, whichever of its operations it reached. -/
def Declares (module : IrModule) (function : Function) (signature : HiddenSignature) : Prop :=
  ∃ lowered : List Operation, lowered ⊆ operationsOf function ∧
    hiddenSignature module (usageTables module) function lowered = .ok signature

/-- An operation of `caller` is lowered to a call of `callee` with some hidden arguments. -/
structure Calls (module : IrModule) (caller callee : Function) (operation : Operation)
    (hidden : List MslExpression) : Prop where
  callerMem : caller ∈ module.functions
  calleeMem : callee ∈ module.functions
  operationMem : operation ∈ operationsOf caller
  isCall : operation.opcode = .call
  lowers : lowerCall module (usageTables module) operation = .ok (.byName callee.name hidden)

/-- Every call passes the hidden parameters of its callee, and they are parameters of its
caller. -/
def HiddenParametersAgree (module : IrModule) : Prop :=
  ∀ (caller callee : Function) (operation : Operation) (hidden : List MslExpression),
    Calls module caller callee operation hidden →
      ∀ callerSignature calleeSignature : HiddenSignature,
        Declares module caller callerSignature → Declares module callee calleeSignature →
          hidden = calleeSignature.parameters.map HiddenParameter.argument ∧
            ∀ argument ∈ hidden,
              ∃ parameter ∈ callerSignature.parameters, argument = parameter.argument

theorem Calls.named {callee : Function}
    {hidden : List MslExpression} (calls : Calls module caller callee operation hidden) :
    calleeOf operation = some callee.name ∧
      hidden = hiddenArguments (usageTables module) callee.name := by
  have lowers := calls.lowers
  unfold lowerCall at lowers
  split at lowers
  · cases lowers
  · next name found =>
      have spelled : calleeOf operation = some name := by
        rw [calleeOf, if_pos calls.isCall, found]
      split at lowers
      · cases lowers
      split at lowers
      · cases lowers
      split at lowers
      · cases lowers
      split at lowers
      · cases lowers
      cases lowers
      exact ⟨spelled, rfl⟩

/-- Every call that is not marked `builtin`, of a function that is no kernel, passes exactly the
hidden parameters of its callee; each is a hidden parameter of the caller, or a threadgroup array
that a kernel declares at the top of its body. -/
theorem hiddenParameters_agree {module : IrModule} (accepted : (verify module).ok = true)
    {caller callee : Function} {operation : Operation} {hidden : List MslExpression}
    (calls : Calls module caller callee operation hidden) (helper : callee.isKernel = false)
    (unmarked : operation.attributes.contains "builtin" = false)
    {callerSignature calleeSignature : HiddenSignature}
    (callerDeclares : Declares module caller callerSignature)
    (calleeDeclares : Declares module callee calleeSignature) :
    hidden = calleeSignature.parameters.map HiddenParameter.argument ∧
      ∀ argument ∈ hidden,
        (∃ parameter ∈ callerSignature.parameters, argument = parameter.argument) ∨
          caller.isKernel = true ∧ ∃ array ∈ callerSignature.arrays,
            argument = .identifier array.1 sharedPointer := by
  have distinct := nodup_names_of_ok accepted
  obtain ⟨named, rfl⟩ := calls.named
  obtain ⟨_, callerInside, callerDeclared⟩ := callerDeclares
  obtain ⟨_, calleeInside, calleeDeclared⟩ := calleeDeclares
  obtain ⟨shared, hshared, harrays, hparameters⟩ :=
    arguments_of_hiddenSignature distinct calls.callerMem callerInside callerDeclared
  obtain ⟨shared', hshared', -, hparameters'⟩ :=
    arguments_of_hiddenSignature distinct calls.calleeMem calleeInside calleeDeclared
  have called : callee.name ∈ (operationsOf caller).filterMap calleeOf :=
    mem_filterMap.mpr ⟨operation, calls.operationMem, named⟩
  have followed : (caller.name, callee.name) ∈ followedCalls module := by
    refine mem_flatMap.mpr ⟨caller, calls.callerMem, mem_filterMap.mpr
      ⟨operation, calls.operationMem, ?_⟩⟩
    rw [unmarked, if_neg (by simp), named]
    rfl
  have builtins := builtinArguments_subset ((analyzeBuiltinUsage_spec distinct).2 _ followed)
  rw [hiddenArguments_eq]
  constructor
  · -- the callee is a helper, so all its threadgroup memory is parameters
    rw [hparameters']
    congr 2
    exact (arguments_of_helper helper hshared').symm
  · intro argument member
    have passed : argument ∈ shared.parameters.map HiddenParameter.argument ++
        (if valueAt (usageTables module).wideAtomic caller.name then
          [.identifier "cm_atomic_lock_bank" atomicUintPointer] else []) ++
        builtinArguments (valueAt (usageTables module).builtin caller.name) →
        ∃ parameter ∈ callerSignature.parameters, argument = parameter.argument := by
      intro inside
      rw [← hparameters] at inside
      obtain ⟨parameter, mem, same⟩ := mem_map.mp inside
      exact ⟨parameter, mem, same.symm⟩
    rcases mem_append.mp member with first | builtin
    · rcases mem_append.mp first with memory | bank
      · obtain ⟨global, needed, rfl⟩ := mem_map.mp memory
        have own := analyzeSharedUsage_spec calls.callerMem called needed
        rcases declared_of_shared hshared own with ⟨parameter, mem, same⟩ | ⟨kernel, array, mem, same⟩
        · exact .inl (passed (mem_append_left _ (mem_append_left _
            (same ▸ mem_map_of_mem mem))))
        · exact .inr ⟨kernel, array, harrays ▸ mem, same⟩
      · refine .inl (passed (mem_append_left _ (mem_append_right _ ?_)))
        split at bank
        · next needed =>
            have own : valueAt (usageTables module).wideAtomic caller.name = true :=
              analyzeWideAtomicUsage_spec calls.callerMem called needed
            rw [if_pos own]
            exact bank
        · cases bank
    · exact .inl (passed (mem_append_right _ (builtins builtin)))

/-- A call that nothing replaces passes the arguments that the tables ask for. -/
theorem lowerCall_byName (named : operation.attributes.find? "callee" = some callee)
    (kept : (isBitExpansion module operation callee || callee == "cm_device_clock" ||
      callee == "cm_grid_sync" || isMathExpansion operation callee) = false) :
    lowerCall module tables operation = .ok (.byName callee (hiddenArguments tables callee)) := by
  simp only [or_eq_false_iff, beq_eq_false_iff_ne] at kept
  obtain ⟨⟨⟨bits, clock⟩, barrier⟩, math⟩ := kept
  unfold lowerCall
  rw [named]
  simp only [bits, math, clock, barrier, if_false, false_eq_true]

/-! ## Where the plain statement fails -/

/-- A function with one block that ends in a return. -/
private def straightLine (name : String) (isKernel : Bool) (operations : List Operation) :
    Function where
  name := name
  isKernel := isKernel
  kernelAbi := if isKernel then some {} else none
  blocks := [{ id := 1, name := "entry", operations := operations ++ [{ opcode := .return }] }]

/-- A read of the threadgroup global `tile`. -/
private def readsTile : Operation where
  opcode := .load
  results := [1]
  resultTypes := [.integer 32]
  operands := [{ kind := .symbol, type := .pointer (.integer 32) .threadgroup, text := "tile" }]

private def callOf (attributes : AssocMap String String) : Operation where
  opcode := .call
  attributes := attributes

/-- A kernel that calls a helper which reads a static threadgroup array. -/
def staticTileModule : IrModule where
  stage := .metalLegalized
  globalThreadgroups := [{ name := "tile", byteSize := 64 }]
  functions :=
    [straightLine "helper" false [readsTile],
      straightLine "kernel_main" true
        [callOf [("callee", "helper")]]]

/-- A kernel that calls the module's own `max`, which reads the thread position, by an operation
marked as a built-in. -/
def markedCallModule : IrModule where
  stage := .metalLegalized
  functions :=
    [straightLine "max" false
        [{ opcode := .metalThreadPosition, results := [1], resultTypes := [.integer 32] }],
      straightLine "kernel_main" true
        [callOf [("callee", "max"), ("builtin", "true")]]]

/-- A kernel that calls a kernel with a static threadgroup array. -/
def kernelCallModule : IrModule where
  stage := .metalLegalized
  globalThreadgroups := [{ name := "tile", byteSize := 64 }]
  functions :=
    [straightLine "inner" true [readsTile],
      straightLine "kernel_main" true
        [callOf [("callee", "inner")]]]

/-- The tables of an accepted module, and what the call site finds out about an operation of one of
its functions. -/
private abbrev Computes (module : IrModule) (tables : UsageTables) (caller : Function)
    (operation : Operation) (callee : String) : Prop :=
  (analyzeBuiltinUsage module = tables.builtin ∧ analyzeSharedUsage module = tables.shared ∧
    analyzeWideAtomicUsage module = tables.wideAtomic) ∧
  (verify module).ok = true ∧ operation ∈ operationsOf caller ∧
  operation.attributes.find? "callee" = some callee ∧
  (isBitExpansion module operation callee || callee == "cm_device_clock" ||
    callee == "cm_grid_sync" || isMathExpansion operation callee) = false

private theorem Computes.tables_eq
    (computes : Computes module tables caller operation callee) : usageTables module = tables := by
  obtain ⟨⟨builtin, shared, wide⟩, -⟩ := computes
  rw [usageTables, builtin, shared, wide]

private theorem Computes.lowers (computes : Computes module tables caller operation callee) :
    lowerCall module (usageTables module) operation =
      .ok (.byName callee (hiddenArguments (usageTables module) callee)) := by
  obtain ⟨-, -, -, named, kept⟩ := computes
  exact lowerCall_byName named kept

private theorem examples_compute :
    Computes staticTileModule
      ⟨[("helper", {}), ("kernel_main", {})], [("helper", ["tile"]), ("kernel_main", ["tile"])],
        [("helper", false), ("kernel_main", false)]⟩
      (straightLine "kernel_main" true [callOf [("callee", "helper")]])
      (callOf [("callee", "helper")]) "helper" ∧
    Computes markedCallModule
      ⟨[("max", { threadPosition := true }), ("kernel_main", {})],
        [("max", []), ("kernel_main", [])], [("max", false), ("kernel_main", false)]⟩
      (straightLine "kernel_main" true [callOf [("callee", "max"), ("builtin", "true")]])
      (callOf [("callee", "max"), ("builtin", "true")]) "max" ∧
    Computes kernelCallModule
      ⟨[("inner", {}), ("kernel_main", {})], [("inner", ["tile"]), ("kernel_main", ["tile"])],
        [("inner", false), ("kernel_main", false)]⟩
      (straightLine "kernel_main" true [callOf [("callee", "inner")]])
      (callOf [("callee", "inner")]) "inner" := by
  decide +kernel

private theorem staticTile_disagrees : ¬ HiddenParametersAgree staticTileModule := by
  intro agree
  have calls : Calls staticTileModule (straightLine "kernel_main" true [callOf [("callee", "helper")]])
      (straightLine "helper" false [readsTile]) (callOf [("callee", "helper")])
      (hiddenArguments (usageTables staticTileModule) "helper") :=
    ⟨by simp [staticTileModule], by simp [staticTileModule], examples_compute.1.2.2.1, rfl,
      examples_compute.1.lowers⟩
  have result := agree _ _ _ _ calls
    { arrays := [(sharedParameterName "tile", 64)] }
    { parameters := [{ type := sharedPointer, name := sharedParameterName "tile" }] }
    ⟨[], nil_subset _, by rw [examples_compute.1.tables_eq]; rfl⟩
    ⟨[], nil_subset _, by rw [examples_compute.1.tables_eq]; rfl⟩
  obtain ⟨_, absent, _⟩ := result.2 (sharedArgument "tile") (by
    rw [examples_compute.1.tables_eq]
    exact mem_singleton.mpr rfl)
  cases absent

/-- The analysis skips the marked call, the call site does not: the kernel passes a thread position
that it does not have. -/
private theorem markedCall_disagrees : ¬ HiddenParametersAgree markedCallModule := by
  intro agree
  have calls : Calls markedCallModule
      (straightLine "kernel_main" true [callOf [("callee", "max"), ("builtin", "true")]])
      (straightLine "max" false
        [{ opcode := .metalThreadPosition, results := [1], resultTypes := [.integer 32] }])
      (callOf [("callee", "max"), ("builtin", "true")])
      (hiddenArguments (usageTables markedCallModule) "max") :=
    ⟨by simp [markedCallModule], by simp [markedCallModule], examples_compute.2.1.2.2.1, rfl,
      examples_compute.2.1.lowers⟩
  have result := agree _ _ _ _ calls {}
    { parameters := [{ type := uint3, name := "cm_thread_position" }] }
    ⟨[], nil_subset _, by rw [examples_compute.2.1.tables_eq]; rfl⟩
    ⟨[], nil_subset _, by rw [examples_compute.2.1.tables_eq]; rfl⟩
  obtain ⟨_, absent, _⟩ := result.2 (.identifier "cm_thread_position" uint3) (by
    rw [examples_compute.2.1.tables_eq]
    exact mem_singleton.mpr rfl)
  cases absent

/-- The call passes an array that the called kernel declares in its own body. -/
private theorem kernelCall_disagrees : ¬ HiddenParametersAgree kernelCallModule := by
  intro agree
  have calls : Calls kernelCallModule
      (straightLine "kernel_main" true [callOf [("callee", "inner")]])
      (straightLine "inner" true [readsTile]) (callOf [("callee", "inner")])
      (hiddenArguments (usageTables kernelCallModule) "inner") :=
    ⟨by simp [kernelCallModule], by simp [kernelCallModule], examples_compute.2.2.2.2.1, rfl,
      examples_compute.2.2.lowers⟩
  have result := agree _ _ _ _ calls
    { arrays := [(sharedParameterName "tile", 64)] } { arrays := [(sharedParameterName "tile", 64)] }
    ⟨[], nil_subset _, by rw [examples_compute.2.2.tables_eq]; rfl⟩
    ⟨[], nil_subset _, by rw [examples_compute.2.2.tables_eq]; rfl⟩
  rw [examples_compute.2.2.tables_eq] at result
  exact absurd result.1 (by
    change [sharedArgument "tile"] ≠ []
    simp)

/-- The plain statement fails for a static array of a kernel, for a call marked `builtin`, and for a
call of a kernel. -/
theorem hiddenParameters_disagree :
    ((verify staticTileModule).ok = true ∧ ¬ HiddenParametersAgree staticTileModule) ∧
      ((verify markedCallModule).ok = true ∧ ¬ HiddenParametersAgree markedCallModule) ∧
        (verify kernelCallModule).ok = true ∧ ¬ HiddenParametersAgree kernelCallModule :=
  ⟨⟨examples_compute.1.2.1, staticTile_disagrees⟩,
    ⟨examples_compute.2.1.2.1, markedCall_disagrees⟩,
    examples_compute.2.2.2.1, kernelCall_disagrees⟩

/-- The kernel with a static array passes it on as the helper's parameter. -/
theorem hiddenParameters_staticTile :
    hiddenArguments (usageTables staticTileModule) "helper" =
        [sharedArgument "tile"] ∧
      ∀ argument ∈ hiddenArguments (usageTables staticTileModule) "helper",
        (∃ parameter ∈ ([] : List HiddenParameter), argument = parameter.argument) ∨
          true = true ∧ ∃ array ∈ [(sharedParameterName "tile", 64)],
            argument = .identifier array.1 sharedPointer := by
  have agree := @hiddenParameters_agree staticTileModule examples_compute.1.2.1
    (straightLine "kernel_main" true [callOf [("callee", "helper")]])
    (straightLine "helper" false [readsTile]) (callOf [("callee", "helper")])
    (hiddenArguments (usageTables staticTileModule) "helper")
    ⟨by simp [staticTileModule], by simp [staticTileModule], examples_compute.1.2.2.1, rfl,
      examples_compute.1.lowers⟩
    rfl rfl { arrays := [(sharedParameterName "tile", 64)] }
    { parameters := [{ type := sharedPointer, name := sharedParameterName "tile" }] }
    ⟨[], nil_subset _, by rw [examples_compute.1.tables_eq]; rfl⟩
    ⟨[], nil_subset _, by rw [examples_compute.1.tables_eq]; rfl⟩
  exact agree

end CuMetal.Metal
