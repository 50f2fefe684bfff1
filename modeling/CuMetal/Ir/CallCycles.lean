import CuMetal.Ir.VerifyFacts
import CuMetal.Lib.PostOrder

/-!
# Recursive device calls

The verifier reports a recursive call graph exactly when a function of the module can reach itself
through calls (`compiler/ir/src/ir.cpp:544-602`).
-/

open Relation (ReflTransGen TransGen)

namespace CuMetal.Ir

open List

/-- The operation calls a function of the module, and no builtin. -/
def Operation.CallsFunction (operation : Operation) (callee : String) : Prop :=
  operation.opcode = .call ∧ operation.attributes.find? "callee" = some callee ∧
    operation.flag "indirect" = false ∧ operation.flag "builtin" = false

def Defines (module : IrModule) (name : String) : Prop :=
  name ≠ "" ∧ ∃ function ∈ module.functions, function.name = name

/-- A function of the module calls another one. -/
def ModuleCalls (module : IrModule) (caller callee : String) : Prop :=
  Defines module caller ∧ Defines module callee ∧
    ∃ function ∈ module.functions, function.name = caller ∧
      ∃ block ∈ function.blocks, ∃ operation ∈ block.operations, operation.CallsFunction callee

def Diagnostic.ReportsRecursion (diagnostic : Diagnostic) : Prop :=
  ∃ callee, diagnostic.message =
    "recursive device-call cycle involving '" ++ callee ++ "' is unsupported"

/-! ## The other messages -/

/-- No message but that of recursion begins with this letter. -/
def Diagnostic.Other (diagnostic : Diagnostic) : Prop :=
  diagnostic.message.toList.head? ≠ some 'r'

theorem Diagnostic.Other.not_reports {diagnostic : Diagnostic} (other : diagnostic.Other) :
    ¬ diagnostic.ReportsRecursion := by
  rintro ⟨callee, message⟩
  refine other ?_
  rw [message, String.toList_append, String.toList_append]
  rfl

theorem other_complain {condition : Bool} {message : String} {location : SourceLocation}
    (letter : message.toList.head? ≠ some 'r') :
    ∀ diagnostic ∈ complain condition message location, diagnostic.Other := by
  intro diagnostic member
  unfold complain at member
  split at member
  · rw [mem_singleton] at member
    subst member
    exact letter
  · cases member

theorem other_append {first second : List Diagnostic}
    (here : ∀ diagnostic ∈ first, diagnostic.Other)
    (there : ∀ diagnostic ∈ second, diagnostic.Other) :
    ∀ diagnostic ∈ first ++ second, diagnostic.Other :=
  forall_mem_append.mpr ⟨here, there⟩

theorem other_flatMap {α : Type} {items : List α} {report : α → List Diagnostic}
    (each : ∀ item ∈ items, ∀ diagnostic ∈ report item, diagnostic.Other) :
    ∀ diagnostic ∈ items.flatMap report, diagnostic.Other := by
  intro diagnostic member
  obtain ⟨item, inside, reported⟩ := mem_flatMap.mp member
  exact each item inside diagnostic reported

theorem other_collect {σ α : Type} {step : σ → α → σ × List Diagnostic} {items : List α}
    (each : ∀ item ∈ items, ∀ state, ∀ diagnostic ∈ (step state item).2, diagnostic.Other)
    (state : σ) : ∀ diagnostic ∈ (collect step state items).2, diagnostic.Other := by
  induction items generalizing state with
  | nil => exact nofun
  | cons item items ih =>
    exact other_append (each item mem_cons_self state)
      (ih (fun later member => each later (mem_cons_of_mem _ member)) _)

theorem other_headerDiagnostics (function : Function) :
    ∀ diagnostic ∈ headerDiagnostics function, diagnostic.Other := by
  refine other_append (other_append (other_complain ?_) (other_complain ?_))
    (other_flatMap fun argument _ => other_complain ?_) <;>
    simp

theorem other_blockTables (function : Function) :
    ∀ diagnostic ∈ (blockTables function).2, diagnostic.Other := by
  refine other_collect (fun indexed _ tables => ?_) _
  refine other_append (other_append (other_append (other_complain ?_) (other_complain ?_))
    (other_complain ?_)) (other_flatMap fun operation _ => other_complain ?_) <;>
    simp

theorem other_edgeDiagnostics (function : Function) (blockIndices : AssocMap BlockId Nat) :
    ∀ diagnostic ∈ edgeDiagnostics function blockIndices, diagnostic.Other := by
  refine other_flatMap fun block _ => other_flatMap fun operation _ =>
    other_flatMap fun successor _ => ?_
  unfold successorDiagnostics
  split
  · exact other_complain (by simp)
  · exact other_complain (by simp)

def DefinitionItem.OtherMessage : DefinitionItem → Prop
  | .define _ _ _ message => message.toList.head? ≠ some 'r'
  | .arityMismatch _ => True

theorem otherMessage_definitionItems (function : Function) :
    ∀ item ∈ definitionItems function, item.OtherMessage := by
  intro item member
  unfold definitionItems at member
  rcases mem_append.mp member with argument | inBlock
  · obtain ⟨argument, -, rfl⟩ := mem_map.mp argument
    simp [DefinitionItem.OtherMessage]
  · obtain ⟨block, -, inside⟩ := mem_flatMap.mp inBlock
    unfold blockItems at inside
    rcases mem_append.mp inside with argument | inOperation
    · obtain ⟨argument, -, rfl⟩ := mem_map.mp argument
      simp [DefinitionItem.OtherMessage]
    · obtain ⟨indexed, -, inside⟩ := mem_flatMap.mp inOperation
      unfold operationItems at inside
      rcases mem_append.mp inside with arity | result
      · split at arity
        · rw [mem_singleton] at arity
          subst arity
          trivial
        · cases arity
      · obtain ⟨result, -, rfl⟩ := mem_map.mp result
        simp [DefinitionItem.OtherMessage]

theorem other_valueDefinitions (function : Function) :
    ∀ diagnostic ∈ (valueDefinitions function).2, diagnostic.Other := by
  refine other_collect (fun item member definitions => ?_) _
  have message := otherMessage_definitionItems function item member
  cases item with
  | define => exact other_complain message
  | arityMismatch location =>
    have letter : "operation result/type arity mismatch".toList.head? ≠ some 'r' := by simp
    change ∀ diagnostic ∈ complain true _ location, diagnostic.Other
    exact other_complain letter

theorem other_operandDiagnostics (tables : FunctionTables) (site : UseSite) (operand : Operand) :
    ∀ diagnostic ∈ operandDiagnostics tables site operand, diagnostic.Other := by
  unfold operandDiagnostics
  split
  · exact nofun
  · split
    · exact other_complain (by simp)
    · refine other_append (other_complain (by simp)) ?_
      split
      · exact nofun
      · split
        · exact nofun
        · split
          · exact other_complain (by simp)
          · exact other_complain (by simp)

theorem other_callDiagnostics (functionNames : List String) (operation : Operation) :
    ∀ diagnostic ∈ callDiagnostics functionNames operation, diagnostic.Other := by
  unfold callDiagnostics
  split
  · exact nofun
  · split
    · exact other_complain (by simp)
    · split
      · exact other_complain (by simp)
      · exact other_complain (by simp)

theorem other_legalityDiagnostics (stage : IrStage) (functionNames : List String)
    (operation : Operation) :
    ∀ diagnostic ∈ legalityDiagnostics stage functionNames operation, diagnostic.Other := by
  have cast : ∀ diagnostic ∈ castDiagnostics operation, diagnostic.Other := by
    unfold castDiagnostics
    split
    · exact other_complain (by simp)
    · exact nofun
  have atomic : ∀ diagnostic ∈ atomicDiagnostics operation, diagnostic.Other := by
    unfold atomicDiagnostics
    split
    · exact nofun
    · refine other_append (other_append (other_complain ?_) (other_complain ?_))
        (other_complain ?_) <;>
        simp
  refine other_append (other_append (other_append (other_append (other_append cast
    (other_complain ?_)) atomic) (other_complain ?_)) (other_complain ?_))
    (other_callDiagnostics functionNames operation) <;>
    simp

theorem other_abiDiagnostics (function : Function) :
    ∀ diagnostic ∈ abiDiagnostics function, diagnostic.Other := by
  unfold abiDiagnostics
  split
  · exact nofun
  · refine other_flatMap fun argument _ => ?_
    refine other_append (other_append (other_complain ?_) (other_complain ?_))
      (other_complain ?_) <;>
      simp

theorem other_functionDiagnostics (stage : IrStage) (functionNames : List String)
    (function : Function) :
    ∀ diagnostic ∈ functionDiagnostics stage functionNames function, diagnostic.Other := by
  unfold functionDiagnostics
  split
  · exact nofun
  · split
    · exact other_complain (by simp)
    · refine other_append (other_append (other_append (other_append (other_append
        (other_headerDiagnostics function) (other_blockTables function))
        (other_edgeDiagnostics function _)) (other_valueDefinitions function)) ?_)
        (other_abiDiagnostics function)
      refine other_flatMap fun block _ => other_flatMap fun operation _ => ?_
      exact other_append (other_flatMap fun operand _ => other_operandDiagnostics _ _ operand)
        (other_legalityDiagnostics stage functionNames operation.1)

def registeredNames (module : IrModule) : List String :=
  (collect registerName [] module.functions).1

variable {module : IrModule} {name : String}

theorem mem_registeredNames : name ∈ registeredNames module ↔ Defines module name := by
  have general : ∀ (functions : List Function) (names : List String),
      name ∈ (collect registerName names functions).1 ↔
        name ∈ names ∨ name ≠ "" ∧ ∃ function ∈ functions, function.name = name := by
    intro functions
    induction functions with
    | nil => simp [collect]
    | cons function functions ih =>
      intro names
      rw [collect, ih]
      by_cases rejected : (function.name == "" || names.contains function.name) = true
      · have kept : (registerName names function).1 = names := by
          rw [registerName, if_pos rejected]
        rw [kept]
        simp only [Bool.or_eq_true, beq_iff_eq, contains_iff_mem] at rejected
        constructor
        · rintro (old | ⟨named, found, later⟩)
          · exact .inl old
          · exact .inr ⟨named, found, mem_cons_of_mem _ later.1, later.2⟩
        · rintro (old | ⟨named, found, member, same⟩)
          · exact .inl old
          · rcases mem_cons.mp member with rfl | later
            · rcases rejected with empty | known
              · exact absurd (same.symm.trans empty) named
              · exact .inl (same ▸ known)
            · exact .inr ⟨named, found, later, same⟩
      · have added : (registerName names function).1 = names ++ [function.name] := by
          rw [registerName, if_neg rejected]
        rw [added]
        simp only [Bool.or_eq_true, beq_iff_eq, contains_iff_mem, not_or] at rejected
        constructor
        · rintro (old | ⟨named, found, later⟩)
          · rcases mem_append.mp old with old | last
            · exact .inl old
            · rw [mem_singleton] at last
              exact .inr ⟨last ▸ rejected.1, function, mem_cons_self, last.symm⟩
          · exact .inr ⟨named, found, mem_cons_of_mem _ later.1, later.2⟩
        · rintro (old | ⟨named, found, member, same⟩)
          · exact .inl (mem_append_left _ old)
          · rcases mem_cons.mp member with rfl | later
            · exact .inl (mem_append_right _ (mem_singleton.mpr same.symm))
            · exact .inr ⟨named, found, later, same⟩
  rw [registeredNames, general]
  simp [Defines]

theorem mem_calleesOf {caller callee : String} (known : Defines module caller) :
    callee ∈ calleesOf (registeredNames module) module.functions caller ↔
      ModuleCalls module caller callee := by
  have recorded : ∀ operation : Operation,
      recordedCallee (registeredNames module) operation = some callee ↔
        operation.CallsFunction callee ∧ Defines module callee := by
    intro operation
    unfold recordedCallee Operation.CallsFunction
    rw [← mem_registeredNames]
    split
    next excluded =>
      simp only [Bool.or_eq_true, decide_eq_true_eq] at excluded
      constructor
      · exact fun none_ => nomatch none_
      · rintro ⟨⟨call, -, direct, own⟩, -⟩
        rw [direct, own] at excluded
        simp [call] at excluded
    next included =>
      simp only [Bool.or_eq_true, decide_eq_true_eq, not_or, Bool.not_eq_true, ne_eq,
        not_not] at included
      obtain ⟨⟨call, direct⟩, own⟩ := included
      split
      next none_ => simp [none_]
      next other found =>
        split
        next inside =>
          rw [found]
          constructor
          · rintro ⟨⟩
            exact ⟨⟨call, rfl, direct, own⟩, by simpa using inside⟩
          · exact fun ⟨⟨_, same, _, _⟩, _⟩ => same
        next outside =>
          rw [found]
          constructor
          · exact fun none_ => nomatch none_
          · rintro ⟨⟨_, same, _, _⟩, inside⟩
            cases same
            exact absurd inside (by simpa using outside)
  unfold calleesOf ModuleCalls
  rw [mem_dedup]
  simp only [mem_flatMap, mem_filter, mem_filterMap, recorded, decide_eq_true_eq]
  constructor
  · rintro ⟨function, ⟨member, name⟩, block, inBlock, operation, inOperations, call, defined⟩
    exact ⟨known, defined, function, member, name, block, inBlock, operation, inOperations, call⟩
  · rintro ⟨-, defined, function, member, name, block, inBlock, operation, inOperations, call⟩
    exact ⟨function, ⟨member, name⟩, block, inBlock, operation, inOperations, call, defined⟩

/-! ## The search -/

abbrev VisitStates := AssocMap String VisitState

theorem visitStateOf_assign (states : VisitStates) (name other : String) (state : VisitState) :
    visitStateOf (states.assign name state) other =
      if name = other then state else visitStateOf states other := by
  unfold visitStateOf
  rw [AssocMap.find?_assign]
  split <;> rfl

/-- The body of the loop over the callees. -/
def visitCallee (visit : VisitStates → String → VisitStates × List Diagnostic)
    (states : VisitStates) (callee : String) : VisitStates × List Diagnostic :=
  match visitStateOf states callee with
  | .visiting =>
    (states, complain true
      ("recursive device-call cycle involving '" ++ callee ++ "' is unsupported"))
  | .unvisited => visit states callee
  | .visited => (states, [])

theorem visit_succ (callees : String → List String) (depth : Nat) (states : VisitStates)
    (function : String) :
    visit callees (depth + 1) states function =
      ((collect (visitCallee (visit callees depth)) (states.assign function .visiting)
          (callees function)).1.assign function .visited,
        (collect (visitCallee (visit callees depth)) (states.assign function .visiting)
          (callees function)).2) := rfl

/-- A search ends with the same names being visited as before, and forgets no name. -/
structure Walked (before after : VisitStates) : Prop where
  visiting : ∀ name, visitStateOf after name = .visiting ↔ visitStateOf before name = .visiting
  visited : ∀ name, visitStateOf before name = .visited → visitStateOf after name = .visited

theorem Walked.refl (states : VisitStates) : Walked states states :=
  ⟨fun _ => .rfl, fun _ visited => visited⟩

theorem Walked.trans {first second third : VisitStates} (before : Walked first second)
    (after : Walked second third) : Walked first third :=
  ⟨fun name => (after.visiting name).trans (before.visiting name),
    fun name visited => after.visited name (before.visited name visited)⟩

variable {before after states : VisitStates} {function : String}

theorem Walked.unvisited (walked : Walked before after)
    (fresh : visitStateOf after name = .unvisited) : visitStateOf before name = .unvisited := by
  cases state : visitStateOf before name with
  | unvisited => rfl
  | visiting => rw [(walked.visiting name).mpr state] at fresh; cases fresh
  | visited => rw [walked.visited name state] at fresh; cases fresh

theorem walked_collect {step : VisitStates → String → VisitStates × List Diagnostic}
    (each : ∀ states callee, Walked states (step states callee).1) (items : List String)
    (states : VisitStates) : Walked states (collect step states items).1 :=
  collect_invariant step (Walked states) items states (.refl states)
    fun callee _ _ walked => walked.trans (each _ callee)

theorem walked_visit (callees : String → List String) (depth : Nat)
    (fresh : visitStateOf states function = .unvisited) :
    Walked states (visit callees depth states function).1 := by
  induction depth generalizing states function with
  | zero => exact .refl states
  | succ depth ih =>
    have body : Walked (states.assign function .visiting)
        (collect (visitCallee (visit callees depth)) (states.assign function .visiting)
          (callees function)).1 := by
      refine walked_collect (fun states callee => ?_) _ _
      unfold visitCallee
      split
      · exact .refl states
      · next unvisited => exact ih unvisited
      · exact .refl states
    rw [visit_succ]
    constructor
    · intro name
      have inner := body.visiting name
      rw [visitStateOf_assign] at inner ⊢
      by_cases same : function = name
      · subst same
        simp [fresh]
      · rwa [if_neg same] at inner ⊢
    · intro name visited
      rw [visitStateOf_assign]
      split
      · rfl
      · next other =>
          apply body.visited
          rwa [visitStateOf_assign, if_neg other]

variable {depth : Nat}

section Graph

variable {callees : String → List String} {edge : String → String → Prop} {names : List String}

theorem cycle_of_visit (graph : ∀ a ∈ names, ∀ b, b ∈ callees a ↔ edge a b)
    (inside : ∀ a b, edge a b → b ∈ names) (known : function ∈ names)
    (fresh : visitStateOf states function = .unvisited)
    (above : ∀ name, visitStateOf states name = .visiting → ReflTransGen edge name function) :
    ∀ diagnostic ∈ (visit callees depth states function).2,
      diagnostic.ReportsRecursion ∧ ∃ name, TransGen edge name name := by
  induction depth generalizing states function with
  | zero => exact nofun
  | succ depth ih =>
    have loop : ∀ (items : List String) (current : VisitStates),
        (∀ callee ∈ items, edge function callee) →
        (∀ name, visitStateOf current name = .visiting → ReflTransGen edge name function) →
        ∀ diagnostic ∈ (collect (visitCallee (visit callees depth)) current items).2,
          diagnostic.ReportsRecursion ∧ ∃ name, TransGen edge name name := by
      intro items
      induction items with
      | nil => exact fun _ _ _ _ member => absurd member not_mem_nil
      | cons callee items later =>
        intro current edges above diagnostic member
        have step := edges callee mem_cons_self
        have rest := fun other mem => edges other (mem_cons_of_mem _ mem)
        rw [collect] at member
        unfold visitCallee at member
        split at member
        next visiting =>
          rcases mem_append.mp member with here | there
          · rw [complain, if_pos rfl, mem_singleton] at here
            exact ⟨⟨callee, by rw [here]⟩, callee, .tail' (above callee visiting) step⟩
          · exact later _ rest above diagnostic there
        next unvisited =>
          rcases mem_append.mp member with here | there
          · exact ih (inside _ _ step) unvisited
              (fun name visiting => .tail (above name visiting) step) diagnostic here
          · have walked := walked_visit callees depth unvisited
            exact later _ rest
              (fun name visiting => above name ((walked.visiting name).mp visiting))
              diagnostic there
        next => exact later _ rest above diagnostic member
    rw [visit_succ]
    refine loop _ _ (fun callee mem => (graph _ known _).mp mem) fun name visiting => ?_
    rw [visitStateOf_assign] at visiting
    split at visiting
    next same => exact same ▸ .refl
    next => exact above name visiting

/-- What has been visited is a post-order of the calls. -/
def Finished (edge : String → String → Prop) (states : VisitStates) : Prop :=
  ∃ order, PostOrder edge order ∧ ∀ name, visitStateOf states name = .visited ↔ name ∈ order

def unvisitedNames (names : List String) (states : VisitStates) : Nat :=
  (names.toFinset.filter fun name => visitStateOf states name = .unvisited).card

theorem unvisitedNames_le (walked : Walked before after) :
    unvisitedNames names after ≤ unvisitedNames names before := by
  refine Finset.card_le_card fun name member => ?_
  rw [Finset.mem_filter] at member ⊢
  exact ⟨member.1, walked.unvisited member.2⟩

theorem unvisitedNames_assign_lt (known : function ∈ names)
    (fresh : visitStateOf states function = .unvisited) :
    unvisitedNames names (states.assign function .visiting) < unvisitedNames names states := by
  refine Finset.card_lt_card (Finset.ssubset_iff_of_subset ?_ |>.mpr ⟨function, ?_, ?_⟩)
  · intro name member
    rw [Finset.mem_filter, visitStateOf_assign] at member
    rw [Finset.mem_filter]
    obtain ⟨here, unvisited⟩ := member
    split at unvisited
    · cases unvisited
    · exact ⟨here, unvisited⟩
  · exact Finset.mem_filter.mpr ⟨mem_toFinset.mpr known, fresh⟩
  · rw [Finset.mem_filter, visitStateOf_assign, if_pos rfl]
    exact fun member => nomatch member.2

theorem finished_visit (graph : ∀ a ∈ names, ∀ b, b ∈ callees a ↔ edge a b)
    (inside : ∀ a b, edge a b → b ∈ names) (known : function ∈ names)
    (fresh : visitStateOf states function = .unvisited)
    (enough : unvisitedNames names states ≤ depth) (finished : Finished edge states)
    (silent : (visit callees depth states function).2 = []) :
    Finished edge (visit callees depth states function).1 ∧
      visitStateOf (visit callees depth states function).1 function = .visited := by
  induction depth generalizing states function with
  | zero =>
    have fewer := unvisitedNames_assign_lt known fresh
    omega
  | succ depth ih =>
    have loop : ∀ (items : List String) (current : VisitStates),
        (∀ callee ∈ items, edge function callee) → unvisitedNames names current ≤ depth →
        Finished edge current →
        (collect (visitCallee (visit callees depth)) current items).2 = [] →
        Finished edge (collect (visitCallee (visit callees depth)) current items).1 ∧
          Walked current (collect (visitCallee (visit callees depth)) current items).1 ∧
          ∀ callee ∈ items, visitStateOf
            (collect (visitCallee (visit callees depth)) current items).1 callee = .visited := by
      intro items
      induction items with
      | nil => exact fun current _ _ done _ =>
        ⟨done, .refl current, nofun⟩
      | cons callee items later =>
        intro current edges enough done silent
        rw [collect, append_eq_nil_iff] at silent
        obtain ⟨quiet, silent⟩ := silent
        have rest := fun other mem => edges other (mem_cons_of_mem _ mem)
        -- the callee is visited after its step
        obtain ⟨done', walked', visited'⟩ : Finished edge
            (visitCallee (visit callees depth) current callee).1 ∧
            Walked current (visitCallee (visit callees depth) current callee).1 ∧
            visitStateOf (visitCallee (visit callees depth) current callee).1 callee =
              .visited := by
          unfold visitCallee at quiet ⊢
          split at quiet
          next visiting => simp [complain] at quiet
          next unvisited =>
            obtain ⟨done', visited'⟩ := ih (inside _ _ (edges callee mem_cons_self))
              unvisited enough done quiet
            exact ⟨done', walked_visit callees depth unvisited, visited'⟩
          next visited =>
            exact ⟨done, .refl current, visited⟩
        obtain ⟨done'', walked'', visited''⟩ := later _ rest
          (le_trans (unvisitedNames_le walked') enough) done' silent
        refine ⟨done'', walked'.trans walked'', fun other mem => ?_⟩
        rcases mem_cons.mp mem with rfl | mem
        · exact walked''.visited _ visited'
        · exact visited'' other mem
    rw [visit_succ] at silent ⊢
    have fewer := unvisitedNames_assign_lt known fresh
    have begun : Finished edge (states.assign function .visiting) := by
      obtain ⟨order, sorted, members⟩ := finished
      refine ⟨order, sorted, fun name => ?_⟩
      rw [← members, visitStateOf_assign]
      split
      next same =>
        subst same
        simp [fresh]
      next => rfl
    obtain ⟨⟨order, sorted, members⟩, walked, visited⟩ := loop (callees function)
      (states.assign function .visiting) (fun callee mem => (graph _ known _).mp mem)
      (by omega) begun silent
    refine ⟨⟨order ++ [function], sorted.snoc ?_ ?_, ?_⟩, ?_⟩
    · intro member
      have visiting := (walked.visiting function).mpr (by
        rw [visitStateOf_assign, if_pos rfl])
      rw [(members function).mpr member] at visiting
      cases visiting
    · intro next step
      exact (members next).mp (visited next ((graph _ known _).mpr step))
    · intro name
      rw [visitStateOf_assign, mem_append, mem_singleton]
      split
      next same => simp [same]
      next other => simp [members, Ne.symm other]
    · rw [visitStateOf_assign, if_pos rfl]

end Graph

theorem unvisitedNames_nil_le (names : List String) : unvisitedNames names [] ≤ names.length :=
  le_trans (Finset.card_filter_le _ _) (toFinset_card_le names)

/-- A search that begins at every name. -/
def visitAll (callees : String → List String) (depth : Nat) (states : VisitStates)
    (names : List String) : VisitStates × List Diagnostic :=
  collect
    (fun states function =>
      if visitStateOf states function = .unvisited then visit callees depth states function
      else (states, []))
    states names

theorem visitAll_iff {callees : String → List String} {edge : String → String → Prop}
    {names : List String} (graph : ∀ a ∈ names, ∀ b, b ∈ callees a ↔ edge a b)
    (inside : ∀ a b, edge a b → b ∈ names) (items : List String)
    (known : ∀ name ∈ items, name ∈ names) (states : VisitStates)
    (idle : ∀ name, visitStateOf states name ≠ .visiting)
    (enough : unvisitedNames names states ≤ depth) :
    (∀ diagnostic ∈ (visitAll callees depth states items).2,
        diagnostic.ReportsRecursion ∧ ∃ name, TransGen edge name name) ∧
      (Finished edge states → (visitAll callees depth states items).2 = [] →
        Finished edge (visitAll callees depth states items).1 ∧
          (∀ name, visitStateOf states name = .visited →
            visitStateOf (visitAll callees depth states items).1 name = .visited) ∧
          ∀ name ∈ items,
            visitStateOf (visitAll callees depth states items).1 name = .visited) := by
  induction items generalizing states with
  | nil =>
    exact ⟨nofun, fun done _ =>
      ⟨done, fun _ visited => visited, nofun⟩⟩
  | cons function items ih =>
    have here := known function mem_cons_self
    have rest := fun name mem => known name (mem_cons_of_mem _ mem)
    unfold visitAll
    rw [collect]
    by_cases fresh : visitStateOf states function = .unvisited
    · simp only [if_pos fresh]
      have walked := walked_visit callees depth fresh
      have idle' : ∀ name, visitStateOf (visit callees depth states function).1 name ≠
          .visiting := fun name visiting => idle name ((walked.visiting name).mp visiting)
      obtain ⟨sound, complete⟩ := ih rest _ idle'
        (le_trans (unvisitedNames_le walked) enough)
      constructor
      · intro diagnostic member
        rcases mem_append.mp member with first | later
        · exact cycle_of_visit graph inside here fresh
            (fun name visiting => absurd visiting (idle name)) diagnostic first
        · exact sound diagnostic later
      · intro done silent
        rw [append_eq_nil_iff] at silent
        obtain ⟨done', visited⟩ := finished_visit graph inside here fresh enough done silent.1
        obtain ⟨done'', kept, all⟩ := complete done' silent.2
        refine ⟨done'', fun name before => kept name (walked.visited name before), ?_⟩
        intro name member
        rcases mem_cons.mp member with rfl | member
        · exact kept _ visited
        · exact all name member
    · simp only [if_neg fresh]
      obtain ⟨sound, complete⟩ := ih rest states idle enough
      refine ⟨sound, fun done silent => ?_⟩
      obtain ⟨done', kept, all⟩ := complete done silent
      refine ⟨done', kept, fun name member => ?_⟩
      rcases mem_cons.mp member with rfl | member
      · apply kept
        cases state : visitStateOf states name with
        | unvisited => exact absurd state fresh
        | visiting => exact absurd state (idle name)
        | visited => rfl
      · exact all name member

theorem recursionDiagnostics_iff (module : IrModule) :
    (∀ diagnostic ∈ recursionDiagnostics (registeredNames module) module.functions,
        diagnostic.ReportsRecursion ∧ ∃ name, TransGen (ModuleCalls module) name name) ∧
      (recursionDiagnostics (registeredNames module) module.functions = [] →
        ∀ name, ¬ TransGen (ModuleCalls module) name name) := by
  have graph : ∀ a ∈ registeredNames module, ∀ b,
      b ∈ calleesOf (registeredNames module) module.functions a ↔ ModuleCalls module a b :=
    fun a known b => mem_calleesOf (mem_registeredNames.mp known)
  have inside : ∀ a b, ModuleCalls module a b → b ∈ registeredNames module :=
    fun a b calls => mem_registeredNames.mpr calls.2.1
  obtain ⟨sound, complete⟩ := visitAll_iff graph inside (registeredNames module)
    (fun _ member => member) [] (fun name => by simp [visitStateOf])
    (unvisitedNames_nil_le (registeredNames module))
  refine ⟨sound, fun silent name cycle => ?_⟩
  obtain ⟨⟨order, sorted, members⟩, -, visited⟩ :=
    complete ⟨[], .nil, fun name => by simp [visitStateOf]⟩ silent
  obtain ⟨next, calls, -⟩ := TransGen.head'_iff.mp cycle
  have known := mem_registeredNames.mpr calls.1
  exact sorted.acyclic ((members name).mp (visited name known)) cycle

/-- `verify` reports a recursive call graph exactly when a function can reach itself. -/
theorem verify_reports_iff (module : IrModule) :
    (∃ diagnostic ∈ (verify module).diagnostics, diagnostic.ReportsRecursion) ↔
      ∃ name, TransGen (ModuleCalls module) name name := by
  obtain ⟨sound, complete⟩ := recursionDiagnostics_iff module
  constructor
  · rintro ⟨diagnostic, member, reports⟩
    change diagnostic ∈ (collect registerName [] module.functions).2 ++
      module.functions.flatMap (functionDiagnostics module.stage (registeredNames module)) ++
      recursionDiagnostics (registeredNames module) module.functions at member
    rcases mem_append.mp member with other | recursion
    · have silent : diagnostic.Other := by
        refine other_append ?_ ?_ diagnostic other
        · refine other_collect (fun function _ names => ?_) _
          exact other_complain (by simp)
        · exact other_flatMap fun function _ => other_functionDiagnostics _ _ function
      exact absurd reports silent.not_reports
    · exact (sound diagnostic recursion).2
  · rintro ⟨name, cycle⟩
    cases reported : recursionDiagnostics (registeredNames module) module.functions with
    | nil => exact absurd cycle (complete reported name)
    | cons diagnostic rest =>
      have member : diagnostic ∈ recursionDiagnostics (registeredNames module) module.functions :=
        reported ▸ mem_cons_self
      exact ⟨diagnostic, mem_append_right _ member, (sound diagnostic member).1⟩

end CuMetal.Ir
