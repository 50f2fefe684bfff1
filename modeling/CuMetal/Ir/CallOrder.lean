import CuMetal.Lib.Except
import CuMetal.Lib.PostOrder
import CuMetal.Ptx.Instruction
import Mathlib.Data.Finset.Card

/-!
# The order of the imported functions

`import_ptx` imports the functions that the selected entry can call, and the entry last
(`compiler/ir/src/ptx_importer.cpp:3947-3996`, `4245-4248`).
-/

open Relation (ReflTransGen TransGen)

namespace CuMetal.Ir

open List

open CuMetal.Ptx (Instruction trim rootOpcode)

/-- `EntryFunction` (`parser.h:18-45`). The patterns of the parser leave no name empty. -/
structure EntryFunction where
  name : String
  instructions : List Instruction
  named : name ≠ ""

/-- The definitions of a `ModuleInfo` (`parser.h:47-53`). -/
structure PtxModule where
  entries : List EntryFunction
  functions : List EntryFunction

/-- `select_entry` (`1395-1412`). -/
def selectEntry (module : PtxModule) (entryName : String) : Except String EntryFunction :=
  match module.entries with
  | [] => .error "PTX module contains no kernel entries"
  | front :: _ =>
    if entryName = "" then .ok front
    else
      match module.entries.find? fun candidate => candidate.name = entryName with
      | some candidate => .ok candidate
      | none => .error ("PTX entry not found: " ++ entryName)

/-- `grouped_names` (`249-265`). -/
def groupedNames (operand : String) : List String :=
  let contents := trim operand
  let contents :=
    if 2 ≤ contents.length ∧ contents.toList.head? = some '(' ∧
        contents.toList.getLast? = some ')' then
      trim (String.ofList (contents.toList.drop 1).dropLast)
    else contents
  ((contents.toList.splitOn ',').map fun name => trim (String.ofList name)).filter (· ≠ "")

/-- `direct_call_target` (`1150-1158`). -/
def directCallTarget (instruction : Instruction) : Option String :=
  if rootOpcode instruction.opcode ≠ "call" then none
  else
    match instruction.operands with
    | [callee, _] => some (trim callee)
    | [results, callee, _] =>
      if (groupedNames results).length ≠ 1 then none else some (trim callee)
    | _ => none

/-- The names that stand for the printing of the device runtime. -/
def isPrintf (target : String) : Bool := target == "vprintf" || target == "printf"

/-- `device_functions.find`: the first definition of the name. -/
def deviceFunction (module : PtxModule) (name : String) : Option EntryFunction :=
  module.functions.find? fun function => function.name = name

/-- The tables of the walk (`3954-3956`). -/
structure CallGraphWalk where
  visiting : List String := []
  visited : List String := []
  printfFunctions : List String := []
  reachableHelpers : List EntryFunction := []

/-- The walk stops on a cycle, or it would go deeper than there are functions. -/
inductive WalkError
  | recursive (name : String)
  | deep

def WalkError.text : WalkError → String
  | .recursive name => "recursive PTX device-call cycle involving '" ++ name ++ "'"
  | .deep => ""

variable (module : PtxModule) (entry : EntryFunction)

/-- A step of the loop over the instructions (`3969-3982`). -/
def visitInstruction
    (visit : CallGraphWalk → EntryFunction → Except WalkError (Bool × CallGraphWalk))
    (state : Bool × CallGraphWalk) (instruction : Instruction) :
    Except WalkError (Bool × CallGraphWalk) :=
  match directCallTarget instruction with
  | none => .ok state
  | some target =>
    if isPrintf target then .ok (true, state.2)
    else
      match deviceFunction module target with
      | none => .ok state
      | some callee => do
        let (childUsesPrintf, walk) ← visit state.2 callee
        return (state.1 || childUsesPrintf, walk)

/-- The end of a visit (`3983-3990`). -/
def finishVisit (function : EntryFunction) (usesPrintf : Bool) (walk : CallGraphWalk) :
    CallGraphWalk :=
  { visiting := walk.visiting.erase function.name
    visited := walk.visited ++ [function.name]
    printfFunctions :=
      if usesPrintf then walk.printfFunctions ++ [function.name] else walk.printfFunctions
    reachableHelpers :=
      if function.name ≠ "" ∧ function.name ≠ entry.name ∧
          (deviceFunction module function.name).isSome then
        walk.reachableHelpers ++ [function]
      else walk.reachableHelpers }

/-- `visit_call_graph` (`3957-3991`). -/
def visitCallGraph : Nat → CallGraphWalk → EntryFunction → Except WalkError (Bool × CallGraphWalk)
  | 0, _, _ => .error .deep
  | depth + 1, walk, function =>
    if walk.visited.contains function.name then
      .ok (walk.printfFunctions.contains function.name, walk)
    else if walk.visiting.contains function.name then .error (.recursive function.name)
    else do
      let (usesPrintf, walk) ← function.instructions.foldlM
        (visitInstruction module (visitCallGraph depth))
        (false, { walk with visiting := function.name :: walk.visiting })
      return (usesPrintf, finishVisit module entry function usesPrintf walk)

/-- The functions in the order in which `import_function` gets them (`4245-4248`). -/
def importOrder : Except WalkError (List EntryFunction) := do
  let (_, walk) ← visitCallGraph module entry (module.functions.length + 2) {} entry
  return walk.reachableHelpers ++ [entry]

/-- The function that the walk knows by a name. -/
def functionOf (name : String) : Option EntryFunction :=
  if name = entry.name then some entry else deviceFunction module name

/-- An instruction calls a function that the module defines. -/
def CallsDefinition (instruction : Instruction) (callee : String) : Prop :=
  directCallTarget instruction = some callee ∧ isPrintf callee = false ∧
    (deviceFunction module callee).isSome

/-- A function that the walk knows calls another one. -/
def CallsByName (caller callee : String) : Prop :=
  ∃ function, functionOf module entry caller = some function ∧
    ∃ instruction ∈ function.instructions, CallsDefinition module instruction callee

/-! ## A walk keeps the order -/

/-- What a walk has found so far. -/
structure WalkSound (walk : CallGraphWalk) : Prop where
  apart : ∀ name ∈ walk.visiting, name ∉ walk.visited
  sorted : PostOrder (CallsByName module entry) walk.visited
  reached : ∀ name ∈ walk.visited, ReflTransGen (CallsByName module entry) entry.name name
  helpers : walk.reachableHelpers.map EntryFunction.name =
    walk.visited.filter fun name => name ≠ entry.name
  defined : ∀ helper ∈ walk.reachableHelpers, deviceFunction module helper.name = some helper

def remaining (walk : CallGraphWalk) : Nat :=
  ((entry.name :: module.functions.map EntryFunction.name).toFinset.filter fun name =>
    name ∉ walk.visited ∧ name ∉ walk.visiting).card

/-- What a walk does: it goes on with more visited functions, `done` among them, or it has found a
cycle. -/
def WalkOutcome (walk : CallGraphWalk) (done : String → Prop) :
    Except WalkError (Bool × CallGraphWalk) → Prop
  | .ok (_, after) =>
    WalkSound module entry after ∧ after.visiting = walk.visiting ∧
      (∀ name ∈ walk.visited, name ∈ after.visited) ∧ ∀ name, done name → name ∈ after.visited
  | .error error =>
    ∃ name, error = .recursive name ∧
      ReflTransGen (CallsByName module entry) entry.name name ∧
      TransGen (CallsByName module entry) name name

/-- What a visit can rely on: every function that is being visited calls its way to this one. -/
structure Visitable (walk : CallGraphWalk) (function : EntryFunction) : Prop where
  sound : WalkSound module entry walk
  known : function = entry ∨
    deviceFunction module function.name = some function ∧ entry.name ∈ walk.visiting
  above : ∀ name ∈ walk.visiting, TransGen (CallsByName module entry) name function.name
  reached : ReflTransGen (CallsByName module entry) entry.name function.name

variable {module entry}

theorem remaining_le {before after : CallGraphWalk} (same : after.visiting = before.visiting)
    (grows : ∀ name ∈ before.visited, name ∈ after.visited) :
    remaining module entry after ≤ remaining module entry before := by
  refine Finset.card_le_card fun name member => ?_
  rw [Finset.mem_filter] at member ⊢
  obtain ⟨known, unvisited, unmet⟩ := member
  exact ⟨known, fun visited => unvisited (grows name visited), same ▸ unmet⟩

variable {walk : CallGraphWalk} {function : EntryFunction}

theorem remaining_visiting_lt {name : String}
    (known : name ∈ entry.name :: module.functions.map EntryFunction.name)
    (unvisited : name ∉ walk.visited) (unmet : name ∉ walk.visiting) :
    remaining module entry { walk with visiting := name :: walk.visiting } <
      remaining module entry walk := by
  refine Finset.card_lt_card (Finset.ssubset_iff_of_subset ?_ |>.mpr ⟨name, ?_, ?_⟩)
  · intro other member
    rw [Finset.mem_filter, mem_cons, not_or] at member
    rw [Finset.mem_filter]
    exact ⟨member.1, member.2.1, member.2.2.2⟩
  · exact Finset.mem_filter.mpr ⟨mem_toFinset.mpr known, unvisited, unmet⟩
  · rw [Finset.mem_filter]
    exact fun member => member.2.2 mem_cons_self

theorem deviceFunction_eq_some (entry : EntryFunction) {name : String}
    (found : deviceFunction module name = some function) :
    function.name = name ∧
      function.name ∈ entry.name :: module.functions.map EntryFunction.name := by
  refine ⟨by simpa using find?_some found, mem_cons_of_mem _ ?_⟩
  exact mem_map_of_mem (mem_of_find?_eq_some found)

theorem WalkSound.finish (sound : WalkSound module entry walk) (usesPrintf : Bool)
    (known : functionOf module entry function.name = some function)
    (new : function.name ∉ walk.visited) (left : function.name ∉ walk.visiting.erase function.name)
    (reached : ReflTransGen (CallsByName module entry) entry.name function.name)
    (callees : ∀ callee, CallsByName module entry function.name callee → callee ∈ walk.visited) :
    WalkSound module entry (finishVisit module entry function usesPrintf walk) where
  apart name member := by
    rw [finishVisit, mem_append, mem_singleton, not_or]
    refine ⟨sound.apart name (mem_of_mem_erase member), ?_⟩
    rintro rfl
    exact left member
  sorted := sound.sorted.snoc new callees
  reached name member := by
    rcases mem_append.mp member with before | last
    · exact sound.reached name before
    · rw [mem_singleton] at last
      exact last ▸ reached
  helpers := by
    have before := sound.helpers
    unfold finishVisit
    dsimp only
    rw [filter_append, ← before]
    by_cases same : function.name = entry.name
    · simp [same]
    · rw [functionOf, if_neg same] at known
      have pushed : function.name ≠ "" ∧ function.name ≠ entry.name ∧
          (deviceFunction module function.name).isSome = true :=
        ⟨function.named, same, by rw [known]; rfl⟩
      rw [if_pos pushed, map_append]
      simp [same]
  defined := by
    intro helper member
    unfold finishVisit at member
    dsimp only at member
    split at member
    next pushed =>
      rcases mem_append.mp member with before | last
      · exact sound.defined helper before
      · rw [mem_singleton] at last
        subst last
        rwa [functionOf, if_neg pushed.2.1] at known
    next => exact sound.defined helper member

/-- The loop over the instructions of a function that is being visited. -/
theorem outcome_instructions
    (visit : CallGraphWalk → EntryFunction → Except WalkError (Bool × CallGraphWalk)) {depth : Nat}
    (visits : ∀ {walk callee}, Visitable module entry walk callee →
      remaining module entry walk < depth →
      WalkOutcome module entry walk (fun name => name = callee.name) (visit walk callee))
    (function : EntryFunction) (instructions : List Instruction)
    (calls : ∀ instruction ∈ instructions, ∀ callee, CallsDefinition module instruction callee →
      CallsByName module entry function.name callee)
    (reached : ReflTransGen (CallsByName module entry) entry.name function.name)
    (usesPrintf : Bool) (walk : CallGraphWalk) (sound : WalkSound module entry walk)
    (inside : entry.name ∈ walk.visiting)
    (above : ∀ name ∈ walk.visiting, ReflTransGen (CallsByName module entry) name function.name)
    (enough : remaining module entry walk < depth) :
    WalkOutcome module entry walk
      (fun name => ∃ instruction ∈ instructions, CallsDefinition module instruction name)
      (instructions.foldlM (visitInstruction module visit) (usesPrintf, walk)) := by
  induction instructions generalizing usesPrintf walk with
  | nil => exact ⟨sound, rfl, fun _ member => member, fun _ call => nomatch call.choose_spec.1⟩
  | cons instruction instructions ih =>
    have rest := fun other member => calls other (mem_cons_of_mem _ member)
    -- nothing is visited for an instruction that calls no definition
    have skip : ∀ (uses : Bool), (∀ callee, ¬ CallsDefinition module instruction callee) →
        WalkOutcome module entry walk
          (fun name => ∃ other ∈ instruction :: instructions, CallsDefinition module other name)
          (instructions.foldlM (visitInstruction module visit) (uses, walk)) := by
      intro uses none_
      have later := ih rest uses walk sound inside above enough
      revert later
      generalize instructions.foldlM (visitInstruction module visit) (uses, walk) = result
      cases result with
      | error error => exact id
      | ok after =>
        rintro ⟨sound', same, grows, done⟩
        refine ⟨sound', same, grows, fun name call => ?_⟩
        obtain ⟨other, member, call⟩ := call
        rcases mem_cons.mp member with rfl | member
        · exact absurd call (none_ name)
        · exact done name ⟨other, member, call⟩
    rw [foldlM_cons]
    unfold visitInstruction
    cases target : directCallTarget instruction with
    | none => exact skip usesPrintf fun callee call => nomatch target.symm.trans call.1
    | some target_ =>
      dsimp only
      cases printf : isPrintf target_ with
      | true =>
        refine skip true fun callee call => ?_
        cases target.symm.trans call.1
        exact nomatch printf.symm.trans call.2.1
      | false =>
        rw [if_neg Bool.false_ne_true]
        cases found : deviceFunction module target_ with
        | none =>
          refine skip usesPrintf fun callee call => ?_
          cases target.symm.trans call.1
          have defined := call.2.2
          rw [found] at defined
          cases defined
        | some callee =>
          obtain ⟨name, -⟩ := deviceFunction_eq_some entry found
          have call : CallsByName module entry function.name callee.name :=
            calls instruction mem_cons_self callee.name
              (name ▸ ⟨target, printf, by rw [found]; rfl⟩)
          have visitable : Visitable module entry walk callee :=
            { sound, known := .inr ⟨name ▸ found, inside⟩
              above := fun other member => .tail' (above other member) call
              reached := .tail reached call }
          have outcome := visits visitable enough
          dsimp only
          revert outcome
          generalize visit walk callee = result
          cases result with
          | error error => exact id
          | ok after =>
            obtain ⟨uses, after⟩ := after
            rintro ⟨sound', same, grows, done⟩
            have later := ih rest (usesPrintf || uses) after sound' (same ▸ inside)
              (same ▸ above) (lt_of_le_of_lt (remaining_le same grows) enough)
            change WalkOutcome module entry walk _
              (instructions.foldlM (visitInstruction module visit)
                (usesPrintf || uses, after))
            revert later
            generalize instructions.foldlM (visitInstruction module visit)
              (usesPrintf || uses, after) = result
            cases result with
            | error error => exact id
            | ok last =>
              rintro ⟨sound'', same', grows', done'⟩
              refine ⟨sound'', same'.trans same,
                fun n member => grows' n (grows n member), fun n call => ?_⟩
              obtain ⟨other, member, call⟩ := call
              rcases mem_cons.mp member with rfl | member
              · cases target.symm.trans call.1
                exact grows' _ (done _ name.symm)
              · exact done' n ⟨other, member, call⟩

theorem outcome_visit (depth : Nat) (visitable : Visitable module entry walk function)
    (enough : remaining module entry walk < depth) :
    WalkOutcome module entry walk (fun name => name = function.name)
      (visitCallGraph module entry depth walk function) := by
  induction depth generalizing walk function with
  | zero => exact absurd enough (Nat.not_lt_zero _)
  | succ depth ih =>
    obtain ⟨sound, known, above, reached⟩ := visitable
    rw [visitCallGraph]
    by_cases visited : function.name ∈ walk.visited
    · rw [if_pos (by simpa using visited)]
      exact ⟨sound, rfl, fun _ member => member, fun _ same => same ▸ visited⟩
    rw [if_neg (by simpa using visited)]
    by_cases visiting : function.name ∈ walk.visiting
    · rw [if_pos (by simpa using visiting)]
      exact ⟨function.name, rfl, reached, above _ visiting⟩
    rw [if_neg (by simpa using visiting)]
    have same : functionOf module entry function.name = some function := by
      unfold functionOf
      rcases known with rfl | ⟨found, inside⟩
      · rw [if_pos rfl]
      · have other : function.name ≠ entry.name := fun same => visiting (same ▸ inside)
        rw [if_neg other, found]
    have listed : function.name ∈ entry.name :: module.functions.map EntryFunction.name := by
      rcases known with rfl | ⟨found, -⟩
      · exact mem_cons_self
      · exact (deviceFunction_eq_some entry found).2
    have fewer := remaining_visiting_lt listed visited visiting
    have body := outcome_instructions (visitCallGraph module entry depth) ih function
      function.instructions
      (fun instruction member callee call => ⟨function, same, instruction, member, call⟩) reached
      false { walk with visiting := function.name :: walk.visiting }
      { sound with
        apart := by
          intro name member
          rcases mem_cons.mp member with rfl | member
          · exact visited
          · exact sound.apart name member }
      (by
        rcases known with rfl | ⟨-, inside⟩
        · exact mem_cons_self
        · exact mem_cons_of_mem _ inside)
      (by
        intro name member
        rcases mem_cons.mp member with rfl | member
        · exact .refl
        · exact (above name member).to_reflTransGen)
      (by omega)
    revert body
    generalize function.instructions.foldlM
      (visitInstruction module (visitCallGraph module entry depth))
      (false, { walk with visiting := function.name :: walk.visiting }) = result
    cases result with
    | error error => exact id
    | ok after =>
      obtain ⟨uses, after⟩ := after
      rintro ⟨sound', kept, grows, done⟩
      have erased : after.visiting.erase function.name = walk.visiting := by
        rw [kept]
        exact erase_cons_head _ _
      have new : function.name ∉ after.visited :=
        sound'.apart _ (kept ▸ mem_cons_self)
      refine ⟨sound'.finish uses same new (erased ▸ visiting) reached ?_, erased, ?_, ?_⟩
      · rintro callee ⟨caller, found, instruction, member, call⟩
        cases same.symm.trans found
        exact done callee ⟨instruction, member, call⟩
      · exact fun name member => mem_append_left _ (grows name member)
      · rintro name rfl
        exact mem_append_right _ (mem_singleton_self _)

variable (module entry)

/-- The entry can call its way to a function that can call its way to itself. -/
def ReachesCycle : Prop :=
  ∃ name, ReflTransGen (CallsByName module entry) entry.name name ∧
    TransGen (CallsByName module entry) name name

/-- The functions are those that the entry can reach, each after all its callees. -/
structure CalleesFirst (order : List EntryFunction) : Prop where
  sorted : PostOrder (CallsByName module entry) (order.map EntryFunction.name)
  complete : ∀ name, name ∈ order.map EntryFunction.name ↔
    ReflTransGen (CallsByName module entry) entry.name name
  defined : ∀ function ∈ order, functionOf module entry function.name = some function

/-- The walk either finds a cycle or imports every callee before its callers. -/
theorem importOrder_spec :
    (ReachesCycle module entry → ∃ name, importOrder module entry = .error (.recursive name)) ∧
      (¬ ReachesCycle module entry →
        ∃ order, importOrder module entry = .ok order ∧ CalleesFirst module entry order) := by
  have small : remaining module entry {} < module.functions.length + 2 := by
    have names := toFinset_card_le (entry.name :: module.functions.map EntryFunction.name)
    have some_ := Finset.card_filter_le
      (entry.name :: module.functions.map EntryFunction.name).toFinset
      fun name => name ∉ ([] : List String) ∧ name ∉ ([] : List String)
    rw [length_cons, length_map] at names
    exact lt_of_le_of_lt (le_trans some_ names) (Nat.lt_succ_self _)
  have start : Visitable module entry {} entry :=
    { sound :=
        { apart := nofun
          sorted := .nil
          reached := nofun
          helpers := rfl
          defined := nofun }
      known := .inl rfl
      above := nofun
      reached := .refl }
  have outcome := outcome_visit (module.functions.length + 2) start small
  unfold importOrder
  revert outcome
  generalize visitCallGraph module entry (module.functions.length + 2) {} entry = result
  cases result with
  | error error =>
    rintro ⟨name, rfl, cycle⟩
    exact ⟨fun _ => ⟨name, rfl⟩, fun none_ => absurd ⟨name, cycle⟩ none_⟩
  | ok after =>
    obtain ⟨uses, after⟩ := after
    rintro ⟨sound, -, -, done⟩
    have visited : entry.name ∈ after.visited := done _ rfl
    have acyclic : ¬ ReachesCycle module entry := by
      rintro ⟨name, reaches, cycle⟩
      exact sound.sorted.acyclic (sound.sorted.mem_of_reaches visited reaches) cycle
    have alone : ∀ other ∈ after.visited, ¬ CallsByName module entry other entry.name :=
      fun other member call =>
        acyclic ⟨entry.name, .refl, .tail' (sound.reached other member) call⟩
    have names : (after.reachableHelpers ++ [entry]).map EntryFunction.name =
        (after.visited.filter fun name => name ≠ entry.name) ++ [entry.name] := by
      rw [map_append, sound.helpers]
      rfl
    refine ⟨fun cycle => absurd cycle acyclic, fun _ => ⟨_, rfl, ?_, ?_, ?_⟩⟩
    · rw [names]
      refine (sound.sorted.filter_ne alone).snoc (by simp) fun next call => ?_
      refine mem_filter.mpr ⟨sound.sorted.closed visited call, ?_⟩
      have other : next ≠ entry.name := fun same => alone _ visited (same ▸ call)
      simpa using other
    · intro name
      have all : name ∈ after.visited ↔ ReflTransGen (CallsByName module entry) entry.name name :=
        ⟨sound.reached name, sound.sorted.mem_of_reaches visited⟩
      rw [names, ← all, mem_append, mem_filter, mem_singleton]
      by_cases same : name = entry.name
      · simp [same, visited]
      · simp [same]
    · intro function member
      rcases mem_append.mp member with helper | last
      · have inside := mem_map_of_mem (f := EntryFunction.name) helper
        rw [sound.helpers, mem_filter] at inside
        have other : function.name ≠ entry.name := by simpa using inside.2
        rw [functionOf, if_neg other]
        exact sound.defined function helper
      · rw [mem_singleton] at last
        subst last
        rw [functionOf, if_pos rfl]

end CuMetal.Ir
