import CuMetal.Ptx.RegisterValues
import Mathlib.Data.Nat.Pairing

/-!
# The import keeps the registers, up to re-entry

The SSA values agree with registers that are reset whenever control enters the first
block.  They agree with the registers of the text unless a path comes back to the first
block after writing a register that is then read, or reads a register after an instruction
whose destinations the importer mistakes.
-/

namespace CuMetal.Ptx

open Function List

open Ir (ValueId)

variable {context : ImportContext} {body : List Instruction} {state : SsaState}
  {owner : ValueId → String} {oracle : Oracle}

section

variable {κ ν : Type} [DecidableEq κ]

variable {key : κ}

theorem setAll_of_not_mem :
    ∀ {updates : List (κ × ν)} (f : κ → ν), (∀ update ∈ updates, update.1 ≠ key) →
      setAll f updates key = f key := by
  intro updates
  induction updates with
  | nil => exact fun f _ => rfl
  | cons head tail ih =>
    intro f absent
    change setAll (update f head.1 head.2) tail key = _
    rw [ih _ fun update member => absent update (mem_cons_of_mem _ member)]
    exact update_of_ne (Ne.symm (absent head mem_cons_self)) ..

theorem setAll_of_mem {value : ν} :
    ∀ {updates : List (κ × ν)} (f : κ → ν), (∃ update ∈ updates, update.1 = key) →
      (∀ update ∈ updates, update.1 = key → update.2 = value) →
      setAll f updates key = value := by
  intro updates
  induction updates with
  | nil => rintro f ⟨update, member, -⟩ _; simp at member
  | cons head tail ih =>
    intro f present same
    change setAll (update f head.1 head.2) tail key = _
    by_cases later : ∃ update ∈ tail, update.1 = key
    · exact ih _ later fun update member => same update (mem_cons_of_mem _ member)
    · rw [setAll_of_not_mem _ fun update member equal => later ⟨update, member, equal⟩]
      obtain ⟨update, member, equal⟩ := present
      rcases mem_cons.mp member with rfl | inTail
      · rw [← equal, update_self]
        exact same update mem_cons_self equal
      · exact absurd ⟨update, inTail, equal⟩ later

end

/-- What an environment gives for a register belongs to the register and holds what the
    register holds. -/
def Agrees (owner : ValueId → String) (environment : Environment) (registers : String → Word)
    (values : ValueId → Word) : Prop :=
  ∀ name value, environment.find? name = some value →
    owner value = name ∧ values value = registers name

variable {registers : String → Word} {values : ValueId → Word} {index i : Nat} {path : List Nat}
  {name : String}

theorem Agrees.congr {first second : Environment} (agrees : Agrees owner first registers values)
    (same : ∀ name value, second.find? name = some value → first.find? name = some value) :
    Agrees owner second registers values :=
  fun name value found => agrees name value (same name value found)

variable {environment : Environment}

/-- Writing a register and binding one of its values keeps the agreement: another
    register's value is another one. -/
theorem Agrees.write (agrees : Agrees owner environment registers values) (value : ValueId)
    (word : Word) :
    Agrees owner (environment.assign (owner value) value)
      (Function.update registers (owner value) word) (Function.update values value word) := by
  intro name other found
  rw [AssocMap.find?_assign] at found
  split at found
  · next here =>
      cases found
      subst here
      exact ⟨rfl, by rw [update_self, update_self]⟩
  · next different =>
      obtain ⟨owns, holds⟩ := agrees name other found
      refine ⟨owns, ?_⟩
      rw [update_of_ne (Ne.symm different), update_of_ne, holds]
      rintro rfl
      exact different owns

theorem Agrees.writeAll (written : Nat → Word) :
    ∀ (names : List String) (results : List ValueId) (start : Nat) {environment : Environment}
      {registers : String → Word} {values : ValueId → Word}, results.map owner = names →
      Agrees owner environment registers values →
      Agrees owner (environment.assignAll (names.zip results))
        (setAll registers ((names.zipIdx start).map fun d => (d.1, written d.2)))
        (setAll values ((results.zipIdx start).map fun r => (r.1, written r.2))) := by
  intro names results
  induction results generalizing names with
  | nil =>
    rintro start environment registers values rfl agrees
    exact agrees
  | cons result results ih =>
    rintro start environment registers values rfl agrees
    exact ih _ (start + 1) rfl (agrees.write result (written start))

theorem Agrees.instruction (oracle : Oracle) (facts : SsaFacts context body state owner)
    (unpredicated : Unpredicated destinationRegisters body) (bound : index < blockCount body)
    (member : i ∈ blockInstructions body index) (count : Nat)
    (agrees : Agrees owner environment registers values) :
    Agrees owner (defineResults body state.allocation.instructionResults environment i)
      (writeRegisters oracle destinationRegisters body count i registers)
      (writeValues oracle state.allocation.instructionResults count i values) := by
  obtain ⟨results, found, owns⟩ := facts.recorded index bound i member
  have written := agrees.writeAll (oracle.written count)
    (destinationRegisters (instructionAt body i)) results 0 owns
  rw [defineResults, writeValues, found, writeRegisters]
  split
  · exact written
  · next blocked =>
      -- a blocked instruction is predicated, so it has no destination
      have none : destinationRegisters (instructionAt body i) = [] := by
        by_contra some
        have free := unpredicated i (mem_blockInstructions member).2.2.1 some
        simp [takesEffect, free] at blocked
      rw [none] at written ⊢
      exact written

theorem Agrees.run (oracle : Oracle) (facts : SsaFacts context body state owner)
    (unpredicated : Unpredicated destinationRegisters body) (bound : index < blockCount body) :
    ∀ (indices : List Nat) (count : Nat) {environment : Environment}
      {registers : String → Word} {values : ValueId → Word},
      indices ⊆ blockInstructions body index → Agrees owner environment registers values →
      Agrees owner
        (indices.foldl (defineResults body state.allocation.instructionResults) environment)
        (runRegisters oracle destinationRegisters body count indices registers)
        (runValues oracle state.allocation.instructionResults count indices values) := by
  intro indices
  induction indices with
  | nil => exact fun count _ _ _ _ agrees => agrees
  | cons i indices ih =>
    intro count environment registers values inside agrees
    exact ih (count + 1) (fun j member => inside (mem_cons_of_mem _ member))
      (agrees.instruction oracle facts unpredicated bound (inside mem_cons_self) count)

theorem foldl_defineResults_eq (results : AssocMap Nat (List ValueId)) :
    ∀ (indices : List Nat) (environment : Environment),
      indices.foldl (defineResults body results) environment =
        environment.assignAll (indices.flatMap fun i =>
          (destinationRegisters (instructionAt body i)).zip ((results.find? i).getD [])) := by
  intro indices
  induction indices with
  | nil => exact fun environment => rfl
  | cons i indices ih =>
    intro environment
    rw [foldl_cons, ih, flatMap_cons]
    simp only [defineResults, AssocMap.assignAll, foldl_append]

/-- Executing a block leaves its incoming environment with its last definitions. -/
theorem find?_foldl_defineResults (results : AssocMap Nat (List ValueId)) (indices : List Nat)
    (environment : Environment) (name : String) :
    (indices.foldl (defineResults body results) environment).find? name =
      (environment.assignAll (indices.foldl (defineResults body results) [])).find? name := by
  rw [foldl_defineResults_eq, foldl_defineResults_eq, AssocMap.find?_assignAll_of_nodup
    (AssocMap.nodup_assignAll _ (by simp)), AssocMap.find?_assignAll, AssocMap.find?_assignAll]
  simp

/-- The outgoing environment of a block agrees with the registers at its end. -/
theorem Agrees.outgoing (oracle : Oracle) (facts : SsaFacts context body state owner)
    (unpredicated : Unpredicated destinationRegisters body)
    (reachable : Graph.Reachable 0 (CfgEdge body) index) (count : Nat)
    (agrees : Agrees owner (environmentAt state.incoming index) registers values) :
    Agrees owner (environmentAt state.outgoing index)
      (runRegisters oracle destinationRegisters body count (blockInstructions body index) registers)
      (runValues oracle state.allocation.instructionResults count (blockInstructions body index)
        values) := by
  obtain ⟨path, walk⟩ := reachable
  have bound := lt_of_cfgPath walk index mem_cons_self
  refine (agrees.run oracle facts unpredicated bound _ count
    (Subset.refl _)).congr fun name value found => ?_
  rw [find?_foldl_defineResults, ← facts.lastDefinitions index bound,
    ← facts.outgoing index ⟨path, walk⟩]
  exact found

/-- The registers at the start of the last block of a path, if they are reset whenever
    control enters the first block. -/
def resetRegistersAt (oracle : Oracle) (body : List Instruction) : List Nat → String → Word
  | [] | [_] => fun _ => 0
  | index :: u :: path =>
    if index = 0 then fun _ => 0
    else
      runRegisters oracle destinationRegisters body (countAt body (u :: path))
        (blockInstructions body u) (resetRegistersAt oracle body (u :: path))

/-- The first block starts with the value 0 for every register without a definition. -/
theorem agrees_start (facts : SsaFacts context body state owner) (values : ValueId → Word) :
    Agrees owner (environmentAt state.incoming 0) (fun _ => 0) (startBlock state 0 values) := by
  intro name value found
  rw [facts.incomingFirst] at found
  have member := AssocMap.mem_of_find? found
  refine ⟨(facts.implicit _ member).1, ?_⟩
  rw [startBlock, if_pos rfl]
  refine setAll_of_mem _ ⟨(value, 0), mem_map.mpr ⟨_, member, rfl⟩, rfl⟩ ?_
  intro update hupdate _
  obtain ⟨implicit, -, rfl⟩ := mem_map.mp hupdate
  rfl

/-- `make_successor` succeeds for an edge and passes the outgoing values. -/
theorem exists_makeSuccessor (facts : SsaFacts context body state owner) {u v : Nat}
    (hu : u < blockCount body) (hv : v < blockCount body) (edge : CfgEdge body u v) :
    ∃ successor, makeSuccessor state u v = some successor ∧
      List.Forall₂ (fun argument value =>
          (environmentAt state.outgoing u).find? argument.1 = some value)
        (environmentAt state.blockArguments v) successor.arguments := by
  have all : ∀ argument ∈ environmentAt state.blockArguments v,
      ∃ value, (environmentAt state.outgoing u).find? argument.1 = some value := by
    intro argument member
    exact Option.isSome_iff_exists.mp
      (facts.joined v hv argument member u (mem_blockPredecessors hu edge))
  obtain ⟨values, made, related⟩ := exists_mapM_eq_some all
  exact ⟨_, by rw [makeSuccessor, made]; rfl, related⟩

/-- Binding the arguments of an edge gives each of them what its register holds. -/
theorem agrees_arguments {bindings outgoing : Environment} {arguments : List ValueId}
    (owners : ∀ binding ∈ bindings, owner binding.2 = binding.1)
    (agrees : Agrees owner outgoing registers values)
    (passed : List.Forall₂ (fun argument value => outgoing.find? argument.1 = some value)
      bindings arguments) :
    Agrees owner bindings registers
      (setAll values ((bindings.map Prod.snd).zip (arguments.map values))) := by
  have updates : ∀ update ∈ (bindings.map Prod.snd).zip (arguments.map values),
      update.2 = registers (owner update.1) := by
    induction passed with
    | nil => simp
    | @cons argument value rest values' found _ ih =>
      intro update member
      rw [map_cons, map_cons, zip_cons_cons] at member
      rcases mem_cons.mp member with rfl | later
      · rw [owners argument mem_cons_self]
        exact (agrees _ _ found).2
      · exact ih (fun binding hb => owners binding (mem_cons_of_mem _ hb)) update later
  have present : ∀ binding ∈ bindings,
      ∃ update ∈ (bindings.map Prod.snd).zip (arguments.map values), update.1 = binding.2 := by
    have length := passed.length_eq
    intro binding member
    obtain ⟨k, bound, rfl⟩ := mem_iff_getElem.mp member
    refine ⟨(bindings[k].2, values (arguments.get ⟨k, length ▸ bound⟩)), ?_, rfl⟩
    exact mem_iff_getElem.mpr ⟨k, by simp [bound, ← length], by simp⟩
  intro name value found
  have member := AssocMap.mem_of_find? found
  have owns := owners _ member
  refine ⟨owns, ?_⟩
  refine setAll_of_mem _ (present _ member) fun update hupdate same => ?_
  rw [updates update hupdate, same, owns]

/-- Along every path the values agree with the registers that are reset at the first block. -/
theorem exists_valuesAt (facts : SsaFacts context body state owner)
    (unpredicated : Unpredicated destinationRegisters body) (oracle : Oracle)
    (walk : CfgPath body path) :
    ∃ values, valuesAt oracle body state path = some values ∧
      Agrees owner (environmentAt state.incoming (path.headD 0))
        (resetRegistersAt oracle body path) values := by
  induction walk with
  | entry => exact ⟨_, rfl, agrees_start facts _⟩
  | @step path u v walk edge ih =>
    obtain ⟨values, hvalues, agrees⟩ := ih
    have hu := lt_of_cfgPath walk u mem_cons_self
    have hv := blockSuccessors_lt edge
    obtain ⟨successor, made, passed⟩ := exists_makeSuccessor facts hu hv edge
    refine ⟨_, by rw [valuesAt, hvalues]; simp [made]; rfl, ?_⟩
    have left := agrees.outgoing oracle facts unpredicated ⟨path, walk⟩
      (countAt body (u :: path))
    rw [headD_cons, resetRegistersAt]
    by_cases zero : v = 0
    · subst zero
      rw [if_pos rfl]
      exact agrees_start facts _
    · rw [if_neg zero, startBlock, if_neg zero]
      by_cases many : 2 ≤ (blockPredecessors body v).length
      · refine (agrees_arguments (facts.arguments v) left passed).congr fun name value found => ?_
        rw [← facts.incomingJoin v hv zero many]
        exact found
      · -- a single predecessor passes its environment on
        have none := facts.noArguments v hv (by omega)
        have before := mem_blockPredecessors hu edge
        have single : blockPredecessors body v = [u] := by
          match hpreds : blockPredecessors body v with
          | [] => simp [hpreds] at before
          | [p] =>
            rw [hpreds, mem_singleton] at before
            rw [before]
          | _ :: _ :: _ => simp [hpreds] at many
        rw [none]
        exact left.congr fun name value found =>
          facts.incomingSingle v u ⟨u :: path, .step walk edge⟩ zero single name value found

variable {before after : List Nat}

/-- What an instruction of a block reads is in the environment before it. -/
theorem exists_read (facts : SsaFacts context body state owner) (bound : index < blockCount body)
    (split : blockInstructions body index = before ++ i :: after)
    (source : name ∈ sourceRegisters (instructionAt body i)) :
    ∃ value, (before.foldl (defineResults body state.allocation.instructionResults)
      (environmentAt state.incoming index)).find? name = some value := by
  rw [foldl_defineResults_eq, AssocMap.find?_assignAll]
  by_cases written : ∃ j ∈ before, name ∈ destinationRegisters (instructionAt body j)
  · -- written in the block: the pair of the destination and its result is an update
    obtain ⟨j, hj, destination⟩ := written
    obtain ⟨values, found, owns⟩ := facts.recorded index bound j
      (split ▸ mem_append_left _ hj)
    obtain ⟨k, hk⟩ := mem_iff_getElem?.mp destination
    obtain ⟨value, hvalue⟩ : ∃ value, values[k]? = some value := by
      rw [← owns, getElem?_map, Option.map_eq_some_iff] at hk
      exact ⟨hk.choose, hk.choose_spec.1⟩
    have update : (name, value) ∈ before.flatMap fun i =>
        (destinationRegisters (instructionAt body i)).zip
          ((state.allocation.instructionResults.find? i).getD []) := by
      refine mem_flatMap.mpr ⟨j, hj, ?_⟩
      rw [found]
      exact mem_of_getElem? (getElem?_zip_eq_some.mpr ⟨hk, hvalue⟩)
    cases last : (filter (fun update : String × ValueId => decide (update.1 = name))
        (before.flatMap fun i => (destinationRegisters (instructionAt body i)).zip
          ((state.allocation.instructionResults.find? i).getD []))).getLast? with
    | none =>
      rw [getLast?_eq_none_iff, filter_eq_nil_iff] at last
      exact absurd (by simp) (last _ update)
    | some found => exact ⟨found.2, rfl⟩
  · have contains := facts.used index bound name
      ⟨before, i, after, split, source, fun j hj here => written ⟨j, hj, here⟩⟩
    obtain ⟨value, found⟩ := Option.isSome_iff_exists.mp contains
    rw [found]
    cases (filter (fun update : String × ValueId => decide (update.1 = name))
        (before.flatMap fun i => (destinationRegisters (instructionAt body i)).zip
          ((state.allocation.instructionResults.find? i).getD []))).getLast? with
    | none => exact ⟨value, rfl⟩
    | some update => exact ⟨update.2, rfl⟩

theorem reset_read (facts : SsaFacts context body state owner)
    (unpredicated : Unpredicated destinationRegisters body)
    (walk : CfgPath body (index :: path))
    (hvalues : valuesAt oracle body state (index :: path) = some values)
    (split : blockInstructions body index = before ++ i :: after) {value : ValueId}
    (found : (before.foldl (defineResults body state.allocation.instructionResults) (environmentAt
      state.incoming index)).find? name = some value) :
    runValues oracle state.allocation.instructionResults (countAt body (index :: path)) before
        values value =
      runRegisters oracle destinationRegisters body (countAt body (index :: path)) before
        (resetRegistersAt oracle body (index :: path)) name := by
  obtain ⟨values', hvalues', agrees⟩ := exists_valuesAt facts unpredicated oracle walk
  obtain rfl : values' = values := Option.some.inj (hvalues'.symm.trans hvalues)
  have inside : before ⊆ blockInstructions body index := split ▸ subset_append_left _ _
  exact ((agrees.run oracle facts unpredicated (lt_of_cfgPath walk index mem_cons_self) before
    (countAt body (index :: path)) inside) name value found).2

/-! ## Reset registers and registers -/

theorem lastIndex_concat (names : List String) (last : String) :
    lastIndex (names ++ [last]) name =
      if last = name then some names.length else lastIndex names name := by
  rw [lastIndex, zipIdx_append, filter_append]
  by_cases same : last = name
  · simp [same]
  · simp [same, lastIndex]

theorem lastIndex_eq_none {names : List String} : lastIndex names name = none ↔ name ∉ names := by
  induction names using reverseRecOn with
  | nil => exact iff_of_true rfl not_mem_nil
  | append_singleton names last ih =>
    rw [lastIndex_concat, mem_append, mem_singleton]
    split
    · next same => simp [same]
    · next other => simp [ih, Ne.symm other]

theorem setAll_zipIdx (names : List String) (written : Nat → Word) (registers : String → Word) :
    setAll registers (names.zipIdx.map fun d => (d.1, written d.2)) name =
      ((lastIndex names name).map written).getD (registers name) := by
  induction names using reverseRecOn with
  | nil => rfl
  | append_singleton names last ih =>
    rw [lastIndex_concat, zipIdx_append, map_append, setAll, foldl_append]
    change update _ _ _ name = _
    by_cases same : last = name
    · rw [if_pos same, same, update_self]
      simp
    · rw [if_neg same, update_of_ne (Ne.symm same)]
      exact ih

variable {definitions : Definitions} {count : Nat}

/-- What an instruction leaves in a register. -/
theorem writeRegisters_apply (unpredicated : Unpredicated definitions body)
    (bound : i < body.length) :
    writeRegisters oracle definitions body count i registers name =
      ((lastIndex (definitions (instructionAt body i)) name).map (oracle.written count)).getD
        (registers name) := by
  unfold writeRegisters
  by_cases empty : definitions (instructionAt body i) = []
  · rw [empty]
    split <;> rfl
  · rw [if_pos (by simp [takesEffect, unpredicated i bound empty]), setAll_zipIdx]

theorem writeRegisters_of_not_mem (unwritten : name ∉ definitions (instructionAt body i)) :
    writeRegisters oracle definitions body count i registers name = registers name := by
  unfold writeRegisters
  split
  · rw [setAll_zipIdx, lastIndex_eq_none.mpr unwritten]
    rfl
  · rfl

theorem runRegisters_of_not_mem :
    ∀ (indices : List Nat) (count : Nat) (registers : String → Word),
      (∀ i ∈ indices, name ∉ definitions (instructionAt body i)) →
      runRegisters oracle definitions body count indices registers name = registers name := by
  intro indices
  induction indices with
  | nil => exact fun count registers _ => rfl
  | cons i indices ih =>
    intro count registers unwritten
    rw [runRegisters, ih _ _ fun j member => unwritten j (mem_cons_of_mem _ member)]
    exact writeRegisters_of_not_mem (unwritten i mem_cons_self)

theorem runRegisters_append :
    ∀ (first second : List Nat) (count : Nat) (registers : String → Word),
      runRegisters oracle definitions body count (first ++ second) registers =
        runRegisters oracle definitions body (count + first.length) second
          (runRegisters oracle definitions body count first registers)
  | [], _, _, _ => rfl
  | i :: first, second, count, registers => by
    rw [cons_append, runRegisters, runRegisters_append first second, runRegisters, length_cons,
      Nat.add_right_comm, Nat.add_assoc]

theorem runRegisters_ne_zero (unpredicated : Unpredicated definitions body)
    (nonzero : ∀ n k, oracle.written n k ≠ 0) :
    ∀ (indices : List Nat) (count : Nat) (registers : String → Word),
      (∀ i ∈ indices, i < body.length) →
      (∃ i ∈ indices, name ∈ definitions (instructionAt body i)) ∨ registers name ≠ 0 →
      runRegisters oracle definitions body count indices registers name ≠ 0 := by
  intro indices
  induction indices with
  | nil => simp [runRegisters]
  | cons i indices ih =>
    intro count registers bounds written
    refine ih (count + 1) _ (fun j member => bounds j (mem_cons_of_mem _ member)) ?_
    rw [writeRegisters_apply unpredicated (bounds i mem_cons_self)]
    cases here : lastIndex (definitions (instructionAt body i)) name with
    | some k => exact .inr (nonzero _ _)
    | none =>
      refine written.imp_left ?_
      rintro ⟨j, member, defined⟩
      rcases mem_cons.mp member with rfl | later
      · exact absurd defined (lastIndex_eq_none.mp here)
      · exact ⟨j, later, defined⟩

section Compared

variable (unpredicated : Unpredicated definitions body)
  (importUnpredicated : Unpredicated destinationRegisters body)

include unpredicated importUnpredicated

/-- Instructions after which no mistake is left make two register files equal, if they were or if
one of the instructions touches the register. -/
theorem runRegisters_eq :
    ∀ (indices : List Nat) (count : Nat) (first second : String → Word),
      (∀ i ∈ indices, i < body.length) → ¬ MistakenLast definitions body indices name →
      (∃ i ∈ indices, Touches definitions body i name) ∨ first name = second name →
      runRegisters oracle definitions body count indices first name =
        runRegisters oracle destinationRegisters body count indices second name := by
  intro indices
  induction indices with
  | nil => simp [runRegisters]
  | cons i indices ih =>
    intro count first second bounds unmistaken written
    have later : ¬ MistakenLast definitions body indices name :=
      fun ⟨before, j, after, split, rest⟩ =>
        unmistaken ⟨i :: before, j, after, by rw [split]; rfl, rest⟩
    refine ih (count + 1) _ _ (fun j member => bounds j (mem_cons_of_mem _ member)) later ?_
    by_cases touched : ∃ j ∈ indices, Touches definitions body j name
    · exact .inl touched
    have same : lastIndex (definitions (instructionAt body i)) name =
        lastIndex (destinationRegisters (instructionAt body i)) name := by
      by_contra mistaken
      exact unmistaken ⟨[], i, indices, rfl, mistaken, fun j member touches =>
        touched ⟨j, member, touches⟩⟩
    right
    rw [writeRegisters_apply unpredicated (bounds i mem_cons_self),
      writeRegisters_apply importUnpredicated (bounds i mem_cons_self), same]
    cases here : lastIndex (destinationRegisters (instructionAt body i)) name with
    | some k => rfl
    | none =>
      rcases written with ⟨j, member, touches⟩ | equal
      · rcases mem_cons.mp member with rfl | earlier
        · rw [Touches, ← not_not (a := _ ∨ _), not_or, ← lastIndex_eq_none, ← lastIndex_eq_none,
            same, here] at touches
          exact absurd ⟨rfl, rfl⟩ touches
        · exact absurd ⟨j, earlier, touches⟩ touched
      · exact equal

end Compared

/-- All values that a run computes are different, and none is 0. -/
def distinctOracle : Oracle where
  written n k := Nat.pair n k + 1
  holds _ := true

/-- The registers hold values that were computed before an instruction. -/
def Older (count : Nat) (registers : String → Word) : Prop :=
  ∀ name, registers name = 0 ∨ ∃ n < count, ∃ k, registers name = Nat.pair n k + 1

theorem Older.run (unpredicated : Unpredicated definitions body) :
    ∀ {indices : List Nat} {count : Nat} {registers : String → Word},
      (∀ i ∈ indices, i < body.length) → Older count registers →
      Older (count + indices.length)
        (runRegisters distinctOracle definitions body count indices registers)
  | [], _, _, _, older => older
  | i :: indices, count, registers, bounds, older => by
    rw [length_cons, ← Nat.add_assoc, Nat.add_right_comm]
    refine Older.run unpredicated (fun j member => bounds j (mem_cons_of_mem _ member)) ?_
    intro name
    rw [writeRegisters_apply unpredicated (bounds i mem_cons_self)]
    cases lastIndex (definitions (instructionAt body i)) name with
    | some k => exact .inr ⟨count, Nat.lt_succ_self _, k, rfl⟩
    | none =>
      exact (older name).imp_right fun ⟨n, less, value⟩ => ⟨n, Nat.lt_succ_of_lt less, value⟩

theorem Older.ne_written {k : Nat} (older : Older count registers) (name : String) :
    registers name ≠ Nat.pair count k + 1 := by
  rcases older name with zero | ⟨n, less, j, value⟩
  · rw [zero]
    exact (Nat.succ_ne_zero _).symm
  · rw [value]
    intro same
    have pairs := Nat.pair_eq_pair.mp (Nat.succ.inj same)
    omega

/-- A mistake that nothing follows makes two register files differ. -/
theorem runRegisters_ne (unpredicated : Unpredicated definitions body)
    (importUnpredicated : Unpredicated destinationRegisters body) {indices : List Nat}
    {first second : String → Word} (bounds : ∀ i ∈ indices, i < body.length)
    (olderFirst : Older count first) (olderSecond : Older count second)
    (mistaken : MistakenLast definitions body indices name) :
    runRegisters distinctOracle definitions body count indices first name ≠
      runRegisters distinctOracle destinationRegisters body count indices second name := by
  obtain ⟨before, i, after, rfl, differs, untouched⟩ := mistaken
  have inside : i < body.length := bounds i (by simp)
  have earlier : ∀ j ∈ before, j < body.length := fun j member =>
    bounds j (mem_append_left _ member)
  rw [runRegisters_append, runRegisters_append, runRegisters, runRegisters,
    runRegisters_of_not_mem after _ _ fun j member defined => untouched j member (.inl defined),
    runRegisters_of_not_mem after _ _ fun j member defined => untouched j member (.inr defined),
    writeRegisters_apply unpredicated inside, writeRegisters_apply importUnpredicated inside]
  have text := olderFirst.run unpredicated earlier
  have imported := olderSecond.run importUnpredicated earlier
  unfold Mistaken at differs
  cases here : lastIndex (definitions (instructionAt body i)) name with
  | none =>
    cases there : lastIndex (destinationRegisters (instructionAt body i)) name with
    | none => exact absurd (here.trans there.symm) differs
    | some k => exact text.ne_written name
  | some j =>
    cases there : lastIndex (destinationRegisters (instructionAt body i)) name with
    | none => exact (imported.ne_written name).symm
    | some k =>
      intro same
      have pairs := Nat.pair_eq_pair.mp (Nat.succ.inj same)
      exact differs (by rw [here, there, pairs.2])

theorem instructions_lt (body : List Instruction) (index : Nat) :
    ∀ i ∈ blockInstructions body index, i < body.length :=
  fun _ member => (mem_blockInstructions member).2.2.1

theorem older_registersAt (unpredicated : Unpredicated definitions body) :
    ∀ path : List Nat, Older (countAt body path) (registersAt distinctOracle definitions body path)
  | [] | [_] => fun _ => .inl rfl
  | _ :: u :: path =>
    (older_registersAt unpredicated (u :: path)).run unpredicated (instructions_lt body u)

theorem registersAt_ne_zero (unpredicated : Unpredicated definitions body) :
    ∀ path : List Nat,
      (∃ c ∈ path.tail, ∃ i ∈ blockInstructions body c, name ∈ definitions (instructionAt body i)) →
      registersAt distinctOracle definitions body path name ≠ 0
  | [], written | [_], written => by simp at written
  | index :: u :: path, written => by
    refine runRegisters_ne_zero unpredicated (fun _ _ => Nat.succ_ne_zero _) _ _ _
      (instructions_lt body u) ?_
    obtain ⟨c, member, writes⟩ := written
    rcases mem_cons.mp member with rfl | earlier
    · exact .inl writes
    · exact .inr (registersAt_ne_zero unpredicated (u :: path) ⟨c, earlier, writes⟩)

theorem sinceEntry_lt : ∀ path : List Nat, ∀ i ∈ sinceEntry body path, i < body.length
  | [], _, member | [_], _, member => absurd member not_mem_nil
  | index :: u :: path, i, member => by
    rw [sinceEntry] at member
    split at member
    · exact absurd member not_mem_nil
    · rcases mem_append.mp member with earlier | here
      · exact sinceEntry_lt (u :: path) i earlier
      · exact instructions_lt body u i here

/-- Both register files at the start of a block come from those at the last entry into the first
block, where the import's are reset. -/
theorem exists_entry (oracle : Oracle) (definitions : Definitions) (walk : CfgPath body path) :
    ∃ start registers, countAt body path = start + (sinceEntry body path).length ∧
      registersAt oracle definitions body path =
        runRegisters oracle definitions body start (sinceEntry body path) registers ∧
      resetRegistersAt oracle body path =
        runRegisters oracle destinationRegisters body start (sinceEntry body path) (fun _ => 0) ∧
      ((start = 0 ∧ registers = fun _ => 0) ∨ ∃ earlier, CfgPath body (0 :: earlier) ∧
        start = countAt body (0 :: earlier) ∧
        registers = registersAt oracle definitions body (0 :: earlier)) := by
  induction walk with
  | entry => exact ⟨0, _, rfl, rfl, rfl, .inl ⟨rfl, rfl⟩⟩
  | @step path u v walk edge ih =>
    by_cases zero : v = 0
    · subst zero
      exact ⟨countAt body (0 :: u :: path), _, rfl, rfl, rfl,
        .inr ⟨u :: path, .step walk edge, rfl, rfl⟩⟩
    · obtain ⟨start, registers, count, text, reset, origin⟩ := ih
      refine ⟨start, registers, ?_, ?_, ?_, origin⟩
      · rw [countAt, count, sinceEntry, if_neg zero, length_append, Nat.add_assoc]
      · rw [registersAt, text, sinceEntry, if_neg zero, runRegisters_append, count]
      · rw [resetRegistersAt, if_neg zero, reset, sinceEntry, if_neg zero, runRegisters_append,
          count]

/-- A register that a path has written before it comes back to the first block. -/
theorem writtenBeforeReentry_of_ne_zero {path : List Nat} (walk : CfgPath body (0 :: path))
    (nonzero : registersAt oracle definitions body (0 :: path) name ≠ 0) :
    WrittenBeforeReentry definitions body name := by
  refine ⟨path, walk, ?_⟩
  by_contra never
  push Not at never
  apply nonzero
  clear nonzero walk
  suffices ∀ (index : Nat), registersAt oracle definitions body (index :: path) name = 0 from this 0
  induction path with
  | nil => exact fun _ => rfl
  | cons u path ih =>
    intro index
    rw [registersAt, runRegisters_of_not_mem _ _ _ (never u mem_cons_self)]
    exact ih (fun c member => never c (mem_cons_of_mem _ member)) u

/-- The part of a path since its last entry into the first block is a path. -/
theorem exists_path_since (walk : CfgPath body path)
    (untouched : ∀ i ∈ sinceEntry body path, ¬ Touches definitions body i name) :
    ∃ rest, CfgPath body (path.headD 0 :: rest) ∧
      ∀ c ∈ rest, ∀ i ∈ blockInstructions body c, ¬ Touches definitions body i name := by
  induction walk with
  | entry => exact ⟨[], .entry, by simp⟩
  | @step path u v walk edge ih =>
    by_cases zero : v = 0
    · subst zero
      exact ⟨[], .entry, by simp⟩
    · rw [sinceEntry, if_neg zero] at untouched
      obtain ⟨rest, walk', clean⟩ := ih fun i member => untouched i (mem_append_left _ member)
      refine ⟨u :: rest, .step walk' edge, fun c member => ?_⟩
      rcases mem_cons.mp member with rfl | earlier
      · exact fun i inside => untouched i (mem_append_right _ inside)
      · exact clean c earlier

/-- Behind an entry into the first block nothing of what came before counts. -/
theorem sinceEntry_append (earlier : List Nat) :
    ∀ last : List Nat, ∀ i ∈ sinceEntry body (last ++ 0 :: earlier),
      ∃ c ∈ (last ++ [0]).tail, i ∈ blockInstructions body c := by
  intro last
  induction last with
  | nil =>
    intro i member
    cases earlier with
    | nil => exact absurd member not_mem_nil
    | cons u earlier => exact absurd member not_mem_nil
  | cons index last ih =>
    intro i member
    cases last with
    | nil =>
      rw [cons_append, nil_append, sinceEntry] at member
      split at member
      · exact absurd member not_mem_nil
      · rcases mem_append.mp member with before | here
        · obtain ⟨c, inside, -⟩ := ih i before
          exact absurd inside not_mem_nil
        · exact ⟨0, by simp, here⟩
    | cons u last =>
      rw [cons_append, cons_append, sinceEntry] at member
      split at member
      · exact absurd member not_mem_nil
      · rcases mem_append.mp member with before | here
        · obtain ⟨c, inside, there⟩ := ih i before
          exact ⟨c, mem_cons_of_mem _ inside, there⟩
        · exact ⟨u, mem_cons_self, here⟩

section Settled

variable (ok : importSsa context body = .ok state) (unpredicated : Unpredicated definitions body)
  (importUnpredicated : Unpredicated destinationRegisters body)

include ok unpredicated importUnpredicated

/-- Where no register is read after a mistake, nor both live into the first block and written before
    a re-entry, every read is right. -/
theorem readsHold_of_not_stale (unmistaken : ∀ name, ¬ ReadAfterMistake definitions body name)
    (fresh : ∀ name, LiveAtEntry definitions body name →
      ¬ WrittenBeforeReentry definitions body name) (oracle : Oracle) :
    ReadsHold oracle definitions body state := by
  obtain ⟨owner, facts⟩ := ssaFacts_of_ok ok
  intro path index walk
  obtain ⟨values, hvalues, -⟩ := exists_valuesAt facts importUnpredicated oracle walk
  refine ⟨values, hvalues, fun before i after split name source => ?_⟩
  obtain ⟨value, found⟩ := exists_read facts (lt_of_cfgPath walk index mem_cons_self) split
    source
  refine ⟨value, found, ?_⟩
  rw [reset_read facts importUnpredicated walk hvalues split found]
  obtain ⟨start, registers, count, text, reset, origin⟩ := exists_entry oracle definitions walk
  have bounds : ∀ j ∈ sinceEntry body (index :: path) ++ before, j < body.length := by
    intro j member
    rcases mem_append.mp member with earlier | here
    · exact sinceEntry_lt _ j earlier
    · exact instructions_lt body index j (split ▸ mem_append_left _ here)
  rw [text, reset, count, ← runRegisters_append, ← runRegisters_append]
  symm
  refine runRegisters_eq unpredicated importUnpredicated _ _ _ _ bounds
    (fun mistaken =>
      unmistaken name ⟨index, path, before, i, after, walk, split, source, mistaken⟩) ?_
  by_contra stale
  obtain ⟨untouched, differs⟩ := not_or.mp stale
  push Not at untouched
  -- nothing touched the register since the entry, and something wrote it before
  rcases origin with ⟨-, rfl⟩ | ⟨earlier, back, -, rfl⟩
  · exact differs rfl
  · obtain ⟨rest, walk', clean⟩ := exists_path_since walk fun j member =>
      untouched j (mem_append_left _ member)
    exact fresh name ⟨index, rest, before, i, after, walk', split, source,
      fun j member => untouched j (mem_append_right _ member), clean⟩
      (writtenBeforeReentry_of_ne_zero back differs)

/-- A register that is read after a mistake is read wrong when all values are different. -/
theorem not_readsHold_of_mistake (mistake : ReadAfterMistake definitions body name) :
    ¬ ReadsHold distinctOracle definitions body state := by
  intro holds
  obtain ⟨owner, facts⟩ := ssaFacts_of_ok ok
  obtain ⟨index, path, before, i, after, walk, split, source, mistaken⟩ := mistake
  obtain ⟨values, hvalues, reads⟩ := holds path index walk
  obtain ⟨value, found, equal⟩ := reads before i after split name source
  rw [reset_read facts importUnpredicated walk hvalues split found] at equal
  obtain ⟨start, registers, count, text, reset, origin⟩ :=
    exists_entry distinctOracle definitions walk
  rw [text, reset, count, ← runRegisters_append, ← runRegisters_append] at equal
  have older : Older start registers := by
    rcases origin with ⟨-, rfl⟩ | ⟨earlier, back, rfl, rfl⟩
    · exact fun _ => .inl rfl
    · exact older_registersAt unpredicated _
  refine runRegisters_ne unpredicated importUnpredicated ?_ older (fun _ => .inl rfl) mistaken
    equal.symm
  intro j member
  rcases mem_append.mp member with earlier | here
  · exact sinceEntry_lt _ j earlier
  · exact instructions_lt body index j (split ▸ mem_append_left _ here)

/-- A register that is live into the first block and was written before control comes back
    there is read wrong when everything that is computed differs from 0. -/
theorem not_readsHold_of_stale (live : LiveAtEntry definitions body name)
    (reentry : WrittenBeforeReentry definitions body name) :
    ¬ ReadsHold distinctOracle definitions body state := by
  intro holds
  obtain ⟨owner, facts⟩ := ssaFacts_of_ok ok
  obtain ⟨index, path, before, i, after, walk, split, source, undefined, clean⟩ := live
  obtain ⟨earlier, back, c, member, writes⟩ := reentry
  -- the path that comes back and then goes on to the read
  obtain ⟨last, whole⟩ : ∃ last, index :: path = last ++ [0] := walk.exists_eq_append_entry
  have full := walk.append last whole back
  obtain ⟨rest, joined⟩ : ∃ rest, last ++ 0 :: earlier = index :: rest := by
    cases last with
    | nil => exact ⟨earlier, by simp at whole; simp [whole.1]⟩
    | cons head tail => exact ⟨tail ++ 0 :: earlier, by simp at whole; simp [whole.1]⟩
  rw [joined] at full
  obtain ⟨values, hvalues, reads⟩ := holds rest index full
  obtain ⟨value, found, equal⟩ := reads before i after split name source
  rw [reset_read facts importUnpredicated full hvalues split found] at equal
  obtain ⟨start, registers, count, -, reset, -⟩ := exists_entry distinctOracle definitions full
  have untouched : ∀ j ∈ sinceEntry body (index :: rest), ¬ Touches definitions body j name := by
    intro j executed
    rw [← joined] at executed
    obtain ⟨c, inside, here⟩ := sinceEntry_append earlier last j executed
    rw [← whole] at inside
    exact clean c inside j here
  have zero : runRegisters distinctOracle destinationRegisters body (countAt body (index :: rest))
      before (resetRegistersAt distinctOracle body (index :: rest)) name = 0 := by
    rw [runRegisters_of_not_mem before _ _ fun j inside defined =>
        undefined j inside (.inr defined), reset, runRegisters_of_not_mem _ _ _ fun j executed defined =>
        untouched j executed (.inr defined)]
  have inText : c ∈ (index :: rest).tail := by
    rw [← joined]
    cases last with
    | nil => exact member
    | cons head tail => simp [member]
  rw [zero] at equal
  refine runRegisters_ne_zero unpredicated (fun _ _ => Nat.succ_ne_zero _) before _ _
    (fun j inside => instructions_lt body index j (split ▸ mem_append_left _ inside))
    (.inr (registersAt_ne_zero unpredicated _ ⟨c, inText, writes⟩)) equal.symm

end Settled

/-- A loop: `mov.u32 %r1, 0; L: add.s32 %r1, %r1, 1; setp.lt.s32 %p1, %r1, 10; @%p1 bra L;
    ret;`. -/
def countingBody : List Instruction :=
  [{ opcode := "mov.u32", operands := ["%r1", "0"], line := 1, supported := true },
   { opcode := "ptx.label", operands := ["L"], line := 2, supported := true },
   { opcode := "add.s32", operands := ["%r1", "%r1", "1"], line := 3, supported := true },
   { opcode := "setp.lt.s32", operands := ["%p1", "%r1", "10"], line := 4, supported := true },
   { predicate := "@%p1", opcode := "bra", operands := ["L"], line := 5, supported := true },
   { opcode := "ret", line := 6, supported := true }]

/-- All registers of the first operand, where it is neither an address nor an operand of an
    instruction that has no destination. -/
def operandDefinitions : Definitions := fun instruction =>
  match instruction.operands with
  | [] => []
  | front :: _ =>
    if ["st", "red", "bra", "bar", "membar", "fence", "ret", "exit", "trap", "call"].contains
        (rootOpcode instruction.opcode) || isLabel instruction || startsWith front "[" then []
    else registersIn front

/-- `L: add.s32 %r2, %r1, 1; mov.u32 %r1, 5; bra L;` with an undefined `%r1` at its start. -/
def reentryBody : List Instruction :=
  [{ opcode := "ptx.label", operands := ["L"], line := 1, supported := true },
   { opcode := "add.s32", operands := ["%r2", "%r1", "1"], line := 2, supported := true },
   { opcode := "mov.u32", operands := ["%r1", "5"], line := 3, supported := true },
   { opcode := "bra", operands := ["L"], line := 4, supported := true }]

/-- `mov.u16 %rs2, 7; mov.u32 %r1, 0; mov.b32 {%rs1, %rs2}, %r1; add.s16 %rs3, %rs2, 1; ret;`. -/
def halvesBody : List Instruction :=
  [{ opcode := "mov.u16", operands := ["%rs2", "7"], line := 1, supported := true },
   { opcode := "mov.u32", operands := ["%r1", "0"], line := 2, supported := true },
   { opcode := "mov.b32", operands := ["{%rs1, %rs2}", "%r1"], line := 3, supported := true },
   { opcode := "add.s16", operands := ["%rs3", "%rs2", "1"], line := 4, supported := true },
   { opcode := "ret", line := 5, supported := true }]

end CuMetal.Ptx
