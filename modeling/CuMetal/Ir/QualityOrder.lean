import CuMetal.Ir.SemanticQuality
import Mathlib.Data.List.Perm.Basic

/-!
# Which order of the rewrites reports the worst of them

The reported quality is what the last assignment leaves. It is the worst level of the rewrites only
for some orders of them, and these orders are described here.
-/

namespace CuMetal.Ir.Quality

open List Rewrite

/-- The rewrites that the import performs for a call. -/
def callRewrites : LlvmCallee → List Rewrite
  | .indirect => []
  | .inlineAsm text opcodes =>
    if isDirectAsm text then [] else if opcodes.any isFp64Opcode then [.inlineFp64] else []
  | .function name _ =>
    if name ∈ clockNames then [.deviceClock]
    else if name ∈ expandedMathNames then [.expandedMath] else []

/-- The rewrites for an instruction that is imported by itself. -/
def operationRewrites (instruction : LlvmInstruction) : List Rewrite :=
  (if usesFp64 instruction then [.emulatedFp64] else []) ++
    match instruction.kind with
    | .call callee => callRewrites callee
    | _ => []

/-- The rewrites that the import performs for an instruction. -/
def instructionRewrites (function : LlvmFunction) (instruction : LlvmInstruction) : List Rewrite :=
  if instruction.isPhi then []
  else if isFrexpExtension function instruction then []
  else if instruction.callsEmptyAssert then []
  else if isFloatFrexp function instruction then []
  else if isFrexpTruncation function instruction then []
  else if isDemotable function instruction then [.demotedMultiply]
  else if isDemotedExtension function instruction then []
  else if isDemotedMultiply function instruction then []
  else operationRewrites instruction

def functionRewrites (function : LlvmFunction) : List Rewrite :=
  function.instructions.flatMap (instructionRewrites function)

/-- The rewrites for the functions of a module, in the order in which they are performed. -/
def rewritesOf (functions : List LlvmFunction) : List Rewrite := functions.flatMap functionRewrites

/-- What a rewrite makes of the quality. -/
def Rewrite.assign (quality : SemanticQuality) : Rewrite → SemanticQuality
  | .demotedMultiply => .performanceDegraded
  | .emulatedFp64 => .semanticEmulation
  | .deviceClock => if quality = .exact then .semanticEmulation else quality
  | .expandedMath => if quality = .exact then .toleranceBounded else quality
  | .inlineFp64 => quality

@[simp] theorem quality_addCaveat (report : Report) (caveat : Caveat) :
    (report.addCaveat caveat).quality = report.quality := by
  unfold Report.addCaveat
  split <;> rfl

theorem quality_importCall (report : Report) (callee : LlvmCallee) :
    (importCall report callee).quality =
      (callRewrites callee).foldl assign report.quality := by
  cases callee with
  | indirect => rfl
  | inlineAsm text opcodes =>
    simp only [importCall, callRewrites, Report.inlineFp64]
    split_ifs <;> simp [assign]
  | function name emptyAssert =>
    simp only [importCall, callRewrites, Report.readClock, Report.expandMath]
    split_ifs <;> simp_all [assign]

theorem quality_importOperation (report : Report) (instruction : LlvmInstruction) :
    (importOperation report instruction).quality =
      (operationRewrites instruction).foldl assign report.quality := by
  have emulated : (if usesFp64 instruction then report.emulateFp64 else report).quality =
      (if usesFp64 instruction then [emulatedFp64] else []).foldl assign
        report.quality := by
    split
    · exact quality_addCaveat ..
    · rfl
  unfold importOperation operationRewrites
  cases instruction.kind with
  | call callee => rw [foldl_append, ← emulated, quality_importCall]
  | _ => rw [append_nil, ← emulated]

variable {rewrites : List Rewrite}

theorem quality_unless {left : Prop} [Decidable left] {report after : Report}
    (imported : after.quality = rewrites.foldl assign report.quality) :
    (if left then report else after).quality =
      (if left then [] else rewrites).foldl assign report.quality := by
  split
  · rfl
  · exact imported

theorem quality_importInstruction (function : LlvmFunction) (report : Report)
    (instruction : LlvmInstruction) :
    (importInstruction function report instruction).quality =
      (instructionRewrites function instruction).foldl assign report.quality := by
  have imported : (if isDemotedExtension function instruction then report
      else if isDemotedMultiply function instruction then report
      else importOperation report instruction).quality =
      (if isDemotedExtension function instruction then []
      else if isDemotedMultiply function instruction then []
      else operationRewrites instruction).foldl assign report.quality :=
    quality_unless (quality_unless (quality_importOperation ..))
  unfold importInstruction instructionRewrites
  refine quality_unless (quality_unless (quality_unless (quality_unless (quality_unless ?_))))
  split
  · exact quality_addCaveat ..
  · exact imported

theorem quality_importFunction (report : Report) (function : LlvmFunction) :
    (importFunction report function).quality =
      (functionRewrites function).foldl assign report.quality := by
  unfold importFunction functionRewrites
  induction function.instructions generalizing report with
  | nil => rfl
  | cons instruction rest ih =>
    rw [foldl_cons, ih, quality_importInstruction, flatMap_cons, foldl_append]

theorem quality_importModule (functions : List LlvmFunction) :
    (importModule functions).quality = (rewritesOf functions).foldl assign .exact := by
  suffices from_ : ∀ report, (functions.foldl importFunction report).quality =
      (rewritesOf functions).foldl assign report.quality from from_ {}
  unfold rewritesOf
  induction functions with
  | nil => exact fun _ => rfl
  | cons function rest ih =>
    intro report
    rw [foldl_cons, ih, quality_importFunction, flatMap_cons, foldl_append]

/-- The highest level of the rewrites. -/
def worst (rewrites : List Rewrite) : SemanticQuality :=
  (rewrites.map Rewrite.level).foldr max .exact

theorem worst_cons (rewrite : Rewrite) (rewrites : List Rewrite) :
    worst (rewrite :: rewrites) = max rewrite.level (worst rewrites) := rfl

theorem worst_perm {others : List Rewrite} (same : rewrites.Perm others) :
    worst rewrites = worst others :=
  (same.map _).foldr_eq _

/-- A rewrite that sets the quality whatever it was. -/
def Rewrite.overwrites : Rewrite → Bool
  | .demotedMultiply | .emulatedFp64 => true
  | _ => false

/-- A rewrite that sets the quality only if nothing has set it before. -/
def Rewrite.raises : Rewrite → Bool
  | .deviceClock | .expandedMath => true
  | _ => false

/-- The last one of the demoted multiplications and the emulated instructions is a multiplication,
if there is one; without either of them, a read of the clock comes before every expanded function,
if there is such a read or inline PTX on binary64. -/
def DemotedLast (rewrites : List Rewrite) : Prop :=
  (.demotedMultiply ∈ rewrites →
    (rewrites.filter Rewrite.overwrites).getLast? = some .demotedMultiply) ∧
  (.demotedMultiply ∉ rewrites → .emulatedFp64 ∉ rewrites →
    .deviceClock ∈ rewrites ∨ .inlineFp64 ∈ rewrites →
      (rewrites.filter Rewrite.raises).head? = some .deviceClock)

instance (rewrites : List Rewrite) : Decidable (DemotedLast rewrites) :=
  inferInstanceAs (Decidable (_ ∧ _))

theorem worst_eq_of_mem {rewrite : Rewrite} (mem : rewrite ∈ rewrites)
    (highest : ∀ other ∈ rewrites, other.level ≤ rewrite.level) :
    worst rewrites = rewrite.level := by
  induction rewrites with
  | nil => cases mem
  | cons first rest ih =>
    have below : worst rest ≤ rewrite.level := by
      clear ih mem
      induction rest with
      | nil => cases rewrite <;> decide
      | cons second rest ih =>
        refine max_le (highest second (by simp)) (ih fun other mem => highest other ?_)
        rcases mem_cons.mp mem with rfl | mem <;> simp [*]
    rcases mem_cons.mp mem with rfl | later
    · exact max_eq_left below
    · rw [worst_cons, ih later fun other mem => highest other (mem_cons_of_mem _ mem)]
      exact max_eq_right (highest first mem_cons_self)

/-- What the assignments leave: the last one that overwrites counts, and without one the first of
the others, if nothing was set before. -/
theorem foldl_assign (rewrites : List Rewrite) (quality : SemanticQuality) :
    rewrites.foldl assign quality =
      match (rewrites.filter overwrites).getLast? with
      | some last => last.level
      | none => if quality = .exact then
          ((rewrites.filter raises).head?.map level).getD .exact else quality := by
  induction rewrites generalizing quality with
  | nil => cases quality <;> rfl
  | cons first rest ih =>
    rw [foldl_cons, ih]
    cases first <;>
      simp only [filter_cons, overwrites, raises, Bool.false_eq_true, if_true,
        if_false, getLast?_cons] <;>
      cases (rest.filter overwrites).getLast? <;> cases quality <;> rfl

theorem getLast?_overwrites {last : Rewrite}
    (found : (rewrites.filter overwrites).getLast? = some last) :
    last ∈ rewrites ∧ (last = .demotedMultiply ∨ last = .emulatedFp64) := by
  obtain ⟨mem, sets⟩ := mem_filter.mp (mem_of_getLast? found)
  refine ⟨mem, ?_⟩
  cases last <;> first | exact .inl rfl | exact .inr rfl | cases sets

theorem head?_raises {first : Rewrite}
    (found : (rewrites.filter raises).head? = some first) :
    first ∈ rewrites ∧ (first = .deviceClock ∨ first = .expandedMath) := by
  obtain ⟨mem, sets⟩ := mem_filter.mp (mem_of_head? found)
  refine ⟨mem, ?_⟩
  cases first <;> first | exact .inl rfl | exact .inr rfl | cases sets

/-- The last assignment leaves the worst level for exactly these orders. -/
theorem foldl_assign_eq_worst_iff (rewrites : List Rewrite) :
    rewrites.foldl assign .exact = worst rewrites ↔ DemotedLast rewrites := by
  rw [foldl_assign]
  by_cases demoted : demotedMultiply ∈ rewrites
  · have top : worst rewrites = .performanceDegraded :=
      worst_eq_of_mem demoted fun other _ => by cases other <;> decide
    cases found : (rewrites.filter overwrites).getLast? with
    | none =>
      rw [getLast?_eq_none_iff, filter_eq_nil_iff] at found
      exact absurd rfl (found _ demoted)
    | some last =>
      rcases (getLast?_overwrites found).2 with rfl | rfl <;>
        simp [DemotedLast, demoted, found, top, level]
  · by_cases emulated : emulatedFp64 ∈ rewrites
    · have top : worst rewrites = .semanticEmulation :=
        worst_eq_of_mem emulated fun other mem => by
          cases other <;> first | exact absurd mem demoted | decide
      cases found : (rewrites.filter overwrites).getLast? with
      | none =>
        rw [getLast?_eq_none_iff, filter_eq_nil_iff] at found
        exact absurd rfl (found _ emulated)
      | some last =>
        rcases getLast?_overwrites found with ⟨mem, rfl | rfl⟩
        · exact absurd mem demoted
        · simp [DemotedLast, demoted, emulated, top, level]
    · have none_ : (rewrites.filter overwrites).getLast? = none := by
        cases found : (rewrites.filter overwrites).getLast? with
        | none => rfl
        | some last =>
          rcases getLast?_overwrites found with ⟨mem, rfl | rfl⟩
          · exact absurd mem demoted
          · exact absurd mem emulated
      rw [none_]
      by_cases clock : deviceClock ∈ rewrites ∨ inlineFp64 ∈ rewrites
      · have top : worst rewrites = .semanticEmulation := by
          have highest : ∀ other ∈ rewrites, other.level ≤ .semanticEmulation := fun other mem => by
            cases other <;> first | exact absurd mem demoted | decide
          rcases clock with clock | inline
          · exact worst_eq_of_mem clock highest
          · exact worst_eq_of_mem inline highest
        cases found : (rewrites.filter raises).head? with
        | none => simp [DemotedLast, demoted, emulated, clock, found, top]
        | some first =>
          rcases (head?_raises found).2 with rfl | rfl <;>
            simp [DemotedLast, demoted, emulated, clock, found, top, level]
      · refine iff_of_true ?_ ⟨fun mem => absurd mem demoted, fun _ _ mem => absurd mem clock⟩
        cases found : (rewrites.filter raises).head? with
        | none =>
          cases rewrites with
          | nil => rfl
          | cons first rest => cases first <;> simp_all [raises]
        | some first =>
          rcases head?_raises found with ⟨mem, rfl | rfl⟩
          · exact absurd (.inl mem) clock
          · refine (worst_eq_of_mem mem fun other mem' => ?_).symm
            cases other <;> first
              | exact absurd mem' demoted | exact absurd mem' emulated
              | exact absurd (Or.inl mem') clock | exact absurd (Or.inr mem') clock | decide

variable (independent : LlvmInstruction → LlvmInstruction → Prop)

/-- Two independent instructions that stand next to each other change places. -/
inductive Swaps : List LlvmInstruction → List LlvmInstruction → Prop
  | intro {a b : LlvmInstruction} (before after : List LlvmInstruction) (free : independent a b) :
      Swaps (before ++ a :: b :: after) (before ++ b :: a :: after)

/-- Independent instructions of the blocks are reordered, and then the functions. -/
def Reordered (functions reordered : List LlvmFunction) : Prop :=
  ∃ inner, List.Forall₂ (fun function other => List.Forall₂
      (Relation.ReflTransGen (Swaps independent)) function.blocks other.blocks) functions inner ∧
    inner.Perm reordered

/-- The report of a module is the worst level of its rewrites, and every other order of it has the
same one. -/
def OnlyDegrades (functions : List LlvmFunction) : Prop :=
  (importModule functions).quality = worst (rewritesOf functions) ∧
    ∀ reordered, Reordered independent functions reordered →
      (importModule reordered).quality = (importModule functions).quality

variable {independent}

theorem Reordered.refl (functions : List LlvmFunction) :
    Reordered independent functions functions :=
  ⟨functions, forall₂_same.mpr fun _ _ => forall₂_same.mpr fun _ _ => .refl, .refl _⟩

theorem perm_of_swaps {block other : List LlvmInstruction}
    (swaps : Relation.ReflTransGen (Swaps independent) block other) : block.Perm other := by
  induction swaps with
  | refl => exact .refl _
  | tail _ step ih =>
    obtain ⟨before, after, -⟩ := step
    exact ih.trans ((Perm.swap ..).append_left before)

theorem perm_flatten {blocks others : List (List LlvmInstruction)}
    (same : List.Forall₂ List.Perm blocks others) : blocks.flatten.Perm others.flatten := by
  induction same with
  | nil => exact .refl _
  | cons first _ ih => exact first.append ih

variable {function other : LlvmFunction}

/-- The rewrites for an instruction do not depend on where it stands. -/
theorem instructionRewrites_congr (same : function.instructions.Perm other.instructions) :
    instructionRewrites function = instructionRewrites other := by
  have uses : function.hasOneUse = other.hasOneUse := by
    funext id
    simp only [LlvmFunction.hasOneUse, (same.flatMap_right _).length_eq]
  have users : function.userIs = other.userIs := by
    funext id property
    simp only [LlvmFunction.userIs, same.any_eq]
  have definitions : function.definitionIs = other.definitionIs := by
    funext operand property
    simp only [LlvmFunction.definitionIs, same.any_eq]
  have frexps : isFloatFrexp function = isFloatFrexp other := by
    funext instruction
    simp only [isFloatFrexp, uses, users, definitions]
  have pairs : hasExtensionAndConstant function = hasExtensionAndConstant other := by
    funext extension constant
    simp only [hasExtensionAndConstant, uses, definitions]
  have demotable : isDemotable function = isDemotable other := by
    funext instruction
    simp only [isDemotable, uses, definitions, pairs]
  have frexpExtension : isFrexpExtension function = isFrexpExtension other := by
    funext instruction
    simp only [isFrexpExtension, uses, users, frexps]
  have frexpTruncation : isFrexpTruncation function = isFrexpTruncation other := by
    funext instruction
    simp only [isFrexpTruncation, definitions, frexps]
  have extension : isDemotedExtension function = isDemotedExtension other := by
    funext instruction
    simp only [isDemotedExtension, uses, users, demotable]
  have multiply : isDemotedMultiply function = isDemotedMultiply other := by
    funext instruction
    simp only [isDemotedMultiply, uses, users, demotable]
  funext instruction
  simp only [instructionRewrites, frexps, demotable, frexpExtension, frexpTruncation, extension,
    multiply]

theorem functionRewrites_perm (same : function.instructions.Perm other.instructions) :
    (functionRewrites function).Perm (functionRewrites other) := by
  rw [functionRewrites, functionRewrites, instructionRewrites_congr same]
  exact same.flatMap_right _

theorem rewritesOf_perm {functions reordered : List LlvmFunction}
    (order : Reordered independent functions reordered) :
    (rewritesOf functions).Perm (rewritesOf reordered) := by
  obtain ⟨inner, blocks, perm⟩ := order
  refine Perm.trans ?_ (perm.flatMap_right _)
  clear perm
  unfold rewritesOf
  induction blocks with
  | nil => exact .refl _
  | cons first _ ih =>
    rw [flatMap_cons, flatMap_cons]
    exact (functionRewrites_perm
      (perm_flatten (first.imp fun _ _ swaps => perm_of_swaps swaps))).append ih

/-- The quality of a module only degrades if and only if every order of it performs the rewrites in
an order that leaves the worst level. -/
theorem onlyDegrades_iff (independent : LlvmInstruction → LlvmInstruction → Prop)
    (functions : List LlvmFunction) :
    OnlyDegrades independent functions ↔
      ∀ reordered, Reordered independent functions reordered →
        DemotedLast (rewritesOf reordered) := by
  have exact_ : ∀ reordered, Reordered independent functions reordered →
      ((importModule reordered).quality = worst (rewritesOf functions) ↔
        DemotedLast (rewritesOf reordered)) := by
    intro reordered order
    rw [worst_perm (rewritesOf_perm order), quality_importModule, foldl_assign_eq_worst_iff]
  constructor
  · intro ⟨worst_, same⟩ reordered order
    exact (exact_ reordered order).mp ((same reordered order).trans worst_)
  · intro last
    have worst_ := (exact_ functions (.refl _)).mpr (last functions (.refl _))
    refine ⟨worst_, fun reordered order => ?_⟩
    rw [worst_]
    exact (exact_ reordered order).mpr (last reordered order)

/-- `float y = (float)((double)x * 3.0)` with the instructions `0` to `2`. -/
def demotedChain : List LlvmInstruction :=
  [⟨0, .double, .fpExt, [{ type := .float }]⟩,
    ⟨1, .double, .binary true,
      [{ type := .double, definition := some 0 }, { type := .double, isFloatConstant := true }]⟩,
    ⟨2, .float, .fpTrunc, [{ type := .double, definition := some 1 }]⟩]

/-- An addition of two arguments of type `double`. -/
def doubleAddition : LlvmInstruction :=
  ⟨3, .double, .binary false, [{ type := .double }, { type := .double }]⟩

/-- After the addition, the demoted chain is not reported any more. -/
theorem addition_hides_demotion : ¬ ∀ functions,
    OnlyDegrades (fun a b => LlvmFunction.usesOf a b.id = 0 ∧ LlvmFunction.usesOf b a.id = 0)
      functions := by
  intro degrades
  have reported := (degrades [⟨[demotedChain ++ [doubleAddition]]⟩]).1
  exact absurd reported (by decide)

end CuMetal.Ir.Quality
