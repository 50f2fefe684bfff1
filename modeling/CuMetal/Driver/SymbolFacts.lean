import CuMetal.Driver.NativeSymbols
import CuMetal.Metal.KernelText

/-!
# Symbols in the generated text

The driver reads back the symbols that the generated text lists, and finds the signature of a kernel.
-/

namespace CuMetal.Driver

open List Option ExternalSymbol Metal

open Metal (separators isWordChar toString_digits)

/-! ## Matches -/

theorem expect_append (literal : String) (rest : List Char) :
    expect literal (literal.toList ++ rest) = some rest := by
  rw [expect, if_pos (prefix_append ..), drop_left]

variable {accepts : Char → Bool}

theorem run_append {word rest : List Char} (all : ∀ c ∈ word, accepts c = true)
    (some_ : word ≠ []) (ends : ∀ c ∈ rest.head?, accepts c = false) :
    run accepts (word ++ rest) = some (word, rest) := by
  have taken : (word ++ rest).takeWhile accepts = word := by
    rw [takeWhile_append_of_pos all]
    cases rest with
    | nil => simp
    | cons c rest => simp [ends c rfl]
  have dropped : (word ++ rest).dropWhile accepts = rest := by
    rw [dropWhile_append_of_pos all]
    cases rest with
    | nil => rfl
    | cons c rest => simp [ends c rfl]
  rw [run, taken, dropped, if_neg some_]

theorem number_append (n : Nat) {rest : List Char}
    (ends : ∀ c ∈ rest.head?, c.isDigit = false) :
    number ((toString n).toList ++ rest) = some (n % 2 ^ 32, rest) := by
  have letters : (toString n).toList = Nat.toDigits 10 n := Nat.toList_repr
  rw [number, run_append (fun c => toString_digits n) (by rw [letters]; exact Nat.toDigits_ne_nil)
    ends, map_some, letters, Nat.ofDigitChars_toDigits (by decide) (by decide)]

theorem matchKind_append (symbol : ExternalSymbol) (rest : List Char) :
    matchKind (symbol.kind.toList ++ rest) =
      some ((symbol.constant, !symbol.constant && symbol.modulePrivate), rest) := by
  unfold matchKind kind
  cases symbol.constant with
  | true => simp only [if_true, expect_append, Bool.not_true, Bool.false_and]
  | false =>
    have constant : ∀ kind : String, kind.toList.head? ≠ some 'c' → kind.toList ≠ [] →
        expect "constant " (kind.toList ++ rest) = none := by
      intro kind other some_
      rw [expect, if_neg]
      rintro ⟨after, same⟩
      refine other ?_
      have head := congrArg head? same
      rw [head?_append_of_ne_nil _ some_] at head
      exact head.symm
    cases symbol.modulePrivate with
    | false =>
      simp only [Bool.false_eq_true, if_false]
      rw [constant "global " (by decide) (by decide), expect_append]
      rfl
    | true =>
      simp only [Bool.false_eq_true, if_false, if_true]
      have global : expect "global " ("private-global ".toList ++ rest) = none := by
        rw [expect, if_neg]
        rintro ⟨after, same⟩
        have head := congrArg head? same
        rw [head?_append_of_ne_nil _ (by decide)] at head
        exact absurd head (by simp)
      rw [constant "private-global " (by decide) (by decide), global, expect_append]
      rfl

/-- A name that its record and a signature leave in one piece, and digits. -/
structure ExternalSymbol.IsPlain (symbol : ExternalSymbol) : Prop where
  named : symbol.name ≠ ""
  name : ∀ c ∈ separators, c ∉ symbol.name.toList
  initializer : ∀ c ∈ symbol.initializer, isWordChar c = true

/-- What the driver reads back. -/
def ExternalSymbol.source (symbol : ExternalSymbol) : NativeSourceSymbol where
  name := symbol.name
  size := symbol.byteSize % 2 ^ 32
  alignment := symbol.alignment % 2 ^ 32
  constantOffset := symbol.constantOffset % 2 ^ 32
  constant := symbol.constant
  modulePrivate := !symbol.constant && symbol.modulePrivate

variable {symbol : ExternalSymbol} {symbols : List ExternalSymbol}

theorem matchRecord_append (plain : symbol.IsPlain) (rest : List Char) :
    matchRecord (symbol.record.toList ++ rest) = some (symbol.source, '\n' :: rest) := by
  have shape : symbol.record.toList ++ rest = recordPrefix.toList ++ (symbol.kind.toList ++
      (symbol.name.toList ++ (" ".toList ++ ((toString symbol.byteSize).toList ++
        (" ".toList ++ ((toString symbol.alignment).toList ++ (" ".toList ++
          ((toString symbol.constantOffset).toList ++ '\n' :: rest)))))))) := by
    simp [record]
  have name : run (· ≠ ' ') (symbol.name.toList ++ (" ".toList ++
      ((toString symbol.byteSize).toList ++ (" ".toList ++ ((toString symbol.alignment).toList ++
        (" ".toList ++ ((toString symbol.constantOffset).toList ++ '\n' :: rest))))))) =
      some (symbol.name.toList, " ".toList ++ ((toString symbol.byteSize).toList ++
        (" ".toList ++ ((toString symbol.alignment).toList ++ (" ".toList ++
          ((toString symbol.constantOffset).toList ++ '\n' :: rest)))))) := by
    refine run_append (fun c mem => ?_) (fun empty => plain.named (String.toList_eq_nil_iff.mp empty))
      (fun c mem => ?_)
    · rw [decide_eq_true_eq]
      rintro rfl
      exact plain.name ' ' (by decide) mem
    · cases mem
      rfl
  have blank : ∀ rest : List Char, ∀ c ∈ (" ".toList ++ rest).head?, c.isDigit = false := by
    intro rest c mem
    cases mem
    rfl
  rw [shape]
  unfold matchRecord
  simp only [expect_append, matchKind_append, name, number_append _ (blank _), bind_eq_bind,
    bind_some]
  rw [number_append _ (by intro c mem; cases mem; rfl)]
  simp [source]

theorem expect_length {literal : String} {text rest : List Char}
    (found : expect literal text = some rest) : rest.length + literal.toList.length = text.length := by
  unfold expect at found
  split at found
  · next occurs =>
      cases found
      have := occurs.length_le
      rw [length_drop]
      omega
  · cases found

theorem run_length {text : List Char} {found : List Char × List Char}
    (matched : run accepts text = some found) : found.2.length ≤ text.length := by
  unfold run at matched
  split at matched
  · cases matched
  · cases matched
    exact (dropWhile_sublist _).length_le

theorem number_length {text : List Char} {found : Nat × List Char}
    (matched : number text = some found) : found.2.length ≤ text.length := by
  obtain ⟨digits, read, rfl⟩ := map_eq_some_iff.mp matched
  exact run_length read

theorem matchKind_length {text : List Char} {found : (Bool × Bool) × List Char}
    (matched : matchKind text = some found) : found.2.length ≤ text.length := by
  unfold matchKind at matched
  split at matched
  · next rest here =>
      cases matched
      exact Nat.le.intro (expect_length here)
  · split at matched
    · next rest here =>
        cases matched
        exact Nat.le.intro (expect_length here)
    · obtain ⟨rest, here, rfl⟩ := map_eq_some_iff.mp matched
      exact Nat.le.intro (expect_length here)

theorem matchRecord_length {text : List Char} {found : NativeSourceSymbol × List Char}
    (matched : matchRecord text = some found) : found.2.length < text.length := by
  obtain ⟨text1, first, matched⟩ := bind_eq_some_iff.mp matched
  obtain ⟨⟨kind, text2⟩, second, matched⟩ := bind_eq_some_iff.mp matched
  obtain ⟨⟨name, text3⟩, third, matched⟩ := bind_eq_some_iff.mp matched
  obtain ⟨text4, fourth, matched⟩ := bind_eq_some_iff.mp matched
  obtain ⟨⟨size, text5⟩, fifth, matched⟩ := bind_eq_some_iff.mp matched
  obtain ⟨text6, sixth, matched⟩ := bind_eq_some_iff.mp matched
  obtain ⟨⟨alignment, text7⟩, seventh, matched⟩ := bind_eq_some_iff.mp matched
  obtain ⟨text8, eighth, matched⟩ := bind_eq_some_iff.mp matched
  obtain ⟨⟨offset, text9⟩, ninth, matched⟩ := bind_eq_some_iff.mp matched
  cases matched
  have lengths := expect_length first
  have some_ : 0 < recordPrefix.toList.length := by decide
  have := matchKind_length second
  have := run_length third
  have := expect_length fourth
  have := number_length fifth
  have := expect_length sixth
  have := number_length seventh
  have := expect_length eighth
  have := number_length ninth
  simp only at *
  omega

theorem matchRecords_eq {fuel : Nat} {text : List Char} (enough : text.length ≤ fuel) :
    matchRecords fuel text = parseNativeSourceSymbols text := by
  have strong : ∀ fuel other (text : List Char), text.length ≤ fuel → text.length ≤ other →
      matchRecords fuel text = matchRecords other text := by
    intro fuel
    induction fuel with
    | zero =>
      intro other text enough _
      cases length_eq_zero_iff.mp (Nat.le_zero.mp enough)
      cases other <;> rfl
    | succ fuel ih =>
      intro other text enough enough'
      cases text with
      | nil => cases other <;> rfl
      | cons c rest =>
        cases other with
        | zero => exact absurd enough' (Nat.not_succ_le_zero _)
        | succ other =>
          simp only [length_cons, add_le_add_iff_right] at enough enough'
          rw [matchRecords, matchRecords]
          cases matched : matchRecord (c :: rest) with
          | none => exact ih other rest enough enough'
          | some found =>
            have shorter := matchRecord_length matched
            simp only [length_cons] at shorter
            simp only
            rw [ih other found.2 (by omega) (by omega)]
  exact strong fuel text.length text enough le_rfl

theorem parse_cons (c : Char) (rest : List Char) : parseNativeSourceSymbols (c :: rest) =
    match matchRecord (c :: rest) with
    | some found => found.1 :: parseNativeSourceSymbols found.2
    | none => parseNativeSourceSymbols rest := by
  rw [parseNativeSourceSymbols, length_cons, matchRecords]
  cases matched : matchRecord (c :: rest) with
  | none => rfl
  | some found =>
    have shorter := matchRecord_length matched
    simp only [length_cons] at shorter
    simp only
    rw [matchRecords_eq (by omega)]

theorem parse_skip {first rest : List Char} (skips : Skips recordPrefix.toList first rest) :
    parseNativeSourceSymbols (first ++ rest) = parseNativeSourceSymbols rest := by
  induction first with
  | nil => rfl
  | cons c first ih =>
    obtain ⟨here, later⟩ := skips.tail
    have none_ : matchRecord (c :: (first ++ rest)) = none := by
      rw [matchRecord, expect, if_neg here]
      rfl
    rw [cons_append, parse_cons, none_]
    exact ih later

theorem skips_of_absent {pattern text rest : List Char} {c : Char} (absent : c ∉ pattern)
    (some_ : pattern ≠ []) (none_ : ¬ pattern <:+: text) : Skips pattern (text ++ [c]) rest := by
  refine skips_of_end absent ?_
  rw [infix_separator absent some_, not_or]
  exact ⟨none_, by simpa using some_⟩

theorem skips_initializer (plain : symbol.IsPlain) (rest : List Char) :
    Skips recordPrefix.toList ('\n' :: symbol.initializerRecord.toList) rest := by
  unfold initializerRecord
  split
  · exact skips_of_head (by decide)
  · have shape : '\n' :: ("// cumetal-native-symbol-initializer: " ++ symbol.name ++ " " ++
        String.ofList symbol.initializer ++ "\n").toList = ['\n'] ++ ['/', '/'] ++
        (" cumetal-native-symbol-initializer: ".toList ++ symbol.name.toList ++ [' '] ++
          symbol.initializer ++ ['\n']) := by
      simp
    rw [shape]
    have name : '/' ∉ symbol.name.toList := plain.name '/' (by decide)
    have initializer : '/' ∉ symbol.initializer :=
      not_mem_of_word plain.initializer (by decide)
    refine .append (.append (skips_of_head (by decide)) ?_) (skips_of_head ?_)
    · intro i inside
      have cases_ : i = 0 ∨ i = 1 := by
        simp only [length_cons, length_nil] at inside
        omega
      rcases cases_ with rfl | rfl <;> simp [recordPrefix]
    · simp only [mem_append, not_or]
      exact ⟨⟨⟨⟨by decide, name⟩, by decide⟩, initializer⟩, by decide⟩

theorem parse_records (plain : ∀ symbol ∈ symbols, symbol.IsPlain) (rest : List Char) :
    parseNativeSourceSymbols ((symbolRecords symbols).toList ++ rest) =
      symbols.map source ++ parseNativeSourceSymbols rest := by
  induction symbols with
  | nil => rfl
  | cons symbol others ih =>
    have here := plain symbol mem_cons_self
    have later := ih fun other mem => plain other (mem_cons_of_mem _ mem)
    have shape : (symbolRecords (symbol :: others)).toList ++ rest =
        symbol.record.toList ++ (symbol.initializerRecord.toList ++
          ((symbolRecords others).toList ++ rest)) := by
      simp [symbolRecords]
    have matched := matchRecord_append here
      (symbol.initializerRecord.toList ++ ((symbolRecords others).toList ++ rest))
    rw [shape]
    cases text : symbol.record.toList ++ (symbol.initializerRecord.toList ++
        ((symbolRecords others).toList ++ rest)) with
    | nil =>
      rw [text] at matched
      cases matched
    | cons c tail =>
      rw [parse_cons, ← text, matched]
      have skipped := parse_skip (skips_initializer here ((symbolRecords others).toList ++ rest))
      rw [cons_append] at skipped
      simp only [skipped, later]
      rfl

/-- The generated text, as far as one kernel needs it: the records of the symbols, and the kernel's
signature. Nothing else in it reads like a record or like the start of the kernel, whose name no
identifier needs to be changed for. -/
structure GeneratedText where
  symbols : List ExternalSymbol
  kernelName : String
  parameters : List Metal.HiddenParameter
  before : List Char
  between : List Char
  after : List Char
  plain : ∀ symbol ∈ symbols, symbol.IsPlain
  distinct : (symbols.map ExternalSymbol.name).Nodup
  named : Metal.sanitizeIdentifier kernelName = kernelName
  attributes : ∀ parameter ∈ parameters, ∀ attribute_ ∈ parameter.attributes,
    ∀ c ∈ attribute_.name.toList, isWordChar c = true
  beforeRecords : ¬ recordPrefix.toList <:+: before
  betweenRecords : ¬ recordPrefix.toList <:+: between
  afterRecords : ¬ recordPrefix.toList <:+: after
  beforeKernel : ¬ ("kernel void " ++ kernelName ++ "(").toList <:+: before
  betweenKernel : ¬ ("kernel void " ++ kernelName ++ "(").toList <:+: between

namespace GeneratedText

def signature (generated : GeneratedText) : List Char :=
  (Metal.signatureText generated.kernelName generated.parameters).toList

def text (generated : GeneratedText) : List Char :=
  generated.before ++ ['\n'] ++ ((symbolRecords generated.symbols).toList ++
    (generated.between ++ ['\n'] ++ (generated.signature ++ (Metal.closing ++ generated.after))))

theorem parse_text (generated : GeneratedText) :
    parseNativeSourceSymbols generated.text = generated.symbols.map source := by
  have slash : '/' ∉ generated.signature ++ closing := by
    rw [mem_append, not_or]
    exact ⟨slash_signature generated.attributes _, by decide⟩
  have last : Skips recordPrefix.toList generated.after [] := by
    intro i _ occurs
    rw [append_nil] at occurs
    exact generated.afterRecords
      (occurs.isInfix.trans (drop_suffix i generated.after).isInfix)
  have tail : parseNativeSourceSymbols generated.after = [] := by
    have skipped := parse_skip last
    rw [append_nil] at skipped
    rw [skipped]
    rfl
  unfold text
  rw [parse_skip (skips_of_absent (by decide) (by decide) generated.beforeRecords),
    parse_records generated.plain,
    parse_skip (skips_of_absent (by decide) (by decide) generated.betweenRecords),
    ← append_assoc, parse_skip (skips_of_head slash), tail, append_nil]

def start (generated : GeneratedText) : List Char :=
  ("kernel void " ++ generated.kernelName ++ "(").toList

theorem start_ends (generated : GeneratedText) : '\n' ∉ generated.start := by
  have word : '\n' ∉ generated.kernelName.toList := by
    rw [← generated.named]
    exact not_mem_of_word (fun c => sanitizeIdentifier_word _) (by decide)
  have shape : generated.start = "kernel void ".toList ++ generated.kernelName.toList ++ ['('] := by
    simp [start]
  rw [shape]
  simp only [mem_append, not_or]
  exact ⟨⟨by decide, word⟩, by decide⟩

theorem start_nonempty (generated : GeneratedText) : generated.start ≠ [] := by
  simp [start]

theorem skips_line (generated : GeneratedText) {line : List Char} (plain : '(' ∉ line)
    (rest : List Char) : Skips generated.start (line ++ ['\n']) rest := by
  refine skips_of_absent generated.start_ends generated.start_nonempty fun occurs => ?_
  exact plain (occurs.subset (by simp [start]))

theorem skips_records (generated : GeneratedText) (plain : ∀ symbol ∈ symbols, symbol.IsPlain)
    (rest : List Char) : Skips generated.start (symbolRecords symbols).toList rest := by
  induction symbols generalizing rest with
  | nil => exact .nil _ _
  | cons symbol others ih =>
    have here := plain symbol mem_cons_self
    have name : '(' ∉ symbol.name.toList := here.name '(' (by decide)
    have number : ∀ n : Nat, '(' ∉ (toString n).toList := fun n mem =>
      absurd (toString_digits n mem) (by decide)
    have record : Skips generated.start symbol.record.toList
        (symbol.initializerRecord.toList ++ ((symbolRecords others).toList ++ rest)) := by
      have shape : symbol.record.toList = (recordPrefix.toList ++ symbol.kind.toList ++
          symbol.name.toList ++ [' '] ++ (toString symbol.byteSize).toList ++ [' '] ++
          (toString symbol.alignment).toList ++ [' '] ++
          (toString symbol.constantOffset).toList) ++ ['\n'] := by
        simp [record]
      have kind : '(' ∉ symbol.kind.toList := by
        unfold kind
        split_ifs <;> decide
      rw [shape]
      refine generated.skips_line ?_ _
      simp only [mem_append, not_or]
      exact ⟨⟨⟨⟨⟨⟨⟨⟨by decide, kind⟩, name⟩, by decide⟩, number _⟩, by decide⟩, number _⟩,
        by decide⟩, number _⟩
    have initializer : Skips generated.start symbol.initializerRecord.toList
        ((symbolRecords others).toList ++ rest) := by
      unfold initializerRecord
      split
      · exact .nil _ _
      · have shape : ("// cumetal-native-symbol-initializer: " ++ symbol.name ++ " " ++
            String.ofList symbol.initializer ++ "\n").toList =
            ("// cumetal-native-symbol-initializer: ".toList ++ symbol.name.toList ++ [' '] ++
              symbol.initializer) ++ ['\n'] := by
          simp
        have digits : '(' ∉ symbol.initializer :=
          not_mem_of_word here.initializer (by decide)
        rw [shape]
        refine generated.skips_line ?_ _
        simp only [mem_append, not_or]
        exact ⟨⟨⟨by decide, name⟩, by decide⟩, digits⟩
    have shape : (symbolRecords (symbol :: others)).toList = symbol.record.toList ++
        (symbol.initializerRecord.toList ++ (symbolRecords others).toList) := by
      simp [symbolRecords]
    have later := ih (fun other mem => plain other (mem_cons_of_mem _ mem)) rest
    rw [shape]
    refine .append ?_ (.append initializer later)
    rw [append_assoc]
    exact record

theorem kernelSignature_text (generated : GeneratedText) :
    kernelSignature generated.text generated.kernelName = some generated.signature := by
  have begins : generated.start <+: generated.signature ++ (closing ++ generated.after) := by
    have shape : generated.signature = generated.start ++
        ('\n' :: (parametersText generated.parameters).toList) := by
      simp [signature, signatureText, start, generated.named]
    rw [shape, append_assoc]
    exact prefix_append ..
  have some_ : ∀ rest : List Char, generated.signature ++ rest ≠ [] := by
    intro rest
    simp [signature, signatureText]
  have ends := beforeFirst_append
    (skips_signature generated.attributes generated.kernelName
      (closing ++ generated.after))
  rw [beforeFirst_here (prefix_append ..) (by simp [closing])] at ends
  have found : fromFirst generated.start generated.text =
      some (generated.signature ++ (closing ++ generated.after)) := by
    unfold text
    rw [fromFirst_append (skips_of_absent generated.start_ends generated.start_nonempty
        generated.beforeKernel),
      fromFirst_append (generated.skips_records generated.plain _),
      fromFirst_append (skips_of_absent generated.start_ends generated.start_nonempty
        generated.betweenKernel), fromFirst_here begins (some_ _)]
  rw [kernelSignature]
  change (fromFirst generated.start generated.text).bind _ = _
  rw [found, bind_some]
  refine ends.trans ?_
  rw [map_some, append_nil]
  rfl

end GeneratedText

end CuMetal.Driver
