import CuMetal.Runtime.PrintfDirectives

/-!
# Printf arguments are decoded

What both scanners read of one conversion, what is printed for it, and from these the formats whose
arguments are all read and printed as they were packed.
-/

namespace CuMetal.PrintfRecord

open CuMetal.Runs CuMetal.Runtime List

/-- The character can follow the flags, the width and the precision. -/
def ending (c : Char) : Bool :=
  !c.isDigit && c != '*' && c != '.' && c != '%' && !strchr "-+ #0" c

theorem ending_char (letter : Letter) : ending letter.char = true := by
  cases letter <;> decide

theorem isModifier_char (letter : Letter) : isModifier letter.char = false := by
  cases letter <;> decide

theorem strchr_char (letter : Letter) : strchr "lhzjt" letter.char = false := by
  cases letter <;> decide

theorem ending_length (length : Length) : length.text.all ending = true := by
  cases length <;> decide

theorem isModifier_length (length : Length) : length.text.all isModifier = true := by
  cases length <;> decide

theorem strchr_length (length : Length) : length.text.all (strchr "lhzjt") = true := by
  cases length <;> decide

theorem wide_length (length : Length) : length.text.any isWide = length.wide := by
  cases length <;> decide

theorem strchr_flag {c : Char} (flag : isFlag c = true) : strchr "-+ #0" c = true := by
  simp only [isFlag, Bool.or_eq_true, beq_iff_eq] at flag
  obtain (((rfl | rfl) | rfl) | rfl) | rfl := flag <;> decide

theorem isFlag_false {c : Char} (other : strchr "-+ #0" c = false) : isFlag c = false := by
  cases flag : isFlag c with
  | false => rfl
  | true => simp [strchr_flag flag] at other

theorem strchr_digit {c : Char} (digit : c.isDigit = true) (nonzero : c ≠ '0') :
    strchr "-+ #0" c = false := by
  have set : "-+ #0".toList = ['-', '+', ' ', '#', '0'] := rfl
  have other {d : Char} (outside : d.isDigit = false) : c ≠ d := fun same => by
    rw [same, outside] at digit
    cases digit
  simp [strchr, set, nonzero, other (d := '-') rfl, other (d := '+') rfl, other (d := ' ') rfl,
    other (d := '#') rfl, other (d := '\x00') rfl]

/-- Neither a digit nor a star starts the text. -/
def Fresh (text : List Char) : Prop := ∀ c ∈ text.head?, c.isDigit = false ∧ c ≠ '*'

theorem Fresh.digits {text : List Char} (fresh : Fresh text) {digits : List Char}
    (decimal : ∀ c ∈ digits, c.isDigit = true) :
    ∀ c ∈ (digits ++ text).head?, c ≠ '*' := by
  intro c head
  cases digits with
  | nil => exact (fresh c head).2
  | cons digit digits =>
    cases head
    rintro rfl
    exact absurd (decimal '*' (by simp)) (by decide)

theorem readField_digits (args : List (BitVec 32)) (argIdx : Nat) {text : List Char}
    (plain : ∀ c ∈ text.head?, c ≠ '*') :
    readField args argIdx text =
      ⟨text.takeWhile Char.isDigit, none, argIdx, text.dropWhile Char.isDigit⟩ := by
  unfold readField
  split
  · exact absurd rfl (plain '*' rfl)
  · rfl

theorem skipField_digits {text : List Char} (plain : ∀ c ∈ text.head?, c ≠ '*') :
    skipField text = (0, text.dropWhile Char.isDigit) := by
  unfold skipField
  split
  · exact absurd rfl (plain '*' rfl)
  · rfl

theorem readField_count (count : Count) (before after : List (BitVec 32)) {text : List Char}
    (fresh : Fresh text) :
    readField (before ++ (count.words ++ after)) before.length (count.text ++ text) =
      ⟨count.text, count.value, before.length + count.words.length, text⟩ := by
  cases count with
  | star value => simp [readField, Count.text, Count.words, Count.value]
  | fixed digits decimal =>
    have stop : ∀ c ∈ text.head?, c.isDigit = false := fun c head => (fresh c head).1
    simp only [Count.text, Count.words, Count.value]
    rw [readField_digits _ _ (fresh.digits decimal), takeWhile_append_stop decimal stop,
      dropWhile_append_stop decimal stop]
    rfl

theorem skipField_count (count : Count) {text : List Char} (fresh : Fresh text) :
    skipField (count.text ++ text) = (count.words.length, text) := by
  cases count with
  | star value => rfl
  | fixed digits decimal =>
    have stop : ∀ c ∈ text.head?, c.isDigit = false := fun c head => (fresh c head).1
    simp only [Count.text, Count.words]
    rw [skipField_digits (fresh.digits decimal), dropWhile_append_stop decimal stop]
    rfl

section Convert

variable (memory : StringMemory) (front after : List (BitVec 32)) (rest : List Char)

theorem raw64_paired (low high : BitVec 32) :
    raw64 (front ++ low :: high :: after) front.length =
      (low.setWidth 64 ||| high.setWidth 64 <<< 32) := by
  simp [raw64, getD]

theorem halves_eq (value : BitVec 64) :
    ((value.setWidth 32).setWidth 64 ||| ((value >>> 32).setWidth 32).setWidth 64 <<< 32 :
      BitVec 64) = value := by
  apply BitVec.eq_of_getLsbD_eq
  intro i inside
  by_cases low : i < 32
  · simp [low, inside]
  · have shifted : 32 + (i - 32) = i := by omega
    have high : i - 32 < 32 := by omega
    simp [low, inside, shifted, high]

variable {conv : Char} (spec : List Char) (width precision : Option Int) (wide : Bool)
  (low high : BitVec 32)

theorem convert_string :
    convert memory (front ++ low :: high :: after) rest spec width precision wide 's'
        front.length =
      (.fprintf (spec ++ ['s']) width precision
        (.text (materialized memory (low.setWidth 64 ||| high.setWidth 64 <<< 32))),
        front.length + 2) := by
  simp [convert, raw64_paired]

theorem convert_pointer :
    convert memory (front ++ low :: high :: after) rest spec width precision wide 'p'
        front.length =
      (.fprintf (spec ++ ['p']) width precision
        (.pointer (low.setWidth 64 ||| high.setWidth 64 <<< 32)), front.length + 2) := by
  simp [convert, raw64_paired]

theorem convert_wide_signed (signed : conv = 'd' ∨ conv = 'i') :
    convert memory (front ++ low :: high :: after) rest spec width precision true conv
        front.length =
      (.fprintf (spec ++ ['l', 'l', conv]) width precision
        (.longLong (low.setWidth 64 ||| high.setWidth 64 <<< 32)), front.length + 2) := by
  obtain rfl | rfl := signed <;> simp [convert, raw64_paired]

theorem convert_wide_unsigned (unsigned : conv = 'u' ∨ conv = 'o' ∨ conv = 'x' ∨ conv = 'X') :
    convert memory (front ++ low :: high :: after) rest spec width precision true conv
        front.length =
      (.fprintf (spec ++ ['l', 'l', conv]) width precision
        (.unsignedLongLong (low.setWidth 64 ||| high.setWidth 64 <<< 32)), front.length + 2) := by
  obtain rfl | rfl | rfl | rfl := unsigned <;> simp [convert, raw64_paired]

theorem convert_signed (signed : conv = 'd' ∨ conv = 'i') :
    convert memory (front ++ low :: after) rest spec width precision false conv front.length =
      (.fprintf (spec ++ [conv]) width precision (.int low), front.length + 1) := by
  obtain rfl | rfl := signed <;> simp [convert]

theorem convert_unsigned (unsigned : conv = 'u' ∨ conv = 'o' ∨ conv = 'x' ∨ conv = 'X') :
    convert memory (front ++ low :: after) rest spec width precision false conv front.length =
      (.fprintf (spec ++ [conv]) width precision (.unsigned low), front.length + 1) := by
  obtain rfl | rfl | rfl | rfl := unsigned <;> simp [convert]

theorem convert_character :
    convert memory (front ++ low :: after) rest spec width precision false 'c' front.length =
      (.fprintf (spec ++ ['c']) width precision (.int low), front.length + 1) := by
  simp [convert]

theorem convert_floating (float : conv ∈ floating) :
    convert memory (front ++ low :: high :: after) rest spec width precision false conv
        front.length =
      if minimumPrintfWords rest ≤ after.length then
        (.fprintf (spec ++ [conv]) width precision
          (.double (low.setWidth 64 ||| high.setWidth 64 <<< 32)), front.length + 2)
      else (.fprintf (spec ++ [conv]) width precision (.float low), front.length + 1) := by
  simp only [floating, mem_cons, not_mem_nil, or_false] at float
  have left : front.length + (after.length + 1 + 1) - (front.length + 1 + 1) = after.length := by
    omega
  obtain rfl | rfl | rfl | rfl | rfl | rfl | rfl | rfl := float <;>
    simp [convert, raw64_paired, left]

theorem convert_other (wide : conv = 'c' ∨ conv ∈ floating) :
    convert memory (front ++ low :: high :: after) rest spec width precision true conv
        front.length =
      (.fputs (spec ++ ['l', 'l', conv]), front.length + 2) := by
  simp only [floating, mem_cons, not_mem_nil, or_false] at wide
  obtain rfl | rfl | rfl | rfl | rfl | rfl | rfl | rfl | rfl := wide <;>
    simp [convert]

theorem convert_last :
    convert memory (front ++ [low]) rest spec width precision wide 'c' front.length =
      (.fprintf (spec ++ ['c']) width precision (.int low), front.length + 1) := by
  simp [convert]

end Convert

namespace StringMemory.Stores

variable {memory : StringMemory} {raw : BitVec 64} {text bytes : List UInt8}

section

variable (stores : memory.Stores raw text)
  (found : resolvePrintfStringPointer memory raw = some bytes)

include stores found

theorem whole (long : text.length < bytes.length) : ∃ more, bytes = text ++ 0 :: more := by
  have start : bytes.take (text.length + 1) = text ++ [0] :=
    (stores.agrees bytes found).eq_of_length (by simp; omega)
  refine ⟨bytes.drop (text.length + 1), ?_⟩
  calc bytes = bytes.take (text.length + 1) ++ bytes.drop (text.length + 1) := by simp
    _ = text ++ 0 :: bytes.drop (text.length + 1) := by simp [start]

theorem unterminated (short : bytes.length ≤ text.length) : 0 ∉ bytes := by
  have start : bytes <+: text ++ [0] := by
    simpa [take_of_length_le (Nat.le_succ_of_le short)] using stores.agrees bytes found
  have inside : bytes <+: text :=
    prefix_of_prefix_length_le start (prefix_append text [0]) short
  exact fun zero => stores.terminated (inside.subset zero)

theorem zero_iff :
    0 ∈ bytes.take kMaxDeviceStringBytes ↔ memory.Readable raw text := by
  constructor
  · intro zero
    have long : text.length < bytes.length := by
      by_contra short
      exact stores.unterminated found (by omega) (mem_of_mem_take zero)
    obtain ⟨more, rfl⟩ := stores.whole found long
    refine ⟨?_, _, found, long⟩
    by_contra far
    rw [take_append_of_le_length (by omega)] at zero
    exact stores.terminated (mem_of_mem_take zero)
  · rintro ⟨short, other, same, long⟩
    cases found.symm.trans same
    obtain ⟨more, rfl⟩ := stores.whole found long
    obtain ⟨k, bound⟩ := Nat.exists_eq_add_of_lt short
    rw [bound, Nat.add_assoc, take_length_add_append]
    simp

end

theorem materialized_iff (stores : memory.Stores raw text) :
    materialized memory raw = text ↔
      memory.Readable raw text ∨ text = memory.placeholder raw := by
  cases found : resolvePrintfStringPointer memory raw with
  | none => simp [materialized, placeholder, Readable, found, eq_comm]
  | some bytes =>
    have zero := stores.zero_iff found
    by_cases readable : memory.Readable raw text
    · obtain ⟨_, other, same, long⟩ := id readable
      cases found.symm.trans same
      obtain ⟨more, rfl⟩ := stores.whole found long
      have letters : ∀ byte ∈ text, decide (byte ≠ 0) = true := fun byte inside =>
        decide_eq_true fun same => stores.terminated (same ▸ inside)
      have read : (text ++ 0 :: more).takeWhile (fun byte => decide (byte ≠ 0)) = text :=
        takeWhile_append_stop letters (by simp)
      simp only [materialized, found, zero.2 readable, if_true, readable, true_or, iff_true]
      exact read
    · simp [materialized, placeholder, found, zero, readable, eq_comm]

end StringMemory.Stores

/-! ## The text of a conversion -/

namespace Directive

variable (directive : Directive) (rest : List Char)

/-- The modifiers, the conversion character and what follows them. -/
def closed : List Char := directive.length.text ++ directive.letter.char :: rest

theorem ending_closed : ∀ c ∈ (directive.closed rest).head?, ending c = true := by
  intro c head
  have all := ending_length directive.length
  unfold closed at head
  cases text : directive.length.text with
  | nil =>
    rw [text] at head
    cases head
    exact ending_char directive.letter
  | cons first more =>
    rw [text] at head all
    cases head
    exact all_eq_true.1 all c (by simp)

theorem closed_span {modifier : Char → Bool} (inside : directive.length.text.all modifier = true)
    (outside : modifier directive.letter.char = false) :
    (directive.closed rest).takeWhile modifier = directive.length.text ∧
      (directive.closed rest).dropWhile modifier = directive.letter.char :: rest := by
  have all := all_eq_true.1 inside
  exact ⟨takeWhile_append_stop all (by simpa using outside),
    dropWhile_append_stop all (by simpa using outside)⟩

theorem fresh_closed : Fresh (directive.closed rest) := by
  intro c head
  have starts := directive.ending_closed rest c head
  simp only [ending, Bool.and_eq_true, Bool.not_eq_true', bne_iff_ne, ne_eq] at starts
  exact ⟨starts.1.1.1.1, starts.1.1.1.2⟩

theorem closed_pointless : ∀ c ∈ (directive.closed rest).head?, c ≠ '.' := by
  rintro c head rfl
  exact absurd (directive.ending_closed rest '.' head) (by decide)

theorem skipPrecision_text : skipPrecision (directive.precisionText ++ directive.closed rest) =
    (directive.precisionWords.length, directive.closed rest) := by
  unfold precisionText precisionWords
  cases directive.precision with
  | none =>
    unfold skipPrecision
    split
    · rename_i text same
      exact absurd rfl (directive.closed_pointless rest '.' (by simp_all))
    · rfl
  | some count => exact skipField_count count (directive.fresh_closed rest)

theorem readPrecision_text (before after : List (BitVec 32)) :
    readPrecision (before ++ (directive.precisionWords ++ after)) before.length
        (directive.precisionText ++ directive.closed rest) =
      ⟨directive.precisionText, directive.precision.bind Count.value,
        before.length + directive.precisionWords.length, directive.closed rest⟩ := by
  unfold precisionText precisionWords
  cases directive.precision with
  | none =>
    unfold readPrecision
    split
    · rename_i text same
      exact absurd rfl (directive.closed_pointless rest '.' (by simp_all))
    · rfl
  | some count =>
    have field := readField_count count before after (directive.fresh_closed rest)
    simp only [readPrecision, cons_append, field]
    rfl

theorem fresh_precision : Fresh (directive.precisionText ++ directive.closed rest) := by
  unfold precisionText
  cases directive.precision with
  | none => exact directive.fresh_closed rest
  | some count =>
    intro c head
    cases head
    exact ⟨rfl, by decide⟩

theorem unflagged : ∀ c ∈ (directive.width.text ++ (directive.precisionText ++
    directive.closed rest)).head?, strchr "-+ #0" c = false := by
  intro c head
  have unpadded := directive.unpadded
  cases width : directive.width with
  | star value =>
    rw [width] at head
    cases head
    decide
  | fixed digits decimal =>
    rw [width] at head unpadded
    cases digits with
    | cons digit digits =>
      cases head
      exact strchr_digit (decimal c (by simp)) (by simpa [Count.text] using unpadded)
    | nil =>
      unfold precisionText at head
      cases precision : directive.precision with
      | some count =>
        rw [precision] at head
        cases head
        decide
      | none =>
        rw [precision] at head
        have starts := directive.ending_closed rest c head
        simp only [ending, Bool.and_eq_true, Bool.not_eq_true'] at starts
        exact starts.2

theorem body_append : directive.body ++ rest = directive.flags ++ (directive.width.text ++
    (directive.precisionText ++ directive.closed rest)) := by
  simp [body, closed]

theorem percentless : ∀ c ∈ directive.body, c ≠ '%' := by
  have count (count : Count) : ∀ c ∈ count.text, c ≠ '%' := by
    rintro c found rfl
    cases count with
    | fixed digits decimal => exact absurd (decimal '%' found) (by decide)
    | star value => simp [Count.text] at found
  have ends {c : Char} (starts : ending c = true) : c ≠ '%' := by
    rintro rfl
    exact absurd starts (by decide)
  intro c found
  simp only [body, mem_append, mem_singleton] at found
  obtain flag | width | precision | modifier | rfl := found
  · rintro rfl
    exact absurd (directive.flagged '%' flag) (by decide)
  · exact count _ c width
  · unfold precisionText at precision
    split at precision
    · cases precision
    · obtain rfl | inside := mem_cons.1 precision
      · decide
      · exact count _ c inside
  · exact ends (all_eq_true.1 (ending_length directive.length) c modifier)
  · exact ends (ending_char directive.letter)

theorem body_cons : ∃ c text, directive.body ++ rest = c :: text ∧ c ≠ '%' := by
  cases body : directive.body with
  | nil => simp [Directive.body] at body
  | cons c text => exact ⟨c, text ++ rest, rfl, directive.percentless c (by simp [body])⟩

/-- The words of a conversion by the scanner that has no arguments. -/
def minimum : Nat :=
  directive.width.words.length + directive.precisionWords.length +
    if directive.length.wide || directive.letter == .p || directive.letter == .s then 2 else 1

theorem minimumConversion_body :
    minimumConversion (directive.body ++ rest) = (directive.minimum, rest) := by
  have flags := dropWhile_append_stop (fun c flag => strchr_flag (directive.flagged c flag))
    (directive.unflagged rest)
  have width := skipField_count directive.width (directive.fresh_precision rest)
  have modifiers := directive.closed_span rest (strchr_length _) (strchr_char _)
  have letter : (directive.letter.char == 'p') = (directive.letter == .p) ∧
      (directive.letter.char == 's') = (directive.letter == .s) := by
    cases directive.letter <;> decide
  simp only [minimumConversion, body_append, flags, width, skipPrecision_text, modifiers.1,
    modifiers.2, wide_length, letter.1, letter.2, minimum]

theorem drainConversion_body (memory : StringMemory) (before after : List (BitVec 32)) :
    drainConversion memory (before ++ (directive.words ++ after)) before.length
        (directive.body ++ rest) =
      (let printed := convert memory (before ++ (directive.words ++ after)) rest directive.shape
        directive.width.value (directive.precision.bind Count.value) directive.length.wide
        directive.letter.char
        (before.length + directive.width.words.length + directive.precisionWords.length)
      some (printed.1, printed.2, rest)) := by
  have flags := takeWhile_append_stop directive.flagged fun c head =>
    isFlag_false (directive.unflagged rest c head)
  have stripped := dropWhile_append_stop directive.flagged fun c head =>
    isFlag_false (directive.unflagged rest c head)
  have width := readField_count directive.width before
    (directive.precisionWords ++ directive.argument ++ after) (directive.fresh_precision rest)
  have modifiers := directive.closed_span rest (isModifier_length _) (isModifier_char _)
  have words : before ++ (directive.words ++ after) = before ++ (directive.width.words ++
      (directive.precisionWords ++ directive.argument ++ after)) := by
    simp [words]
  have precision := directive.readPrecision_text rest (before ++ directive.width.words)
    (directive.argument ++ after)
  rw [length_append, append_assoc, ← append_assoc directive.precisionWords]
    at precision
  unfold drainConversion
  rw [words, body_append, flags, stripped, width]
  dsimp only
  rw [precision]
  simp [modifiers, wide_length, shape]

end Directive

namespace Directive

variable (directive : Directive) (memory : StringMemory) (front after : List (BitVec 32))
  (rest : List Char)

/-- What is printed for the conversion, and the word after it. -/
def converted : Output × Nat :=
  convert memory (front ++ (directive.argument ++ after)) rest directive.shape
    directive.width.value (directive.precision.bind Count.value) directive.length.wide
    directive.letter.char front.length

/-- The conversion is printed as it is, and its words are used up. -/
def Decoded : Prop :=
  directive.converted memory front after rest =
    (directive.output, front.length + directive.argument.length)

variable {directive memory front after rest}

section Kinds

attribute [local simp] converted argument paired output modifier printed Plain

theorem converted_signed (kind : directive.letter.kind = .signed) :
    directive.Decoded memory front after rest ↔ directive.Plain memory := by
  have char := signed_char kind
  cases wide : directive.length.wide with
  | true =>
    simp only [Decoded, converted, argument, paired, kind, wide, if_true, cons_append,
      nil_append, convert_wide_signed memory front after rest _ _ _ _ _ char]
    simp [kind, wide, halves_eq]
  | false =>
    simp only [Decoded, converted, argument, paired, kind, wide, Bool.false_eq_true, if_false,
      cons_append, nil_append, convert_signed memory front after rest _ _ _ _ char]
    simp [kind, wide, eq_comm]

theorem converted_unsigned (kind : directive.letter.kind = .unsigned) :
    directive.Decoded memory front after rest ↔ directive.Plain memory := by
  have char := unsigned_char kind
  cases wide : directive.length.wide with
  | true =>
    simp only [Decoded, converted, argument, paired, kind, wide, if_true, cons_append,
      nil_append, convert_wide_unsigned memory front after rest _ _ _ _ _ char]
    simp [kind, wide, halves_eq]
  | false =>
    simp only [Decoded, converted, argument, paired, kind, wide, Bool.false_eq_true, if_false,
      cons_append, nil_append, convert_unsigned memory front after rest _ _ _ _ char]
    simp [kind, wide, eq_comm]

theorem converted_character (kind : directive.letter.kind = .character) :
    directive.Decoded memory front after rest ↔ directive.Plain memory := by
  have char : directive.letter.char = 'c' := by rw [other_letter.1 kind]; rfl
  cases wide : directive.length.wide with
  | true =>
    simp only [Decoded, converted, argument, paired, kind, wide, Bool.false_eq_true, if_false, char]
    cases after with
    | nil =>
      simp only [append_nil, convert_last]
      simp [kind, wide, char]
    | cons high after =>
      simp only [cons_append, nil_append,
        convert_other memory front after rest _ _ _ _ _ (.inl rfl)]
      simp [kind, wide]
  | false =>
    simp only [Decoded, converted, argument, paired, kind, wide, Bool.false_eq_true, if_false,
      cons_append, nil_append, char, convert_character]
    simp [kind, wide, char]

theorem converted_string (kind : directive.letter.kind = .string)
    (stores : memory.Stores directive.value directive.text) :
    directive.Decoded memory front after rest ↔ directive.Plain memory := by
  have char : directive.letter.char = 's' := by rw [other_letter.2.1 kind]; rfl
  simp only [Decoded, converted, argument, paired, kind, if_true, cons_append,
    nil_append, char, convert_string, halves_eq]
  cases wide : directive.length.wide <;>
    simp [kind, wide, char, stores.materialized_iff]

theorem converted_pointer (kind : directive.letter.kind = .pointer) :
    directive.Decoded memory front after rest ↔ directive.Plain memory := by
  have char : directive.letter.char = 'p' := by rw [other_letter.2.2 kind]; rfl
  simp only [Decoded, converted, argument, paired, kind, if_true, cons_append,
    nil_append, char, convert_pointer, halves_eq]
  simp [kind, char]

theorem converted_floating (kind : directive.letter.kind = .floating) :
    directive.Decoded memory front after rest ↔
      directive.Plain memory ∧ minimumPrintfWords rest ≤ after.length := by
  have char := floating_char kind
  cases wide : directive.length.wide with
  | true =>
    simp only [Decoded, converted, argument, paired, kind, wide, if_true, cons_append,
      nil_append, convert_other memory front after rest _ _ _ _ _ (.inr char)]
    simp [kind, wide]
  | false =>
    simp only [Decoded, converted, argument, paired, kind, wide, if_true, cons_append,
      nil_append, convert_floating memory front after rest _ _ _ _ _ char, halves_eq]
    split
    · rename_i enough
      simp [kind, wide, enough]
    · rename_i short
      simp [kind, wide, short]

end Kinds

/-- The conversion is decoded as it is exactly when it is plain and, for a floating value, the words
after it are enough for the rest of the format. -/
theorem converted_iff
    (stored : directive.letter = .s → memory.Stores directive.value directive.text) :
    directive.converted memory front after rest =
        (directive.output, front.length + directive.argument.length) ↔
      directive.Plain memory ∧
        (directive.letter.kind = .floating → minimumPrintfWords rest ≤ after.length) := by
  change directive.Decoded memory front after rest ↔ _
  cases kind : directive.letter.kind with
  | signed => simp [converted_signed kind]
  | unsigned => simp [converted_unsigned kind]
  | character => simp [converted_character kind]
  | string => simp [converted_string kind (stored (other_letter.2.1 kind))]
  | pointer => simp [converted_pointer kind]
  | floating => simp [converted_floating kind]

end Directive

/-! ## Formats -/

section Scan

variable {memory : StringMemory} {args : List (BitVec 32)} {argIdx fuel : Nat} {c : Char}
  {text : List Char}

attribute [local simp] minimumWords drainFrom

theorem minimumWords_other (other : c ≠ '%') :
    minimumWords (fuel + 1) (c :: text) = minimumWords fuel text := by
  simp [other]

theorem minimumWords_percent :
    minimumWords (fuel + 1) ('%' :: '%' :: text) = minimumWords fuel text := by
  simp

theorem minimumWords_conversion (directive : Directive) (rest : List Char) :
    minimumWords (fuel + 1) ('%' :: (directive.body ++ rest)) =
      directive.minimum + minimumWords fuel rest := by
  have scanned := directive.minimumConversion_body rest
  obtain ⟨c, text, starts, other⟩ := directive.body_cons rest
  rw [starts] at scanned ⊢
  simp [scanned, other]

theorem drainFrom_other (other : c ≠ '%') :
    drainFrom memory args (fuel + 1) argIdx (c :: text) =
      ⟨argIdx, argIdx, .fputc c⟩ :: drainFrom memory args fuel argIdx text := by
  simp [other]

theorem drainFrom_percent :
    drainFrom memory args (fuel + 1) argIdx ('%' :: '%' :: text) =
      ⟨argIdx, argIdx, .fputc '%'⟩ :: drainFrom memory args fuel argIdx text := by
  simp

theorem drainFrom_body (directive : Directive) {rest next : List Char} {stop : Nat}
    {output : Output}
    (drained : drainConversion memory args argIdx (directive.body ++ rest) =
      some (output, stop, next)) :
    drainFrom memory args (fuel + 1) argIdx ('%' :: (directive.body ++ rest)) =
      ⟨argIdx, stop, output⟩ :: drainFrom memory args fuel stop next := by
  obtain ⟨c, text, starts, other⟩ := directive.body_cons rest
  rw [starts] at drained ⊢
  simp [drained, other]

theorem drainFrom_conversion (memory : StringMemory) (fuel : Nat) (directive : Directive)
    (rest : List Char) (before after : List (BitVec 32)) :
    drainFrom memory (before ++ (directive.words ++ after)) (fuel + 1) before.length
        ('%' :: (directive.body ++ rest)) =
      (let converted := directive.converted memory
        (before ++ (directive.width.words ++ directive.precisionWords)) after rest
      ⟨before.length, converted.2, converted.1⟩ ::
        drainFrom memory (before ++ (directive.words ++ after)) fuel converted.2 rest) := by
  have drained := directive.drainConversion_body rest memory before after
  have front : before ++ (directive.words ++ after) =
      before ++ (directive.width.words ++ directive.precisionWords) ++
        (directive.argument ++ after) := by
    simp [Directive.words]
  have offset : before.length + directive.width.words.length + directive.precisionWords.length =
      (before ++ (directive.width.words ++ directive.precisionWords)).length := by
    simp [Nat.add_assoc]
  rw [front, offset] at drained
  rw [front, drainFrom_body directive drained]
  rfl

end Scan

/-- The words of an item by the scanner that has no arguments. -/
def Item.minimum : Item → Nat
  | .conversion directive => directive.minimum
  | _ => 0

theorem Item.Plain.minimum_le {memory : StringMemory} {item : Item} (plain : item.Plain memory) :
    item.minimum ≤ item.words.length := by
  cases item with
  | literal c plain => simp [minimum]
  | percent => simp [minimum]
  | conversion directive =>
    have least : (if directive.length.wide || directive.letter == .p || directive.letter == .s
        then 2 else 1) ≤ directive.argument.length := by
      cases letter : directive.letter <;> cases wide : directive.length.wide <;>
        simp_all [Item.Plain, Directive.Plain, Directive.argument, Directive.paired, Letter.kind]
    simp only [minimum, words, Directive.minimum, Directive.words, length_append]
    omega

/-- The scanner that has no arguments asks for no more words than plain items have. -/
theorem minimumWords_le {memory : StringMemory} {items : List Item}
    (plain : ∀ item ∈ items, item.Plain memory) (fuel : Nat) :
    minimumWords fuel (formatOf items) ≤ (wordsOf items).length := by
  induction items generalizing fuel with
  | nil => cases fuel <;> exact Nat.zero_le _
  | cons item items ih =>
    have rest := ih fun other found => plain other (.tail _ found)
    have own := (plain item (by simp)).minimum_le
    simp only [formatOf, wordsOf, flatMap_cons, length_append] at rest ⊢
    cases fuel with
    | zero => exact Nat.zero_le _
    | succ fuel =>
      cases item with
      | literal c other =>
        rw [Item.text, singleton_append, minimumWords_other other]
        exact Nat.le_trans (rest fuel) (Nat.le_add_left _ _)
      | percent =>
        simp only [Item.text, cons_append, nil_append, minimumWords_percent]
        exact Nat.le_trans (rest fuel) (Nat.le_add_left _ _)
      | conversion directive =>
        rw [Item.text, cons_append, minimumWords_conversion]
        exact Nat.add_le_add own (rest fuel)

theorem drainFrom_iff (memory : StringMemory) (items : List Item)
    (stored : ∀ item ∈ items, item.Stored memory) (fuel : Nat)
    (enough : (formatOf items).length ≤ fuel) (before : List (BitVec 32)) :
    drainFrom memory (before ++ wordsOf items) fuel before.length (formatOf items) =
        pieces before.length items ↔ ∀ item ∈ items, item.Plain memory := by
  induction items generalizing fuel before with
  | nil => cases fuel <;> simp [formatOf, drainFrom, pieces]
  | cons item items ih =>
    have tail := ih fun item found => stored item (.tail _ found)
    obtain ⟨fuel, rfl⟩ : ∃ n, fuel = n + 1 :=
      ⟨fuel - 1, by cases item <;> simp [formatOf, Item.text] at enough ⊢ <;> omega⟩
    have left : (formatOf items).length ≤ fuel := by
      cases item <;> simp [formatOf, Item.text] at enough ⊢ <;> omega
    simp only [forall_mem_cons]
    cases item with
    | literal c plain =>
      have rest := tail fuel left before
      simp only [formatOf, wordsOf, flatMap_cons, Item.text, Item.words, cons_append,
        nil_append, drainFrom_other plain, pieces, length_nil, Nat.add_zero,
        Item.output, cons.injEq, true_and] at rest ⊢
      simpa [Item.Plain] using rest
    | percent =>
      have rest := tail fuel left before
      simp only [formatOf, wordsOf, flatMap_cons, Item.text, Item.words, cons_append,
        nil_append, drainFrom_percent, pieces, length_nil, Nat.add_zero,
        Item.output, cons.injEq, true_and] at rest ⊢
      simpa [Item.Plain] using rest
    | conversion directive =>
      have rest := tail fuel left (before ++ directive.words)
      have drained := drainFrom_conversion memory fuel directive (formatOf items) before
        (wordsOf items)
      have stop : (before ++ (directive.width.words ++ directive.precisionWords)).length +
          directive.argument.length = before.length + directive.words.length := by
        simp [Directive.words]
        omega
      have converted : directive.converted memory
            (before ++ (directive.width.words ++ directive.precisionWords)) (wordsOf items)
            (formatOf items) = (directive.output, before.length + directive.words.length) ↔
          _ := stop ▸ Directive.converted_iff (stored (.conversion directive) (by simp))
      simp only [append_assoc, length_append] at rest
      simp only [formatOf, wordsOf, flatMap_cons, Item.text, Item.words, cons_append,
        pieces, Item.output, Item.Plain] at drained rest ⊢
      rw [drained]
      constructor
      · intro same
        obtain ⟨first, others⟩ := cons.inj same
        obtain ⟨-, next, output⟩ := Piece.mk.inj first
        rw [next] at others
        exact ⟨(converted.1 (Prod.ext output next)).1, rest.1 others⟩
      · rintro ⟨plain, others⟩
        have printed := converted.2 ⟨plain, fun _ =>
          Nat.le_trans (Nat.mod_le _ _) (minimumWords_le others _)⟩
        simp only [formatOf, wordsOf] at printed
        rw [printed]
        exact congrArg _ (rest.2 others)

/-- **Printf arguments.** For a format of literal text and conversions, and the words of the
arguments that were packed for it, the record is printed item by item, each from the words of its
own argument, exactly when every conversion is plain. -/
theorem drainOnePrintfRecord_iff (memory : StringMemory) (items : List Item)
    (stored : ∀ item ∈ items, item.Stored memory) :
    drainOnePrintfRecord memory (formatOf items) (wordsOf items) = pieces 0 items ↔
      ∀ item ∈ items, item.Plain memory :=
  drainFrom_iff memory items stored _ (Nat.le_refl _) []

/-- `"%d %s\n"`, with a string that the runtime finds. -/
def numbered : List Item :=
  let directive : Directive := {
    flags := []
    flagged := by simp
    width := .fixed [] (by simp)
    unpadded := by simp [Count.text]
    precision := none
    length := .none
    letter := .d
    value := 7
    text := [] }
  [.conversion directive, .literal ' ' (by decide),
    .conversion { directive with letter := .s, value := 0x1000, text := [104, 105] },
    .literal '\n' (by decide)]

/-- The runtime's memory with the text `hi`. -/
def greeting : StringMemory := ⟨.initial, [⟨0x1000, 0, some [104, 105, 0, 0]⟩]⟩

theorem resolve_greeting :
    resolvePrintfStringPointer greeting 0x1000 = some [104, 105, 0, 0] := by
  decide

theorem greeting_stores : greeting.Stores 0x1000 [104, 105] := by
  refine ⟨by decide, fun bytes found => ?_⟩
  cases resolve_greeting.symm.trans found
  decide

/-- The number is read from the first word, and the text through the two words of its pointer. -/
theorem drainOnePrintfRecord_iff_numbered :
    drainOnePrintfRecord greeting (formatOf numbered) (wordsOf numbered) =
      [⟨0, 1, .fprintf ['%', 'd'] none none (.int 7)⟩, ⟨1, 1, .fputc ' '⟩,
        ⟨1, 3, .fprintf ['%', 's'] none none (.text [104, 105])⟩, ⟨3, 3, .fputc '\n'⟩] := by
  have stored : ∀ item ∈ numbered, item.Stored greeting := by
    simpa [numbered, Item.Stored] using greeting_stores
  have readable : greeting.Readable 0x1000 [104, 105] :=
    ⟨by decide, [104, 105, 0, 0], resolve_greeting, by decide⟩
  have plain : ∀ item ∈ numbered, item.Plain greeting := by
    simp [numbered, Item.Plain, Directive.Plain, Letter.kind, Length.wide, Length.bits]
    exact .inl readable
  exact ((drainOnePrintfRecord_iff greeting numbered stored).mpr plain).trans (by decide)

/-- `"%lf"` with a value prints the text `%llf`. -/
theorem long_double_not_printed :
    ¬ ∀ (memory : StringMemory) (items : List Item), (∀ item ∈ items, item.Stored memory) →
      drainOnePrintfRecord memory (formatOf items) (wordsOf items) = pieces 0 items := by
  intro printed
  let item : Item := .conversion {
    flags := []
    flagged := by simp
    width := .fixed [] (by simp)
    unpadded := by simp [Count.text]
    precision := none
    length := .l
    letter := .f
    value := 0x3FF8000000000000
    text := [] }
  have same := printed ⟨.initial, []⟩ [item] (by simp [item, Item.Stored])
  have text : drainOnePrintfRecord ⟨.initial, []⟩ (formatOf [item]) (wordsOf [item]) =
      [⟨0, 2, .fputs ['%', 'l', 'l', 'f']⟩] := by
    decide
  rw [text] at same
  simp [pieces, item, Item.output, Directive.output] at same

end CuMetal.PrintfRecord
