import CuMetal.Lib.TextSearch
import CuMetal.Metal.HiddenParameters

/-!
# The text of a kernel's signature

What `print_msl` writes for the signature of a kernel (`compiler/metal/src/msl_ast.cpp`), as
characters, and which words stand in it.
-/

namespace CuMetal.Metal

open List MslType

/-- `address_space_spelling` (`14-24`). -/
def MslAddressSpace.spelling : MslAddressSpace → String
  | .none => ""
  | .device => "device"
  | .constant => "constant"
  | .threadgroup => "threadgroup"
  | .thread => "thread"

/-- The spelling of a scalar of a width (`464-473`). -/
def integerSpelling (bits : Nat) (narrow short long plain : String) : String :=
  if bits = 8 then narrow else if bits = 16 then short else if bits = 64 then long else plain

/-- Whether a type is a pointer or a reference. -/
def MslType.isIndirect : MslType → Bool
  | .pointer _ _ | .reference _ _ => true
  | _ => false

/-- `MslType::str` of a pointer or a reference, from the spelling of its element (`480-492`). -/
def indirectText (element : MslType) (spelling : String) (space : MslAddressSpace)
    (mark : String) : String :=
  if element.isIndirect then
    spelling ++ (if space.spelling = "" then "" else " " ++ space.spelling) ++ mark
  else (if space.spelling = "" then "" else space.spelling ++ " ") ++ spelling ++ mark

/-- `MslType::str` (`460-497`). -/
def MslType.text : MslType → String
  | .void => "void"
  | .bool => "bool"
  | .int bits => integerSpelling bits "char" "short" "long" "int"
  | .uint bits => integerSpelling bits "uchar" "ushort" "ulong" "uint"
  | .half => "half"
  | .float => "float"
  | .double => "double"
  | .vector element lanes => element.text ++ toString lanes
  | .pointer element space => indirectText element element.text space "*"
  | .reference element space => indirectText element element.text space "&"
  | .struct name => sanitizeIdentifier name

/-- An attribute (`162-167`). -/
def MslAttribute.text (attribute_ : MslAttribute) : String :=
  " [[" ++ attribute_.name ++
    (match attribute_.index with
      | some index => "(" ++ toString index ++ ")"
      | none => "") ++ "]]"

def attributesText : List MslAttribute → String
  | [] => ""
  | first :: rest => first.text ++ attributesText rest

/-- A parameter (`158-169`). -/
def HiddenParameter.text (parameter : HiddenParameter) : String :=
  "    " ++ parameter.type.text ++ " " ++ sanitizeIdentifier parameter.name ++
    attributesText parameter.attributes

/-- The parameters, one a line (`157-169`). -/
def parametersText : List HiddenParameter → String
  | [] => ""
  | [parameter] => parameter.text ++ "\n"
  | parameter :: next :: rest => parameter.text ++ ",\n" ++ parametersText (next :: rest)

/-- The signature of a kernel up to its body (`153-170`). -/
def signatureText (name : String) (parameters : List HiddenParameter) : String :=
  "kernel void " ++ sanitizeIdentifier name ++ "(\n" ++ parametersText parameters

/-! ## Words -/

/-- The characters that stand between words in a signature. -/
def separators : List Char := [' ', '\n', '(', ')', '[', ']', '*', '&', ',', '/']

def isWordChar (c : Char) : Bool := c.isAlphanum || c == '_'

def MslType.word : MslType → List Char
  | .pointer element _ | .reference element _ => element.word
  | type => type.text.toList

def MslAttribute.words (attribute_ : MslAttribute) : List (List Char) :=
  attribute_.name.toList :: (attribute_.index.map fun index => (toString index).toList).toList

/-- The words of a parameter: the name in its type, its own name, and those of its attributes. -/
def HiddenParameter.words (parameter : HiddenParameter) : List (List Char) :=
  parameter.type.word :: (sanitizeIdentifier parameter.name).toList ::
    parameter.attributes.flatMap MslAttribute.words

/-- The words of a signature: the kernel's name, and those of its parameters. -/
def signatureWords (name : String) (parameters : List HiddenParameter) : List (List Char) :=
  (sanitizeIdentifier name).toList :: parameters.flatMap HiddenParameter.words

/-- A text to search for in a signature: a long word. -/
structure IsSearchWord (pattern : List Char) : Prop where
  plain : ∀ c ∈ separators, c ∉ pattern
  long : 11 < pattern.length

variable {text : List Char}

section Occurrences

variable {pattern : List Char} (search : IsSearchWord pattern)

include search

theorem IsSearchWord.nonempty : pattern ≠ [] := by
  rintro rfl
  exact absurd search.long (by decide)

theorem IsSearchWord.split {c : Char} (separator : c ∈ separators) (first rest : List Char) :
    pattern <:+: first ++ c :: rest ↔ pattern <:+: first ∨ pattern <:+: rest :=
  infix_separator (search.plain c separator) search.nonempty

theorem IsSearchWord.skip {c : Char} (separator : c ∈ separators) (rest : List Char) :
    pattern <:+: c :: rest ↔ pattern <:+: rest := by
  have split := search.split separator [] rest
  simpa [search.nonempty] using split

theorem IsSearchWord.not_short (short : text.length ≤ 11) :
    ¬ pattern <:+: text := fun occurs =>
  absurd occurs.length_le (by have := search.long; omega)

theorem IsSearchWord.attributes (attributes : List MslAttribute) (first : List Char) :
    pattern <:+: first ++ (attributesText attributes).toList ↔
      pattern <:+: first ∨ ∃ word ∈ attributes.flatMap MslAttribute.words, pattern <:+: word := by
  induction attributes generalizing first with
  | nil => simp [attributesText]
  | cons attribute_ rest ih =>
    have last : pattern <:+: (attributesText rest).toList ↔
        ∃ word ∈ rest.flatMap MslAttribute.words, pattern <:+: word := by
      have whole := ih []
      rw [nil_append] at whole
      simpa [search.nonempty] using whole
    obtain ⟨name, index⟩ := attribute_
    cases index with
    | none =>
      have shape : first ++ (attributesText (⟨name, none⟩ :: rest)).toList =
          first ++ ' ' :: '[' :: '[' :: (name.toList ++ ']' :: ']' ::
            (attributesText rest).toList) := by
        simp [attributesText, MslAttribute.text]
      rw [shape, search.split (by decide), search.skip (by decide), search.skip (by decide),
        search.split (by decide), search.skip (by decide), last]
      simp [MslAttribute.words]
    | some index =>
      have shape : first ++ (attributesText (⟨name, some index⟩ :: rest)).toList =
          first ++ ' ' :: '[' :: '[' :: (name.toList ++ '(' :: ((toString index).toList ++
            ')' :: ']' :: ']' :: (attributesText rest).toList)) := by
        simp [attributesText, MslAttribute.text]
      rw [shape, search.split (by decide), search.skip (by decide), search.skip (by decide),
        search.split (by decide), search.split (by decide), search.skip (by decide),
        search.skip (by decide), last]
      simp [MslAttribute.words]

theorem IsSearchWord.type (type : MslType) :
    pattern <:+: type.text.toList ↔ pattern <:+: type.word := by
  have indirect : ∀ (element : MslType) (space : MslAddressSpace) (mark : String),
      mark = "*" ∨ mark = "&" →
      (pattern <:+: element.text.toList ↔ pattern <:+: element.word) →
      (pattern <:+: (indirectText element element.text space mark).toList ↔
        pattern <:+: element.word) := by
    intro element space mark marks ih
    have marked : ∀ text : List Char,
        pattern <:+: text ++ mark.toList ↔ pattern <:+: text := by
      intro text
      rcases marks with rfl | rfl
      · have split := search.split (c := '*') (by decide) text []
        simpa [search.nonempty] using split
      · have split := search.split (c := '&') (by decide) text []
        simpa [search.nonempty] using split
    have spelled : ¬ pattern <:+: space.spelling.toList :=
      search.not_short (by cases space <;> decide)
    rw [indirectText]
    split
    · split
      · simpa [marked] using ih
      · have split := search.split (c := ' ') (by decide) element.text.toList
          (space.spelling.toList ++ mark.toList)
        rw [marked] at split
        simpa [spelled, ih] using split
    · split
      · simpa [marked] using ih
      · have split := search.split (c := ' ') (by decide) space.spelling.toList
          (element.text.toList ++ mark.toList)
        rw [marked] at split
        simpa [spelled, ih] using split
  induction type with
  | pointer element space ih => exact indirect element space "*" (.inl rfl) ih
  | reference element space ih => exact indirect element space "&" (.inr rfl) ih
  | _ => rfl

theorem IsSearchWord.parameter (parameter : HiddenParameter) :
    pattern <:+: parameter.text.toList ↔ ∃ word ∈ parameter.words, pattern <:+: word := by
  have shape : parameter.text.toList = ' ' :: ' ' :: ' ' :: ' ' :: (parameter.type.text.toList ++
      ' ' :: ((sanitizeIdentifier parameter.name).toList ++
        (attributesText parameter.attributes).toList)) := by
    simp [HiddenParameter.text]
  rw [shape, search.skip (by decide), search.skip (by decide), search.skip (by decide),
    search.skip (by decide), search.split (by decide), search.type, search.attributes]
  simp [HiddenParameter.words]

theorem IsSearchWord.parameters (parameters : List HiddenParameter) :
    pattern <:+: (parametersText parameters).toList ↔
      ∃ word ∈ parameters.flatMap HiddenParameter.words, pattern <:+: word := by
  induction parameters with
  | nil => simp [parametersText, search.nonempty]
  | cons parameter rest ih =>
    cases rest with
    | nil =>
      have split := search.split (c := '\n') (by decide) parameter.text.toList []
      simpa [parametersText, search.nonempty, search.parameter] using split
    | cons next rest =>
      have shape : (parametersText (parameter :: next :: rest)).toList =
          parameter.text.toList ++ ',' :: '\n' ::
            (parametersText (next :: rest)).toList := by
        simp [parametersText]
      rw [shape, search.split (by decide), search.skip (by decide), ih, search.parameter]
      simp only [flatMap_cons, mem_append]
      constructor
      · rintro (⟨word, mem, occurs⟩ | ⟨word, mem, occurs⟩)
        · exact ⟨word, .inl mem, occurs⟩
        · exact ⟨word, .inr mem, occurs⟩
      · rintro ⟨word, mem | mem, occurs⟩
        · exact .inl ⟨word, mem, occurs⟩
        · exact .inr ⟨word, mem, occurs⟩

/-- A search word occurs in the text of a signature exactly if it occurs in a word of it. -/
theorem IsSearchWord.signature (name : String) (parameters : List HiddenParameter) :
    pattern <:+: (signatureText name parameters).toList ↔
      ∃ word ∈ signatureWords name parameters, pattern <:+: word := by
  have shape : (signatureText name parameters).toList = "kernel".toList ++ ' ' ::
      ("void".toList ++ ' ' :: ((sanitizeIdentifier name).toList ++ '(' :: '\n' ::
        (parametersText parameters).toList)) := by
    simp [signatureText]
  have kernel : ¬ pattern <:+: "kernel".toList := search.not_short (by decide)
  have void : ¬ pattern <:+: "void".toList := search.not_short (by decide)
  rw [shape, search.split (by decide), search.split (by decide), search.split (by decide),
    search.skip (by decide), search.parameters]
  simp only [kernel, void, false_or, signatureWords, mem_cons, exists_eq_or_imp]

end Occurrences

/-- The characters that a byte of a name leaves (`709-712`). -/
def cleanName (name : String) : List Char :=
  name.toList.flatMap fun c => if isWordChar c then [c] else List.replicate c.utf8Size '_'

variable {c : Char} {parameters : List HiddenParameter} {name : String}

theorem cleanName_word (mem : c ∈ cleanName name) : isWordChar c = true := by
  obtain ⟨letter, _, here⟩ := mem_flatMap.mp mem
  split at here
  · next word =>
      rw [mem_singleton.mp here]
      exact word
  · rw [(mem_replicate.mp here).2]
    decide

/-- A name that is not empty (`713`). -/
def namedLetters (name : String) : List Char :=
  if (cleanName name).isEmpty then "unnamed".toList else cleanName name

/-- A name that starts with no digit (`714`). -/
def startedLetters (name : String) : List Char :=
  if ((namedLetters name).head?.map Char.isDigit).getD false then '_' :: namedLetters name
  else namedLetters name

theorem sanitizeIdentifier_eq (name : String) : sanitizeIdentifier name =
    if reservedWords.contains (String.ofList (startedLetters name)) ||
        (startedLetters name).take 2 == ['_', '_'] then
      "cm_" ++ String.ofList (startedLetters name)
    else String.ofList (startedLetters name) := rfl

theorem startedLetters_word (mem : c ∈ startedLetters name) : isWordChar c = true := by
  have named : ∀ c ∈ namedLetters name, isWordChar c = true := by
    intro c mem
    unfold namedLetters at mem
    split at mem
    · exact all_eq_true.mp (by decide : "unnamed".toList.all isWordChar = true) c mem
    · exact cleanName_word mem
  unfold startedLetters at mem
  split at mem
  · rcases mem_cons.mp mem with rfl | mem
    · decide
    · exact named c mem
  · exact named c mem

theorem sanitizeIdentifier_word (name : String)
    (mem : c ∈ (sanitizeIdentifier name).toList) : isWordChar c = true := by
  have letters : (String.ofList (startedLetters name)).toList = startedLetters name :=
    String.toList_ofList
  rw [sanitizeIdentifier_eq] at mem
  split at mem
  · rw [String.toList_append, letters] at mem
    rcases mem_append.mp mem with mem | mem
    · exact all_eq_true.mp (by decide : "cm_".toList.all isWordChar = true) c mem
    · exact startedLetters_word mem
  · rw [letters] at mem
    exact startedLetters_word mem

theorem sanitizeIdentifier_hidden (name : String) :
    (sanitizeIdentifier ("__cumetal_global_" ++ name)).toList =
      "cm___cumetal_global_".toList ++ cleanName name := by
  have cleaned : cleanName ("__cumetal_global_" ++ name) =
      '_' :: '_' :: ("cumetal_global_".toList ++ cleanName name) := by
    rw [cleanName, String.toList_append, flatMap_append]
    rfl
  have started : startedLetters ("__cumetal_global_" ++ name) =
      '_' :: '_' :: ("cumetal_global_".toList ++ cleanName name) := by
    rw [startedLetters, namedLetters, cleaned]
    rfl
  have letters : ∀ l : List Char, (String.ofList l).toList = l := fun _ => String.toList_ofList
  rw [sanitizeIdentifier_eq, started, if_pos (by simp), String.toList_append, letters ('_' :: _)]
  rfl

theorem toString_digits (n : Nat) (mem : c ∈ (toString n).toList) :
    c.isDigit = true := by
  have letters : (toString n).toList = Nat.toDigits 10 n := Nat.toList_repr
  rw [letters] at mem
  exact Nat.isDigit_of_mem_toDigits (by decide) (by decide) mem

theorem isWordChar_of_isDigit (digit : c.isDigit = true) : isWordChar c = true := by
  simp [isWordChar, Char.isAlphanum, digit]

theorem chars_of_all {text : String} (all : text.toList.all isWordChar = true)
    (mem : c ∈ text.toList) : isWordChar c = true ∨ c ∈ [' ', '*', '&'] :=
  .inl (all_eq_true.mp all c mem)

theorem MslType.text_chars (type : MslType) (mem : c ∈ type.text.toList) :
    isWordChar c = true ∨ c ∈ [' ', '*', '&'] := by
  have indirect : ∀ (element : MslType) (space : MslAddressSpace) (mark : String),
      mark = "*" ∨ mark = "&" →
      (∀ c ∈ element.text.toList, isWordChar c = true ∨ c ∈ [' ', '*', '&']) →
      ∀ c ∈ (indirectText element element.text space mark).toList,
        isWordChar c = true ∨ c ∈ [' ', '*', '&'] := by
    intro element space mark marks ih c mem
    have marked : c ∈ mark.toList → isWordChar c = true ∨ c ∈ [' ', '*', '&'] := by
      intro here
      rcases marks with rfl | rfl
      · rw [show c = '*' by simpa using here]
        exact .inr (by decide)
      · rw [show c = '&' by simpa using here]
        exact .inr (by decide)
    have blank : c ∈ " ".toList → isWordChar c = true ∨ c ∈ [' ', '*', '&'] := by
      intro here
      rw [show c = ' ' by simpa using here]
      exact .inr (by decide)
    have spelled : c ∈ space.spelling.toList → isWordChar c = true ∨ c ∈ [' ', '*', '&'] :=
      chars_of_all (by cases space <;> decide)
    unfold indirectText at mem
    split at mem <;> split at mem <;>
      simp only [String.toList_append, mem_append] at mem
    · rcases mem with (mem | mem) | mem
      · exact ih c mem
      · cases mem
      · exact marked mem
    · rcases mem with (mem | mem | mem) | mem
      · exact ih c mem
      · exact blank mem
      · exact spelled mem
      · exact marked mem
    · rcases mem with (mem | mem) | mem
      · cases mem
      · exact ih c mem
      · exact marked mem
    · rcases mem with ((mem | mem) | mem) | mem
      · exact spelled mem
      · exact blank mem
      · exact ih c mem
      · exact marked mem
  induction type generalizing c with
  | pointer element space ih => exact indirect element space "*" (.inl rfl) (fun _ => ih) c mem
  | reference element space ih => exact indirect element space "&" (.inr rfl) (fun _ => ih) c mem
  | vector element lanes ih =>
    rw [text, String.toList_append] at mem
    rcases mem_append.mp mem with mem | mem
    · exact ih mem
    · exact .inl (isWordChar_of_isDigit (toString_digits lanes mem))
  | struct name => exact .inl (sanitizeIdentifier_word name mem)
  | int bits =>
    have words : (int bits).text.toList.all isWordChar = true := by
      simp only [text, integerSpelling]
      split_ifs <;> decide
    exact chars_of_all words mem
  | uint bits =>
    have words : (uint bits).text.toList.all isWordChar = true := by
      simp only [text, integerSpelling]
      split_ifs <;> decide
    exact chars_of_all words mem
  | _ => exact chars_of_all (by decide) mem

/-- What stands between a signature and the body (`170`). -/
def closing : List Char := [')', ' ', '{']

theorem not_mem_of_word (words : ∀ c ∈ text, isWordChar c = true) (other : isWordChar c = false) :
    c ∉ text := fun mem => by
  rw [words c mem] at other
  cases other

theorem skips_bracket (rest : List Char) : Skips closing [')', ']', ']'] rest := by
  intro i inside
  have cases_ : i = 0 ∨ i = 1 ∨ i = 2 := by
    simp only [List.length_cons, List.length_nil] at inside
    omega
  rcases cases_ with rfl | rfl | rfl <;> simp [closing]

theorem skips_attributes {attributes : List MslAttribute}
    (words : ∀ attribute_ ∈ attributes, ∀ c ∈ attribute_.name.toList, isWordChar c = true)
    (rest : List Char) : Skips closing (attributesText attributes).toList rest := by
  induction attributes generalizing rest with
  | nil => exact .nil _ _
  | cons attribute_ others ih =>
    have name : ')' ∉ attribute_.name.toList :=
      not_mem_of_word (words attribute_ mem_cons_self) (by decide)
    have later := ih fun other mem => words other (mem_cons_of_mem _ mem)
    obtain ⟨text, index⟩ := attribute_
    cases index with
    | none =>
      have shape : (attributesText (⟨text, none⟩ :: others)).toList =
          (' ' :: '[' :: '[' :: (text.toList ++ [']', ']'])) ++
            (attributesText others).toList := by
        simp [attributesText, MslAttribute.text]
      rw [shape]
      refine .append (skips_of_head ?_) (later rest)
      simpa using name
    | some index =>
      have shape : (attributesText (⟨text, some index⟩ :: others)).toList =
          (' ' :: '[' :: '[' :: (text.toList ++ '(' :: (toString index).toList)) ++
            [')', ']', ']'] ++ (attributesText others).toList := by
        simp [attributesText, MslAttribute.text]
      have digits : ')' ∉ (toString index).toList := fun mem =>
        absurd (toString_digits index mem) (by decide)
      rw [shape]
      refine .append (.append (skips_of_head ?_) (skips_bracket _)) (later rest)
      simp only [mem_cons, mem_append, not_or]
      exact ⟨by decide, by decide, by decide, name, by decide, digits⟩

section

variable
  (words : ∀ parameter ∈ parameters, ∀ attribute_ ∈ parameter.attributes, ∀ c ∈
    attribute_.name.toList, isWordChar c = true)

include words

theorem skips_parameters (rest : List Char) :
    Skips closing (parametersText parameters).toList rest := by
  have one : ∀ parameter ∈ parameters, ∀ rest, Skips closing parameter.text.toList rest := by
    intro parameter mem rest
    have shape : parameter.text.toList = (' ' :: ' ' :: ' ' :: ' ' ::
        (parameter.type.text.toList ++ ' ' :: (sanitizeIdentifier parameter.name).toList)) ++
        (attributesText parameter.attributes).toList := by
      simp [HiddenParameter.text]
    rw [shape]
    refine .append (skips_of_head ?_) (skips_attributes (words parameter mem) rest)
    have type : ')' ∉ parameter.type.text.toList := fun mem =>
      absurd (text_chars _ mem) (by decide)
    have name : ')' ∉ (sanitizeIdentifier parameter.name).toList :=
      not_mem_of_word (fun c => sanitizeIdentifier_word _) (by decide)
    simp only [mem_cons, mem_append, not_or]
    exact ⟨by decide, by decide, by decide, by decide, type, by decide, name⟩
  induction parameters generalizing rest with
  | nil => exact .nil _ _
  | cons parameter others ih =>
    have here := one parameter mem_cons_self
    have later := ih (fun other mem => words other (mem_cons_of_mem _ mem)) rest
      fun other mem => one other (mem_cons_of_mem _ mem)
    cases others with
    | nil =>
      have shape : (parametersText [parameter]).toList = parameter.text.toList ++ ['\n'] := by
        simp [parametersText]
      rw [shape]
      exact .append (here _) (skips_of_head (by decide))
    | cons next others =>
      have shape : (parametersText (parameter :: next :: others)).toList =
          parameter.text.toList ++ [',', '\n'] ++
            (parametersText (next :: others)).toList := by
        simp [parametersText]
      rw [shape]
      exact .append (.append (here _) (skips_of_head (by decide))) later

theorem skips_signature (name : String) (rest : List Char) :
    Skips closing (signatureText name parameters).toList rest := by
  have shape : (signatureText name parameters).toList = ("kernel void ".toList ++
      (sanitizeIdentifier name).toList ++ ['(', '\n']) ++ (parametersText parameters).toList := by
    simp [signatureText]
  rw [shape]
  refine .append (skips_of_head ?_) (skips_parameters words rest)
  have name_ : ')' ∉ (sanitizeIdentifier name).toList :=
    not_mem_of_word (fun c => sanitizeIdentifier_word _) (by decide)
  simp only [mem_append, not_or]
  exact ⟨⟨by decide, name_⟩, by decide⟩

theorem slash_signature (name : String) :
    '/' ∉ (signatureText name parameters).toList := by
  have attributes : ∀ attributes : List MslAttribute,
      (∀ attribute_ ∈ attributes, ∀ c ∈ attribute_.name.toList, isWordChar c = true) →
      '/' ∉ (attributesText attributes).toList := by
    intro attributes
    induction attributes with
    | nil => intro _; decide
    | cons first others ih =>
      intro words
      have name : '/' ∉ first.name.toList :=
        not_mem_of_word (words first mem_cons_self) (by decide)
      have later := ih fun other mem => words other (mem_cons_of_mem _ mem)
      obtain ⟨text, index⟩ := first
      cases index with
      | none => simpa [attributesText, MslAttribute.text, later] using name
      | some index =>
        have digits : '/' ∉ (toString index).toList := fun mem =>
          absurd (toString_digits index mem) (by decide)
        simp only [attributesText, MslAttribute.text, String.toList_append, mem_append,
          not_or]
        exact ⟨⟨⟨⟨by decide, name⟩, ⟨by decide, digits⟩, by decide⟩, by decide⟩, later⟩
  have one : ∀ parameter ∈ parameters, '/' ∉ parameter.text.toList := by
    intro parameter mem
    have type : '/' ∉ parameter.type.text.toList := fun mem =>
      absurd (text_chars _ mem) (by decide)
    have name : '/' ∉ (sanitizeIdentifier parameter.name).toList :=
      not_mem_of_word (fun c => sanitizeIdentifier_word _) (by decide)
    simp only [HiddenParameter.text, String.toList_append, mem_append, not_or]
    exact ⟨⟨⟨⟨by decide, type⟩, by decide⟩, name⟩, attributes _ (words parameter mem)⟩
  have all : '/' ∉ (parametersText parameters).toList := by
    clear words
    induction parameters with
    | nil => decide
    | cons parameter others ih =>
      have here := one parameter mem_cons_self
      have later := ih fun other mem => one other (mem_cons_of_mem _ mem)
      cases others with
      | nil => simpa [parametersText] using here
      | cons next others => simpa [parametersText, here] using later
  have name_ : '/' ∉ (sanitizeIdentifier name).toList :=
    not_mem_of_word (fun c => sanitizeIdentifier_word _) (by decide)
  simp only [signatureText, String.toList_append, mem_append, not_or]
  exact ⟨⟨⟨by decide, name_⟩, by decide⟩, all⟩

end

end CuMetal.Metal
