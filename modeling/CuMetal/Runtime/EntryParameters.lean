import CuMetal.Lib.Numerals
import CuMetal.Ptx.Instruction

/-!
# The parameters of an entry

How `runtime/registration/registration.cpp` reads the kinds and sizes of a kernel's parameters from
the text of their declarations (`653-817`), and the declarations themselves.
-/

namespace CuMetal.Registration.Entries

open List List

open CuMetal.Ptx (isSpace)

/-- `is_ptx_token_boundary` (`685-689`). -/
def isPtxTokenBoundary (c : Char) : Bool :=
  isSpace c || c = ',' || c = '(' || c = ')' || c = '{' || c = '}' || c = ';'

/-- Where a character stands. -/
inductive Trivia
  | code | line | block

/-- `skip_ptx_trivia` (`691-715`), outside of comments or in one: what it leaves of the text. -/
def skipPtxTrivia : Trivia → List Char → List Char
  | .code, [] => []
  | .code, '/' :: '/' :: rest => skipPtxTrivia .line rest
  | .code, '/' :: '*' :: rest => skipPtxTrivia .block rest
  | .code, c :: rest => if isSpace c then skipPtxTrivia .code rest else c :: rest
  | .line, [] => []
  | .line, c :: rest =>
    -- the end of the line is a space
    if c = '\n' then skipPtxTrivia .code rest else skipPtxTrivia .line rest
  | .block, [] => []
  | .block, '*' :: '/' :: rest => skipPtxTrivia .code rest
  | .block, [c] => if isSpace c then [] else [c]
  | .block, _ :: rest => skipPtxTrivia .block rest

def startsComment : List Char → Bool
  | '/' :: c :: _ => c = '/' || c = '*'
  | _ => false

/-- The text up to a boundary or a comment, and the rest. -/
def takePtxToken : List Char → List Char × List Char
  | [] => ([], [])
  | c :: rest =>
    if isPtxTokenBoundary c || startsComment (c :: rest) then ([], c :: rest)
    else (c :: (takePtxToken rest).1, (takePtxToken rest).2)

/-- `next_ptx_token` (`757-768`): the token and what comes after it. -/
def nextPtxToken (source : List Char) : List Char × List Char :=
  takePtxToken (skipPtxTrivia .code source)

/-- The tokens that the loop over a segment meets (`782-797`). Every round of the loop takes a
character. -/
def segmentTokens : Nat → List Char → List (List Char)
  | 0, _ => []
  | fuel + 1, segment =>
    match nextPtxToken segment with
    | ([], rest) => segmentTokens fuel rest.tail
    | (token, rest) => token :: segmentTokens fuel rest

/-- `rfind` of a character. -/
def rfind (c : Char) : List Char → Option Nat
  | [] => none
  | d :: rest =>
    match rfind c rest with
    | some index => some (index + 1)
    | none => if d = c then some 0 else none

/-- `parse_param_array_bytes` (`653-670`). -/
def parseParamArrayBytes (name : List Char) : BitVec 32 :=
  match rfind '[' name, rfind ']' name with
  | some opened, some closed =>
    if closed ≤ opened + 1 then 0
    else
      let digits := (name.drop (opened + 1)).take (closed - (opened + 1))
      if digits.all Char.isDigit then
        digits.foldl (fun value c => value * 10 + BitVec.ofNat 32 (c.toNat - '0'.toNat)) 0
      else 0
  | _, _ => 0

/-- `scalar_size_bytes_for_ptx_type` (`672-683`). -/
def scalarSizeBytesForPtxType (ptxType : List Char) : BitVec 32 :=
  if [".u8".toList, ".s8".toList, ".b8".toList].contains ptxType then 1
  else if [".u16".toList, ".s16".toList, ".b16".toList].contains ptxType then 2
  else if [".u64".toList, ".s64".toList, ".b64".toList, ".f64".toList].contains ptxType then 8
  else 4

/-- `CUMETAL_ARG_*`. -/
inductive ArgKind
  | buffer | bytes
  deriving DecidableEq

/-- `cumetalKernelArgInfo_t`. -/
structure KernelArgInfo where
  kind : ArgKind
  sizeBytes : BitVec 32
  deriving DecidableEq

/-- A token that can be the type of a parameter (`793-796`). -/
def isTypeToken (token : List Char) : Bool :=
  1 < token.length && token.head? = some '.' &&
    !([".param".toList, ".ptr".toList, ".align".toList].contains token)

/-- What a segment declares (`776-813`). -/
def scanSegment (segment : List Char) : Option KernelArgInfo :=
  let tokens := segmentTokens segment.length segment
  match tokens.find? isTypeToken with
  | none => none
  | some type =>
    if !tokens.contains ".param".toList then none
    else
      let isUnannotatedPointerWidth :=
        [".u64".toList, ".s64".toList, ".b64".toList].contains type
      let isPointer := tokens.contains ".ptr".toList || isUnannotatedPointerWidth
      let arrayBytes := parseParamArrayBytes segment
      some
        { kind := if isPointer then .buffer else .bytes
          sizeBytes :=
            if isPointer then 8
            else if 0 < arrayBytes then arrayBytes
            else scalarSizeBytesForPtxType type }

/-- `scan_ptx_entry_params` (`771-817`). The empty segment after a last comma declares nothing. -/
def scanPtxEntryParams (params : List Char) : List KernelArgInfo :=
  (params.splitOn ',').filterMap scanSegment

/-- The types of kernel parameters. -/
inductive PtxType
  | b8 | u8 | s8 | b16 | u16 | s16 | f16 | b32 | u32 | s32 | f32 | f16x2
  | b64 | u64 | s64 | f64 | b128
  deriving DecidableEq

namespace PtxType

def text : PtxType → List Char
  | .b8 => ".b8".toList
  | .u8 => ".u8".toList
  | .s8 => ".s8".toList
  | .b16 => ".b16".toList
  | .u16 => ".u16".toList
  | .s16 => ".s16".toList
  | .f16 => ".f16".toList
  | .b32 => ".b32".toList
  | .u32 => ".u32".toList
  | .s32 => ".s32".toList
  | .f32 => ".f32".toList
  | .f16x2 => ".f16x2".toList
  | .b64 => ".b64".toList
  | .u64 => ".u64".toList
  | .s64 => ".s64".toList
  | .f64 => ".f64".toList
  | .b128 => ".b128".toList

/-- The width of the type, which is its alignment too. -/
def bytes : PtxType → Nat
  | .b8 | .u8 | .s8 => 1
  | .b16 | .u16 | .s16 | .f16 => 2
  | .b32 | .u32 | .s32 | .f32 | .f16x2 => 4
  | .b64 | .u64 | .s64 | .f64 => 8
  | .b128 => 16

/-- The types that the scan takes for a pointer. -/
def pointerWide : PtxType → Bool
  | .b64 | .u64 | .s64 => true
  | _ => false

end PtxType

def isNameChar (c : Char) : Bool := c.isAlphanum || c = '_' || c = '$'

/-- A parameter of an entry: a scalar, an array of elements with a declared alignment, or a pointer
with the state space and the alignment of what it points to. -/
structure Parameter where
  type : PtxType
  align : Option Nat
  pointee : Option (List Char × Nat)
  name : List Char
  count : Option Nat
  named : name ≠ [] ∧ ∀ c ∈ name, isNameChar c = true
  space : ∀ target ∈ pointee, ∀ c ∈ target.1, isNameChar c = true

namespace Parameter

variable (p : Parameter)

def numeral (n : Nat) : List Char := Nat.toDigits 10 n

/-- The words of the declaration. -/
def words : List (List Char) :=
  [".param".toList] ++
    (match p.align with
      | some n => [".align".toList, numeral n]
      | none => []) ++
    [p.type.text] ++
    (match p.pointee with
      | some (space, n) => [".ptr".toList, '.' :: space, ".align".toList, numeral n]
      | none => []) ++
    [p.name ++ match p.count with
      | some n => '[' :: (numeral n ++ [']'])
      | none => []]

def text : List Char := '\n' :: '\t' :: [' '].intercalate p.words

/-- The bytes of a parameter. -/
def size : Nat := p.type.bytes * p.count.getD 1

/-- The declared alignment, or that of the type. -/
def alignment : Nat := p.align.getD p.type.bytes

/-- What the scan makes of the declaration. -/
def scanned : KernelArgInfo :=
  let isPointer := p.pointee.isSome || p.type.pointerWide
  let arrayBytes := BitVec.ofNat 32 (p.count.getD 0)
  { kind := if isPointer then .buffer else .bytes
    sizeBytes :=
      if isPointer then 8
      else if 0 < arrayBytes then arrayBytes
      else scalarSizeBytesForPtxType p.type.text }

end Parameter

/-- The parameter list of an entry, as it is printed between its parentheses. -/
def printed (params : List Parameter) : List Char := [','].intercalate (params.map Parameter.text)

/-- A word of a declaration: it has characters, and none of them ends a token. -/
structure Plain (word : List Char) : Prop where
  nonempty : word ≠ []
  inner : ∀ c ∈ word, isPtxTokenBoundary c = false ∧ c ≠ '/'

variable {word : List Char} {c : Char}

theorem takePtxToken_append (rest : List Char)
    (inner : ∀ c ∈ word, isPtxTokenBoundary c = false ∧ c ≠ '/')
    (ends : ∀ c ∈ rest.head?, isPtxTokenBoundary c = true) :
    takePtxToken (word ++ rest) = (word, rest) := by
  induction word with
  | nil =>
    cases rest with
    | nil => rfl
    | cons c rest => simp [takePtxToken, ends c rfl]
  | cons c word ih =>
    obtain ⟨open_, slash⟩ := inner c mem_cons_self
    have quiet : startsComment (c :: (word ++ rest)) = false := by
      unfold startsComment
      split
      next same => exact absurd (cons.inj same).1 slash
      next => rfl
    rw [cons_append, takePtxToken, open_, quiet,
      ih fun c mem => inner c (mem_cons_of_mem _ mem)]
    simp

theorem isSpace_of_plain (inner : isPtxTokenBoundary c = false) : isSpace c = false := by
  simp only [isPtxTokenBoundary, Bool.or_eq_false_iff] at inner
  exact inner.1.1.1.1.1.1

theorem skipPtxTrivia_cons (slash : c ≠ '/') (rest : List Char) :
    skipPtxTrivia .code (c :: rest) =
      if isSpace c then skipPtxTrivia .code rest else c :: rest := by
  rw [skipPtxTrivia]
  · exact fun _ same => absurd same slash
  · exact fun _ same => absurd same slash

theorem skipPtxTrivia_spaces {spaces : List Char} (blank : ∀ c ∈ spaces, isSpace c = true)
    (plain : Plain word) (rest : List Char) :
    skipPtxTrivia .code (spaces ++ (word ++ rest)) = word ++ rest := by
  induction spaces with
  | nil =>
    obtain ⟨nonempty, inner⟩ := plain
    cases word with
    | nil => exact absurd rfl nonempty
    | cons c word =>
      obtain ⟨open_, slash⟩ := inner c mem_cons_self
      rw [nil_append, cons_append, skipPtxTrivia_cons slash, isSpace_of_plain open_]
      simp
  | cons c spaces ih =>
    have space := blank c mem_cons_self
    have slash : c ≠ '/' := by
      rintro rfl
      exact absurd space (by decide)
    rw [cons_append, skipPtxTrivia_cons slash, space, if_pos rfl]
    exact ih fun c mem => blank c (mem_cons_of_mem _ mem)

theorem segmentTokens_nil (fuel : Nat) : segmentTokens fuel [] = [] := by
  induction fuel with
  | zero => rfl
  | succ fuel ih =>
    rw [segmentTokens]
    exact ih

/-- The tokens of words with blanks before and between them are the words. -/
theorem segmentTokens_words {words : List (List Char)} (plain : ∀ word ∈ words, Plain word) :
    ∀ {fuel : Nat} (spaces : List Char), (∀ c ∈ spaces, isSpace c = true) →
      words.length ≤ fuel → words ≠ [] →
      segmentTokens fuel (spaces ++ [' '].intercalate words) = words := by
  induction words with
  | nil => exact fun _ _ _ some_ => absurd rfl some_
  | cons word words ih =>
    intro fuel spaces blank enough _
    obtain ⟨fuel, rfl⟩ : ∃ more, fuel = more + 1 := ⟨fuel - 1, by
      rw [length_cons] at enough
      omega⟩
    have here := plain word mem_cons_self
    obtain ⟨nonempty, inner⟩ := here
    obtain ⟨c, tail, rfl⟩ := exists_cons_of_ne_nil nonempty
    cases words with
    | nil =>
      have token : nextPtxToken (spaces ++ [' '].intercalate [c :: tail]) =
          (c :: tail, []) := by
        have skipped := skipPtxTrivia_spaces blank ⟨nonempty, inner⟩ []
        have taken := takePtxToken_append [] inner (by simp)
        rw [nextPtxToken]
        simp only [intercalate_singleton]
        rw [append_nil] at skipped taken
        rw [skipped, taken]
      rw [segmentTokens, token]
      simp [segmentTokens_nil]
    | cons next words =>
      have token : nextPtxToken (spaces ++ [' '].intercalate ((c :: tail) :: next :: words)) =
          (c :: tail, ' ' :: [' '].intercalate (next :: words)) := by
        rw [nextPtxToken, intercalate_cons_cons, append_assoc (c :: tail),
          skipPtxTrivia_spaces blank ⟨nonempty, inner⟩,
          takePtxToken_append _ inner (by simp [isPtxTokenBoundary, isSpace])]
        rfl
      have rest := ih (fun word mem => plain word (mem_cons_of_mem _ mem))
        [' '] (by simp [isSpace]) (by simpa using enough) (by simp)
      rw [segmentTokens, token]
      exact congrArg ((c :: tail) :: ·) rest

theorem length_le_intercalate (words : List (List Char)) :
    words.length ≤ ([' '].intercalate words).length + 1 := by
  induction words with
  | nil => simp
  | cons word words ih =>
    cases words with
    | nil => simp
    | cons next words =>
      rw [intercalate_cons_cons]
      simp only [length_append, length_cons, length_nil] at ih ⊢
      omega

theorem intercalate_concat (words : List (List Char)) (last : List Char) :
    [' '].intercalate (words ++ [last]) = words.flatMap (· ++ [' ']) ++ last := by
  induction words with
  | nil => simp
  | cons word words ih =>
    cases words with
    | nil => simp
    | cons next words =>
      rw [cons_append, cons_append, intercalate_cons_cons, ← cons_append,
        ih]
      simp

theorem ne_of_nameChar {d : Char} (name : isNameChar c = true) (other : isNameChar d = false) :
    c ≠ d := by
  rintro rfl
  rw [name] at other
  cases other

theorem inner_of_nameChar (name : isNameChar c = true) :
    isPtxTokenBoundary c = false ∧ c ≠ '/' := by
  refine ⟨?_, ne_of_nameChar name rfl⟩
  by_contra boundary
  simp only [isPtxTokenBoundary, isSpace, Bool.or_eq_true, beq_iff_eq, decide_eq_true_eq,
    Bool.not_eq_false] at boundary
  rcases boundary with
    ((((((((((rfl | rfl) | rfl) | rfl) | rfl) | rfl) | rfl) | rfl) | rfl) | rfl) | rfl) | rfl <;>
    exact absurd name (by decide)

theorem nameChar_of_numeral {n : Nat} (mem : c ∈ Parameter.numeral n) : isNameChar c = true := by
  have digit := Numerals.isDigit_toDigits mem
  simp [isNameChar, Char.isAlphanum, digit]

/-- A word of a declaration without brackets: its characters are those of names, and dots. -/
def Simple (word : List Char) : Prop := word ≠ [] ∧ ∀ c ∈ word, isNameChar c = true ∨ c = '.'

theorem Simple.plain (simple : Simple word) : Plain word where
  nonempty := simple.1
  inner := by
    intro c mem
    rcases simple.2 c mem with name | rfl
    · exact inner_of_nameChar name
    · exact ⟨rfl, by decide⟩

theorem simple_of_all (nonempty : word.isEmpty = false)
    (all : word.all (fun c => isNameChar c || c == '.') = true) : Simple word := by
  refine ⟨fun empty => by simp [empty] at nonempty, fun c mem => ?_⟩
  simpa using all_eq_true.mp all c mem

theorem PtxType.simple_text (type : PtxType) : Simple type.text := by
  cases type <;> exact simple_of_all rfl rfl

namespace Parameter

variable (p : Parameter)

theorem simple_numeral (n : Nat) : Simple (numeral n) :=
  ⟨Nat.toDigits_ne_nil, fun _ mem => .inl (nameChar_of_numeral mem)⟩

def qualifiers : List (List Char) := p.words.dropLast

/-- The last word: the name, and how many elements there are. -/
def declarator : List Char :=
  p.name ++ match p.count with
    | some n => '[' :: (numeral n ++ [']'])
    | none => []

theorem words_eq : p.words = p.qualifiers ++ [p.declarator] := by
  unfold qualifiers words declarator
  rw [dropLast_concat]

theorem simple_qualifiers (mem : word ∈ p.qualifiers) : Simple word := by
  unfold qualifiers words at mem
  rw [dropLast_concat] at mem
  simp only [mem_append, mem_singleton] at mem
  rcases mem with ((rfl | align) | rfl) | pointee
  · exact simple_of_all rfl rfl
  · split at align
    next n _ =>
      simp only [mem_cons, not_mem_nil, or_false] at align
      rcases align with rfl | rfl
      · exact simple_of_all rfl rfl
      · exact simple_numeral n
    next => cases align
  · exact p.type.simple_text
  · split at pointee
    next space n known =>
      simp only [mem_cons, not_mem_nil, or_false] at pointee
      rcases pointee with rfl | rfl | rfl | rfl
      · exact simple_of_all rfl rfl
      · refine ⟨by simp, fun c mem => ?_⟩
        rcases mem_cons.mp mem with rfl | mem
        · exact .inr rfl
        · exact .inl (p.space _ known c mem)
      · exact simple_of_all rfl rfl
      · exact simple_numeral n
    next => cases pointee

theorem plain_declarator : Plain p.declarator := by
  obtain ⟨nonempty, inner⟩ := p.named
  refine ⟨by simp [declarator, nonempty], fun c mem => ?_⟩
  unfold declarator at mem
  rcases mem_append.mp mem with name | count
  · exact inner_of_nameChar (inner c name)
  · split at count
    next n =>
      simp only [mem_cons, mem_append, not_mem_nil, or_false] at count
      rcases count with rfl | digit | rfl
      · exact ⟨rfl, by decide⟩
      · exact inner_of_nameChar (nameChar_of_numeral digit)
      · exact ⟨rfl, by decide⟩
    next => cases count

theorem plain_words (mem : word ∈ p.words) : Plain word := by
  rw [words_eq, mem_append, mem_singleton] at mem
  rcases mem with qualifier | rfl
  · exact (p.simple_qualifiers qualifier).plain
  · exact p.plain_declarator

theorem segmentTokens_text : segmentTokens p.text.length p.text = p.words := by
  refine segmentTokens_words (fun word => p.plain_words) ['\n', '\t']
    (by simp [isSpace]) ?_ (by simp [words])
  have short := length_le_intercalate p.words
  simp only [text, length_cons]
  omega

theorem rfind_of_absent {text : List Char} (absent : c ∉ text) : rfind c text = none := by
  induction text with
  | nil => rfl
  | cons d rest ih =>
    rw [mem_cons, not_or] at absent
    rw [rfind, ih absent.2]
    simp [Ne.symm absent.1]

theorem rfind_append {first rest : List Char} (absent : c ∉ rest) :
    rfind c (first ++ c :: rest) = some first.length := by
  induction first with
  | nil =>
    rw [nil_append, rfind, rfind_of_absent absent]
    simp
  | cons d first ih =>
    rw [cons_append, rfind, ih]
    rfl

theorem foldl_digits (digits : List Char) (value : Nat) :
    digits.foldl (fun value c => value * 10 + BitVec.ofNat 32 (c.toNat - '0'.toNat))
        (BitVec.ofNat 32 value) =
      BitVec.ofNat 32 (Nat.ofDigitChars 10 digits value) := by
  induction digits generalizing value with
  | nil => rfl
  | cons c digits ih =>
    have next : BitVec.ofNat 32 value * 10 + BitVec.ofNat 32 (c.toNat - '0'.toNat) =
        BitVec.ofNat 32 (10 * value + (c.toNat - '0'.toNat)) := by
      rw [BitVec.ofNat_add, BitVec.ofNat_mul, BitVec.mul_comm]
      rfl
    rw [foldl_cons, next, ih, Nat.ofDigitChars_cons]

def opening : List Char := '\n' :: '\t' :: p.qualifiers.flatMap (· ++ [' '])

theorem text_eq : p.text = p.opening ++ p.declarator := by
  rw [text, words_eq, intercalate_concat]
  rfl

theorem not_mem_opening (bracket : c = '[' ∨ c = ']') : c ∉ p.opening ++ p.name := by
  have other : isNameChar c = false ∧ c ≠ '.' ∧ c ≠ ' ' ∧ c ≠ '\n' ∧ c ≠ '\t' := by
    rcases bracket with rfl | rfl <;> decide
  obtain ⟨other, dot, space, newline, tab⟩ := other
  intro mem
  rcases mem_append.mp mem with before | name
  · simp only [opening, mem_cons, mem_flatMap, mem_append, not_mem_nil,
      or_false] at before
    rcases before with rfl | rfl | ⟨word, qualifier, mem | rfl⟩
    · exact newline rfl
    · exact tab rfl
    · rcases (p.simple_qualifiers qualifier).2 c mem with name | rfl
      · exact ne_of_nameChar name other rfl
      · exact dot rfl
    · exact space rfl
  · exact ne_of_nameChar (p.named.2 c name) other rfl

theorem parseParamArrayBytes_text :
    parseParamArrayBytes p.text = BitVec.ofNat 32 (p.count.getD 0) := by
  have open_ := p.not_mem_opening (.inl rfl)
  have close_ := p.not_mem_opening (.inr rfl)
  rw [text_eq, declarator, ← append_assoc]
  cases counted : p.count with
  | none =>
    dsimp only
    rw [append_nil, parseParamArrayBytes, rfind_of_absent open_]
    rfl
  | some n =>
    have digits : ∀ c ∈ numeral n, c.isDigit = true := fun c mem => Numerals.isDigit_toDigits mem
    have absent : '[' ∉ numeral n ++ [']'] := by
      intro mem
      rcases mem_append.mp mem with digit | last
      · exact absurd (digits _ digit) (by decide)
      · exact absurd (mem_singleton.mp last) (by decide)
    have whole : p.opening ++ p.name ++ '[' :: (numeral n ++ [']']) =
        (p.opening ++ p.name ++ '[' :: numeral n) ++ ']' :: [] := by simp
    have inner : (p.opening ++ p.name ++ '[' :: (numeral n ++ [']'])).drop
        ((p.opening ++ p.name).length + 1) = numeral n ++ [']'] := by
      rw [← drop_drop, drop_left]
      rfl
    have closed : rfind ']' (p.opening ++ p.name ++ '[' :: (numeral n ++ [']'])) =
        some ((p.opening ++ p.name).length + ((numeral n).length + 1)) := by
      rw [whole, rfind_append not_mem_nil, length_append, length_cons]
    have room : 0 < (numeral n).length := length_pos_iff.mpr (simple_numeral n).1
    have after : (p.opening ++ p.name).length + ((numeral n).length + 1) -
        ((p.opening ++ p.name).length + 1) = (numeral n).length := by omega
    have all : (numeral n).all Char.isDigit = true := all_eq_true.mpr digits
    dsimp only
    rw [parseParamArrayBytes, rfind_append absent, closed]
    dsimp only
    rw [if_neg (by omega), after, inner, take_left, all, if_pos rfl]
    have value := foldl_digits (numeral n) 0
    rw [numeral, Nat.ofDigitChars_ten_toDigits] at value
    exact value

theorem isTypeToken_numeral (n : Nat) : isTypeToken (numeral n) = false := by
  obtain ⟨c, tail, whole⟩ := exists_cons_of_ne_nil (simple_numeral n).1
  have dot : c ≠ '.' := ne_of_nameChar
    (nameChar_of_numeral (n := n) (by rw [whole]; exact mem_cons_self)) rfl
  rw [whole, isTypeToken]
  simp [dot]

theorem find?_type : p.words.find? isTypeToken = some p.type.text := by
  have type : isTypeToken p.type.text = true := by
    cases p.type <;> decide
  have align : ∀ n, [".align".toList, numeral n].find? isTypeToken = none := by
    intro n
    rw [find?_cons, find?_cons, isTypeToken_numeral]
    rfl
  have param : isTypeToken ".param".toList = false := by decide
  rw [words, append_assoc, append_assoc, append_assoc, singleton_append,
    find?_cons, param, find?_append]
  cases p.align with
  | none => simp [type]
  | some n =>
    dsimp only
    rw [align n]
    simp [type]

theorem contains_param : p.words.contains ".param".toList = true := by
  simp [words]

/-- The words of a declaration without a pointee are none of a pointer's. -/
theorem contains_ptr : p.words.contains ".ptr".toList = p.pointee.isSome := by
  cases known : p.pointee with
  | some target => simp [words, known]
  | none =>
    have type : p.type.text ≠ ".ptr".toList := by
      cases p.type <;> decide
    have align : ".ptr".toList ≠ ".align".toList ∧ ".ptr".toList ≠ ".param".toList := by decide
    have number : ∀ n, numeral n ≠ ".ptr".toList := by
      intro n same
      have dot : isNameChar '.' = true := nameChar_of_numeral (n := n) (by
        rw [same]
        decide)
      exact absurd dot (by decide)
    have name : p.declarator ≠ ".ptr".toList := by
      intro same
      obtain ⟨nonempty, inner⟩ := p.named
      obtain ⟨c, tail, whole⟩ := exists_cons_of_ne_nil nonempty
      rw [declarator, whole] at same
      have first : c = '.' := (cons.inj same).1
      exact ne_of_nameChar (inner c (by rw [whole]; exact mem_cons_self)) rfl first
    have absent : ".ptr".toList ∉ p.words := by
      unfold words
      rw [known]
      simp only [mem_append, mem_singleton, not_mem_nil, or_false]
      rintro (((param | aligned) | same) | last)
      · exact align.2 param
      · split at aligned
        next n _ =>
          simp only [mem_cons, not_mem_nil, or_false] at aligned
          rcases aligned with same | same
          · exact align.1 same
          · exact number n same.symm
        next => cases aligned
      · exact type same.symm
      · exact name last.symm
    rw [Option.isSome_none]
    simpa using absent

theorem pointerWide_text (type : PtxType) :
    [".u64".toList, ".s64".toList, ".b64".toList].contains type.text = type.pointerWide := by
  cases type <;> decide

theorem scanSegment_text : scanSegment p.text = some p.scanned := by
  rw [scanSegment, segmentTokens_text]
  simp only [find?_type, contains_param, contains_ptr, pointerWide_text,
    parseParamArrayBytes_text, Bool.not_true, Bool.false_eq_true, if_false]
  rfl

theorem comma_not_mem_text : ',' ∉ p.text := by
  have outside : ∀ {word}, Plain word → ',' ∉ word := by
    intro word plain mem
    exact absurd (plain.inner _ mem).1 (by decide)
  rw [text_eq, mem_append]
  rintro (before | declarator)
  · simp only [opening, mem_cons, mem_flatMap, mem_append, not_mem_nil,
      or_false] at before
    rcases before with newline | tab | ⟨word, qualifier, mem | space⟩
    · exact absurd newline (by decide)
    · exact absurd tab (by decide)
    · exact outside (p.simple_qualifiers qualifier).plain mem
    · exact absurd space (by decide)
  · exact outside p.plain_declarator declarator

end Parameter

theorem scanPtxEntryParams_printed (params : List Parameter) :
    scanPtxEntryParams (printed params) = params.map Parameter.scanned := by
  unfold scanPtxEntryParams printed
  cases params with
  | nil => rfl
  | cons first rest =>
    rw [splitOn_intercalate]
    · rw [filterMap_map]
      exact filterMap_eq_map_iff_forall_eq_some.mpr fun p _ => p.scanSegment_text
    · intro text mem
      obtain ⟨p, -, rfl⟩ := mem_map.mp mem
      exact p.comma_not_mem_text
    · simp

end CuMetal.Registration.Entries
