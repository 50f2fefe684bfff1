import CuMetal.Lib.Checked
import Mathlib.Data.Nat.ModEq

/-!
# Rewriting the words of byte strings

A transfer of a byte string in pieces that rewrites every whole 8-byte word of each piece, counted
from the start of the piece, and when a second such transfer undoes a first.
-/

namespace CuMetal.WordMap

open List Option

/-- The bytes of a number, least significant byte first. -/
def toLittleEndian : Nat → Nat → List UInt8
  | 0, _ => []
  | count + 1, value => UInt8.ofNat value :: toLittleEndian count (value / 256)

theorem length_toLittleEndian (count value : Nat) :
    (toLittleEndian count value).length = count := by
  induction count generalizing value with
  | zero => rfl
  | succ count ih => rw [toLittleEndian, length_cons, ih]

theorem littleEndian_toLittleEndian (count value : Nat) :
    littleEndian (toLittleEndian count value) = value % 256 ^ count := by
  induction count generalizing value with
  | zero => simp [toLittleEndian, littleEndian, Nat.mod_one]
  | succ count ih =>
    rw [toLittleEndian, littleEndian, ih, pow_succ, mul_comm (256 ^ count) 256,
      Nat.mod_mul]
    simp

theorem toLittleEndian_littleEndian (bytes : List UInt8) :
    toLittleEndian bytes.length (littleEndian bytes) = bytes := by
  induction bytes with
  | nil => rfl
  | cons byte rest ih =>
    have small := byte.toNat_lt
    rw [length_cons, toLittleEndian, littleEndian]
    have quotient : (byte.toNat + 256 * littleEndian rest) / 256 = littleEndian rest := by omega
    have first : UInt8.ofNat (byte.toNat + 256 * littleEndian rest) = byte := by
      apply UInt8.toNat_inj.mp
      simp only [UInt8.toNat_ofNat']
      omega
    rw [quotient, first, ih]

def bytesOf (word : BitVec 64) : List UInt8 := toLittleEndian 8 word.toNat

def wordOf (bytes : List UInt8) : BitVec 64 := BitVec.ofNat 64 (littleEndian bytes)

@[simp] theorem length_bytesOf (word : BitVec 64) : (bytesOf word).length = 8 :=
  length_toLittleEndian 8 _

@[simp] theorem wordOf_bytesOf (word : BitVec 64) : wordOf (bytesOf word) = word := by
  apply BitVec.eq_of_toNat_eq
  have small := word.isLt
  rw [wordOf, bytesOf, littleEndian_toLittleEndian, BitVec.toNat_ofNat]
  omega

variable {bytes : List UInt8} {position i : Nat} {lengths : List Nat}

theorem bytesOf_wordOf (eight : bytes.length = 8) :
    bytesOf (wordOf bytes) = bytes := by
  have small := littleEndian_lt bytes
  rw [eight] at small
  rw [bytesOf, wordOf, BitVec.toNat_ofNat, Nat.mod_eq_of_lt (by omega), ← eight]
  exact toLittleEndian_littleEndian bytes

theorem bytesOf_injective {first second : BitVec 64} (same : bytesOf first = bytesOf second) :
    first = second := by
  rw [← wordOf_bytesOf first, same, wordOf_bytesOf]

def wordAtPosition (bytes : List UInt8) (position : Nat) : BitVec 64 :=
  wordOf (bytesAt bytes position 8)

def mapWords (rewrite : BitVec 64 → BitVec 64) : List UInt8 → List UInt8
  | b0 :: b1 :: b2 :: b3 :: b4 :: b5 :: b6 :: b7 :: rest =>
    bytesOf (rewrite (wordOf [b0, b1, b2, b3, b4, b5, b6, b7])) ++ mapWords rewrite rest
  | rest => rest

variable {rewrite : BitVec 64 → BitVec 64}

/-- A string has a whole word, followed by the rest, or is too short for one. -/
theorem mapWords_cases (rewrite : BitVec 64 → BitVec 64) (bytes : List UInt8) :
    (bytes.length < 8 ∧ mapWords rewrite bytes = bytes) ∨
      (8 ≤ bytes.length ∧ mapWords rewrite bytes =
        bytesOf (rewrite (wordOf (bytes.take 8))) ++ mapWords rewrite (bytes.drop 8)) := by
  rcases lt_or_ge bytes.length 8 with short | long
  · refine .inl ⟨short, ?_⟩
    rw [mapWords]
    intro b0 b1 b2 b3 b4 b5 b6 b7 rest whole
    rw [whole] at short
    simp at short
    omega
  · match bytes, long with
    | b0 :: b1 :: b2 :: b3 :: b4 :: b5 :: b6 :: b7 :: rest, long => exact .inr ⟨long, rfl⟩

@[simp] theorem length_mapWords (rewrite : BitVec 64 → BitVec 64) (bytes : List UInt8) :
    (mapWords rewrite bytes).length = bytes.length := by
  induction size : bytes.length using Nat.strongRecOn generalizing bytes with
  | ind n ih =>
    rcases mapWords_cases rewrite bytes with ⟨-, same⟩ | ⟨long, split⟩
    · rw [same, size]
    · rw [split, length_append, length_bytesOf, ih _ (by simp; omega) (bytes.drop 8) rfl,
        length_drop]
      omega

/-- A byte of the rewritten string lies in a rewritten word or is unchanged. -/
theorem getElem?_mapWords (rewrite : BitVec 64 → BitVec 64) (bytes : List UInt8) (i : Nat) :
    (mapWords rewrite bytes)[i]? =
      if i - i % 8 + 8 ≤ bytes.length then
        (bytesOf (rewrite (wordAtPosition bytes (i - i % 8))))[i % 8]?
      else bytes[i]? := by
  induction size : bytes.length using Nat.strongRecOn generalizing bytes i with
  | ind n ih =>
    rcases mapWords_cases rewrite bytes with ⟨short, same⟩ | ⟨long, split⟩
    · rw [same, if_neg (by omega)]
    · rw [split]
      rcases lt_or_ge i 8 with first | later
      · rw [getElem?_append_left (by simpa using first), if_pos (by omega)]
        have start : i - i % 8 = 0 := by omega
        have place : i % 8 = i := by omega
        simp [place, wordAtPosition, bytesAt]
      · rw [getElem?_append_right (by simpa using later), length_bytesOf,
          ih _ (by simp; omega) (bytes.drop 8) (i - 8) rfl, length_drop]
        have place : (i - 8) % 8 = i % 8 := by omega
        have start : 8 + (i - 8 - i % 8) = i - i % 8 := by omega
        have inside : i - 8 - i % 8 + 8 ≤ n - 8 ↔ i - i % 8 + 8 ≤ n := by omega
        have word : wordAtPosition (bytes.drop 8) (i - 8 - i % 8) =
            wordAtPosition bytes (i - i % 8) := by
          rw [wordAtPosition, wordAtPosition, bytesAt, bytesAt, drop_drop, start]
        have rest : (bytes.drop 8)[i - 8]? = bytes[i]? := by
          rw [getElem?_drop]
          congr 1
          omega
        simp only [place, size, inside, word, rest]

theorem getElem?_of_wordAtPosition (bytes : List UInt8)
    (inside : position + 8 ≤ bytes.length) (low : position ≤ i) (high : i < position + 8) :
    (bytesOf (wordAtPosition bytes position))[i - position]? = bytes[i]? := by
  have eight : (bytesAt bytes position 8).length = 8 := by
    rw [bytesAt, length_take, length_drop]
    omega
  rw [wordAtPosition, bytesOf_wordOf eight, bytesAt, getElem?_take_of_lt (by omega),
    getElem?_drop]
  congr 1
  omega

/-- Every whole word of the bytes is one that is not rewritten. -/
def Untouched (rewrite : BitVec 64 → BitVec 64) (bytes : List UInt8) : Prop :=
  ∀ position, position % 8 = 0 → position + 8 ≤ bytes.length →
    rewrite (wordAtPosition bytes position) = wordAtPosition bytes position

theorem mapWords_eq_self_iff (rewrite : BitVec 64 → BitVec 64) (bytes : List UInt8) :
    mapWords rewrite bytes = bytes ↔ Untouched rewrite bytes := by
  constructor
  · intro same position aligned inside
    apply bytesOf_injective
    apply ext_getElem?
    intro i
    rcases lt_or_ge i 8 with small | large
    · have start : position + i - (position + i) % 8 = position := by omega
      have place : (position + i) % 8 = i := by omega
      have byte := getElem?_mapWords rewrite bytes (position + i)
      have original := getElem?_of_wordAtPosition _ inside (Nat.le_add_right position i) (by omega)
      rw [same, start, place, if_pos inside] at byte
      rw [← byte, ← original, Nat.add_sub_cancel_left]
    · rw [getElem?_eq_none (by simpa using large),
        getElem?_eq_none (by simpa using large)]
  · intro untouched
    apply ext_getElem?
    intro i
    rw [getElem?_mapWords]
    by_cases inside : i - i % 8 + 8 ≤ bytes.length
    · have place : i - (i - i % 8) = i % 8 := by omega
      have byte := getElem?_of_wordAtPosition _ (i := i) inside (by omega) (by omega)
      rw [place] at byte
      rw [if_pos inside, untouched _ (by omega) inside, byte]
    · rw [if_neg inside]

/-- The bytes transferred in pieces of the given lengths. -/
def mapPieces (rewrite : BitVec 64 → BitVec 64) : List Nat → List UInt8 → List UInt8
  | [], bytes => bytes
  | length :: rest, bytes =>
    mapWords rewrite (bytes.take length) ++ mapPieces rewrite rest (bytes.drop length)

/-- The start of the whole word of a piece that covers a position, if one does. -/
def coverOf : List Nat → Nat → Option Nat
  | [], _ => none
  | length :: rest, i =>
    if i < length then
      if i - i % 8 + 8 ≤ length then some (i - i % 8) else none
    else (coverOf rest (i - length)).map (length + ·)

/-- A position where a whole word of a piece starts. -/
def IsWord (lengths : List Nat) (position : Nat) : Prop := coverOf lengths position = some position

instance (lengths : List Nat) (position : Nat) : Decidable (IsWord lengths position) :=
  inferInstanceAs (Decidable (_ = _))

theorem coverOf_spec (cover : coverOf lengths i = some position) :
    position ≤ i ∧ i < position + 8 ∧ position + 8 ≤ lengths.sum ∧
      ∀ j, position ≤ j → j < position + 8 → coverOf lengths j = some position := by
  induction lengths generalizing i position with
  | nil => cases cover
  | cons length rest ih =>
    rw [coverOf] at cover
    split at cover
    next inside =>
      split at cover
      next whole =>
        cases cover
        refine ⟨by omega, by omega, by rw [sum_cons]; omega, fun j low high => ?_⟩
        have aligned : j - j % 8 = i - i % 8 := by omega
        rw [coverOf, if_pos (by omega), aligned, if_pos whole]
      · cases cover
    next outside =>
      obtain ⟨start, found, rfl⟩ := map_eq_some_iff.mp cover
      obtain ⟨low, high, inside, same⟩ := ih found
      refine ⟨by omega, by omega, by rw [sum_cons]; omega, fun j below above => ?_⟩
      rw [coverOf, if_neg (by omega), same (j - length) (by omega) (by omega)]
      rfl

theorem isWord_of_cover (cover : coverOf lengths i = some position) : IsWord lengths position :=
  (coverOf_spec cover).2.2.2 position (le_refl _) (by omega)

theorem IsWord.eq_of_overlap {first second : Nat}
    (word : IsWord lengths first) (word' : IsWord lengths second)
    (overlap : first < second + 8 ∧ second < first + 8) : first = second := by
  obtain ⟨-, -, -, same⟩ := coverOf_spec word
  obtain ⟨-, -, -, same'⟩ := coverOf_spec word'
  rcases le_total first second with less | less
  · exact some.inj ((same second less overlap.2).symm.trans word')
  · exact some.inj (word.symm.trans (same' first less overlap.1))

@[simp] theorem length_mapPieces (rewrite : BitVec 64 → BitVec 64) (lengths : List Nat)
    (bytes : List UInt8) : (mapPieces rewrite lengths bytes).length = bytes.length := by
  induction lengths generalizing bytes with
  | nil => rfl
  | cons length rest ih =>
    rw [mapPieces, length_append, length_mapWords, ih, length_take, length_drop]
    omega

/-- A byte transferred in pieces lies in a rewritten word or is unchanged. -/
theorem getElem?_mapPieces (rewrite : BitVec 64 → BitVec 64)
 (inside : lengths.sum ≤ bytes.length) (i : Nat) :
    (mapPieces rewrite lengths bytes)[i]? =
      match coverOf lengths i with
      | some position => (bytesOf (rewrite (wordAtPosition bytes position)))[i - position]?
      | none => bytes[i]? := by
  induction lengths generalizing bytes i with
  | nil => rfl
  | cons length rest ih =>
    rw [sum_cons] at inside
    have taken : (bytes.take length).length = length := by
      rw [length_take]
      omega
    rw [mapPieces, coverOf]
    rcases lt_or_ge i length with here | later
    · rw [getElem?_append_left (by rw [length_mapWords, taken]; exact here),
        getElem?_mapWords, taken, if_pos here]
      by_cases whole : i - i % 8 + 8 ≤ length
      · have word : wordAtPosition (bytes.take length) (i - i % 8) =
            wordAtPosition bytes (i - i % 8) := by
          rw [wordAtPosition, wordAtPosition, bytesAt, bytesAt, drop_take, take_take,
            min_eq_left (by omega)]
        have place : i - (i - i % 8) = i % 8 := by omega
        simp only [whole, if_true, word, place]
      · simp only [whole, if_false]
        rw [getElem?_take_of_lt here]
    · rw [getElem?_append_right (by rw [length_mapWords, taken]; exact later),
        length_mapWords, taken, ih (by rw [length_drop]; omega), if_neg (by omega)]
      cases cover : coverOf rest (i - length) with
      | none =>
        simp only [map_none, getElem?_drop]
        congr 1
        omega
      | some position =>
        have word : wordAtPosition (bytes.drop length) position =
            wordAtPosition bytes (length + position) := by
          rw [wordAtPosition, wordAtPosition, bytesAt, bytesAt, drop_drop]
        have place : i - length - position = i - (length + position) := by omega
        simp only [map_some, word, place]

theorem wordAtPosition_congr {first second : List UInt8}
    (same : ∀ i, position ≤ i → i < position + 8 → first[i]? = second[i]?) :
    wordAtPosition first position = wordAtPosition second position := by
  have bytes : bytesAt first position 8 = bytesAt second position 8 := by
    apply ext_getElem?
    intro i
    rw [bytesAt, bytesAt, getElem?_take, getElem?_take, getElem?_drop,
      getElem?_drop]
    split
    · exact same _ (by omega) (by omega)
    · rfl
  rw [wordAtPosition, wordAtPosition, bytes]

theorem wordAtPosition_mapPieces (rewrite : BitVec 64 → BitVec 64)
 (inside : lengths.sum ≤ bytes.length) (word : IsWord lengths position) :
    wordAtPosition (mapPieces rewrite lengths bytes) position =
      rewrite (wordAtPosition bytes position) := by
  obtain ⟨-, -, reach, same⟩ := coverOf_spec word
  apply bytesOf_injective
  apply ext_getElem?
  intro i
  rcases lt_or_ge i 8 with small | large
  · have there := getElem?_of_wordAtPosition (mapPieces rewrite lengths bytes)
      (by rw [length_mapPieces]; omega) (Nat.le_add_right position i) (by omega)
    rw [getElem?_mapPieces rewrite inside, same _ (by omega) (by omega)] at there
    simpa using there
  · rw [getElem?_eq_none (by simpa using large), getElem?_eq_none (by simpa using large)]

/-! ## There and back -/

/-- A rewriting that acts once, and does not see whether another one came before it. -/
structure Undoes (restore relocate : BitVec 64 → BitVec 64) : Prop where
  absorbs : ∀ word, restore (relocate word) = restore word
  idempotent : ∀ word, restore (restore word) = restore word

/-- Every byte that the first transfer changes at a word lies in another word, one of the second
transfer, that happens to be given back. -/
def Mended (restore relocate : BitVec 64 → BitVec 64) (there back : List Nat)
    (bytes : List UInt8) (position : Nat) : Prop :=
  ∀ i, position ≤ i → i < position + 8 → (mapPieces relocate there bytes)[i]? ≠ bytes[i]? →
    ∃ word, word ≠ position ∧ coverOf back i = some word ∧
      restore (wordAtPosition (mapPieces relocate there bytes) word) = wordAtPosition bytes word

/-- No word of the second transfer is one that it rewrites, and each word that the first one
rewrites is a word of the second one too (or is mended by words that overlap it). -/
structure Cancels (restore relocate : BitVec 64 → BitVec 64) (there back : List Nat)
    (bytes : List UInt8) : Prop where
  fixed : ∀ position, IsWord back position →
    restore (wordAtPosition bytes position) = wordAtPosition bytes position
  paired : ∀ position, IsWord there position →
    relocate (wordAtPosition bytes position) ≠ wordAtPosition bytes position →
    IsWord back position ∨ Mended restore relocate there back bytes position

section RoundTrip

variable {restore relocate : BitVec 64 → BitVec 64} {there back : List Nat} {bytes : List UInt8}

theorem getElem?_mapPieces_of_uncovered (rewrite : BitVec 64 → BitVec 64) {lengths : List Nat}
    {bytes : List UInt8} (inside : lengths.sum ≤ bytes.length)
    {i : Nat} (uncovered : coverOf lengths i = none) :
    (mapPieces rewrite lengths bytes)[i]? = bytes[i]? := by
  rw [getElem?_mapPieces rewrite inside, uncovered]

theorem changed_word {lengths : List Nat} (inside : lengths.sum ≤ bytes.length) {i : Nat}
    (changed : (mapPieces rewrite lengths bytes)[i]? ≠ bytes[i]?) :
    ∃ position, coverOf lengths i = some position ∧
      rewrite (wordAtPosition bytes position) ≠ wordAtPosition bytes position := by
  cases cover : coverOf lengths i with
  | none => exact absurd (getElem?_mapPieces_of_uncovered _ inside cover) changed
  | some position =>
    refine ⟨position, rfl, fun same => changed ?_⟩
    obtain ⟨low, high, reach, -⟩ := coverOf_spec cover
    rw [getElem?_mapPieces rewrite inside, cover]
    show (bytesOf (rewrite (wordAtPosition bytes position)))[i - position]? = bytes[i]?
    rw [same, getElem?_of_wordAtPosition _ (by omega) low high]

theorem Cancels.word (undoes : Undoes restore relocate) (inside : there.sum ≤ bytes.length)
    (cancels : Cancels restore relocate there back bytes) {word : Nat}
    (covers : IsWord back word) :
    restore (wordAtPosition (mapPieces relocate there bytes) word) =
      wordAtPosition bytes word := by
  by_cases same : ∀ i, word ≤ i → i < word + 8 →
      (mapPieces relocate there bytes)[i]? = bytes[i]?
  · rw [wordAtPosition_congr same]
    exact cancels.fixed word covers
  · simp only [not_forall] at same
    obtain ⟨i, low, high, changed⟩ := same
    obtain ⟨position, cover, rewritten⟩ := changed_word inside changed
    obtain ⟨-, -, -, covered⟩ := coverOf_spec covers
    obtain ⟨below, above, -, -⟩ := coverOf_spec cover
    rcases cancels.paired position (isWord_of_cover cover) rewritten with paired | mended
    · obtain rfl := paired.eq_of_overlap covers ⟨by omega, by omega⟩
      rw [wordAtPosition_mapPieces relocate inside (isWord_of_cover cover), undoes.absorbs]
      exact cancels.fixed position covers
    · obtain ⟨other, -, found, restored⟩ := mended i below above changed
      obtain rfl := some.inj ((covered i low high).symm.trans found)
      exact restored

/-- The second transfer gives back what the first one was given exactly when their rewritings
cancel. -/
theorem roundTrip_iff (undoes : Undoes restore relocate) (thereLength : there.sum = bytes.length)
    (backLength : back.sum = bytes.length) :
    mapPieces restore back (mapPieces relocate there bytes) = bytes ↔
      Cancels restore relocate there back bytes := by
  have thereInside : there.sum ≤ bytes.length := le_of_eq thereLength
  have backInside : back.sum ≤ (mapPieces relocate there bytes).length := by
    rw [length_mapPieces]
    exact le_of_eq backLength
  constructor
  · intro same
    have restored : ∀ word, IsWord back word →
        restore (wordAtPosition (mapPieces relocate there bytes) word) =
          wordAtPosition bytes word := by
      intro word covers
      rw [← wordAtPosition_mapPieces restore backInside covers, same]
    constructor
    · intro word covers
      rw [← restored word covers, undoes.idempotent]
    · intro position covers rewritten
      by_cases paired : IsWord back position
      · exact .inl paired
      refine .inr fun i low high changed => ?_
      cases cover : coverOf back i with
      | none =>
        have kept := getElem?_mapPieces_of_uncovered restore backInside cover
        rw [same] at kept
        exact absurd kept.symm changed
      | some word =>
        have backCovers := isWord_of_cover cover
        refine ⟨word, ?_, rfl, restored word backCovers⟩
        rintro rfl
        exact paired backCovers
  · intro cancels
    apply ext_getElem?
    intro i
    cases cover : coverOf back i with
    | none =>
      rw [getElem?_mapPieces_of_uncovered _ backInside cover]
      by_contra changed
      obtain ⟨position, found, rewritten⟩ := changed_word thereInside changed
      obtain ⟨low, high, -, -⟩ := coverOf_spec found
      rcases cancels.paired position (isWord_of_cover found) rewritten with paired | mended
      · obtain ⟨-, -, -, covered⟩ := coverOf_spec paired
        rw [covered i low high] at cover
        cases cover
      · obtain ⟨word, -, covered, -⟩ := mended i low high changed
        rw [covered] at cover
        cases cover
    | some word =>
      obtain ⟨low, high, reach, -⟩ := coverOf_spec cover
      rw [getElem?_mapPieces restore backInside, cover]
      show (bytesOf (restore (wordAtPosition (mapPieces relocate there bytes) word)))[i - word]? =
        bytes[i]?
      rw [cancels.word undoes thereInside (isWord_of_cover cover),
        getElem?_of_wordAtPosition _ (by omega) low high]

end RoundTrip

def pieces : Nat → List Nat → List (Nat × Nat)
  | _, [] => []
  | start, length :: rest => (start, length) :: pieces (start + length) rest

theorem pieces_bounds {start : Nat} {lengths : List Nat} {piece : Nat × Nat}
    (mem : piece ∈ pieces start lengths) :
    start ≤ piece.1 ∧ piece.1 + piece.2 ≤ start + lengths.sum := by
  induction lengths generalizing start with
  | nil => cases mem
  | cons length rest ih =>
    rw [sum_cons]
    rcases mem_cons.mp mem with rfl | later
    · exact ⟨le_refl _, by omega⟩
    · have bounds := ih later
      omega

def Apart (first second : Nat × Nat) : Prop :=
  first.1 + first.2 ≤ second.1 ∨ second.1 + second.2 ≤ first.1

theorem pieces_apart (start : Nat) (lengths : List Nat) :
    (pieces start lengths).Pairwise Apart := by
  induction lengths generalizing start with
  | nil => exact Pairwise.nil
  | cons length rest ih =>
    apply Pairwise.cons
    · intro piece mem
      exact .inl (pieces_bounds mem).1
    · exact ih _

/-- Every position lies in a piece, and the transferred byte there is the piece's own. -/
theorem piece_of_position (rewrite : BitVec 64 → BitVec 64) {lengths : List Nat}
    {bytes : List UInt8} (inside : lengths.sum ≤ bytes.length) (start : Nat) {i : Nat}
    (low : i < lengths.sum) :
    ∃ piece ∈ pieces start lengths, piece.1 ≤ start + i ∧ start + i < piece.1 + piece.2 ∧
      (mapPieces rewrite lengths bytes)[i]? =
        (mapWords rewrite (bytesAt bytes (piece.1 - start) piece.2))[start + i - piece.1]? := by
  induction lengths generalizing bytes start i with
  | nil => exact absurd low (Nat.not_lt_zero _)
  | cons length rest ih =>
    rw [sum_cons] at inside low
    have taken : (bytes.take length).length = length := by
      rw [length_take]
      omega
    rw [mapPieces]
    rcases lt_or_ge i length with here | later
    · refine ⟨(start, length), mem_cons_self, by simp, by simpa using here, ?_⟩
      rw [getElem?_append_left (by rw [length_mapWords, taken]; exact here)]
      simp [bytesAt]
    · obtain ⟨piece, mem, below, above, byte⟩ :=
        ih (show rest.sum ≤ (bytes.drop length).length by rw [length_drop]; omega)
          (start + length) (i := i - length) (by omega)
      refine ⟨piece, mem_cons_of_mem _ mem, by omega, by omega, ?_⟩
      have beyond := (pieces_bounds mem).1
      rw [getElem?_append_right (by rw [length_mapWords, taken]; exact later),
        length_mapWords, taken, byte]
      have window : bytesAt (bytes.drop length) (piece.1 - (start + length)) piece.2 =
          bytesAt bytes (piece.1 - start) piece.2 := by
        rw [bytesAt, bytesAt, drop_drop]
        congr 2
        omega
      have place : start + length + (i - length) - piece.1 = start + i - piece.1 := by omega
      rw [window, place]

end CuMetal.WordMap
