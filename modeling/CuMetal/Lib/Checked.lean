import Mathlib.Algebra.Group.Nat.Defs
import Mathlib.Tactic.Common

/-!
# Computations that read memory

A computation over byte memories delivers a value, or stops at a read outside of its
memory, or exhausts the fuel of a loop.  `Meets` tells the three apart and never allows
the last one; `Returns` is total correctness.
-/

namespace CuMetal

open List

/-- A sum of 64-bit words. -/
def add64 (a b : Nat) : Nat := (a + b) % 2 ^ 64

def add32 (a b : Nat) : Nat := (a + b) % 2 ^ 32

theorem add64_of_lt {a b : Nat} (fits : a + b < 2 ^ 64) : add64 a b = a + b :=
  Nat.mod_eq_of_lt fits

theorem add64_lt (a b : Nat) : add64 a b < 2 ^ 64 := Nat.mod_lt _ (by decide)

/-- Why a computation delivers nothing. -/
inductive Fault
  | outOfBounds (index : Nat)
  | outOfFuel
  deriving DecidableEq, Repr

/-- A computation whose reads are checked. -/
abbrev Checked (α : Type) := Except Fault α

section

variable {α β σ : Type}

/-- The computation delivers a value with the property, or `escapes` holds and it makes a
    read outside of its memory. -/
def Meets (escapes : Prop) (computation : Checked α) (post : α → Prop) : Prop :=
  match computation with
  | .ok value => post value
  | .error (.outOfBounds _) => escapes
  | .error .outOfFuel => False

/-- The computation delivers a value with the property. -/
def Returns (computation : Checked α) (post : α → Prop) : Prop := Meets False computation post

variable {escapes : Prop} {computation : Checked α} {post mid : α → Prop}

theorem returns_iff : Returns computation post ↔ ∃ value, computation = .ok value ∧ post value := by
  unfold Returns Meets
  cases computation with
  | ok value => simp
  | error fault => cases fault <;> simp

variable {value : α} {next : α → Checked β}

theorem Meets.pure (holds : post value) :
    Meets escapes (Pure.pure value : Checked α) post := holds

theorem Meets.of_eq (delivers : computation = .ok value) (holds : post value) :
    Meets escapes computation post := by
  rw [delivers]
  exact holds

theorem Meets.bind_of_eq {post : β → Prop} (delivers : computation = .ok value)
    (rest : Meets escapes (next value) post) : Meets escapes (computation >>= next) post := by
  rw [delivers]
  exact rest

theorem Meets.mono (meets : Meets escapes computation mid) (weaker : ∀ value, mid value → post value) :
    Meets escapes computation post := by
  cases computation with
  | ok value => exact weaker value meets
  | error fault => cases fault <;> exact meets

theorem Meets.escapes_mono {others : Prop} (meets : Meets escapes computation post)
    (weaker : escapes → others) : Meets others computation post := by
  cases computation with
  | ok value => exact meets
  | error fault =>
    cases fault with
    | outOfBounds index => exact weaker meets
    | outOfFuel => exact meets

theorem Meets.bind {post : β → Prop} (first : Meets escapes computation mid)
    (second : ∀ value, mid value → Meets escapes (next value) post) :
    Meets escapes (computation >>= next) post := by
  cases computation with
  | ok value => exact second value first
  | error fault => cases fault <;> exact first

/-- `Meets.bind` with the property between the two computations written out. -/
theorem Meets.seq {post : β → Prop} (mid : α → Prop) (first : Meets escapes computation mid)
    (second : ∀ value, mid value → Meets escapes (next value) post) :
    Meets escapes (computation >>= next) post := Meets.bind first second

theorem Returns.meets (returns : Returns computation post) : Meets escapes computation post := by
  obtain ⟨value, delivers, holds⟩ := returns_iff.mp returns
  exact .of_eq delivers holds

/-- A loop whose body goes on with a new state or leaves with a result. -/
def loop (body : σ → Checked (σ ⊕ α)) : Nat → σ → Checked α
  | 0, _ => .error .outOfFuel
  | fuel + 1, state => do
    match ← body state with
    | .inl next => loop body fuel next
    | .inr result => return result

/-- With an invariant and a measure that every pass lowers, enough fuel is never used up. -/
theorem Meets.loop (body : σ → Checked (σ ⊕ α)) (Inv : σ → Prop) (measure : σ → Nat)
    (step : ∀ state, Inv state → Meets escapes (body state) fun
      | .inl next => Inv next ∧ measure next < measure state
      | .inr result => post result) :
    ∀ (fuel : Nat) (state : σ), Inv state → measure state < fuel →
      Meets escapes (loop body fuel state) post := by
  intro fuel
  induction fuel with
  | zero => intro state _ few; omega
  | succ fuel ih =>
    intro state holds few
    refine (step state holds).bind fun next good => ?_
    cases next with
    | inl next => exact ih next good.1 (by omega)
    | inr result => exact good

/-- The loop `for (i = start; condition i; ++i)` over a state. -/
def forLoop (condition : Nat → Bool) (body : Nat → σ → Checked σ) (fuel start : Nat) (state : σ) :
    Checked σ :=
  loop (fun current : Nat × σ => do
    if condition current.1 then
      let next ← body current.1 current.2
      return .inl (current.1 + 1, next)
    else return .inr current.2) fuel (start, state)

theorem Meets.forLoop {condition : Nat → Bool} {body : Nat → σ → Checked σ} (Inv : Nat → σ → Prop)
    (limit : Nat) {fuel start : Nat} {state : σ} {post : σ → Prop}
    (bounded : ∀ i ≤ limit, condition i = true → i < limit)
    (step : ∀ i state, i < limit → condition i = true → Inv i state →
      Meets escapes (body i state) (Inv (i + 1)))
    (done : ∀ i state, Inv i state → post state)
    (holds : Inv start state) (within : start ≤ limit) (enough : limit - start < fuel) :
    Meets escapes (forLoop condition body fuel start state) post := by
  refine Meets.loop _ (fun current => current.1 ≤ limit ∧ Inv current.1 current.2)
    (fun current => limit - current.1) ?_ fuel (start, state) ⟨within, holds⟩ enough
  rintro ⟨i, state⟩ ⟨below, inv⟩
  by_cases go : condition i = true
  · have less := bounded i below go
    simp only [go, if_true]
    refine (step i state less go inv).bind fun next good => ?_
    exact ⟨⟨less, good⟩, by simp only; omega⟩
  · simp only [go, Bool.false_eq_true, if_false]
    exact done i state inv

end

/-- An object of bytes; the size of an object is below 2^63. -/
structure ByteVector where
  data : List UInt8
  size_lt : data.length < 2 ^ 63

def ByteVector.size (bytes : ByteVector) : Nat := bytes.data.length

abbrev Text := List UInt8

def text (literal : String) : Text := literal.toList.map fun c => UInt8.ofNat c.toNat

def readByte (memory : List UInt8) (index : Nat) : Checked UInt8 :=
  match memory[index]? with
  | some byte => .ok byte
  | none => .error (.outOfBounds index)

def readBytes (memory : List UInt8) : Nat → Nat → Checked (List UInt8)
  | _, 0 => return []
  | index, count + 1 => do
    let byte ← readByte memory index
    let rest ← readBytes memory (index + 1) count
    return byte :: rest

/-- The number that bytes encode, least significant byte first. -/
def littleEndian : List UInt8 → Nat
  | [] => 0
  | byte :: rest => byte.toNat + 256 * littleEndian rest

def readWord (memory : List UInt8) (index width : Nat) : Checked Nat := do
  let bytes ← readBytes memory index width
  return littleEndian bytes

def bytesAt (memory : List UInt8) (index count : Nat) : List UInt8 := (memory.drop index).take count

def wordAt (memory : List UInt8) (index width : Nat) : Nat :=
  littleEndian (bytesAt memory index width)

variable {memory : List UInt8} {index count width : Nat}

theorem readByte_eq (inside : index < memory.length) : readByte memory index = .ok memory[index] := by
  rw [readByte, getElem?_eq_getElem inside]

theorem readByte_outside (outside : memory.length ≤ index) :
    readByte memory index = .error (.outOfBounds index) := by
  rw [readByte, getElem?_eq_none outside]

theorem readBytes_eq (inside : index + count ≤ memory.length) :
    readBytes memory index count = .ok (bytesAt memory index count) := by
  induction count generalizing index with
  | zero => simp [readBytes, bytesAt]; rfl
  | succ count ih =>
    have here : index < memory.length := by omega
    rw [readBytes, readByte_eq here, ih (by omega), bytesAt, bytesAt,
      drop_eq_getElem_cons here, take_succ_cons]
    rfl

theorem readBytes_outside (outside : memory.length ≤ index) :
    readBytes memory index (count + 1) = .error (.outOfBounds index) := by
  rw [readBytes, readByte_outside outside]
  rfl

theorem readWord_eq (inside : index + width ≤ memory.length) :
    readWord memory index width = .ok (wordAt memory index width) := by
  rw [readWord, readBytes_eq inside]
  rfl

theorem readWord_outside (outside : memory.length ≤ index) :
    readWord memory index (width + 1) = .error (.outOfBounds index) := by
  rw [readWord, readBytes_outside outside]
  rfl

theorem littleEndian_lt (bytes : List UInt8) : littleEndian bytes < 256 ^ bytes.length := by
  induction bytes with
  | nil => decide
  | cons byte rest ih =>
    have small := byte.toNat_lt
    rw [littleEndian, length_cons, pow_succ]
    omega

theorem wordAt_lt (memory : List UInt8) (index width : Nat) :
    wordAt memory index width < 256 ^ width := by
  refine Nat.lt_of_lt_of_le (littleEndian_lt _) (Nat.pow_le_pow_right (by decide) ?_)
  exact length_take_le _ _

end CuMetal
