import CuMetal.Lib.Checked

/-!
# The metadata of a cached kernel

What `runtime/registration/registration.cpp` stores next to a cached metallib, and how it is read
back. A record is written as a magic number, the flags, the number of the printf formats, and each
format after its size.
-/

namespace CuMetal.RegistrationMetadata

/-- `RegistrationCacheMetadata` (`68-72`). -/
structure RegistrationCacheMetadata where
  printfFormats : List Text
  usesDeviceHeap : Bool
  usesDeviceLaunchQueue : Bool
  deriving DecidableEq

def kRegistrationMetadataMagic : Text := text "CUMETA01"

def kMaxRegistrationMetadataBytes : Nat := 4 * 1024 * 1024

def kMaxRegistrationPrintfFormats : Nat := 4096

def byteAt (value : BitVec 32) (shift : Nat) : UInt8 :=
  UInt8.ofBitVec (((value >>> shift) &&& 0xff).setWidth 8)

/-- `append_u32_le` (`267-271`). -/
def appendU32Le (bytes : List UInt8) (value : BitVec 32) : List UInt8 :=
  bytes ++ [0, 8, 16, 24].map (byteAt value)

/-- The loop over the formats (`301-308`), which stops at a format that is too long. -/
def writeFormats (bytes : List UInt8) : List Text → Option (List UInt8)
  | [] => some bytes
  | format :: rest =>
    if 2 ^ 32 - 1 < format.length ∨
        kMaxRegistrationMetadataBytes < bytes.length + 4 + format.length then none
    else writeFormats (appendU32Le bytes (BitVec.ofNat 32 format.length) ++ format) rest

def flagsOf (metadata : RegistrationCacheMetadata) : BitVec 32 :=
  (if metadata.usesDeviceHeap then 1 else 0) ||| (if metadata.usesDeviceLaunchQueue then 2 else 0)

/-- `write_registration_metadata` (`287-308`): the bytes of the file, if the record is accepted. -/
def writeRegistrationMetadata (metadata : RegistrationCacheMetadata) : Option (List UInt8) :=
  if kMaxRegistrationPrintfFormats < metadata.printfFormats.length then none
  else
    writeFormats
      (appendU32Le (appendU32Le kRegistrationMetadataMagic (flagsOf metadata))
        (BitVec.ofNat 32 metadata.printfFormats.length))
      metadata.printfFormats

/-- The loop of `consume_u32_le` (`281-283`). -/
def consumeBytes (bytes : List UInt8) : List Nat → Nat → BitVec 32 → Checked (BitVec 32 × Nat)
  | [], offset, value => return (value, offset)
  | shift :: rest, offset, value => do
    let byte ← readByte bytes offset
    consumeBytes bytes rest (offset + 1) (value ||| byte.toBitVec.setWidth 32 <<< shift)

/-- `consume_u32_le` (`273-285`): the word and the offset after it. -/
def consumeU32Le (bytes : List UInt8) (offset : Nat) : Checked (Option (BitVec 32 × Nat)) := do
  if bytes.length < offset ∨ bytes.length - offset < 4 then return none
  else
    let read ← consumeBytes bytes [0, 8, 16, 24] offset 0
    return some read

/-- The loop over the formats (`353-362`): the formats and the offset after them. -/
def readFormats (bytes : List UInt8) :
    Nat → Nat → List Text → Checked (Option (List Text × Nat))
  | 0, offset, parsed => return some (parsed, offset)
  | count + 1, offset, parsed => do
    match ← consumeU32Le bytes offset with
    | none => return none
    | some (size, offset) =>
      if bytes.length < offset ∨ bytes.length - offset < size.toNat then return none
      else
        let format ← readBytes bytes offset size.toNat
        readFormats bytes count (offset + size.toNat) (parsed ++ [format])

/-- `read_registration_metadata` (`327-366`) on the bytes of the file: whether it succeeds, and the
caller's record after it. -/
def readRegistrationMetadata (bytes : List UInt8) (metadata : RegistrationCacheMetadata) :
    Checked (Bool × RegistrationCacheMetadata) := do
  let failed := (false, metadata)
  if bytes.length < kRegistrationMetadataMagic.length + 8 ∨
      kMaxRegistrationMetadataBytes < bytes.length then return failed
  else
    let magic ← readBytes bytes 0 kRegistrationMetadataMagic.length
    if magic ≠ kRegistrationMetadataMagic then return failed
    else
      match ← consumeU32Le bytes kRegistrationMetadataMagic.length with
      | none => return failed
      | some (flags, offset) =>
        match ← consumeU32Le bytes offset with
        | none => return failed
        | some (count, offset) =>
          if flags &&& ~~~3 ≠ 0 ∨ kMaxRegistrationPrintfFormats < count.toNat then
            return failed
          else
            match ← readFormats bytes count.toNat offset [] with
            | none => return failed
            | some (formats, offset) =>
              if offset ≠ bytes.length then return failed
              else return (true, ⟨formats, flags &&& 1 ≠ 0, flags &&& 2 ≠ 0⟩)

end CuMetal.RegistrationMetadata
