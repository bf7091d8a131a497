import CyberRT.Lib.Fd
import CyberRT.Record.Proto
import Mathlib.Algebra.Group.Int.Defs

namespace CyberRT.Record
open Posix

def HEADER_LENGTH : Nat := 2048

/-- `sizeof(Section)` -/
def sizeofSection : Nat := 16

/-- The greatest value of `int`. -/
def INT_MAX : Int := 2 ^ 31 - 1

def INT64_MAX : Int := 2 ^ 63 - 1

/-- A `uint64_t` read as an `int64_t`. -/
def int64 (value : Nat) : Int :=
  if value < 2 ^ 63 then value else value - 2 ^ 64

/-- The header of a section. It is read as bytes, so that the type may be any number. -/
structure Section where
  type : Nat
  size : Int
  deriving DecidableEq

namespace SectionType

def code : SectionType → Nat
  | .header => 0
  | .chunkHeader => 1
  | .chunkBody => 2
  | .index => 3
  | .channel => 4

def ofCode : Nat → Option SectionType
  | 0 => some .header
  | 1 => some .chunkHeader
  | 2 => some .chunkBody
  | 3 => some .index
  | 4 => some .channel
  | _ => none

@[simp] theorem ofCode_code (type : SectionType) : ofCode type.code = some type := by
  cases type <;> rfl

end SectionType

namespace Section

/-- The bytes of the struct: type, padding and size. -/
def encode (type : SectionType) (size : Nat) : List UInt8 :=
  littleEndian 4 type.code ++ littleEndian 4 0 ++ littleEndian 8 size

def decode (data : List UInt8) : Section where
  type := ofLittleEndian (data.take 4)
  size := int64 (ofLittleEndian (data.drop 8))

@[simp] theorem encode_length (type : SectionType) (size : Nat) : (encode type size).length = sizeofSection := by
  simp [encode, sizeofSection]

/-- Sizes from 2^63 on are read as negative ones. -/
theorem decode_encode (type : SectionType) {size : Nat} (fits : size < 2 ^ 64) :
    decode (encode type size) = ⟨type.code, int64 size⟩ := by
  have first : (encode type size).take 4 = littleEndian 4 type.code := by
    rw [encode, List.append_assoc, List.take_left' (by simp)]
  have last : (encode type size).drop 8 = littleEndian 8 size := by
    rw [encode, List.drop_left' (by simp)]
  have code : type.code % 256 ^ 4 = type.code := by cases type <;> rfl
  have whole : size % 256 ^ 8 = size := Nat.mod_eq_of_lt (by omega)
  rw [decode, first, last, ofLittleEndian_littleEndian, ofLittleEndian_littleEndian, code, whole]

end Section

/-- How `ParseFromCodedStream` ends. -/
inductive ParseStatus
  | parsed
  | failed (expectAtEnd : Bool)
  | unconsumed
  deriving DecidableEq

/-- The protobuf code of a message type. -/
structure Codec (T : Type) where
  encode : T → List UInt8
  /-- What a message holds after it was parsed from a stream with a limit, of which the bytes up to the limit or the end
  of the file are given. -/
  parse : Int → List UInt8 → T × ParseStatus
  /-- How many of the bytes a stream takes from the file whose limit is not positive: whole blocks of the default
  size. -/
  taken : Int → List UInt8 → Nat

namespace Codec
variable {T : Type}

def byteSizeLong (c : Codec T) (message : T) : Nat :=
  (c.encode message).length

end Codec

structure Protobuf where
  header : Codec Header
  chunkHeader : Codec ChunkHeader
  chunkBody : Codec ChunkBody
  index : Codec Index
  channel : Codec Channel

end CyberRT.Record
