import CyberRT.Record.Format

namespace CyberRT.Record
open Posix

structure RecordFileReader where
  fd : Fd
  header : Header
  index : Index
  endOfFile : Bool

namespace RecordFileReader

def setPosition (r : RecordFileReader) (position : Int) : Option RecordFileReader :=
  (r.fd.lseek position).map fun fd => { r with fd := fd }

def reset (r : RecordFileReader) : Bool × RecordFileReader :=
  match r.setPosition (sizeofSection + HEADER_LENGTH : Nat) with
  | none => (false, r)
  | some r => (true, { r with endOfFile := false })

/-- `ReadSection` of the header of a section. -/
def readSection (r : RecordFileReader) : Option Section × RecordFileReader :=
  let (data, fd) := r.fd.read sizeofSection
  if data.length = 0 then (none, { r with fd := fd, endOfFile := true })
  else if data.length ≠ sizeofSection then (none, { r with fd := fd })
  else (some (Section.decode data), { r with fd := fd })

def skipSection (r : RecordFileReader) (size : Int) : Bool × RecordFileReader :=
  let pos : Int := r.fd.pos
  if size > INT64_MAX - pos then (false, r)
  else
    match r.setPosition (pos + size) with
    | none => (false, r)
    | some r => (true, r)

section
variable {T : Type}

/-- What a stream with the limit sees of the rest of the file: all of it, if the limit is negative. -/
def limited (size : Int) (rest : List UInt8) : List UInt8 :=
  if size < 0 then rest else rest.take size.toNat

/-- How many bytes the stream takes from the file: blocks of the size of the section, if this is positive. -/
def taken (c : Codec T) (size : Int) (rest : List UInt8) : Nat :=
  if 0 < size then min size.toNat rest.length else c.taken size rest

/-- `ReadSection<T>`: whether it succeeds, what the message holds afterwards, and the reader. -/
def readSectionOf (c : Codec T) (r : RecordFileReader) (size : Int) (message : T) : Bool × T × RecordFileReader :=
  if size < -INT_MAX - 1 ∨ size > INT_MAX then (false, message, r)
  else
    let rest := r.fd.rest
    let r := { r with fd := { r.fd with pos := r.fd.pos + taken c size rest } }
    match c.parse size (limited size rest) with
    | (message, .failed expectAtEnd) => (false, message, { r with endOfFile := expectAtEnd })
    | (message, .unconsumed) => (false, message, r)
    | (message, .parsed) => (decide ((c.byteSizeLong message : Int) = size), message, r)

end

def readHeader (pb : Protobuf) (r : RecordFileReader) : Bool × RecordFileReader :=
  match r.readSection with
  | (none, r) => (false, r)
  | (some s, r) =>
    if SectionType.ofCode s.type ≠ some .header then (false, r)
    else
      match readSectionOf pb.header r s.size r.header with
      | (false, header, r) => (false, { r with header := header })
      | (true, header, r) =>
        let r := { r with header := header }
        match r.setPosition (sizeofSection + HEADER_LENGTH : Nat) with
        | none => (false, r)
        | some r => (true, r)

/-- `Open` on a file with the given bytes. -/
def openFile (pb : Protobuf) (bytes : List UInt8) : Bool × RecordFileReader :=
  readHeader pb ⟨⟨bytes, 0⟩, .empty, ⟨[]⟩, false⟩

def readIndex (pb : Protobuf) (r : RecordFileReader) : Bool × RecordFileReader :=
  if !r.header.isComplete then (false, r)
  else
    match r.setPosition (int64 r.header.indexPosition) with
    | none => (false, r)
    | some r =>
      match r.readSection with
      | (none, r) => (false, r)
      | (some s, r) =>
        if SectionType.ofCode s.type ≠ some .index then (false, r)
        else
          match readSectionOf pb.index r s.size r.index with
          | (false, index, r) => (false, { r with index := index })
          | (true, index, r) => (true, (reset { r with index := index }).2)

end RecordFileReader

end CyberRT.Record
