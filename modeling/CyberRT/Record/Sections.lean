import Mathlib.Order.Basic
import Mathlib.Order.Lattice
import Mathlib.Order.Nat
import CyberRT.Record.FileReader
import CyberRT.Record.Layout

namespace CyberRT.Record
open Posix

namespace Codec
variable {T : Type}

/-- Parsing takes the bytes of a message back to it. -/
structure Reads (c : Codec T) (message : T) : Prop where
  parses : c.parse (c.byteSizeLong message) (c.encode message) = (message, .parsed)
  fits : (c.byteSizeLong message : Int) ≤ INT_MAX

/-- A message that is read back, and has bytes. -/
structure ReadsSome (c : Codec T) (message : T) : Prop where
  reads : c.Reads message
  some_ : c.encode message ≠ []

end Codec

namespace RecordFileReader

/-- The reader at another position of the file. -/
def moveTo (f : RecordFileReader) (pos : Nat) : RecordFileReader :=
  { f with fd := { f.fd with pos := pos } }

@[simp] theorem moveTo_pos (f : RecordFileReader) (pos : Nat) : (f.moveTo pos).fd.pos = pos := rfl
@[simp] theorem moveTo_bytes (f : RecordFileReader) (pos : Nat) : (f.moveTo pos).fd.bytes = f.fd.bytes := rfl
@[simp] theorem moveTo_endOfFile (f : RecordFileReader) (pos : Nat) : (f.moveTo pos).endOfFile = f.endOfFile := rfl
@[simp] theorem moveTo_moveTo (f : RecordFileReader) (pos pos' : Nat) :
    (f.moveTo pos).moveTo pos' = f.moveTo pos' := rfl
@[simp] theorem moveTo_self (f : RecordFileReader) : f.moveTo f.fd.pos = f := rfl

variable {f f' : RecordFileReader}

/-- The header of a section is read whole or not at all. -/
theorem readSection_some {s : Section} (read : f.readSection = (some s, f')) :
    f.fd.pos + sizeofSection ≤ f.fd.bytes.length ∧ f' = f.moveTo (f.fd.pos + sizeofSection) := by
  have rest : f.fd.rest.length = f.fd.bytes.length - f.fd.pos := List.length_drop
  unfold readSection Fd.read at read
  simp only [List.length_take] at read
  split at read
  · cases read
  · split at read
    · cases read
    · rename_i whole
      obtain ⟨-, rfl⟩ := Prod.mk.inj read
      simp only [sizeofSection, ne_eq, Decidable.not_not] at whole
      rw [rest] at whole
      refine ⟨by simp only [sizeofSection]; omega, ?_⟩
      unfold moveTo
      rw [rest, show min sizeofSection (f.fd.bytes.length - f.fd.pos) = sizeofSection from whole]

/-- A section that is read takes the reader forward. -/
theorem readSectionOf_true {T : Type} {c : Codec T} {size : Int} {message message' : T}
    (read : f.readSectionOf c size message = (true, message', f')) : ∃ pos, f.fd.pos ≤ pos ∧ f' = f.moveTo pos := by
  unfold readSectionOf at read
  split at read
  · cases read
  · dsimp only at read
    split at read
    · cases read
    · cases read
    · obtain ⟨-, _, rfl⟩ := Prod.mk.inj read
      exact ⟨_, Nat.le_add_right _ _, rfl⟩

/-- A section that is read behind its header takes the reader beyond where the header is. -/
theorem readSectionOf_beyond {T : Type} {c : Codec T} {size : Int} {message message' : T}
    (read : (f.moveTo (f.fd.pos + sizeofSection)).readSectionOf c size message = (true, message', f')) :
    ∃ pos, f.fd.pos < pos ∧ f' = f.moveTo pos := by
  obtain ⟨pos, forward, rfl⟩ := readSectionOf_true read
  refine ⟨pos, ?_, rfl⟩
  simp only [moveTo_pos, sizeofSection] at forward
  omega

/-- A section that is skipped leaves the reader where it is or takes it to the position after the section. -/
theorem skipSection_moves (f : RecordFileReader) (size : Int) :
    ∃ pos, (f.skipSection size).2 = f.moveTo pos ∧ (pos = f.fd.pos ∨ (pos : Int) = f.fd.pos + size) := by
  unfold skipSection setPosition Fd.lseek
  dsimp only
  split
  · exact ⟨f.fd.pos, rfl, .inl rfl⟩
  · split
    · exact ⟨f.fd.pos, rfl, .inl rfl⟩
    · rename_i moved
      split at moved
      · cases moved
      · rename_i positive
        cases moved
        exact ⟨_, rfl, .inr (Int.toNat_of_nonneg (Int.not_lt.mp positive))⟩

theorem readSection_bytes (f : RecordFileReader) : f.readSection.2.fd.bytes = f.fd.bytes := by
  unfold readSection Fd.read
  dsimp only
  split
  · rfl
  · split <;> rfl

theorem readSectionOf_bytes {T : Type} (c : Codec T) (f : RecordFileReader) (size : Int) (message : T) :
    (f.readSectionOf c size message).2.2.fd.bytes = f.fd.bytes := by
  unfold readSectionOf
  split
  · rfl
  · dsimp only
    split <;> rfl

theorem readIndex_bytes (pb : Protobuf) (f : RecordFileReader) : (f.readIndex pb).2.fd.bytes = f.fd.bytes := by
  unfold readIndex
  split
  · rfl
  · split
    · rfl
    · rename_i moved
      obtain ⟨fd, jumped, rfl⟩ := Option.map_eq_some_iff.mp moved
      have sameFile : fd.bytes = f.fd.bytes := by
        unfold Fd.lseek at jumped
        split at jumped
        · cases jumped
        · cases jumped
          rfl
      have header := readSection_bytes { f with fd := fd }
      split
      · rename_i read
        rw [read] at header
        exact header.trans sameFile
      · rename_i s g read
        rw [read] at header
        split
        · exact header.trans sameFile
        · have body := readSectionOf_bytes pb.index g s.size g.index
          split
          · rename_i read'
            rw [read'] at body
            exact body.trans (header.trans sameFile)
          · rename_i read'
            rw [read'] at body
            exact body.trans (header.trans sameFile)

theorem moveTo_rest (f : RecordFileReader) (n : Nat) : (f.moveTo (f.fd.pos + n)).fd.rest = f.fd.rest.drop n := by
  simp only [Fd.rest, moveTo_pos, moveTo_bytes, List.drop_drop]

/-- The reader behind what it has read. -/
theorem moveTo_rest_append {data more : List UInt8} (here : f.fd.rest = data ++ more) :
    (f.moveTo (f.fd.pos + data.length)).fd.rest = more := by
  rw [moveTo_rest, here, List.drop_left]

theorem readSection_encode {type : SectionType} {size : Nat} {more : List UInt8}
    (here : f.fd.rest = Section.encode type size ++ more) (fits : size < 2 ^ 64) :
    f.readSection = (some ⟨type.code, int64 size⟩, f.moveTo (f.fd.pos + sizeofSection)) := by
  have read := Fd.read_exact here
  rw [Section.encode_length] at read
  unfold readSection
  rw [read]
  dsimp only
  rw [Section.encode_length, if_neg (by decide), if_neg (by simp), Section.decode_encode type fits]
  rfl

theorem int64_of_le {size : Nat} (fits : (size : Int) ≤ INT_MAX) : int64 size = size := by
  unfold int64
  unfold INT_MAX at fits
  rw [if_pos (by omega)]

variable {T : Type} {c : Codec T} {message : T}

/-- The header of a section that holds the message. -/
theorem readSection_of_reads (reads : c.Reads message) {type : SectionType} {more : List UInt8}
    (here : f.fd.rest = Section.encode type (c.byteSizeLong message) ++ more) :
    f.readSection = (some ⟨type.code, c.byteSizeLong message⟩, f.moveTo (f.fd.pos + sizeofSection)) := by
  have fits := reads.fits
  unfold INT_MAX at fits
  rw [readSection_encode here (by omega), int64_of_le reads.fits]

theorem readSectionOf_encode (reads : c.Reads message) {more : List UInt8} (here : f.fd.rest = c.encode message ++ more)
    (old : T) :
    f.readSectionOf c (c.byteSizeLong message) old =
      (true, message, f.moveTo (f.fd.pos + taken c (c.byteSizeLong message) f.fd.rest)) := by
  have fits := reads.fits
  have limit : limited (c.byteSizeLong message) f.fd.rest = c.encode message := by
    unfold limited
    rw [if_neg (by omega), here, Int.toNat_natCast]
    exact List.take_left
  unfold readSectionOf
  rw [if_neg (by unfold INT_MAX at fits ⊢; omega)]
  dsimp only
  rw [limit, reads.parses]
  simp only [decide_true]
  rfl

/-- A message that has bytes is read with its section, and nothing else. -/
theorem taken_encode (some_ : c.encode message ≠ []) {more : List UInt8} (here : f.fd.rest = c.encode message ++ more) :
    taken c (c.byteSizeLong message) f.fd.rest = c.byteSizeLong message := by
  have positive : 0 < c.byteSizeLong message := List.length_pos_iff.mpr some_
  unfold taken
  rw [if_pos (by omega), here, Int.toNat_natCast, List.length_append]
  unfold Codec.byteSizeLong
  omega

/-- A section is read with its header and then its message. -/
theorem section_whole (reads : c.ReadsSome message) {type : SectionType} {more : List UInt8}
    (here : f.fd.rest = Section.encode type (c.byteSizeLong message) ++ (c.encode message ++ more)) (old : T) :
    f.readSection = (some ⟨type.code, c.byteSizeLong message⟩, f.moveTo (f.fd.pos + sizeofSection)) ∧
      (f.moveTo (f.fd.pos + sizeofSection)).readSectionOf c (c.byteSizeLong message) old =
        (true, message, f.moveTo (f.fd.pos + sizeofSection + c.byteSizeLong message)) := by
  have after := moveTo_rest_append here
  rw [Section.encode_length] at after
  refine ⟨readSection_of_reads reads.reads here, ?_⟩
  rw [readSectionOf_encode reads.reads after, taken_encode reads.some_ after]
  rfl

/-- A section that is there is skipped. -/
theorem skipSection_encode {data more : List UInt8} (here : f.fd.rest = data ++ more) (some_ : data ≠ [])
    (small : f.fd.bytes.length < 2 ^ 63) :
    f.skipSection data.length = (true, f.moveTo (f.fd.pos + data.length)) := by
  have lengths := congrArg List.length here
  have positive := List.length_pos_iff.mpr some_
  simp only [Fd.rest, List.length_drop, List.length_append] at lengths
  have within : ¬((data.length : Int) > INT64_MAX - f.fd.pos) := by
    unfold INT64_MAX
    omega
  have position : f.setPosition ((f.fd.pos : Int) + data.length) = some (f.moveTo (f.fd.pos + data.length)) := by
    simp only [setPosition, Fd.lseek, moveTo]
    rw [if_neg (by omega)]
    simp only [Option.map_some, Option.some.injEq]
    congr 1
  unfold skipSection
  dsimp only
  rw [if_neg within, position]

section
variable {pb : Protobuf} {content : Content} {more : List UInt8}

/-- The section of a content. -/
theorem content_whole (type : SectionType) (typed : content.type = type)
    (encodes : content.encode pb = c.encode message) (reads : c.ReadsSome message) (here : f.fd.rest = content.bytes pb ++ more) (old : T) :
    f.readSection = (some ⟨type.code, c.byteSizeLong message⟩, f.moveTo (f.fd.pos + sizeofSection)) ∧
      (f.moveTo (f.fd.pos + sizeofSection)).readSectionOf c (c.byteSizeLong message) old =
        (true, message, f.moveTo (f.fd.pos + (content.bytes pb).length)) := by
  rw [Content.bytes, typed, encodes, List.append_assoc] at here
  rw [Content.bytes_length, encodes, ← Nat.add_assoc]
  exact section_whole reads here old

/-- The section of a content that is skipped. -/
theorem content_skip (type : SectionType) (typed : content.type = type)
    (encodes : content.encode pb = c.encode message) (reads : c.ReadsSome message) (small : f.fd.bytes.length < 2 ^ 63) (here : f.fd.rest = content.bytes pb ++ more) :
    f.readSection = (some ⟨type.code, c.byteSizeLong message⟩, f.moveTo (f.fd.pos + sizeofSection)) ∧
      (f.moveTo (f.fd.pos + sizeofSection)).skipSection (c.byteSizeLong message) =
        (true, f.moveTo (f.fd.pos + (content.bytes pb).length)) := by
  rw [Content.bytes, typed, encodes, List.append_assoc] at here
  rw [Content.bytes_length, encodes, ← Nat.add_assoc]
  have after := moveTo_rest_append here
  rw [Section.encode_length] at after
  exact ⟨readSection_of_reads reads.reads here, skipSection_encode after reads.some_ small⟩

end

/-- A file whose first section holds a header is opened, and the reader stands behind the area of the header. -/
theorem openFile_of_reads {pb : Protobuf} {header : Header} (reads : pb.header.Reads header) {bytes more : List UInt8}
    (here : bytes = Section.encode .header (pb.header.byteSizeLong header) ++ (pb.header.encode header ++ more)) :
    openFile pb bytes = (true, ⟨⟨bytes, sizeofSection + HEADER_LENGTH⟩, header, ⟨[]⟩, false⟩) := by
  have first : (⟨⟨bytes, 0⟩, .empty, ⟨[]⟩, false⟩ : RecordFileReader).fd.rest =
      Section.encode .header (pb.header.byteSizeLong header) ++ (pb.header.encode header ++ more) := here
  have second := moveTo_rest_append first
  rw [Section.encode_length] at second
  unfold openFile readHeader
  rw [readSection_of_reads reads first]
  dsimp only
  rw [SectionType.ofCode_code, if_neg (by simp), readSectionOf_encode reads second]
  rfl

/-- A file that begins with the area of a header. -/
theorem openFile_of_area {pb : Protobuf} {header : Header} (reads : pb.header.Reads header) {bytes more : List UInt8}
    (layout : bytes = RecordFileWriter.headerArea pb header ++ more) :
    openFile pb bytes = (true, ⟨⟨bytes, sizeofSection + HEADER_LENGTH⟩, header, ⟨[]⟩, false⟩) := by
  have here : bytes = Section.encode .header (pb.header.byteSizeLong header) ++ (pb.header.encode header ++
      (RecordFileWriter.blank.take (HEADER_LENGTH - pb.header.byteSizeLong header) ++ more)) := by
    rw [layout]
    simp only [RecordFileWriter.headerArea, List.append_assoc]
    rfl
  exact openFile_of_reads reads here

/-- The index is read from where the header says it is. -/
theorem readIndex_of_reads {pb : Protobuf} {index : Index} (reads : pb.index.Reads index) {more : List UInt8}
    (complete : f.header.isComplete = true) (fits : f.header.indexPosition < 2 ^ 63)
    (here : f.fd.bytes.drop f.header.indexPosition =
      Section.encode .index (pb.index.byteSizeLong index) ++ (pb.index.encode index ++ more)) :
    f.readIndex pb = (true, { f.moveTo (sizeofSection + HEADER_LENGTH) with index := index, endOfFile := false }) := by
  have position : f.setPosition (int64 f.header.indexPosition) = some (f.moveTo f.header.indexPosition) := by
    simp only [setPosition, Fd.lseek, int64, if_pos fits, moveTo, Int.toNat_natCast]
    rw [if_neg (by omega)]
    rfl
  have first : (f.moveTo f.header.indexPosition).fd.rest =
      Section.encode .index (pb.index.byteSizeLong index) ++ (pb.index.encode index ++ more) := here
  have second := moveTo_rest_append first
  rw [Section.encode_length] at second
  unfold readIndex
  rw [complete, position]
  dsimp only
  rw [readSection_of_reads reads first]
  dsimp only
  rw [SectionType.ofCode_code, if_neg (by simp), readSectionOf_encode reads second]
  rfl

end RecordFileReader

end CyberRT.Record
