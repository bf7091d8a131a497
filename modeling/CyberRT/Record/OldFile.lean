import CyberRT.Record.IndexRuns

namespace CyberRT.Record
open Concur Posix

namespace RecordFileWriter
variable {pb : Protobuf} {w : RecordFileWriter}

/-- The writer on a path where there was a file with the bytes `old` before. -/
def overwriting (old : List UInt8) (w : RecordFileWriter) : RecordFileWriter :=
  { w with fd := w.fd.overwriting old }

/-- The offset is in the file. -/
def Within (w : RecordFileWriter) : Prop :=
  w.fd.pos ≤ w.fd.bytes.length

def State.overwriting (old : List UInt8) (s : State) : State :=
  { s with writer := s.writer.overwriting old }

/-- Where the sections that were written end. -/
def endOfSections (pb : Protobuf) (w : RecordFileWriter) : Nat :=
  sizeofSection + HEADER_LENGTH + (w.sections.flatMap (Content.bytes pb)).length

end RecordFileWriter

end CyberRT.Record
