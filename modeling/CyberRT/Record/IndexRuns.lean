import CyberRT.Record.Layout
import CyberRT.Record.Sections
import CyberRT.Record.Wire

namespace CyberRT.Record
open Concur Posix

namespace RecordFileWriter
variable {pb : Protobuf}

theorem numberOf_perm {messages messages' : List SingleMessage} (same : messages.Perm messages') :
    numberOf messages = numberOf messages' :=
  funext fun _ => same.countP_eq _

/-- The position of an entry is where its section begins. -/
theorem entry_position {count : String → Nat} {pos : Nat} {content : Content} {single : SingleIndex}
    (member : single ∈ content.entry count pos) : single.position = pos ∧ single.type = content.type := by
  cases content with
  | channel c =>
    obtain rfl := List.mem_singleton.mp member
    exact ⟨rfl, rfl⟩
  | chunkHeader c =>
    obtain rfl := List.mem_singleton.mp member
    exact ⟨rfl, rfl⟩
  | chunkBody c =>
    obtain rfl := List.mem_singleton.mp member
    exact ⟨rfl, rfl⟩
  | index c => cases member

/-- What the index of a file says of the file, and how it is found. -/
structure Describes (pb : Protobuf) (bytes : List UInt8) (header : Header) (index : Index) (items : List Item) :
    Prop where
  complete : header.isComplete = true
  layout : bytes = headerArea pb header ++
    (items.flatMap Item.contents ++ [Content.index index]).flatMap (Content.bytes pb)
  position : header.indexPosition =
    (headerArea pb header ++ (items.flatMap Item.contents).flatMap (Content.bytes pb)).length
  entries : index.indexes = Content.entries pb (numberOf (items.flatMap Item.contents |>.flatMap Content.messages))
    (headerArea pb header).length (items.flatMap Item.contents)

/-- The index of a file that was closed. -/
theorem describes_of_closed (fits : HeaderFits pb) {header : Header} {s : State}
    (reach : (machine pb header).Reach s) (closed : s.pc = .closed) :
    ∃ items, s.writer.sections = items.flatMap Item.contents ++ [Content.index s.writer.index] ∧
      Describes pb s.writer.fd.bytes (headerInFile s) s.writer.index items := by
  obtain ⟨items, laid⟩ := laid_reach fits reach
  have kept := kept_reach reach
  obtain ⟨sections, listed, position⟩ := laid.indexed (by rw [closed]; rfl)
  obtain ⟨complete, bytes⟩ := laid.closed closed
  have area : (headerArea pb (headerInFile s)).length = sizeofSection + HEADER_LENGTH := headerArea_length (fits _)
  have messages : numberOf s.messages = numberOf ((items.flatMap Item.contents).flatMap Content.messages) := by
    have stored := kept.messages
    have empties := kept.empties
    rw [closed] at empties
    rw [empties.1, empties.2, List.append_nil, List.append_nil] at stored
    rw [← numberOf_perm stored, RecordFileWriter.stored, sections]
    simp [Content.messages]
  refine ⟨items, sections, complete, ?_, ?_, ?_⟩
  · rw [← sections]
    exact bytes
  · rw [List.length_append, area]
    exact position
  · rw [area, ← messages]
    exact listed

/-- What a writer has left, with an index if the file is complete. -/
structure Written (pb : Protobuf) (bytes : List UInt8) (header : Header) (items : List Item) (index : Option Index) :
    Prop where
  area : (headerArea pb header).length = sizeofSection + HEADER_LENGTH
  layout : bytes = headerArea pb header ++
    (items.flatMap Item.contents ++ index.toList.map Content.index).flatMap (Content.bytes pb)
  complete : header.isComplete = true → ∃ i, index = some i ∧ Describes pb bytes header i items

/-- Each entry of the index stands where it says. -/
theorem Describes.entry {bytes : List UInt8} {header : Header} {index : Index} {items : List Item}
    (describes : Describes pb bytes header index items) {single : SingleIndex} (member : single ∈ index.indexes) :
    ∃ content ∈ items.flatMap Item.contents, single.type = content.type ∧
      content.bytes pb <+: bytes.drop single.position := by
  rw [describes.entries] at member
  obtain ⟨before, content, after, all, entry⟩ := Content.mem_entries member
  obtain ⟨position, type⟩ := entry_position entry
  refine ⟨content, by rw [all]; simp, type, ?_⟩
  have split : bytes = (headerArea pb header ++ before.flatMap (Content.bytes pb)) ++
      (content.bytes pb ++ (after ++ [Content.index index]).flatMap (Content.bytes pb)) := by
    rw [describes.layout, all]
    simp
  rw [position, split, List.drop_left' (by rw [List.length_append])]
  exact List.prefix_append _ _

/-- The file ends with the index. -/
theorem Describes.length {bytes : List UInt8} {header : Header} {index : Index} {items : List Item}
    (describes : Describes pb bytes header index items) :
    bytes.length = header.indexPosition + ((Content.index index).bytes pb).length := by
  rw [describes.position, describes.layout]
  simp [Nat.add_assoc]

theorem length_of_closed (fits : HeaderFits pb) {header : Header} {s : State} (reach : (machine pb header).Reach s)
    (closed : s.pc = .closed) :
    s.writer.fd.bytes.length = s.writer.header.indexPosition + ((Content.index s.writer.index).bytes pb).length := by
  obtain ⟨_, _, describes⟩ := describes_of_closed fits reach closed
  exact describes.length

/-- The file is opened, and the reader stands behind the area of the header. -/
theorem Describes.openFile {bytes : List UInt8} {header : Header} {index : Index} {items : List Item}
    (describes : Describes pb bytes header index items) (readsHeader : pb.header.Reads header) :
    RecordFileReader.openFile pb bytes = (true, ⟨⟨bytes, sizeofSection + HEADER_LENGTH⟩, header, ⟨[]⟩, false⟩) :=
  RecordFileReader.openFile_of_area readsHeader describes.layout

/-- The index is read back as it was written. -/
theorem Describes.readIndex {bytes : List UInt8} {header : Header} {index : Index} {items : List Item}
    (describes : Describes pb bytes header index items) (readsHeader : pb.header.Reads header)
    (readsIndex : pb.index.Reads index) (small : bytes.length < 2 ^ 63) :
    ∃ f f', RecordFileReader.openFile pb bytes = (true, f) ∧ f.header = header ∧ f.readIndex pb = (true, f') ∧
      f'.index = index := by
  have last : bytes.drop header.indexPosition =
      Section.encode .index (pb.index.byteSizeLong index) ++ (pb.index.encode index ++ []) := by
    rw [describes.position, describes.layout, List.flatMap_append, ← List.append_assoc, List.drop_left]
    simp only [List.flatMap_cons, List.flatMap_nil, List.append_nil]
    rfl
  have within : header.indexPosition ≤ bytes.length := by
    rw [describes.position, describes.layout]
    simp only [List.flatMap_append, List.length_append]
    omega
  refine ⟨_, _, describes.openFile readsHeader, rfl,
    RecordFileReader.readIndex_of_reads readsIndex describes.complete ?_ last, rfl⟩
  exact lt_of_le_of_lt within small

/-- The calls of the caller and the steps of a run, among which headers are written. -/
inductive Call
  | writeHeader (header : Header)
  | other (e : Event)
  deriving DecidableEq

def callStep (pb : Protobuf) (s : State) : Call → Option State
  | .writeHeader header => if s.pc = .ready then some { s with writer := s.writer.writeHeader pb header } else none
  | .other e => step pb s e

/-- The runs of a writer whose file was created. -/
def calls (pb : Protobuf) : Machine State Call where
  init := ⟨openFile [], .ready, [], []⟩
  step := callStep pb

/-- Headers are written before anything else is, and at least one is. -/
def HeaderFirst (s : State) : Call → Prop
  | .writeHeader _ => s.messages = [] ∧ s.channels = []
  | .other _ => 0 < s.writer.fd.pos

instance (s : State) : (call : Call) → Decidable (HeaderFirst s call)
  | .writeHeader _ => inferInstanceAs (Decidable (_ ∧ _))
  | .other _ => inferInstanceAs (Decidable (_ < _))

/-- As long as nothing was called, nothing has happened. -/
def Untouched (pb : Protobuf) (header : Header) (s : State) : Prop :=
  s.messages = [] → s.channels = [] → (s.pc = .ready → s = start pb header) ∧ s.pc ≠ .swapping

theorem untouched_step {header : Header} {s s' : State} {e : Event} (kept : Kept s) (untouched : Untouched pb header s)
    (moves : Moves pb s e s') : Untouched pb header s' := by
  intro messages channels
  cases moves with
  | declares channel _ => simp at channels
  | adds message _ _ _ => simp at messages
  | swaps here => exact absurd here (untouched messages channels).2
  | closes _ => exact ⟨(fun now => by cases now), by simp⟩
  | waits _ _ => exact untouched messages channels
  | finds _ _ => exact ⟨(fun now => by cases now), by simp⟩
  | swapsLast _ => exact ⟨(fun now => by cases now), by simp⟩
  | stops _ _ => exact ⟨(fun now => by cases now), by simp⟩
  | indexes _ => exact ⟨(fun now => by cases now), by simp⟩
  | completes _ => exact ⟨(fun now => by cases now), by simp⟩
  | flushes _ found =>
    -- There is no message that could be flushed.
    have all := kept.messages
    rw [show s.messages = [] from messages] at all
    have none_ := (List.append_eq_nil_iff.mp (List.append_eq_nil_iff.mp all.eq_nil).1).2
    rw [kept.flush.empty_iff.mpr none_] at found
    cases found

theorem untouched_reach {header : Header} {s : State} (reach : (machine pb header).Reach s) :
    Untouched pb header s := by
  refine (Machine.Reach.invariant (M := machine pb header) (P := fun s => Kept s ∧ Untouched pb header s)
    ⟨kept_start header, fun _ _ => ⟨fun _ => rfl, by simp [machine, start, startOn]⟩⟩ ?_ reach).2
  rintro s e s' ⟨kept, untouched⟩ step
  exact ⟨kept_step kept (step_moves step), untouched_step kept untouched (step_moves step)⟩

/-- A header over a header. -/
theorem start_writeHeader (fits : HeaderFits pb) (header header' : Header) :
    (start pb header).writer.writeHeader pb header' = (openFile []).writeHeader pb header' := by
  have fd : (start pb header).writer.fd.bytes = headerArea pb header := by
    show ((Fd.opened []).write (headerArea pb header)).bytes = _
    rw [Fd.write_at_start rfl]
    simp [Fd.opened]
  have same : ({ (start pb header).writer.fd with pos := 0 } : Fd).write (headerArea pb header') =
      ({ (openFile []).fd with pos := 0 } : Fd).write (headerArea pb header') := by
    rw [Fd.write_at_start rfl, Fd.write_at_start rfl, fd]
    simp [headerArea_length (fits header), headerArea_length (fits header'), openFile, Fd.opened]
  unfold writeHeader
  rw [same]
  rfl

/-- A run in which headers come first is, from the last of them on, a run that begins with this header. -/
theorem calls_reach (fits : HeaderFits pb) {s : State} (reach : (calls pb).ReachWhen HeaderFirst s) :
    s = (calls pb).init ∨ ∃ header, (machine pb header).Reach s := by
  induction reach with
  | start => exact .inl rfl
  | @next s s' call _ first step ih =>
    have step : callStep pb s call = some s' := step
    cases call with
    | writeHeader header =>
      simp only [callStep] at step
      split at step
      · rename_i ready
        cases step
        refine .inr ⟨header, ?_⟩
        have begun : { s with writer := s.writer.writeHeader pb header } = start pb header := by
          rcases ih with rfl | ⟨before, reach⟩
          · rfl
          · have same := (untouched_reach reach first.1 first.2).1 ready
            rw [same, start_writeHeader fits]
            rfl
        rw [begun]
        exact .start
      · cases step
    | other e =>
      rcases ih with rfl | ⟨header, reach⟩
      · exact absurd (show 0 < (calls pb).init.writer.fd.pos from first) (by simp [calls, openFile, Fd.opened])
      · exact .inr ⟨header, .next reach trivial step⟩

/-- If the header is written first, the index of the file that was closed describes the file and is read back. -/
theorem index_describes (fits : HeaderFits pb) {s : State} (reach : (calls pb).ReachWhen HeaderFirst s)
    (closed : s.pc = .closed) (readsHeader : pb.header.Reads (headerInFile s))
    (readsIndex : pb.index.Reads s.writer.index) (small : s.writer.fd.bytes.length < 2 ^ 63) :
    ∃ items, s.writer.sections = items.flatMap Item.contents ++ [Content.index s.writer.index] ∧
      Describes pb s.writer.fd.bytes (headerInFile s) s.writer.index items ∧
      (∀ single ∈ s.writer.index.indexes, ∃ content ∈ items.flatMap Item.contents, single.type = content.type ∧
        content.bytes pb <+: s.writer.fd.bytes.drop single.position) ∧
      ∃ f f', RecordFileReader.openFile pb s.writer.fd.bytes = (true, f) ∧ f.header = headerInFile s ∧
        f.readIndex pb = (true, f') ∧ f'.index = s.writer.index := by
  rcases calls_reach fits reach with rfl | ⟨header, reach⟩
  · cases closed
  · obtain ⟨items, sections, describes⟩ := describes_of_closed fits reach closed
    exact ⟨items, sections, describes, fun single member => describes.entry member,
      describes.readIndex readsHeader readsIndex small⟩

theorem wire_headerFits (known : Wire.Known) : HeaderFits (Wire.protobuf known) :=
  Wire.header_length

/-- A channel, a message, and `Close`. -/
def oneMessage : List Call :=
  [.writeHeader .empty, .other (.writeChannel ⟨"a", "t", ""⟩), .other (.writeMessage ⟨"a", 5, [1]⟩), .other .close,
    .other .go, .other .go, .other .flush, .other .go, .other .go, .other .go]

def oneMessageHeader : Header :=
  ⟨0, 0, .none, 0, 0, 2138, 1, 1, 5, 5, 1, 2204, true, 0, 0⟩

def oneMessageIndex : Index :=
  ⟨[⟨.channel, 2064, .channel ⟨1, "a", "t", ""⟩⟩, ⟨.chunkHeader, 2088, .chunkHeader ⟨1, 5, 5, 1⟩⟩,
    ⟨.chunkBody, 2112, .chunkBody ⟨1⟩⟩]⟩

def oneMessageProtobuf : Protobuf :=
  Wire.protobuf ⟨[oneMessageHeader], [], [], [oneMessageIndex], []⟩

theorem oneMessageProtobuf_fits : HeaderFits oneMessageProtobuf :=
  wire_headerFits _

def afterOneMessage : State :=
  (calls oneMessageProtobuf).stateAt oneMessage oneMessage.length

theorem afterOneMessage_reach : (calls oneMessageProtobuf).ReachWhen HeaderFirst afterOneMessage :=
  Machine.stateAt_reachWhen oneMessage (by decide +kernel) (by decide +kernel)

theorem afterOneMessage_length : afterOneMessage.writer.fd.bytes.length = 2204 := by
  obtain here | ⟨_, reach⟩ := calls_reach oneMessageProtobuf_fits afterOneMessage_reach
  · have pc : afterOneMessage.pc = .ready := congrArg State.pc here
    exact absurd pc (by decide +kernel)
  · rw [length_of_closed oneMessageProtobuf_fits reach (by decide +kernel)]
    decide +kernel

theorem index_describes_run : (calls oneMessageProtobuf).ReachWhen HeaderFirst afterOneMessage ∧
    ∃ f f', RecordFileReader.openFile oneMessageProtobuf afterOneMessage.writer.fd.bytes = (true, f) ∧
      f.header = oneMessageHeader ∧ f.readIndex oneMessageProtobuf = (true, f') ∧ f'.index = oneMessageIndex := by
  have header : headerInFile afterOneMessage = oneMessageHeader := by
    unfold headerInFile
    rw [afterOneMessage_length]
    decide +kernel
  have index : afterOneMessage.writer.index = oneMessageIndex := by decide +kernel
  have readsHeader : oneMessageProtobuf.header.Reads (headerInFile afterOneMessage) := by
    rw [header]
    exact ⟨by decide, by decide⟩
  have readsIndex : oneMessageProtobuf.index.Reads afterOneMessage.writer.index := by
    rw [index]
    exact ⟨by decide, by decide⟩
  obtain ⟨_, _, _, _, f, f', opened, same, read, found⟩ :=
    index_describes oneMessageProtobuf_fits afterOneMessage_reach (by decide +kernel) readsHeader readsIndex
      (by rw [afterOneMessage_length]; decide)
  exact ⟨afterOneMessage_reach, f, f', opened, same.trans header, read, found.trans index⟩

/-- A header after a channel. -/
def headerAgain : List Call :=
  [.writeHeader .empty, .other (.writeChannel ⟨"a", "t", ""⟩), .writeHeader .empty,
    .other (.writeChannel ⟨"b", "t", ""⟩),
    .other .close, .other .go, .other .go, .other .go, .other .go, .other .go]

def afterHeaderAgain : State :=
  (calls (Wire.protobuf .none)).stateAt headerAgain headerAgain.length

/-- The header takes the writer back, so that the second channel is written over the first one. The index lists both at
one position, where at most one of them can stand. -/
theorem index_describes_not : (calls (Wire.protobuf .none)).Reach afterHeaderAgain ∧ afterHeaderAgain.pc = .closed ∧
    afterHeaderAgain.writer.index.indexes =
      [⟨.channel, 2064, .channel ⟨0, "a", "t", ""⟩⟩, ⟨.channel, 2064, .channel ⟨0, "b", "t", ""⟩⟩] ∧
    ¬((Content.channel ⟨"a", "t", ""⟩).bytes (Wire.protobuf .none) <+: afterHeaderAgain.writer.fd.bytes.drop 2064 ∧
      (Content.channel ⟨"b", "t", ""⟩).bytes (Wire.protobuf .none) <+: afterHeaderAgain.writer.fd.bytes.drop 2064) := by
  refine ⟨Machine.stateAt_reach headerAgain (by decide +kernel), by decide +kernel, by decide +kernel, ?_⟩
  rintro ⟨first, second⟩
  have same := (List.prefix_of_prefix_length_le first second (by decide)).eq_of_length (by decide)
  exact absurd same (by decide)

end RecordFileWriter

end CyberRT.Record
