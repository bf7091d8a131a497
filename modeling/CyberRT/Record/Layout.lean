import CyberRT.Record.FileWriterRuns

namespace CyberRT.Record
open Concur Posix

namespace Content

/-- The bytes of a section. -/
def bytes (pb : Protobuf) (content : Content) : List UInt8 :=
  Section.encode content.type (content.encode pb).length ++ content.encode pb

theorem bytes_length (pb : Protobuf) (content : Content) :
    (content.bytes pb).length = sizeofSection + (content.encode pb).length := by
  rw [bytes, List.length_append, Section.encode_length]

/-- The entry of a section at a position, with the numbers of messages of the channels. -/
def entry (count : String → Nat) (pos : Nat) : Content → List SingleIndex
  | .channel c => [⟨.channel, pos, .channel ⟨count c.name, c.name, c.messageType, c.protoDesc⟩⟩]
  | .chunkHeader c => [⟨.chunkHeader, pos, .chunkHeader ⟨c.messageNumber, c.beginTime, c.endTime, c.rawSize⟩⟩]
  | .chunkBody c => [⟨.chunkBody, pos, .chunkBody ⟨c.messages.length⟩⟩]
  | .index _ => []

/-- The entries of sections that stand one after the other from a position on. -/
def entries (pb : Protobuf) (count : String → Nat) : Nat → List Content → List SingleIndex
  | _, [] => []
  | pos, content :: contents => content.entry count pos ++ entries pb count (pos + (content.bytes pb).length) contents

theorem entries_append (pb : Protobuf) (count : String → Nat) (pos : Nat) (contents more : List Content) :
    entries pb count pos (contents ++ more) =
      entries pb count pos contents ++ entries pb count (pos + (contents.flatMap (bytes pb)).length) more := by
  induction contents generalizing pos with
  | nil => simp [entries]
  | cons content contents ih =>
    simp only [List.cons_append, entries, ih, List.append_assoc, List.flatMap_cons, List.length_append, Nat.add_assoc]

/-- An entry is that of a section, at the position of the section. -/
theorem mem_entries {pb : Protobuf} {count : String → Nat} {pos : Nat} {contents : List Content} {single : SingleIndex}
    (member : single ∈ entries pb count pos contents) : ∃ before content after,
      contents = before ++ content :: after ∧
        single ∈ content.entry count (pos + (before.flatMap (bytes pb)).length) := by
  induction contents generalizing pos with
  | nil => cases member
  | cons content contents ih =>
    rcases List.mem_append.mp member with here | later
    · exact ⟨[], content, contents, rfl, here⟩
    · obtain ⟨before, content', after, rfl, entry⟩ := ih later
      refine ⟨content :: before, content', after, rfl, ?_⟩
      rwa [List.flatMap_cons, List.length_append, ← Nat.add_assoc]

/-- `WriteIndex` fills in the numbers of the channels, and changes nothing else. -/
theorem map_countChannel (pb : Protobuf) (map : Table String Nat) (pos : Nat) (contents : List Content) :
    (entries pb (fun _ => 0) pos contents).map (RecordFileWriter.countChannel map) =
      entries pb map.get pos contents := by
  induction contents generalizing pos with
  | nil => rfl
  | cons content contents ih =>
    simp only [entries, List.map_append, ih]
    congr 1
    cases content with
    | channel c =>
      simp only [entry, List.map_cons, List.map_nil, RecordFileWriter.countChannel, Table.get]
      cases map.lookup c.name with
      | none => rfl
      | some number => rfl
    | chunkHeader c => rfl
    | chunkBody c => rfl
    | index c => rfl

end Content

/-- What the writer writes at once: a channel, or a chunk. -/
inductive Item
  | channel (channel : Channel)
  | chunk (chunk : Chunk)
  deriving DecidableEq

namespace Item

def contents : Item → List Content
  | .channel c => [.channel c]
  | .chunk c => [.chunkHeader c.header, .chunkBody c.body]

end Item

namespace RecordFileWriter
variable {pb : Protobuf}

/-- The file while it is written: the area of the header, and behind it the sections. The index has an entry for each of
them. -/
structure Body (pb : Protobuf) (written : Header) (w : RecordFileWriter) : Prop where
  area : (headerArea pb written).length = sizeofSection + HEADER_LENGTH
  bytes : w.fd.bytes = headerArea pb written ++ w.sections.flatMap (Content.bytes pb)
  atEnd : w.fd.pos = w.fd.bytes.length

/-- Where the sections that were written end. -/
theorem Body.pos {written : Header} {w : RecordFileWriter} (body : Body pb written w) :
    w.fd.pos = sizeofSection + HEADER_LENGTH + (w.sections.flatMap (Content.bytes pb)).length := by
  rw [body.atEnd, body.bytes, List.length_append, body.area]

theorem Body.writeSection {written : Header} {w : RecordFileWriter} (body : Body pb written w) (content : Content) :
    Body pb written (w.writeSection pb content) := by
  have first := Fd.write_at_end body.atEnd (Section.encode content.type (content.encode pb).length)
  have second := Fd.write_at_end (f := w.fd.write (Section.encode content.type (content.encode pb).length))
    (by rw [first, List.length_append]) (content.encode pb)
  refine ⟨body.area, ?_, ?_⟩
  · show ((w.fd.write _).write _).bytes = _ ++ (w.sections ++ [content]).flatMap (Content.bytes pb)
    rw [second, first, body.bytes]
    simp [Content.bytes]
  · show ((w.fd.write _).write _).pos = ((w.fd.write _).write _).bytes.length
    rw [second, List.length_append]

/-- The index lists the sections. -/
def Listed (pb : Protobuf) (count : String → Nat) (w : RecordFileWriter) (contents : List Content) : Prop :=
  w.index.indexes = Content.entries pb count (sizeofSection + HEADER_LENGTH) contents

theorem Body.writeChannel {written : Header} {w : RecordFileWriter} (body : Body pb written w)
    (listed : Listed pb (fun _ => 0) w w.sections) (channel : Channel) :
    Body pb written (w.writeChannel pb channel) ∧
      Listed pb (fun _ => 0) (w.writeChannel pb channel) (w.writeChannel pb channel).sections := by
  obtain ⟨area, bytes, atEnd⟩ := body.writeSection (.channel channel)
  refine ⟨⟨area, bytes, atEnd⟩, ?_⟩
  unfold Listed
  rw [writeChannel_sections, Content.entries_append, ← listed, ← body.pos]
  rfl

theorem Body.flush {written : Header} {w : RecordFileWriter} (body : Body pb written w)
    (listed : Listed pb (fun _ => 0) w w.sections) :
    Body pb written (w.flush pb) ∧ Listed pb (fun _ => 0) (w.flush pb) (w.flush pb).sections := by
  have header := body.writeSection (.chunkHeader w.chunkFlush.header)
  obtain ⟨area, bytes, atEnd⟩ := header.writeSection (.chunkBody w.chunkFlush.body)
  refine ⟨⟨area, bytes, atEnd⟩, ?_⟩
  have position : (w.writeSection pb (.chunkHeader w.chunkFlush.header)).fd.pos =
      w.fd.pos + ((Content.chunkHeader w.chunkFlush.header).bytes pb).length := by
    rw [header.pos, body.pos]
    simp [RecordFileWriter.writeSection, Nat.add_assoc]
  unfold Listed
  rw [flush_sections, Content.entries_append, ← listed, ← body.pos]
  simp only [Content.entries, ← position, List.append_nil]
  simp [RecordFileWriter.flush, writeChunk, addIndex, RecordFileWriter.writeSection, Content.entry]

/-- The number of messages of a channel. -/
def numberOf (messages : List SingleMessage) (channelName : String) : Nat :=
  messages.countP fun message => message.channelName = channelName

/-- The index was written. -/
def Pc.indexed : Pc → Bool
  | .writingHeader | .closed => true
  | .ready | .swapping | .waiting | .lastSwap | .waitingLast | .writingIndex => false

/-- While the flush thread runs, the index was not written. -/
theorem Kept.not_indexed {s : State} (kept : Kept s) (on : s.writer.isWriting = true) : s.pc.indexed = false := by
  have early : s.pc.flushed = false := by
    have writing := kept.writing
    rw [on] at writing
    simpa using writing.symm
  cases here : s.pc with
  | writingHeader => rw [here] at early; cases early
  | closed => rw [here] at early; cases early
  | ready | swapping | waiting | lastSwap | waitingLast | writingIndex => rfl

/-- What is in the file in a state of a run that began with the header, and was written in the given items. -/
structure Laid (pb : Protobuf) (header : Header) (s : State) (items : List Item) : Prop where
  counts : s.writer.channelMessageNumberMap.get = numberOf s.messages
  sized : s.writer.header.size = s.writer.fd.pos
  full : ∀ chunk, .chunk chunk ∈ items → chunk.messages ≠ []
  body : s.pc ≠ .closed → Body pb header s.writer
  listed : s.pc.indexed = false → s.writer.sections = items.flatMap Item.contents ∧
    Listed pb (fun _ => 0) s.writer (items.flatMap Item.contents)
  indexed : s.pc.indexed = true → s.writer.sections = items.flatMap Item.contents ++ [.index s.writer.index] ∧
    Listed pb (numberOf s.messages) s.writer (items.flatMap Item.contents) ∧
    s.writer.header.indexPosition =
      sizeofSection + HEADER_LENGTH + ((items.flatMap Item.contents).flatMap (Content.bytes pb)).length
  closed : s.pc = .closed → s.writer.header.isComplete = true ∧
    s.writer.fd.bytes = headerArea pb { s.writer.header with size := s.writer.fd.bytes.length } ++
      s.writer.sections.flatMap (Content.bytes pb)

/-- The header that is in the file when it is closed: it was written before its own size was counted. -/
def headerInFile (s : State) : Header :=
  { s.writer.header with size := s.writer.fd.bytes.length }

/-- The header that is in the file in any state. -/
def writtenHeader (header : Header) (s : State) : Header :=
  if s.pc = .closed then headerInFile s else header

/-- Whatever was written stands behind the area of the header, and nothing else. -/
theorem Laid.bytes {header : Header} {s : State} {items : List Item} (laid : Laid pb header s items) :
    s.writer.fd.bytes = headerArea pb (writtenHeader header s) ++ s.writer.sections.flatMap (Content.bytes pb) := by
  unfold writtenHeader
  by_cases closed : s.pc = .closed
  · rw [if_pos closed]
    exact (laid.closed closed).2
  · rw [if_neg closed]
    exact (laid.body closed).bytes

/-- The code of the header has at most the size of its area. -/
def HeaderFits (pb : Protobuf) : Prop :=
  ∀ header, pb.header.byteSizeLong header ≤ HEADER_LENGTH

theorem laid_start (fits : HeaderFits pb) (header : Header) : Laid pb header (start pb header) [] := by
  have area := headerArea_length (fits header)
  have fd : (start pb header).writer.fd = ⟨headerArea pb header, (headerArea pb header).length⟩ := by
    show (Fd.opened []).write (headerArea pb header) = _
    rw [Fd.write_at_start rfl]
    simp [Fd.opened]
  refine ⟨rfl, rfl, by simp, fun _ => ⟨area, ?_, ?_⟩, fun _ => ⟨rfl, rfl⟩, (fun indexed => by cases indexed),
    fun closed => by cases closed⟩
  · rw [fd]
    exact (List.append_nil _).symm
  · rw [fd]

theorem get_addMessage {w : RecordFileWriter} {messages : List SingleMessage}
    (counts : w.channelMessageNumberMap.get = numberOf messages) (message : SingleMessage) :
    (w.addMessage message).2.channelMessageNumberMap.get = numberOf (messages ++ [message]) := by
  funext name
  have value : (w.channelMessageNumberMap.lookup message.channelName).elim 1 (· + 1) =
      w.channelMessageNumberMap.get message.channelName + 1 := by
    unfold Table.get
    cases w.channelMessageNumberMap.lookup message.channelName with
    | none => rfl
    | some number => rfl
  show Table.get (w.channelMessageNumberMap.insert message.channelName _) name = _
  rw [Table.get_insert_eq, value, counts]
  unfold numberOf
  rw [List.countP_append, List.countP_singleton]
  by_cases same : name = message.channelName
  · simp [same]
  · simp [same, Ne.symm same]

/-- The header is written over its area, which it fills. -/
theorem Body.writeHeader {written : Header} {w : RecordFileWriter} (body : Body pb written w) {header : Header}
    (fits : pb.header.byteSizeLong header ≤ HEADER_LENGTH) :
    (w.writeHeader pb header).fd.bytes = headerArea pb header ++ w.sections.flatMap (Content.bytes pb) := by
  show (({ w.fd with pos := 0 } : Fd).write (headerArea pb header)).bytes = _
  rw [Fd.write_at_start rfl]
  dsimp only
  rw [body.bytes, headerArea_length fits, ← body.area, List.drop_left]

theorem laid_step (fits : HeaderFits pb) {header : Header} {s s' : State} {e : Event} {items : List Item}
    (kept : Kept s) (laid : Laid pb header s items) (moves : Moves pb s e s') :
    ∃ more, Laid pb header s' (items ++ more) := by
  obtain ⟨counts, sized, full, body, listed, indexed, closed⟩ := laid
  -- A step that leaves the file as it is.
  have same : ∀ t, t.writer.fd = s.writer.fd → t.writer.header = s.writer.header →
      t.writer.sections = s.writer.sections → t.writer.index = s.writer.index →
      t.writer.channelMessageNumberMap.get = numberOf t.messages → t.pc.indexed = false →
      s.pc.indexed = false → ∃ more, Laid pb header t (items ++ more) := by
    intro t fd sameHeader sections index counts' before before'
    have early : s.pc ≠ .closed := by
      intro here
      rw [here] at before'
      cases before'
    obtain ⟨area, bytes, atEnd⟩ := body early
    obtain ⟨all, entries⟩ := listed before'
    refine ⟨[], ?_⟩
    rw [List.append_nil]
    refine ⟨counts', by rw [sameHeader, fd, sized], full, fun _ => ⟨area, ?_, ?_⟩,
      fun _ => ⟨by rw [sections, all], ?_⟩, fun now => ?_, fun now => ?_⟩
    · rw [fd, sections, bytes]
    · rw [fd, atEnd]
    · unfold Listed
      rw [index]
      exact entries
    · rw [before] at now
      cases now
    · rw [now] at before
      cases before
  cases moves with
  | declares channel here =>
    obtain ⟨all, entries⟩ := listed (by rw [here]; rfl)
    obtain ⟨body', listed'⟩ := (body (by rw [here]; simp)).writeChannel (by rw [all]; exact entries) channel
    have sections : (s.writer.writeChannel pb channel).sections =
        (items ++ [Item.channel channel]).flatMap Item.contents := by
      rw [writeChannel_sections, all, List.flatMap_append]
      rfl
    refine ⟨[.channel channel], counts, rfl, ?_, fun _ => body', fun _ => ⟨sections, ?_⟩, fun now => ?_, fun now => ?_⟩
    · intro chunk member
      exact full chunk (by simpa using member)
    · rw [← sections]
      exact listed'
    · rw [show s.pc = .ready from here] at now
      cases now
    · rw [show s.pc = .closed from now] at here
      cases here
  | adds message pc here next =>
    refine same _ rfl rfl rfl rfl (get_addMessage counts message) ?_ (by rw [here]; rfl)
    rcases next with rfl | rfl
    · rfl
    · rfl
  | swaps here => exact same _ rfl rfl rfl rfl counts rfl (by rw [here]; rfl)
  | closes here => exact same _ rfl rfl rfl rfl counts rfl (by rw [here]; rfl)
  | waits here _ =>
    refine ⟨[], ?_⟩
    rw [List.append_nil]
    exact ⟨counts, sized, full, body, listed, indexed, closed⟩
  | finds here _ => exact same _ rfl rfl rfl rfl counts rfl (by rw [here]; rfl)
  | swapsLast here => exact same _ rfl rfl rfl rfl counts rfl (by rw [here]; rfl)
  | stops here _ => exact same _ rfl rfl rfl rfl counts rfl (by rw [here]; rfl)
  | indexes here =>
    obtain ⟨all, entries⟩ := listed (by rw [here]; rfl)
    have before := body (by rw [here]; simp)
    have index : (s.writer.writeIndex pb).index.indexes =
        Content.entries pb (numberOf s.messages) (sizeofSection + HEADER_LENGTH) (items.flatMap Item.contents) := by
      show s.writer.index.indexes.map _ = _
      rw [entries, Content.map_countChannel, counts]
    refine ⟨[], ?_⟩
    rw [List.append_nil]
    refine ⟨counts, rfl, full, fun _ => ?_, (fun now => by cases now), fun _ => ⟨?_, index, ?_⟩,
      fun now => by cases now⟩
    · have ready : Body pb header { s.writer with
          index := (s.writer.writeIndex pb).index
          header := { s.writer.header with indexPosition := s.writer.fd.pos } } :=
        ⟨before.area, before.bytes, before.atEnd⟩
      exact ready.writeSection _
    · show s.writer.sections ++ [.index (s.writer.writeIndex pb).index] = _
      rw [all]
    · show s.writer.fd.pos = _
      rw [before.pos, all]
  | completes here =>
    obtain ⟨all, entries, position⟩ := indexed (by rw [here]; rfl)
    have before := body (by rw [here]; simp)
    have size : s.writer.header.size = s.writer.fd.bytes.length := sized.trans before.atEnd
    refine ⟨[], ?_⟩
    rw [List.append_nil]
    refine ⟨counts, rfl, full, fun now => absurd rfl now, (fun now => by cases now), fun _ => ⟨all, entries, position⟩,
      fun _ => ⟨rfl, ?_⟩⟩
    have bytes := before.writeHeader (fits { s.writer.header with isComplete := true })
    have length : (s.writer.writeHeader pb { s.writer.header with isComplete := true }).fd.bytes.length =
        s.writer.header.size := by
      rw [bytes, size, before.bytes, List.length_append, List.length_append, headerArea_length (fits _), before.area]
    dsimp only
    rw [length]
    exact bytes
  | flushes on found =>
    have before := kept.not_indexed on
    have unfinished : s.pc ≠ .closed := by
      intro here
      rw [here] at before
      cases before
    obtain ⟨all, entries⟩ := listed before
    obtain ⟨body', listed'⟩ := (body unfinished).flush (by rw [all]; exact entries)
    have sections : (s.writer.flush pb).sections =
        (items ++ [Item.chunk s.writer.chunkFlush]).flatMap Item.contents := by
      rw [flush_sections, all, List.flatMap_append]
      rfl
    refine ⟨[.chunk s.writer.chunkFlush], counts, rfl, ?_, fun _ => body', fun _ => ⟨sections, ?_⟩, fun now => ?_,
      fun now => ?_⟩
    · intro chunk member
      rcases List.mem_append.mp member with old | new
      · exact full chunk old
      · obtain ⟨rfl⟩ := List.mem_singleton.mp new
        intro none_
        rw [kept.flush.empty_iff.mpr none_] at found
        cases found
    · rw [← sections]
      exact listed'
    · rw [show s.pc.indexed = true from now] at before
      cases before
    · exact absurd now unfinished

theorem kept_reach {header : Header} {s : State} (reach : (machine pb header).Reach s) : Kept s :=
  Machine.Reach.invariant (M := machine pb header) (kept_start header)
    (fun _ _ _ kept step => kept_step kept (step_moves step))
    reach

theorem laid_reach (fits : HeaderFits pb) {header : Header} {s : State} (reach : (machine pb header).Reach s) :
    ∃ items, Laid pb header s items := by
  refine (Machine.Reach.invariant (M := machine pb header) (P := fun s => Kept s ∧ ∃ items, Laid pb header s items)
    ⟨kept_start header, [], laid_start fits header⟩ ?_ reach).2
  rintro s e s' ⟨kept, items, laid⟩ step
  have moves := step_moves step
  obtain ⟨more, laid'⟩ := laid_step fits kept laid moves
  exact ⟨kept_step kept moves, _, laid'⟩

end RecordFileWriter

end CyberRT.Record
