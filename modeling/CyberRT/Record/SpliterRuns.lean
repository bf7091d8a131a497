import CyberRT.Record.ReaderRuns
import CyberRT.Record.RecovererRuns

namespace CyberRT.Record
open Posix Loop

namespace Spliter
open RecordFileReader
open Recoverer (messagesOf channelsOf)

variable {pb : Protobuf} {sp : Spliter} {f : RecordFileReader} {more : List UInt8}

/-- The sections of a file behind the header of a chunk whose body is still to come, if there is one. Channels may stand
anywhere. The header of a chunk holds the first and the last of the times of its messages. -/
inductive Framed : Option ChunkHeader → List Content → Prop
  | index {i : Index} : Framed none [.index i]
  | channel {open_ : Option ChunkHeader} {c : Channel} {contents : List Content} : Framed open_ contents →
      Framed open_ (.channel c :: contents)
  | header {h : ChunkHeader} {contents : List Content} : Framed (some h) contents →
      Framed none (.chunkHeader h :: contents)
  | body {h : ChunkHeader} {b : ChunkBody} {contents : List Content} : Spans b.messages h.beginTime h.endTime →
      Framed none contents → Framed (some h) (.chunkBody b :: contents)

/-- What a writer has written is framed. -/
theorem framed_of_items {items : List Item} {i : Index}
    (spans : ∀ chunk, Item.chunk chunk ∈ items → Spans chunk.messages chunk.header.beginTime chunk.header.endTime) :
    Framed none (items.flatMap Item.contents ++ [Content.index i]) := by
  induction items with
  | nil => exact .index
  | cons item items ih =>
    have later := ih fun chunk member => spans chunk (List.mem_cons_of_mem _ member)
    cases item with
    | channel c => exact .channel later
    | chunk c => exact .header (.body (spans c List.mem_cons_self) later)

/-- All messages of the chunk are out of the range. -/
def outside (sp : Spliter) (h : ChunkHeader) : Bool :=
  sp.beginTime > h.endTime || sp.endTime < h.beginTime

/-- What is written of a section. -/
def written (sp : Spliter) : Content → List WriterCall
  | .channel c => if sp.chosen c.name then [.writeChannel c] else []
  | .chunkBody b => sp.select b.messages
  | .chunkHeader _ | .index _ => []

/-- Of a chunk that is skipped, nothing would be written. -/
theorem select_outside {h : ChunkHeader} {messages : List SingleMessage}
    (spans : Spans messages h.beginTime h.endTime) (out : sp.outside h = true) : sp.select messages = [] := by
  unfold outside at out
  simp only [Bool.or_eq_true, decide_eq_true_eq] at out
  rw [select, List.map_eq_nil_iff, List.filter_eq_nil_iff]
  intro m member
  have bounds := spans.within m member
  simp only [Bool.and_eq_true, Bool.not_eq_true', Bool.or_eq_false_iff, decide_eq_false_iff_not, not_lt, gt_iff_lt]
  omega

theorem round_index {i : Index} (reads : pb.index.Reads i) (going : f.endOfFile = false)
    (rest : f.fd.rest = (Content.index i).bytes pb ++ more) (skip : Bool) :
    sp.sectionRound pb (f, skip) = ([], .inr true) := by
  rw [Content.bytes, List.append_assoc] at rest
  have header : f.readSection = (some ⟨SectionType.index.code, pb.index.byteSizeLong i⟩, _) :=
    readSection_of_reads reads rest
  unfold sectionRound
  dsimp only
  rw [going, header]
  rfl

/-- The reader behind a section. -/
def behind (pb : Protobuf) (f : RecordFileReader) (content : Content) : RecordFileReader :=
  f.moveTo (f.fd.pos + (content.bytes pb).length)

theorem behind_rest {content : Content} (rest : f.fd.rest = content.bytes pb ++ more) :
    (behind pb f content).fd.rest = more :=
  moveTo_rest_append rest

theorem round_channel {c : Channel} (reads : pb.channel.ReadsSome c) (going : f.endOfFile = false)
    (rest : f.fd.rest = (Content.channel c).bytes pb ++ more) (skip : Bool) :
    sp.sectionRound pb (f, skip) = (sp.written (.channel c), .inl (behind pb f (.channel c), skip)) := by
  obtain ⟨header, body⟩ := content_whole .channel rfl rfl reads rest ⟨"", "", ""⟩
  unfold sectionRound
  dsimp only
  rw [going, header]
  dsimp only
  rw [SectionType.ofCode_code, body]
  rfl

theorem round_header {h : ChunkHeader} (reads : pb.chunkHeader.ReadsSome h) (going : f.endOfFile = false)
    (rest : f.fd.rest = (Content.chunkHeader h).bytes pb ++ more) :
    sp.sectionRound pb (f, false) = ([], .inl (behind pb f (.chunkHeader h), sp.outside h)) := by
  obtain ⟨header, body⟩ := content_whole .chunkHeader rfl rfl reads rest ⟨0, 0, 0, 0⟩
  unfold sectionRound
  dsimp only
  rw [going, header]
  dsimp only
  rw [SectionType.ofCode_code, body]
  rfl

theorem round_body {b : ChunkBody} (reads : pb.chunkBody.ReadsSome b) (going : f.endOfFile = false)
    (rest : f.fd.rest = (Content.chunkBody b).bytes pb ++ more) :
    sp.sectionRound pb (f, false) = (sp.select b.messages, .inl (behind pb f (.chunkBody b), false)) := by
  obtain ⟨header, body⟩ := content_whole .chunkBody rfl rfl reads rest ⟨[]⟩
  unfold sectionRound
  dsimp only
  rw [going, header]
  dsimp only
  rw [SectionType.ofCode_code, body]
  rfl

theorem round_skip {b : ChunkBody} (reads : pb.chunkBody.ReadsSome b) (going : f.endOfFile = false)
    (small : f.fd.bytes.length < 2 ^ 63) (rest : f.fd.rest = (Content.chunkBody b).bytes pb ++ more) :
    sp.sectionRound pb (f, true) = ([], .inl (behind pb f (.chunkBody b), false)) := by
  obtain ⟨header, body⟩ := content_skip .chunkBody rfl rfl reads small rest
  unfold sectionRound
  dsimp only
  rw [going, header]
  dsimp only
  rw [SectionType.ofCode_code, body]
  rfl

/-- The loop over the sections, whose rounds need no fuel. -/
abbrev Splits (pb : Protobuf) (sp : Spliter) (s : (RecordFileReader × Bool) × List WriterCall)
    (result : Bool × List WriterCall) : Prop :=
  Ends (fun _ s => some (sp.writingRound pb s)) s result

theorem Splits.next {skip skip' : Bool} {f' : RecordFileReader} {calls new : List WriterCall}
    {result : Bool × List WriterCall} (step : sp.sectionRound pb (f, skip) = (new, .inl (f', skip')))
    (rest : Splits pb sp ((f', skip'), calls ++ new) result) : Splits pb sp ((f, skip), calls) result := by
  have round : sp.writingRound pb ((f, skip), calls) = .inl ((f', skip'), calls ++ new) := by
    unfold writingRound
    rw [step]
  exact Ends.next (.of_eq fun _ => by rw [round]) rest

theorem Splits.last {skip found : Bool} {calls new : List WriterCall}
    (step : sp.sectionRound pb (f, skip) = (new, .inr found)) :
    Splits pb sp ((f, skip), calls) (found, calls ++ new) := by
  have round : sp.writingRound pb ((f, skip), calls) = .inr (found, calls ++ new) := by
    unfold writingRound
    rw [step]
  exact Ends.last (.of_eq fun _ => by rw [round])

/-- The flag is set between the header of a chunk that is out of the range and its body, and nowhere else. -/
theorem splits_of_framed {open_ : Option ChunkHeader} {contents : List Content} (framed : Framed open_ contents)
    (reads : ∀ content ∈ contents, content.Reads pb) (going : f.endOfFile = false)
    (small : f.fd.bytes.length < 2 ^ 63) (rest : f.fd.rest = contents.flatMap (Content.bytes pb))
    (calls : List WriterCall) :
    Splits pb sp ((f, open_.any sp.outside), calls) (true, calls ++ contents.flatMap sp.written) := by
  induction framed generalizing f calls with
  | @index i =>
    have here : pb.index.Reads i := reads (.index i) (List.mem_singleton_self _)
    exact .last (round_index here going rest _)
  | @channel open_ c contents _ ih =>
    obtain ⟨here, later⟩ := List.forall_mem_cons.mp reads
    rw [List.flatMap_cons] at rest ⊢
    rw [← List.append_assoc]
    exact .next (round_channel here going rest _) (ih (f := behind pb f _) later going small (behind_rest rest) _)
  | @header h contents _ ih =>
    obtain ⟨here, later⟩ := List.forall_mem_cons.mp reads
    rw [List.flatMap_cons] at rest ⊢
    rw [← List.append_assoc]
    exact .next (round_header here going rest) (ih (f := behind pb f _) later going small (behind_rest rest) _)
  | @body h b contents spans _ ih =>
    obtain ⟨here, later⟩ := List.forall_mem_cons.mp reads
    rw [List.flatMap_cons] at rest ⊢
    rw [← List.append_assoc]
    have next := ih (f := behind pb f _) later going small (behind_rest rest) (calls ++ sp.written (.chunkBody b))
    show Splits pb sp ((f, sp.outside h), calls) _
    cases out : sp.outside h with
    | true =>
      rw [show sp.written (.chunkBody b) = [] from select_outside spans out] at next ⊢
      exact .next (round_skip here going small rest) next
    | false => exact .next (round_body here going rest) next

/-- The channel is asked for. -/
def Passes (sp : Spliter) (channelName : String) : Prop :=
  (sp.whiteChannels = [] ∨ channelName ∈ sp.whiteChannels) ∧ channelName ∉ sp.blackChannels

instance (sp : Spliter) : DecidablePred sp.Passes :=
  fun _ => inferInstanceAs (Decidable (_ ∧ _))

theorem chosen_iff (sp : Spliter) (channelName : String) : sp.chosen channelName = true ↔ sp.Passes channelName := by
  simp [chosen, Passes]

theorem messagesOf_written (sp : Spliter) (contents : List Content) :
    messagesOf (contents.flatMap sp.written) = (contents.flatMap Content.messages).filter fun m =>
      (sp.beginTime ≤ m.time ∧ m.time ≤ sp.endTime) ∧ sp.Passes m.channelName := by
  have selected (messages : List SingleMessage) : messagesOf (sp.select messages) = messages.filter fun m =>
      (sp.beginTime ≤ m.time ∧ m.time ≤ sp.endTime) ∧ sp.Passes m.channelName := by
    rw [select, Recoverer.messagesOf_messages]
    refine List.filter_congr fun m _ => ?_
    rw [Bool.eq_iff_iff, decide_eq_true_iff, Bool.and_eq_true, chosen_iff, and_comm]
    simp
  induction contents with
  | nil => rfl
  | cons content contents ih =>
    rw [List.flatMap_cons, Recoverer.messagesOf_append, ih, List.flatMap_cons, List.filter_append]
    congr 1
    cases content with
    | channel c =>
      rw [written]
      split <;> rfl
    | chunkHeader h => rfl
    | chunkBody b => exact selected b.messages
    | index i => rfl

theorem channelsOf_written (sp : Spliter) (contents : List Content) :
    channelsOf (contents.flatMap sp.written) =
      (contents.flatMap Content.channels).filter fun c => sp.Passes c.name := by
  induction contents with
  | nil => rfl
  | cons content contents ih =>
    rw [List.flatMap_cons, Recoverer.channelsOf_append, ih, List.flatMap_cons, List.filter_append]
    congr 1
    cases content with
    | channel c =>
      rw [written]
      by_cases passes : sp.Passes c.name
      · rw [if_pos ((sp.chosen_iff c.name).mpr passes), Content.channels, List.filter_singleton,
          decide_eq_true passes]
        rfl
      · rw [if_neg fun chosen => passes ((sp.chosen_iff c.name).mp chosen), Content.channels, List.filter_singleton,
          decide_eq_false passes]
        rfl
    | chunkHeader h => rfl
    | chunkBody b => exact Recoverer.channelsOf_messages _
    | index i => rfl

/-- `Proc` succeeds on a complete file and passes to the writer the messages in the range that are asked for, in their
order, and the channels that are asked for. -/
theorem proc_selects {header : Header} {contents : List Content} {bytes : List UInt8}
    (area : (RecordFileWriter.headerArea pb header).length = sizeofSection + HEADER_LENGTH)
    (layout : bytes = RecordFileWriter.headerArea pb header ++ contents.flatMap (Content.bytes pb))
    (readsHeader : pb.header.Reads header) (reads : ∀ content ∈ contents, content.Reads pb)
    (framed : Framed none contents) (small : bytes.length < 2 ^ 63) (forward : sp.beginTime < sp.endTime)
    (overlaps : sp.beginTime ≤ header.endTime ∧ header.beginTime ≤ sp.endTime)
    (apart : ∀ channelName ∈ sp.whiteChannels, channelName ∉ sp.blackChannels) : ∃ calls,
    Returns (fun fuel => sp.proc pb fuel bytes) (true, calls) ∧
      messagesOf calls = ((contents.flatMap Content.messages).filter fun m =>
        (sp.beginTime ≤ m.time ∧ m.time ≤ sp.endTime) ∧ sp.Passes m.channelName) ∧
      channelsOf calls = ((contents.flatMap Content.channels).filter fun c => sp.Passes c.name) := by
  refine ⟨contents.flatMap sp.written, ?_, sp.messagesOf_written contents, sp.channelsOf_written contents⟩
  have opened := openFile_of_area readsHeader layout
  have both : (sp.whiteChannels.any fun channelName => channelName ∈ sp.blackChannels) = false := by
    simpa using apart
  have proceeds (fuel : Nat) : sp.proc pb fuel bytes =
      sp.sections pb fuel ⟨⟨bytes, sizeofSection + HEADER_LENGTH⟩, header, ⟨[]⟩, false⟩ := by
    unfold proc
    rw [if_neg (by omega), both, opened]
    dsimp only
    rw [if_neg Bool.false_ne_true, if_neg (by omega)]
    rfl
  let f : RecordFileReader := ⟨⟨bytes, sizeofSection + HEADER_LENGTH⟩, header, ⟨[]⟩, false⟩
  have rest : f.fd.rest = contents.flatMap (Content.bytes pb) := by
    show bytes.drop (sizeofSection + HEADER_LENGTH) = _
    rw [layout, ← area, List.drop_left]
  have splits : Splits pb sp ((f, false), []) _ := splits_of_framed framed reads rfl small rest []
  simp only [proceeds]
  exact splits.returns

/-- Two chunks, the first of them before the range, and a channel between them. -/
def twoChunks : List Item :=
  [.channel ⟨"a", "t", ""⟩, .chunk ((Chunk.clear.add ⟨"a", 1, [1]⟩).add ⟨"b", 2, [1]⟩), .channel ⟨"b", "t", ""⟩,
    .chunk (((Chunk.clear.add ⟨"a", 5, [1]⟩).add ⟨"b", 6, [1]⟩).add ⟨"a", 9, [1]⟩)]

def twoChunksHeader : Header :=
  { Header.empty with beginTime := 1, endTime := 9, isComplete := true }

def twoChunksIndex : Index :=
  ⟨Content.entries (Wire.protobuf .none) (fun _ => 2) (sizeofSection + HEADER_LENGTH) (twoChunks.flatMap Item.contents)⟩

def twoChunksProtobuf : Protobuf :=
  Wire.protobuf ⟨[twoChunksHeader], [⟨1, 2, 2, 2⟩, ⟨5, 9, 3, 3⟩],
    [⟨[⟨"a", 1, [1]⟩, ⟨"b", 2, [1]⟩]⟩, ⟨[⟨"a", 5, [1]⟩, ⟨"b", 6, [1]⟩, ⟨"a", 9, [1]⟩]⟩], [twoChunksIndex],
    [⟨"a", "t", ""⟩, ⟨"b", "t", ""⟩]⟩

def twoChunksSections : List Content :=
  twoChunks.flatMap Item.contents ++ [Content.index twoChunksIndex]

def twoChunksFile : List UInt8 :=
  RecordFileWriter.headerArea twoChunksProtobuf twoChunksHeader ++
    twoChunksSections.flatMap (Content.bytes twoChunksProtobuf)

theorem twoChunks_framed : Framed none twoChunksSections := by
  refine framed_of_items fun chunk member => ?_
  simp only [twoChunks, List.mem_cons, List.not_mem_nil, or_false, reduceCtorEq, false_or, Item.chunk.injEq] at member
  rcases member with rfl | rfl
  · exact ⟨by decide, fun _ => ⟨⟨"a", 1, [1]⟩, by decide, rfl⟩, fun _ => ⟨⟨"b", 2, [1]⟩, by decide, rfl⟩⟩
  · exact ⟨by decide, fun _ => ⟨⟨"a", 5, [1]⟩, by decide, rfl⟩, fun _ => ⟨⟨"a", 9, [1]⟩, by decide, rfl⟩⟩

theorem twoChunks_reads : ∀ content ∈ twoChunksSections, content.Reads twoChunksProtobuf := by
  intro content member
  simp only [twoChunksSections, twoChunks, List.flatMap_cons, List.flatMap_nil, Item.contents, List.cons_append,
    List.nil_append, List.append_nil, List.mem_cons, List.not_mem_nil, or_false] at member
  rcases member with rfl | rfl | rfl | rfl | rfl | rfl | rfl
  · exact ⟨⟨by decide +kernel, by decide +kernel⟩, by decide +kernel⟩
  · exact ⟨⟨by decide +kernel, by decide +kernel⟩, by decide +kernel⟩
  · exact ⟨⟨by decide +kernel, by decide +kernel⟩, by decide +kernel⟩
  · exact ⟨⟨by decide +kernel, by decide +kernel⟩, by decide +kernel⟩
  · exact ⟨⟨by decide +kernel, by decide +kernel⟩, by decide +kernel⟩
  · exact ⟨⟨by decide +kernel, by decide +kernel⟩, by decide +kernel⟩
  · exact ⟨by decide +kernel, by decide +kernel⟩

/-- The channel `a` from the time 3 to the time 8. -/
def someOfA : Spliter :=
  ⟨["a"], ["c"], 3, 8⟩

theorem proc_selects_run : ∃ calls,
    Returns (fun fuel => someOfA.proc twoChunksProtobuf fuel twoChunksFile) (true, calls) ∧
      messagesOf calls = [⟨"a", 5, [1]⟩] ∧ channelsOf calls = [⟨"a", "t", ""⟩] := by
  have area : (RecordFileWriter.headerArea twoChunksProtobuf twoChunksHeader).length =
      sizeofSection + HEADER_LENGTH :=
    RecordFileWriter.headerArea_length (Wire.header_length _)
  have readsHeader : twoChunksProtobuf.header.Reads twoChunksHeader := ⟨by decide +kernel, by decide +kernel⟩
  have small : twoChunksFile.length < 2 ^ 63 := by decide +kernel
  obtain ⟨calls, returns, messages, channels⟩ :=
    proc_selects area rfl readsHeader twoChunks_reads twoChunks_framed small (show someOfA.beginTime < _ by decide)
      (by decide) (by decide)
  exact ⟨calls, returns, messages.trans (by decide +kernel), channels.trans (by decide +kernel)⟩

end Spliter

end CyberRT.Record
