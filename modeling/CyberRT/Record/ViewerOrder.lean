import CyberRT.Record.ViewerRuns
import CyberRT.Record.WriterRuns

namespace CyberRT.Record
open Concur Loop Sweep

/-- The reader of a file that a writer has closed. -/
theorem RecordReader.over_create {pb : Protobuf} {bytes : List UInt8} {header : Header} {index : Index}
    {items : List Item}
    (describes : RecordFileWriter.Describes pb bytes header index items)
    (area : (RecordFileWriter.headerArea pb header).length = sizeofSection + HEADER_LENGTH)
    (readsHeader : pb.header.Reads header)
    (reads : ∀ content ∈ items.flatMap Item.contents ++ [Content.index index], content.Reads pb)
    (small : bytes.length < 2 ^ 63) (timed : ∀ chunk, Item.chunk chunk ∈ items → chunk.Timed) :
    (RecordReader.create pb bytes).Over pb items ∧ (RecordReader.create pb bytes).header = header := by
  have opened := describes.openFile readsHeader
  let f : RecordFileReader := ⟨⟨bytes, sizeofSection + HEADER_LENGTH⟩, header, ⟨[]⟩, false⟩
  have created : RecordReader.create pb bytes = ⟨true, header, (f.readIndex pb).2.reset.2, ⟨[]⟩, 0, false⟩ := by
    unfold RecordReader.create
    rw [opened]
  have sameBytes : (RecordReader.create pb bytes).fileReader.fd.bytes = bytes := by
    rw [created]
    exact RecordFileReader.readIndex_bytes pb f
  rw [created] at sameBytes ⊢
  refine ⟨⟨rfl, area, ⟨index, ?_, reads⟩, ?_, timed⟩, rfl⟩
  · rw [sameBytes]
    exact describes.layout
  · rw [sameBytes]
    exact small

namespace RecordFileWriter
variable {pb : Protobuf} {header : Header} {s s' : State} {e : Event} {items : List Item} {bound : Nat}

theorem Moves.messages_subset (moves : Moves pb s e s') : s.messages ⊆ s'.messages := by
  cases moves with
  | adds message _ _ _ => exact List.subset_append_left _ _
  | declares _ _ | swaps _ | closes _ | waits _ _ | finds _ _ | swapsLast _ | stops _ _ | indexes _ | completes _
  | flushes _ _ => exact List.Subset.refl _

/-- The headers of the chunks have the times of the messages, and the header of the file has times below the bound. -/
structure Dated (bound : Nat) (s : State) (items : List Item) : Prop where
  sections : s.writer.sections =
    items.flatMap Item.contents ++ if s.pc.indexed then [.index s.writer.index] else []
  active : s.writer.chunkActive.Summed
  flushed : s.writer.chunkFlush.Summed
  chunks : ∀ chunk, Item.chunk chunk ∈ items → chunk.Timed
  beginTime : s.writer.header.beginTime < bound
  endTime : s.writer.header.endTime < bound

/-- A state that was reached without writing. -/
theorem Dated.of_same (dated : Dated bound s items) {t : State} (sections : t.writer.sections = s.writer.sections)
    (header : t.writer.header = s.writer.header) (before : s.pc.indexed = false) (after : t.pc.indexed = false)
    (active : t.writer.chunkActive.Summed) (flushed : t.writer.chunkFlush.Summed) : Dated bound t items := by
  refine ⟨?_, active, flushed, dated.chunks, by rw [header]; exact dated.beginTime, by rw [header]; exact dated.endTime⟩
  rw [sections, dated.sections, before, after]
  rfl

theorem dated_step (kept : Kept s) (dated : Dated bound s items) (moves : Moves pb s e s')
    (times : ∀ m ∈ s'.messages, 1 ≤ m.time ∧ m.time < bound) : ∃ more, Dated bound s' (items ++ more) := by
  have unchanged : Dated bound s' items → ∃ more, Dated bound s' (items ++ more) := by
    intro dated'
    exact ⟨[], by rwa [List.append_nil]⟩
  have known : ∀ m, m ∈ s.writer.chunkFlush.messages ∨ m ∈ s.writer.chunkActive.messages →
      1 ≤ m.time ∧ m.time < bound := by
    intro m member
    refine times m (moves.messages_subset (kept.messages.subset ?_))
    rcases member with inFlush | inActive
    · exact List.mem_append_left _ (List.mem_append_right _ inFlush)
    · exact List.mem_append_right _ inActive
  cases moves with
  | declares channel here =>
    have before : s.pc.indexed = false := by rw [here]; rfl
    refine ⟨[.channel channel], ?_, dated.active, dated.flushed, ?_, dated.beginTime, dated.endTime⟩
    · dsimp only
      rw [writeChannel_sections, dated.sections, before]
      simp [Item.contents]
    · intro chunk member
      exact dated.chunks chunk (by simpa using member)
  | adds message pc here next =>
    have active : (s.writer.chunkActive.add message).Summed := by
      refine dated.active.add (or_iff_not_imp_left.mpr fun some_ => .inl ?_)
      obtain ⟨m, member, first⟩ := dated.active.spans.begins some_
      have positive := (known m (.inr member)).1
      omega
    refine unchanged (dated.of_same rfl rfl (by rw [here]; rfl) ?_ active dated.flushed)
    rcases next with rfl | rfl
    · rfl
    · rfl
  | swaps here => exact unchanged (dated.of_same rfl rfl (by rw [here]; rfl) rfl dated.flushed dated.active)
  | closes here => exact unchanged (dated.of_same rfl rfl (by rw [here]; rfl) rfl dated.active dated.flushed)
  | waits here _ => exact unchanged dated
  | finds here _ => exact unchanged (dated.of_same rfl rfl (by rw [here]; rfl) rfl dated.active dated.flushed)
  | swapsLast here => exact unchanged (dated.of_same rfl rfl (by rw [here]; rfl) rfl dated.flushed dated.active)
  | stops here _ => exact unchanged (dated.of_same rfl rfl (by rw [here]; rfl) rfl dated.active dated.flushed)
  | indexes here =>
    refine unchanged ⟨?_, dated.active, dated.flushed, dated.chunks, dated.beginTime, dated.endTime⟩
    have sections := dated.sections
    rw [here] at sections
    show s.writer.sections ++ [.index (s.writer.writeIndex pb).index] = _
    rw [sections]
    simp [Pc.indexed]
  | completes here =>
    have sections := dated.sections
    rw [here] at sections
    exact unchanged ⟨sections, dated.active, dated.flushed, dated.chunks, dated.beginTime, dated.endTime⟩
  | flushes on found =>
    have before := kept.not_indexed on
    have some_ : s.writer.chunkFlush.messages ≠ [] := by
      intro none_
      rw [kept.flush.empty_iff.mpr none_] at found
      cases found
    obtain ⟨first, inFirst, begins⟩ := dated.flushed.spans.begins some_
    obtain ⟨last, inLast, ends⟩ := dated.flushed.spans.ends some_
    have early := (known first (.inl inFirst)).2
    have late := (known last (.inl inLast)).2
    have beginTime : (s.writer.flush pb).header.beginTime =
        if s.writer.header.beginTime = 0 then s.writer.chunkFlush.header.beginTime else s.writer.header.beginTime := rfl
    have endTime : (s.writer.flush pb).header.endTime = s.writer.chunkFlush.header.endTime := rfl
    refine ⟨[.chunk s.writer.chunkFlush], ?_, dated.active, Chunk.summed_clear, ?_, ?_, ?_⟩
    · dsimp only
      rw [flush_sections, dated.sections, before]
      simp [Item.contents]
    · intro chunk member
      rcases List.mem_append.mp member with old | new
      · exact dated.chunks chunk old
      · obtain ⟨rfl⟩ := List.mem_singleton.mp new
        exact ⟨some_, dated.flushed.spans⟩
    · dsimp only
      rw [beginTime, ← begins]
      split
      · exact early
      · exact dated.beginTime
    · dsimp only
      rw [endTime, ← ends]
      exact late

theorem dated_reach (reach : (machine pb header).Reach s) (beginTime : header.beginTime < bound)
    (endTime : header.endTime < bound) (times : ∀ m ∈ s.messages, 1 ≤ m.time ∧ m.time < bound) :
    ∃ items, Dated bound s items := by
  refine (Machine.Reach.invariant (M := machine pb header) (P := fun s => Kept s ∧
    ((∀ m ∈ s.messages, 1 ≤ m.time ∧ m.time < bound) → ∃ items, Dated bound s items)) ?_ ?_ reach).2 times
  · exact ⟨kept_start header, fun _ => ⟨[], rfl, Chunk.summed_clear, Chunk.summed_clear, by simp, beginTime, endTime⟩⟩
  · rintro s e s' ⟨kept, before⟩ step
    have moves := step_moves step
    refine ⟨kept_step kept moves, fun times => ?_⟩
    obtain ⟨items, dated⟩ := before fun m member => times m (moves.messages_subset member)
    obtain ⟨more, dated'⟩ := dated_step kept dated moves times
    exact ⟨_, dated'⟩

end RecordFileWriter

namespace RecordViewer
variable {pb : Protobuf}

/-- No message lies outside the times of the header, and none stands behind one that belongs to a later window. -/
def InWindows (header : Header) (messages : List SingleMessage) : Prop :=
  (∀ m ∈ messages, header.beginTime ≤ m.time ∧ m.time ≤ header.endTime) ∧
    messages.Pairwise fun x y => window SingleMessage.time kStepTimeNanoSec header.beginTime x ≤
      window SingleMessage.time kStepTimeNanoSec header.beginTime y

instance (header : Header) (messages : List SingleMessage) : Decidable (InWindows header messages) :=
  inferInstanceAs (Decidable (_ ∧ _))

/-- A viewer with the full range over one file gives all its messages if and only if they are in the order of the
windows. -/
theorem gives_all_iff {r : RecordReader} {items : List Item} (complete : r.Over pb items)
    (beginTime : r.header.beginTime ≤ 2 ^ 64 - 1) (endTime : r.header.endTime < 2 ^ 64 - kStepTimeNanoSec - 1) :
    ∃ given v', Returns (fun fuel => iterate pb fuel (create [r] 0 (2 ^ 64 - 1) [])) (given, v') ∧ Sorted given ∧
      (given.Perm (items.flatMap Item.messages) ↔ InWindows r.header (items.flatMap Item.messages)) := by
  have single : order [r] = [r] := List.mergeSort_singleton r
  obtain ⟨begins, ends⟩ := create_times [r] 0 (2 ^ 64 - 1) []
  have first : minBeginTime [r] = r.header.beginTime := by
    simp only [minBeginTime, List.foldl_cons, List.foldl_nil, complete.valid, if_true]
    split
    · rfl
    · rename_i least
      exact le_antisymm (not_lt.mp least) beginTime
  have last : maxEndTime [r] = r.header.endTime := by
    simp only [maxEndTime, List.foldl_cons, List.foldl_nil, complete.valid, if_true]
    split <;> omega
  have full : r.header.endTime ≤ 2 ^ 64 - 1 := by omega
  rw [single, first, Nat.zero_max] at begins
  rw [single, last, min_eq_right full] at ends
  obtain ⟨ws, windows⟩ : ∃ ws, Windows SingleMessage.time kStepTimeNanoSec r.header.endTime r.header.beginTime
      [track (fun _ => items) r] ws := windows_exist _ _ _ _
  have fromFile : Windows SingleMessage.time kStepTimeNanoSec (create [r] 0 (2 ^ 64 - 1) []).endTime
      (create [r] 0 (2 ^ 64 - 1) []).beginTime ((order [r]).map (track fun _ => items)) ws := by
    rw [begins, ends, single]
    exact windows
  have overAll : ∀ r' ∈ [r], r'.Over pb items := by
    intro r' member
    rwa [List.mem_singleton.mp member]
  have small : ∀ r' ∈ [r], r'.header.endTime < 2 ^ 64 - kStepTimeNanoSec - 1 := by
    intro r' member
    rwa [List.mem_singleton.mp member]
  obtain ⟨given, v', returns, _, all, sorted⟩ := iterate_windows overAll small rfl fromFile
  have everything : ws.flatten.filter (fun message => Asked [] message) = ws.flatten :=
    List.filter_eq_self.mpr fun m _ => by simp [Asked]
  rw [everything] at all
  refine ⟨given, v', returns, sorted, fun same => ?_, fun inWindows => ?_⟩
  · have length : ws.flatten.length = (track (fun _ => items) r).queue.length := (all.symm.trans same).length_eq
    exact windows.ordered_of_length rfl le_rfl le_rfl length
  · obtain ⟨within, ordered⟩ := inWindows
    have keeps : ∀ t ∈ [track (fun _ => items) r], t.Keeps SingleMessage.time kStepTimeNanoSec r.header.endTime
        r.header.beginTime r.header.beginTime := by
      intro t member
      obtain rfl := List.mem_singleton.mp member
      exact ⟨within, (fun done => by cases done), fun _ => rfl, graded_of_windows within ordered⟩
    have taken := windows.perm keeps fun _ => ⟨0, by rw [Nat.zero_mul, Nat.add_zero]⟩
    rw [List.flatMap_singleton] at taken
    refine all.trans (taken.trans (.of_eq (List.filter_eq_self.mpr fun m member => ?_)))
    simpa using within m member

/-- What a viewer with the full range gives of a file that was closed. -/
theorem gives_written (fits : RecordFileWriter.HeaderFits pb) {header : Header}
    (beginTime : header.beginTime < 2 ^ 64 - kStepTimeNanoSec - 1)
    (endTime : header.endTime < 2 ^ 64 - kStepTimeNanoSec - 1) {s : RecordFileWriter.State}
    (reach : (RecordFileWriter.machine pb header).Reach s) (closed : s.pc = .closed)
    (times : ∀ m ∈ s.messages, 1 ≤ m.time ∧ m.time < 2 ^ 64 - kStepTimeNanoSec - 1)
    (readsHeader : pb.header.Reads (RecordFileWriter.headerInFile s))
    (reads : ∀ content ∈ s.writer.sections, content.Reads pb)
    (small : s.writer.fd.bytes.length < 2 ^ 63) :
    ∃ given v', Returns (fun fuel => iterate pb fuel
        (create [RecordReader.create pb s.writer.fd.bytes] 0 (2 ^ 64 - 1) [])) (given, v') ∧ Sorted given ∧
      (given.Perm s.writer.stored ↔ InWindows (RecordFileWriter.headerInFile s) s.writer.stored) := by
  obtain ⟨items, dated⟩ := RecordFileWriter.dated_reach reach beginTime endTime times
  obtain ⟨items', sections, describes⟩ := RecordFileWriter.describes_of_closed fits reach closed
  have all := dated.sections
  rw [closed] at all
  have same : items' = items := Item.contents_injective (List.append_inj_left' (sections.symm.trans all) rfl)
  subst same
  rw [sections] at reads
  obtain ⟨complete, sameHeader⟩ := RecordReader.over_create describes
    (RecordFileWriter.headerArea_length (fits _)) readsHeader
    reads small dated.chunks
  have stored : s.writer.stored = items'.flatMap Item.messages := by
    rw [RecordFileWriter.stored, sections, List.flatMap_append, Item.flatMap_messages]
    exact List.append_nil _
  have begins : (RecordReader.create pb s.writer.fd.bytes).header.beginTime ≤ 2 ^ 64 - 1 := by
    have early := dated.beginTime
    rw [sameHeader]
    show s.writer.header.beginTime ≤ _
    omega
  have ends : (RecordReader.create pb s.writer.fd.bytes).header.endTime < 2 ^ 64 - kStepTimeNanoSec - 1 := by
    rw [sameHeader]
    exact dated.endTime
  have result := gives_all_iff complete begins ends
  rw [← stored, sameHeader] at result
  exact result

/-- The files of a writer are given whole by a viewer with the full range if and only if their messages are in the
order of the windows. -/
theorem viewer_of_written (fits : RecordFileWriter.HeaderFits pb) {header : Header}
    (beginTime : header.beginTime < 2 ^ 64 - kStepTimeNanoSec - 1)
    (endTime : header.endTime < 2 ^ 64 - kStepTimeNanoSec - 1) {r : RecordWriter}
    (reach : (RecordWriter.machine pb header).Reach r) {seg : Segment} (member : seg ∈ r.files)
    (closed : seg.file.pc = .closed)
    (times : ∀ m ∈ seg.file.messages, 1 ≤ m.time ∧ m.time < 2 ^ 64 - kStepTimeNanoSec - 1)
    (readsHeader : pb.header.Reads (RecordFileWriter.headerInFile seg.file))
    (reads : ∀ content ∈ seg.file.writer.sections, content.Reads pb)
    (small : seg.file.writer.fd.bytes.length < 2 ^ 63) :
    ∃ given v', Returns (fun fuel => iterate pb fuel
        (create [RecordReader.create pb seg.file.writer.fd.bytes] 0 (2 ^ 64 - 1) [])) (given, v') ∧
      (given.Perm seg.file.writer.stored ∧ Sorted given ↔
        InWindows (RecordFileWriter.headerInFile seg.file) seg.file.writer.stored) := by
  obtain ⟨given, v', returns, sorted, iff⟩ := gives_written fits beginTime endTime
    (RecordWriter.files_reach reach seg member) closed times readsHeader reads small
  exact ⟨given, v', returns, fun both => iff.mp both.1, fun inWindows => ⟨iff.mpr inWindows, sorted⟩⟩

/-- A message, and then one from a second after the epoch. -/
def reversed (time : Nat) : List RecordWriter.Event :=
  [.writeMessage ⟨"a", time, [1]⟩, .go, .writeMessage ⟨"a", 1000000000, [1]⟩, .go, .close, .go, .go, .flush, .go, .go,
    .go, .go]

def reversedSections (time : Nat) : List Content :=
  [.chunkHeader ⟨1000000000, time, 2, 2⟩, .chunkBody ⟨[⟨"a", time, [1]⟩, ⟨"a", 1000000000, [1]⟩]⟩,
    .index ⟨[⟨.chunkHeader, 2064, .chunkHeader ⟨2, 1000000000, time, 2⟩⟩, ⟨.chunkBody, 2096, .chunkBody ⟨2⟩⟩]⟩]

def reversedHeader (time : Nat) : Header :=
  ⟨0, 0, .none, 0, 0, 2140, 1, 0, 1000000000, time, 2, 2194, true, 0, 0⟩

/-- The messages in one window, and in two. -/
def reversedProtobuf : Protobuf :=
  let contents := reversedSections 1900000000 ++ reversedSections 3000000000
  Wire.protobuf ⟨[reversedHeader 1900000000, reversedHeader 3000000000],
    contents.filterMap fun | .chunkHeader c => some c | _ => none,
    contents.filterMap fun | .chunkBody c => some c | _ => none,
    contents.filterMap fun | .index c => some c | _ => none, []⟩

theorem reversedProtobuf_fits : RecordFileWriter.HeaderFits reversedProtobuf :=
  RecordFileWriter.wire_headerFits _

def afterReversed (time : Nat) : RecordWriter :=
  (RecordWriter.machine reversedProtobuf .empty).stateAt (reversed time) (reversed time).length

theorem afterReversed_segment (time : Nat) :
    ∃ seg ∈ (afterReversed time).files, seg.file = (afterReversed time).file :=
  ⟨_, List.mem_append_right _ (List.mem_singleton_self _), rfl⟩

section
variable {time : Nat} (known : time = 1900000000 ∨ time = 3000000000)
include known

theorem afterReversed_reach : (RecordWriter.machine reversedProtobuf .empty).Reach (afterReversed time) := by
  rcases known with rfl | rfl
  · exact Machine.stateAt_reach (reversed 1900000000) (by decide +kernel)
  · exact Machine.stateAt_reach (reversed 3000000000) (by decide +kernel)

/-- The file that was closed. -/
theorem afterReversed_file : (afterReversed time).file.pc = .closed ∧
    (afterReversed time).file.messages = [⟨"a", time, [1]⟩, ⟨"a", 1000000000, [1]⟩] ∧
    (afterReversed time).file.writer.sections = reversedSections time := by
  rcases known with rfl | rfl
  · decide +kernel
  · decide +kernel

theorem afterReversed_fileReach :
    (RecordFileWriter.machine reversedProtobuf .empty).Reach (afterReversed time).file := by
  obtain ⟨seg, member, file⟩ := afterReversed_segment time
  rw [← file]
  exact RecordWriter.files_reach (afterReversed_reach known) seg member

theorem afterReversed_length : (afterReversed time).file.writer.fd.bytes.length = 2194 := by
  rw [RecordFileWriter.length_of_closed reversedProtobuf_fits (afterReversed_fileReach known)
    (afterReversed_file known).1]
  rcases known with rfl | rfl
  · decide +kernel
  · decide +kernel

theorem afterReversed_header : RecordFileWriter.headerInFile (afterReversed time).file = reversedHeader time := by
  unfold RecordFileWriter.headerInFile
  rw [afterReversed_length known]
  rcases known with rfl | rfl
  · decide +kernel
  · decide +kernel

theorem afterReversed_reads : reversedProtobuf.header.Reads (RecordFileWriter.headerInFile (afterReversed time).file) ∧
    ∀ content ∈ (afterReversed time).file.writer.sections, content.Reads reversedProtobuf := by
  rw [afterReversed_header known, (afterReversed_file known).2.2]
  rcases known with rfl | rfl
  · refine ⟨⟨by decide +kernel, by decide +kernel⟩, fun content member => ?_⟩
    simp only [reversedSections, List.mem_cons, List.not_mem_nil, or_false] at member
    rcases member with rfl | rfl | rfl
    · exact ⟨⟨by decide +kernel, by decide +kernel⟩, by decide +kernel⟩
    · exact ⟨⟨by decide +kernel, by decide +kernel⟩, by decide +kernel⟩
    · exact ⟨by decide +kernel, by decide +kernel⟩
  · refine ⟨⟨by decide +kernel, by decide +kernel⟩, fun content member => ?_⟩
    simp only [reversedSections, List.mem_cons, List.not_mem_nil, or_false] at member
    rcases member with rfl | rfl | rfl
    · exact ⟨⟨by decide +kernel, by decide +kernel⟩, by decide +kernel⟩
    · exact ⟨⟨by decide +kernel, by decide +kernel⟩, by decide +kernel⟩
    · exact ⟨by decide +kernel, by decide +kernel⟩

theorem afterReversed_times : ∀ m ∈ (afterReversed time).file.messages,
    1 ≤ m.time ∧ m.time < 2 ^ 64 - kStepTimeNanoSec - 1 := by
  rw [(afterReversed_file known).2.1]
  rcases known with rfl | rfl
  · decide
  · decide

end

/-- Both messages lie in the first window. -/
theorem viewer_of_written_run : ∃ given v',
    Returns (fun fuel => iterate reversedProtobuf fuel
      (create [RecordReader.create reversedProtobuf (afterReversed 1900000000).file.writer.fd.bytes] 0 (2 ^ 64 - 1) []))
      (given, v') ∧
    given.Perm [⟨"a", 1900000000, [1]⟩, ⟨"a", 1000000000, [1]⟩] ∧ Sorted given := by
  have known : 1900000000 = 1900000000 ∨ 1900000000 = 3000000000 := .inl rfl
  have closed := (afterReversed_file known).1
  have times := afterReversed_times known
  obtain ⟨readsHeader, reads⟩ := afterReversed_reads known
  have small : (afterReversed 1900000000).file.writer.fd.bytes.length < 2 ^ 63 := by
    rw [afterReversed_length known]
    decide
  have header := afterReversed_header known
  have stored : (afterReversed 1900000000).file.writer.stored = [⟨"a", 1900000000, [1]⟩, ⟨"a", 1000000000, [1]⟩] := by
    decide +kernel
  obtain ⟨seg, member, file⟩ := afterReversed_segment 1900000000
  rw [← file] at closed times readsHeader reads small header stored ⊢
  obtain ⟨given, v', returns, iff⟩ := viewer_of_written reversedProtobuf_fits (by decide) (by decide)
    (afterReversed_reach known) member closed times readsHeader reads small
  rw [header, stored] at iff
  exact ⟨given, v', returns, iff.mpr (by decide +kernel)⟩

/-- The second message belongs to the first window, but the reader stops in front of the other one. -/
theorem viewer_of_written_not : (RecordWriter.machine reversedProtobuf .empty).Reach (afterReversed 3000000000) ∧
    (afterReversed 3000000000).file.pc = .closed ∧
    (afterReversed 3000000000).file.writer.stored = [⟨"a", 3000000000, [1]⟩, ⟨"a", 1000000000, [1]⟩] ∧
    ∃ given v', Returns (fun fuel => iterate reversedProtobuf fuel
      (create [RecordReader.create reversedProtobuf (afterReversed 3000000000).file.writer.fd.bytes] 0 (2 ^ 64 - 1) []))
      (given, v') ∧ ¬given.Perm [⟨"a", 3000000000, [1]⟩, ⟨"a", 1000000000, [1]⟩] := by
  have known : 3000000000 = 1900000000 ∨ 3000000000 = 3000000000 := .inr rfl
  obtain ⟨readsHeader, reads⟩ := afterReversed_reads known
  obtain ⟨closed, _, _⟩ := afterReversed_file known
  obtain ⟨given, v', returns, _, iff⟩ := gives_written reversedProtobuf_fits (by decide) (by decide)
    (afterReversed_fileReach known) closed (afterReversed_times known) readsHeader reads
    (by rw [afterReversed_length known]; decide)
  have stored : (afterReversed 3000000000).file.writer.stored = [⟨"a", 3000000000, [1]⟩, ⟨"a", 1000000000, [1]⟩] := by
    decide +kernel
  rw [afterReversed_header known, stored] at iff
  exact ⟨afterReversed_reach known, closed, stored, given, v', returns,
    fun same => absurd (iff.mp same) (by decide +kernel)⟩

end RecordViewer

end CyberRT.Record
