import CyberRT.Record.IndexRuns

namespace CyberRT.Record
open Concur

/-- The times of the messages lie between the first and the last of them. -/
structure Spans (messages : List SingleMessage) (beginTime endTime : Nat) : Prop where
  within : ∀ m ∈ messages, beginTime ≤ m.time ∧ m.time ≤ endTime
  begins : messages ≠ [] → ∃ m ∈ messages, m.time = beginTime
  ends : messages ≠ [] → ∃ m ∈ messages, m.time = endTime

theorem Spans.single (message : SingleMessage) : Spans [message] message.time message.time :=
  ⟨by simp, by simp, by simp⟩

theorem Spans.append {messages more : List SingleMessage} {beginTime endTime beginTime' endTime' : Nat}
    (spans : Spans messages beginTime endTime) (spans' : Spans more beginTime' endTime') (some_ : messages ≠ [])
    (some' : more ≠ []) : Spans (messages ++ more) (min beginTime beginTime') (max endTime endTime') := by
  refine ⟨?_, fun _ => ?_, fun _ => ?_⟩
  · intro m member
    rcases List.mem_append.mp member with old | new
    · have bounds := spans.within m old
      omega
    · have bounds := spans'.within m new
      omega
  · rcases le_total beginTime beginTime' with earlier | later
    · obtain ⟨m, member, first⟩ := spans.begins some_
      exact ⟨m, List.mem_append_left _ member, by rw [first, min_eq_left earlier]⟩
    · obtain ⟨m, member, first⟩ := spans'.begins some'
      exact ⟨m, List.mem_append_right _ member, by rw [first, min_eq_right later]⟩
  · rcases le_total endTime endTime' with earlier | later
    · obtain ⟨m, member, last⟩ := spans'.ends some'
      exact ⟨m, List.mem_append_right _ member, by rw [last, max_eq_right earlier]⟩
    · obtain ⟨m, member, last⟩ := spans.ends some_
      exact ⟨m, List.mem_append_left _ member, by rw [last, max_eq_left later]⟩

namespace Chunk

/-- The header has the times of the messages, and zeros if there are none. -/
structure Summed (c : Chunk) : Prop where
  spans : Spans c.messages c.header.beginTime c.header.endTime
  unset : c.messages = [] → c.header.beginTime = 0 ∧ c.header.endTime = 0

theorem summed_clear : clear.Summed :=
  ⟨⟨by simp, by simp, by simp⟩, fun _ => ⟨rfl, rfl⟩⟩

/-- A message that is added with a time to a chunk that begins at zero would be taken for the first one. -/
theorem Summed.add {c : Chunk} (summed : c.Summed) {message : SingleMessage}
    (set_ : c.messages = [] ∨ c.header.beginTime ≠ 0 ∨ message.time = 0) : (c.add message).Summed := by
  refine ⟨?_, by simp⟩
  rw [add_messages]
  by_cases none_ : c.messages = []
  · obtain ⟨begins, ends⟩ := summed.unset none_
    have times : (c.add message).header.beginTime = message.time ∧ (c.add message).header.endTime = message.time := by
      simp only [Chunk.add, begins, ends, if_true]
      constructor
      · split <;> rfl
      · split <;> omega
    rw [none_, times.1, times.2]
    exact .single message
  · have times : (c.add message).header.beginTime = min c.header.beginTime message.time ∧
        (c.add message).header.endTime = max c.header.endTime message.time := by
      simp only [Chunk.add]
      constructor
      · by_cases zero : c.header.beginTime = 0
        · have same := (set_.resolve_left none_).resolve_left (fun nonzero => nonzero zero)
          simp [zero, same]
        · simp only [if_neg zero]
          split <;> omega
      · split <;> omega
    rw [times.1, times.2]
    exact summed.spans.append (.single message) none_ (by simp)

end Chunk

namespace Item

/-- The items of a file can be told from its sections. -/
theorem contents_injective {items items' : List Item} (same : items.flatMap contents = items'.flatMap contents) :
    items = items' := by
  induction items generalizing items' with
  | nil =>
    cases items' with
    | nil => rfl
    | cons item rest => cases item <;> simp [contents] at same
  | cons item rest ih =>
    cases items' with
    | nil => cases item <;> simp [contents] at same
    | cons item' rest' =>
      cases item with
      | channel c =>
        cases item' with
        | channel c' =>
          simp only [List.flatMap_cons, contents, List.singleton_append, List.cons.injEq, Content.channel.injEq] at same
          rw [same.1, ih same.2]
        | chunk c' => simp [contents] at same
      | chunk c =>
        cases item' with
        | channel c' => simp [contents] at same
        | chunk c' =>
          obtain ⟨header, body⟩ := c
          obtain ⟨header', body'⟩ := c'
          simp only [List.flatMap_cons, contents, List.cons_append, List.nil_append, List.cons.injEq,
            Content.chunkHeader.injEq, Content.chunkBody.injEq] at same
          rw [same.1, same.2.1, ih same.2.2]

def isChunk : Item → Bool
  | .channel _ => false
  | .chunk _ => true

end Item

namespace RecordFileWriter
variable {pb : Protobuf}

/-- A header that counts nothing yet, as `HeaderBuilder` makes it. -/
structure Fresh (header : Header) : Prop where
  beginTime : header.beginTime = 0
  endTime : header.endTime = 0
  messageNumber : header.messageNumber = 0
  chunkNumber : header.chunkNumber = 0

/-- The chunk in front of the flush thread can follow those in the file: it neither begins nor ends before them, and
it does not begin after zero if they begin at zero. -/
def Follows (w : RecordFileWriter) : Prop :=
  w.header.chunkNumber = 0 ∨
    (w.header.beginTime ≤ w.chunkFlush.header.beginTime ∧ w.header.endTime ≤ w.chunkFlush.header.endTime ∧
      (w.header.beginTime = 0 → w.chunkFlush.header.beginTime = 0))

/-- The chunks are swapped when the flush thread has written the one in front of it; a chunk with a message at zero
takes no message at another time; and the chunks come in the order of their times. -/
def InOrder (s : State) : Event → Prop
  | .writeMessage message =>
    s.writer.chunkActive.messages = [] ∨ s.writer.chunkActive.header.beginTime ≠ 0 ∨ message.time = 0
  | .go => s.pc = .swapping → s.writer.chunkFlush.messages = []
  | .flush => Follows s.writer
  | .writeChannel _ | .close => True

instance (w : RecordFileWriter) : Decidable (Follows w) :=
  inferInstanceAs (Decidable (_ ∨ _))

instance (s : State) : (e : Event) → Decidable (InOrder s e)
  | .writeMessage _ => inferInstanceAs (Decidable (_ ∨ _))
  | .go => inferInstanceAs (Decidable (_ → _))
  | .flush => inferInstanceAs (Decidable (Follows _))
  | .writeChannel _ | .close => inferInstanceAs (Decidable True)

/-- The messages are in their order, in the file and in the chunks, and the headers sum them up. -/
structure Summary (s : State) (items : List Item) : Prop where
  order : s.writer.stored ++ s.writer.chunkFlush.messages ++ s.writer.chunkActive.messages = s.messages
  sections : s.writer.sections =
    items.flatMap Item.contents ++ if s.pc.indexed then [.index s.writer.index] else []
  active : s.writer.chunkActive.Summed
  flushed : s.writer.chunkFlush.Summed
  chunks : ∀ chunk, .chunk chunk ∈ items →
    Spans chunk.messages chunk.header.beginTime chunk.header.endTime ∧ chunk.Counted
  spans : Spans s.writer.stored s.writer.header.beginTime s.writer.header.endTime
  unset : s.writer.stored = [] → s.writer.header.beginTime = 0 ∧ s.writer.header.endTime = 0
  messageNumber : s.writer.header.messageNumber = s.writer.stored.length
  chunkNumber : s.writer.header.chunkNumber = items.countP Item.isChunk

theorem summary_start {header : Header} (fresh : Fresh header) : Summary (start pb header) [] :=
  ⟨rfl, rfl, Chunk.summed_clear, Chunk.summed_clear, by simp,
    ⟨by simp [start, startOn, stored, openFile], fun none_ => absurd rfl none_,
    fun none_ => absurd rfl none_⟩, fun _ => ⟨fresh.beginTime, fresh.endTime⟩, fresh.messageNumber, fresh.chunkNumber⟩

/-- A file in which no chunk is counted holds no message. -/
theorem Summary.stored_nil {s : State} {items : List Item} (summary : Summary s items)
    (none_ : s.writer.header.chunkNumber = 0) : s.writer.stored = [] := by
  rw [summary.chunkNumber, List.countP_eq_zero] at none_
  have nothing : (items.flatMap Item.contents).flatMap Content.messages = [] := by
    simp only [List.flatMap_eq_nil_iff, List.mem_flatMap]
    rintro content ⟨item, member, inItem⟩
    cases item with
    | channel c =>
      obtain rfl := List.mem_singleton.mp inItem
      rfl
    | chunk c => exact absurd rfl (none_ _ member)
  rw [stored, summary.sections, List.flatMap_append, nothing]
  split <;> rfl

/-- A state that was reached without writing. -/
theorem Summary.of_same {s t : State} {items : List Item} (summary : Summary s items)
    (sections : t.writer.sections = s.writer.sections) (header : t.writer.header = s.writer.header)
    (order : t.writer.stored ++ t.writer.chunkFlush.messages ++ t.writer.chunkActive.messages = t.messages)
    (before : s.pc.indexed = false) (after : t.pc.indexed = false) (active : t.writer.chunkActive.Summed)
    (flush : t.writer.chunkFlush.Summed) : Summary t items := by
  have stored : t.writer.stored = s.writer.stored := by
    unfold RecordFileWriter.stored
    rw [sections]
  refine ⟨order, ?_, active, flush, summary.chunks, ?_, ?_, ?_, ?_⟩
  · rw [sections, summary.sections, before, after]
    rfl
  · rw [stored, header]
    exact summary.spans
  · rw [stored, header]
    exact summary.unset
  · rw [stored, header]
    exact summary.messageNumber
  · rw [header]
    exact summary.chunkNumber

/-- A swap that finds the chunk in front of the flush thread, or the other one, empty keeps the order. -/
theorem Summary.swap_order {s : State} {items : List Item} (summary : Summary s items)
    (empty : s.writer.chunkFlush.messages = []) :
    s.writer.swap.stored ++ s.writer.swap.chunkFlush.messages ++ s.writer.swap.chunkActive.messages = s.messages := by
  have order := summary.order
  rw [empty, List.append_nil] at order
  rw [swap_chunkFlush, swap_chunkActive, empty, List.append_nil]
  exact order

theorem Summary.flush {s : State} {items : List Item} (summary : Summary s items) (kept : Kept s)
    (follows : Follows s.writer) (before : s.pc.indexed = false) (found : s.writer.chunkFlush.messages ≠ []) :
    Summary { s with writer := s.writer.flush pb } (items ++ [Item.chunk s.writer.chunkFlush]) := by
  have beginTime : (s.writer.flush pb).header.beginTime =
      if s.writer.header.beginTime = 0 then s.writer.chunkFlush.header.beginTime else s.writer.header.beginTime := rfl
  have endTime : (s.writer.flush pb).header.endTime = s.writer.chunkFlush.header.endTime := rfl
  have messageNumber : (s.writer.flush pb).header.messageNumber =
      s.writer.header.messageNumber + s.writer.chunkFlush.header.messageNumber := rfl
  have chunkNumber : (s.writer.flush pb).header.chunkNumber = s.writer.header.chunkNumber + 1 := rfl
  refine ⟨?_, ?_, summary.active, Chunk.summed_clear, ?_, ?_, ?_, ?_, ?_⟩
  · simpa using summary.order
  · dsimp only
    rw [flush_sections, summary.sections, before]
    simp [Item.contents]
  · intro chunk member
    rcases List.mem_append.mp member with old | new
    · exact summary.chunks chunk old
    · obtain ⟨rfl⟩ := List.mem_singleton.mp new
      exact ⟨summary.flushed.spans, kept.flush⟩
  · dsimp only
    rw [stored_flush, beginTime, endTime]
    by_cases none_ : s.writer.stored = []
    · rw [none_, (summary.unset none_).1, if_pos rfl]
      exact summary.flushed.spans
    · obtain ⟨begins, ends, zero⟩ := follows.resolve_left fun first => none_ (summary.stored_nil first)
      have times := summary.spans.append summary.flushed.spans none_ found
      rw [min_eq_left begins, max_eq_right ends] at times
      split
      · rename_i unset
        rw [zero unset, ← unset]
        exact times
      · exact times
  · dsimp only
    rw [stored_flush]
    exact fun none_ => absurd (List.append_eq_nil_iff.mp none_).2 found
  · dsimp only
    rw [stored_flush, messageNumber, summary.messageNumber, kept.flush, List.length_append]
  · dsimp only
    rw [chunkNumber, summary.chunkNumber, List.countP_append]
    rfl

theorem summary_step {s s' : State} {e : Event} {items : List Item} (kept : Kept s) (summary : Summary s items)
    (inOrder : InOrder s e) (moves : Moves pb s e s') : ∃ more, Summary s' (items ++ more) := by
  have unchanged : Summary s' items → ∃ more, Summary s' (items ++ more) := by
    intro summary'
    exact ⟨[], by rwa [List.append_nil]⟩
  cases moves with
  | declares channel here =>
    have before : s.pc.indexed = false := by rw [here]; rfl
    have stored : (s.writer.writeChannel pb channel).stored = s.writer.stored :=
      (stored_concat s.writer rfl).trans (List.append_nil _)
    refine ⟨[.channel channel], ?_, ?_, summary.active, summary.flushed, ?_, ?_, ?_, ?_, ?_⟩
    · dsimp only
      rw [stored]
      exact summary.order
    · dsimp only
      rw [writeChannel_sections, summary.sections, before]
      simp [Item.contents]
    · intro chunk member
      exact summary.chunks chunk (by simpa using member)
    · dsimp only
      rw [stored]
      exact summary.spans
    · dsimp only
      rw [stored]
      exact summary.unset
    · dsimp only
      rw [stored]
      exact summary.messageNumber
    · dsimp only
      rw [List.countP_append]
      exact summary.chunkNumber
  | adds message pc here next =>
    refine unchanged (summary.of_same rfl rfl ?_ (by rw [here]; rfl) ?_ (summary.active.add inOrder) summary.flushed)
    · simp [stored, ← summary.order]
    · rcases next with rfl | rfl
      · rfl
      · rfl
  | swaps here =>
    exact unchanged (summary.of_same rfl rfl (summary.swap_order (inOrder here)) (by rw [here]; rfl) rfl summary.flushed
      summary.active)
  | closes here =>
    exact unchanged (summary.of_same rfl rfl summary.order (by rw [here]; rfl) rfl summary.active summary.flushed)
  | waits here _ => exact unchanged summary
  | finds here _ =>
    exact unchanged (summary.of_same rfl rfl summary.order (by rw [here]; rfl) rfl summary.active summary.flushed)
  | swapsLast here =>
    have empties := kept.empties
    rw [here] at empties
    exact unchanged (summary.of_same rfl rfl (summary.swap_order empties) (by rw [here]; rfl) rfl summary.flushed
      summary.active)
  | stops here _ =>
    exact unchanged (summary.of_same rfl rfl summary.order (by rw [here]; rfl) rfl summary.active summary.flushed)
  | indexes here =>
    have stored : (s.writer.writeIndex pb).stored = s.writer.stored :=
      (stored_concat s.writer rfl).trans (List.append_nil _)
    refine unchanged ⟨?_, ?_, summary.active, summary.flushed, summary.chunks, ?_, ?_, ?_, summary.chunkNumber⟩
    · dsimp only
      rw [stored]
      exact summary.order
    · have sections := summary.sections
      rw [here] at sections
      show s.writer.sections ++ [.index (s.writer.writeIndex pb).index] = _
      rw [sections]
      simp [Pc.indexed]
    · dsimp only
      rw [stored]
      exact summary.spans
    · dsimp only
      rw [stored]
      exact summary.unset
    · dsimp only
      rw [stored]
      exact summary.messageNumber
  | completes here =>
    have sections := summary.sections
    rw [here] at sections
    exact unchanged ⟨summary.order, sections, summary.active, summary.flushed, summary.chunks, summary.spans,
      summary.unset, summary.messageNumber, summary.chunkNumber⟩
  | flushes on found =>
    have before := kept.not_indexed on
    refine ⟨_, summary.flush kept inOrder before fun none_ => ?_⟩
    rw [kept.flush.empty_iff.mpr none_] at found
    cases found

/-- In a run that keeps the order, the file that was closed holds the messages in the order in which they were
written, and its headers sum them up. -/
theorem summary_of_closed (fits : HeaderFits pb) {header : Header} (fresh : Fresh header) {s : State}
    (reach : (machine pb header).ReachWhen InOrder s) (closed : s.pc = .closed) :
    ∃ items, Describes pb s.writer.fd.bytes (headerInFile s) s.writer.index items ∧
      (items.flatMap Item.contents).flatMap Content.messages = s.messages ∧
      (∀ chunk, Item.chunk chunk ∈ items → chunk.messages ≠ [] ∧
        Spans chunk.messages chunk.header.beginTime chunk.header.endTime) ∧
      Spans s.messages (headerInFile s).beginTime (headerInFile s).endTime ∧
      (headerInFile s).messageNumber = s.messages.length ∧
      (headerInFile s).chunkNumber = items.countP Item.isChunk := by
  have both : Kept s ∧ ∃ items, Summary s items := by
    refine Machine.ReachWhen.invariant (M := machine pb header) (P := fun s => Kept s ∧ ∃ items, Summary s items)
      ⟨kept_start header, [], summary_start fresh⟩ ?_ reach
    rintro s e s' ⟨kept, items, summary⟩ inOrder step
    obtain ⟨more, summary'⟩ := summary_step kept summary inOrder (step_moves step)
    exact ⟨kept_step kept (step_moves step), _, summary'⟩
  obtain ⟨kept, items, summary⟩ := both
  obtain ⟨items', laid⟩ := laid_reach fits reach.reach
  obtain ⟨items'', sections, describes⟩ := describes_of_closed fits reach.reach closed
  have empties := kept.empties
  rw [closed] at empties
  have order := summary.order
  rw [empties.1, empties.2, List.append_nil, List.append_nil] at order
  have all := summary.sections
  rw [closed] at all
  have same : items'' = items := Item.contents_injective (List.append_inj_left' (sections.symm.trans all) rfl)
  have same' : items' = items :=
    Item.contents_injective (List.append_inj_left' ((laid.indexed (by rw [closed]; rfl)).1.symm.trans all) rfl)
  subst same
  refine ⟨items'', describes, ?_, ?_, ?_, ?_, summary.chunkNumber⟩
  · rw [← order, stored, sections]
    simp [Content.messages]
  · intro chunk member
    exact ⟨laid.full chunk (same' ▸ member), (summary.chunks chunk member).1⟩
  · rw [← order]
    exact summary.spans
  · rw [← order]
    exact summary.messageNumber

/-- A message of two bytes fills a chunk. -/
def smallChunks : Header :=
  { Header.empty with chunkRawSize := 1 }

theorem smallChunks_fresh : Fresh smallChunks :=
  ⟨rfl, rfl, rfl, rfl⟩

/-- The flush thread writes each chunk before the next swap. -/
def flushedInTime : List Event :=
  [.writeMessage ⟨"a", 3, [1, 2]⟩, .go, .flush, .writeMessage ⟨"a", 5, [1, 2]⟩, .go, .flush, .close, .go, .go, .go,
    .go, .go]

def afterFlushedInTime : State :=
  (machine (Wire.protobuf .none) smallChunks).stateAt flushedInTime flushedInTime.length

theorem summary_of_closed_run :
    (machine (Wire.protobuf .none) smallChunks).ReachWhen InOrder afterFlushedInTime ∧ afterFlushedInTime.pc = .closed ∧
    Spans afterFlushedInTime.messages (headerInFile afterFlushedInTime).beginTime
      (headerInFile afterFlushedInTime).endTime := by
  have reach : (machine (Wire.protobuf .none) smallChunks).ReachWhen InOrder afterFlushedInTime :=
    Machine.stateAt_reachWhen flushedInTime (by decide +kernel) (by decide +kernel)
  have closed : afterFlushedInTime.pc = .closed := by decide +kernel
  obtain ⟨_, _, _, _, spans, _⟩ := summary_of_closed (wire_headerFits .none) smallChunks_fresh reach closed
  exact ⟨reach, closed, spans⟩

/-- The chunks are swapped again before the flush thread has written the first of them. -/
def flushedLate : List Event :=
  [.writeMessage ⟨"a", 3, [1, 2]⟩, .go, .writeMessage ⟨"a", 5, [1, 2]⟩, .go, .flush, .close, .go, .go, .flush, .go,
    .go, .go]

def afterFlushedLate : State :=
  (machine (Wire.protobuf .none) smallChunks).stateAt flushedLate flushedLate.length

/-- The first message comes last in the file, and the header begins after it and ends before the other one. -/
theorem summary_of_closed_not : (machine (Wire.protobuf .none) smallChunks).Reach afterFlushedLate ∧
    afterFlushedLate.pc = .closed ∧ afterFlushedLate.messages = [⟨"a", 3, [1, 2]⟩, ⟨"a", 5, [1, 2]⟩] ∧
    afterFlushedLate.writer.stored = [⟨"a", 5, [1, 2]⟩, ⟨"a", 3, [1, 2]⟩] ∧
    (headerInFile afterFlushedLate).beginTime = 5 ∧ (headerInFile afterFlushedLate).endTime = 3 :=
  ⟨Machine.stateAt_reach flushedLate (by decide +kernel), by decide +kernel, by decide +kernel, by decide +kernel,
    by decide +kernel, by decide +kernel⟩

end RecordFileWriter

end CyberRT.Record
