import CyberRT.Record.FileWriter

namespace CyberRT.Record
open Concur Posix

namespace Content

def messages : Content → List SingleMessage
  | .chunkBody c => c.messages
  | _ => []

def channels : Content → List Channel
  | .channel c => [c]
  | _ => []

end Content

namespace Chunk

def messages (c : Chunk) : List SingleMessage :=
  c.body.messages

/-- The header counts the messages. -/
def Counted (c : Chunk) : Prop :=
  c.header.messageNumber = c.messages.length

theorem counted_clear : clear.Counted := rfl

@[simp] theorem clear_messages : clear.messages = [] := rfl

@[simp] theorem add_messages (c : Chunk) (message : SingleMessage) :
    (c.add message).messages = c.messages ++ [message] := rfl

theorem Counted.add {c : Chunk} (counted : c.Counted) (message : SingleMessage) : (c.add message).Counted := by
  have before : c.header.messageNumber = c.messages.length := counted
  simp only [Counted, add_messages, List.length_append, List.length_singleton, ← before]
  rfl

theorem Counted.empty_iff {c : Chunk} (counted : c.Counted) : c.empty = true ↔ c.messages = [] := by
  rw [empty, beq_iff_eq, counted, List.length_eq_zero_iff]

end Chunk

namespace RecordFileWriter
variable {pb : Protobuf}

/-- The messages in the chunk bodies of the file, in their order. -/
def stored (w : RecordFileWriter) : List SingleMessage :=
  w.sections.flatMap Content.messages

/-- The channels of the channel sections of the file. -/
def storedChannels (w : RecordFileWriter) : List Channel :=
  w.sections.flatMap Content.channels

section
variable (w : RecordFileWriter)

@[simp] theorem writeHeader_sections (header : Header) : (w.writeHeader pb header).sections = w.sections := rfl
@[simp] theorem writeHeader_chunkActive (header : Header) : (w.writeHeader pb header).chunkActive = w.chunkActive := rfl
@[simp] theorem writeHeader_chunkFlush (header : Header) : (w.writeHeader pb header).chunkFlush = w.chunkFlush := rfl
@[simp] theorem writeHeader_isWriting (header : Header) : (w.writeHeader pb header).isWriting = w.isWriting := rfl
@[simp] theorem writeChannel_sections (channel : Channel) :
    (w.writeChannel pb channel).sections = w.sections ++ [.channel channel] := rfl
@[simp] theorem writeChannel_chunkActive (channel : Channel) :
    (w.writeChannel pb channel).chunkActive = w.chunkActive := rfl
@[simp] theorem writeChannel_chunkFlush (channel : Channel) :
    (w.writeChannel pb channel).chunkFlush = w.chunkFlush := rfl
@[simp] theorem writeChannel_isWriting (channel : Channel) :
    (w.writeChannel pb channel).isWriting = w.isWriting := rfl
@[simp] theorem addMessage_sections (message : SingleMessage) : (w.addMessage message).2.sections = w.sections := rfl
@[simp] theorem addMessage_chunkActive (message : SingleMessage) :
    (w.addMessage message).2.chunkActive = w.chunkActive.add message := rfl
@[simp] theorem addMessage_chunkFlush (message : SingleMessage) :
    (w.addMessage message).2.chunkFlush = w.chunkFlush := rfl
@[simp] theorem addMessage_isWriting (message : SingleMessage) :
    (w.addMessage message).2.isWriting = w.isWriting := rfl
@[simp] theorem swap_sections : w.swap.sections = w.sections := rfl
@[simp] theorem swap_chunkActive : w.swap.chunkActive = w.chunkFlush := rfl
@[simp] theorem swap_chunkFlush : w.swap.chunkFlush = w.chunkActive := rfl
@[simp] theorem swap_isWriting : w.swap.isWriting = w.isWriting := rfl
@[simp] theorem flush_sections : (w.flush pb).sections =
    w.sections ++ [.chunkHeader w.chunkFlush.header, .chunkBody w.chunkFlush.body] := by
  simp [flush, writeChunk, writeSection, addIndex]
@[simp] theorem flush_chunkActive : (w.flush pb).chunkActive = w.chunkActive := rfl
@[simp] theorem flush_chunkFlush : (w.flush pb).chunkFlush = .clear := rfl
@[simp] theorem flush_isWriting : (w.flush pb).isWriting = w.isWriting := rfl
@[simp] theorem writeIndex_sections : ∃ index, (w.writeIndex pb).sections = w.sections ++ [.index index] := ⟨_, rfl⟩
@[simp] theorem writeIndex_chunkActive : (w.writeIndex pb).chunkActive = w.chunkActive := rfl
@[simp] theorem writeIndex_chunkFlush : (w.writeIndex pb).chunkFlush = w.chunkFlush := rfl
@[simp] theorem writeIndex_isWriting : (w.writeIndex pb).isWriting = w.isWriting := rfl

end

/-- What a step of the writer can do. -/
inductive Moves (pb : Protobuf) (s : State) : Event → State → Prop
  | declares (channel : Channel) : s.pc = .ready → Moves pb s (.writeChannel channel)
      { s with writer := s.writer.writeChannel pb channel, channels := s.channels ++ [channel] }
  | adds (message : SingleMessage) (pc : Pc) : s.pc = .ready → pc = .ready ∨ pc = .swapping →
      Moves pb s (.writeMessage message)
        { s with writer := (s.writer.addMessage message).2, pc := pc, messages := s.messages ++ [message] }
  | swaps : s.pc = .swapping → Moves pb s .go { s with writer := s.writer.swap, pc := .ready }
  | closes : s.pc = .ready → Moves pb s .close { s with pc := .waiting }
  | waits : s.pc = .waiting ∨ s.pc = .waitingLast → s.writer.chunkFlush.empty = false → Moves pb s .go s
  | finds : s.pc = .waiting → s.writer.chunkFlush.empty = true → Moves pb s .go { s with pc := .lastSwap }
  | swapsLast : s.pc = .lastSwap → Moves pb s .go { s with writer := s.writer.swap, pc := .waitingLast }
  | stops : s.pc = .waitingLast → s.writer.chunkFlush.empty = true → Moves pb s .go
      { s with writer := { s.writer with isWriting := false }, pc := .writingIndex }
  | indexes : s.pc = .writingIndex → Moves pb s .go { s with writer := s.writer.writeIndex pb, pc := .writingHeader }
  | completes : s.pc = .writingHeader → Moves pb s .go
      { s with writer := s.writer.writeHeader pb { s.writer.header with isComplete := true }, pc := .closed }
  | flushes : s.writer.isWriting = true → s.writer.chunkFlush.empty = false → Moves pb s .flush
      { s with writer := s.writer.flush pb }

theorem go_moves {s s' : State} (step : s.go pb = some s') : Moves pb s .go s' := by
  unfold State.go at step
  split at step
  · cases step
  · cases step
  · rename_i here
    cases step
    exact .swaps here
  · rename_i here
    cases step
    by_cases none_ : s.writer.chunkFlush.empty = true
    · simp only [none_, if_true]
      exact .finds here none_
    · have same : { s with pc := if s.writer.chunkFlush.empty then .lastSwap else .waiting } = s := by
        rw [if_neg none_, ← here]
      rw [same]
      exact .waits (.inl here) (Bool.eq_false_iff.mpr none_)
  · rename_i here
    cases step
    exact .swapsLast here
  · rename_i here
    split at step
    · rename_i none_
      cases step
      exact .stops here none_
    · rename_i some_
      cases step
      exact .waits (.inr here) (Bool.eq_false_iff.mpr some_)
  · rename_i here
    cases step
    exact .indexes here
  · rename_i here
    cases step
    exact .completes here

theorem step_moves {s s' : State} {e : Event} (step : step pb s e = some s') : Moves pb s e s' := by
  cases e with
  | writeChannel channel =>
    simp only [RecordFileWriter.step] at step
    split at step
    · rename_i here
      cases step
      exact .declares channel here
    · cases step
  | writeMessage message =>
    simp only [RecordFileWriter.step] at step
    split at step
    · rename_i here
      cases step
      refine .adds message _ here ?_
      split
      · exact .inr rfl
      · exact .inl rfl
    · cases step
  | close =>
    simp only [RecordFileWriter.step] at step
    split at step
    · rename_i here
      cases step
      exact .closes here
    · cases step
  | go => exact go_moves step
  | flush =>
    simp only [RecordFileWriter.step] at step
    split at step
    · rename_i found
      cases step
      simp only [Bool.and_eq_true, Bool.not_eq_true'] at found
      exact .flushes found.1 found.2
    · cases step

/-- The caller is in `Close`, after the last flush. -/
def Pc.flushed : Pc → Bool
  | .writingIndex | .writingHeader | .closed => true
  | .ready | .swapping | .waiting | .lastSwap | .waitingLast => false

/-- The last swap finds one chunk empty, and after the last flush both are. -/
def Pc.Empties (w : RecordFileWriter) : Pc → Prop
  | .lastSwap => w.chunkFlush.messages = []
  | .waitingLast => w.chunkActive.messages = []
  | .writingIndex | .writingHeader | .closed => w.chunkFlush.messages = [] ∧ w.chunkActive.messages = []
  | .ready | .swapping | .waiting => True

/-- Every message is in the file or in one of the two chunks. -/
structure Kept (s : State) : Prop where
  messages : (s.writer.stored ++ s.writer.chunkFlush.messages ++ s.writer.chunkActive.messages).Perm s.messages
  channels : s.writer.storedChannels = s.channels
  active : s.writer.chunkActive.Counted
  flush : s.writer.chunkFlush.Counted
  empties : s.pc.Empties s.writer
  writing : s.writer.isWriting = !s.pc.flushed

theorem stored_concat (w : RecordFileWriter) {w' : RecordFileWriter} {content : Content}
    (wrote : w'.sections = w.sections ++ [content]) : w'.stored = w.stored ++ content.messages := by
  simp [stored, wrote]

theorem storedChannels_concat (w : RecordFileWriter) {w' : RecordFileWriter} {content : Content}
    (wrote : w'.sections = w.sections ++ [content]) : w'.storedChannels = w.storedChannels ++ content.channels := by
  simp [storedChannels, wrote]

@[simp] theorem stored_flush (w : RecordFileWriter) : (w.flush pb).stored = w.stored ++ w.chunkFlush.messages := by
  simp [stored, Content.messages, Chunk.messages]

@[simp] theorem storedChannels_flush (w : RecordFileWriter) : (w.flush pb).storedChannels = w.storedChannels := by
  simp [storedChannels, Content.channels]

theorem kept_start (header : Header) : Kept (start pb header) :=
  ⟨.refl _, rfl, rfl, rfl, trivial, rfl⟩

theorem kept_step {s s' : State} {e : Event} (kept : Kept s) (moves : Moves pb s e s') : Kept s' := by
  obtain ⟨messages, channels, active, flush, empties, writing⟩ := kept
  have swapped : (s.writer.swap.stored ++ s.writer.swap.chunkFlush.messages ++
      s.writer.swap.chunkActive.messages).Perm s.messages := by
    refine List.Perm.trans ?_ messages
    simp only [List.append_assoc]
    exact (List.perm_append_comm).append_left _
  cases moves with
  | declares channel here =>
    refine ⟨?_, ?_, active, flush, ?_, writing⟩
    · rw [stored_concat s.writer rfl]
      simpa [Content.messages] using messages
    · rw [storedChannels_concat s.writer rfl, channels]
      rfl
    · dsimp only
      rw [here]
      trivial
  | adds message pc here next =>
    rw [here] at writing
    have more : ((s.writer.addMessage message).2.stored ++ (s.writer.addMessage message).2.chunkFlush.messages ++
        (s.writer.addMessage message).2.chunkActive.messages).Perm (s.messages ++ [message]) := by
      simpa [stored, ← List.append_assoc] using messages.append_right [message]
    rcases next with rfl | rfl
    · exact ⟨more, channels, active.add message, flush, trivial, writing⟩
    · exact ⟨more, channels, active.add message, flush, trivial, writing⟩
  | swaps here =>
    rw [here] at writing
    exact ⟨swapped, channels, flush, active, trivial, writing⟩
  | closes here =>
    rw [here] at writing
    exact ⟨messages, channels, active, flush, trivial, writing⟩
  | waits _ _ => exact ⟨messages, channels, active, flush, empties, writing⟩
  | finds here none_ =>
    rw [here] at writing
    exact ⟨messages, channels, active, flush, flush.empty_iff.mp none_, writing⟩
  | swapsLast here =>
    rw [here] at writing empties
    exact ⟨swapped, channels, flush, active, empties, writing⟩
  | stops here none_ =>
    rw [here] at empties
    exact ⟨messages, channels, active, flush, ⟨flush.empty_iff.mp none_, empties⟩, rfl⟩
  | indexes here =>
    rw [here] at empties writing
    refine ⟨?_, ?_, active, flush, empties, writing⟩
    · rw [stored_concat s.writer rfl]
      simpa [Content.messages] using messages
    · rw [storedChannels_concat s.writer rfl, channels]
      exact List.append_nil _
  | completes here =>
    rw [here] at empties writing
    exact ⟨messages, channels, active, flush, empties, writing⟩
  | flushes on found =>
    refine ⟨by simpa using messages, by rw [storedChannels_flush, channels], active, Chunk.counted_clear, ?_, writing⟩
    rw [on] at writing
    dsimp only
    cases here : s.pc with
    | ready => trivial
    | swapping => trivial
    | waiting => trivial
    | lastSwap => rfl
    | waitingLast =>
      rw [here] at empties
      exact empties
    | writingIndex => rw [here] at writing; cases writing
    | writingHeader => rw [here] at writing; cases writing
    | closed => rw [here] at writing; cases writing

/-- The steps of a call and of the flush thread lead to the end of `Close`. -/
def Closes (pb : Protobuf) (s : State) : Prop :=
  ∃ es s', (∀ e ∈ es, e = .go ∨ e = .flush) ∧ (machine pb .empty).exec s es = some s' ∧ s'.pc = .closed

theorem Closes.step {s s' : State} {e : Event} (inner : e = .go ∨ e = .flush) (next : step pb s e = some s')
    (closes : Closes pb s') : Closes pb s := by
  obtain ⟨es, last, all, run, closed⟩ := closes
  refine ⟨e :: es, last, ?_, ?_, closed⟩
  · exact List.forall_mem_cons.mpr ⟨inner, all⟩
  · have first : (machine pb .empty).step s e = some s' := next
    rw [Machine.exec, first]
    exact run

/-- A wait that finds the chunk not yet flushed is ended by the flush thread. -/
theorem Closes.of_wait {s : State} (kept : Kept s) (early : s.pc.flushed = false)
    (done : ∀ t, Kept t → t.pc = s.pc → t.writer.chunkFlush.empty = true → Closes pb t) : Closes pb s := by
  by_cases none_ : s.writer.chunkFlush.empty = true
  · exact done s kept rfl none_
  · have on : s.writer.isWriting = true := by rw [kept.writing, early]; rfl
    have found : s.writer.chunkFlush.empty = false := Bool.eq_false_iff.mpr none_
    have next : RecordFileWriter.step pb s .flush = some { s with writer := s.writer.flush pb } := by
      simp only [RecordFileWriter.step, on, found, Bool.not_false, Bool.and_self, if_true]
    exact .step (.inr rfl) next (done _ (kept_step kept (step_moves next)) rfl rfl)

/-- `Close` ends. -/
theorem close_ends {s : State} (kept : Kept s) (called : s.pc ≠ .ready ∧ s.pc ≠ .swapping) : Closes pb s := by
  have fromHeader : ∀ t, t.pc = .writingHeader → Closes pb t := by
    intro t here
    refine .step (.inl rfl) (by simp only [RecordFileWriter.step, State.go, here]; rfl) ⟨[], _, by simp, rfl, rfl⟩
  have fromIndex : ∀ t, t.pc = .writingIndex → Closes pb t := by
    intro t here
    exact .step (.inl rfl) (by simp only [RecordFileWriter.step, State.go, here]; rfl) (fromHeader _ rfl)
  have fromLast : ∀ t, Kept t → t.pc = .waitingLast → Closes pb t := by
    intro t kept here
    refine .of_wait kept (by rw [here]; rfl) fun u kept' same none_ => ?_
    refine .step (.inl rfl) ?_
      (fromIndex { u with writer := { u.writer with isWriting := false }, pc := .writingIndex } rfl)
    simp only [RecordFileWriter.step, State.go, same.trans here, none_, if_true]
  have fromSwap : ∀ t, Kept t → t.pc = .lastSwap → Closes pb t := by
    intro t kept here
    have next : RecordFileWriter.step pb t .go = some { t with writer := t.writer.swap, pc := .waitingLast } := by
      simp only [RecordFileWriter.step, State.go, here]
    exact .step (.inl rfl) next (fromLast _ (kept_step kept (step_moves next)) rfl)
  cases here : s.pc with
  | ready => exact absurd here called.1
  | swapping => exact absurd here called.2
  | waiting =>
    refine .of_wait kept (by rw [here]; rfl) fun u kept' same none_ => ?_
    have next : RecordFileWriter.step pb u .go = some { u with pc := .lastSwap } := by
      simp only [RecordFileWriter.step, State.go, same.trans here, none_, if_true]
    exact .step (.inl rfl) next (fromSwap _ (kept_step kept' (step_moves next)) rfl)
  | lastSwap => exact fromSwap s kept here
  | waitingLast => exact fromLast s kept here
  | writingIndex => exact fromIndex s here
  | writingHeader => exact fromHeader s here
  | closed => exact ⟨[], s, by simp, rfl, here⟩

end RecordFileWriter

end CyberRT.Record
