import CyberRT.Lib.Sweep
import CyberRT.Record.Reader
import CyberRT.Record.Sections
import CyberRT.Record.Summary

namespace CyberRT.Record
open Posix Loop Sweep

/-- Sections that can be read up to the index. A chunk has messages, and its header the times of them; its header may
have been read already. -/
inductive Sections (pb : Protobuf) : List Content → Prop
  | index {i : Index} : pb.index.Reads i → Sections pb [.index i]
  | channel {c : Channel} {contents : List Content} : pb.channel.ReadsSome c → Sections pb contents →
      Sections pb (.channel c :: contents)
  | body {b : ChunkBody} {contents : List Content} : pb.chunkBody.ReadsSome b → b.messages ≠ [] → Sections pb contents →
      Sections pb (.chunkBody b :: contents)
  | header {h : ChunkHeader} {b : ChunkBody} {contents : List Content} : pb.chunkHeader.ReadsSome h →
      Spans b.messages h.beginTime h.endTime → Sections pb (.chunkBody b :: contents) →
      Sections pb (.chunkHeader h :: .chunkBody b :: contents)

namespace RecordReader
open RecordFileReader

variable {pb : Protobuf} {beginTime endTime : Nat} {r r' : RecordReader}

/-- The messages of the chunk that were not read yet. -/
def pending (r : RecordReader) : List SingleMessage :=
  r.chunk.messages.drop r.messageIndex

/-- The messages in the sections that the reader has not come to. -/
inductive Ahead (pb : Protobuf) (r : RecordReader) : List SingleMessage → Prop
  | ended : r.reachEnd = true → Ahead pb r []
  | sections {contents : List Content} : r.reachEnd = false →
      r.fileReader.fd.rest = contents.flatMap (Content.bytes pb) → Sections pb contents →
      Ahead pb r (contents.flatMap Content.messages)

/-- How `ReadNextChunk` ends: with a chunk behind chunks that are all before the time, or without one in front of a
message that is after the time, or at the end of the file. -/
structure Chunks (pb : Protobuf) (beginTime endTime : Nat) (r : RecordReader) (messages : List SingleMessage)
    (result : Bool × RecordReader) : Prop where
  same : result.2.reset = r.reset
  split : ∃ dropped later, messages = dropped ++ later ∧ (∀ m ∈ dropped, m.time < beginTime) ∧
    (result.1 = true → result.2.chunk.messages ≠ [] ∧
      ∃ more, later = result.2.chunk.messages ++ more ∧ Ahead pb result.2 more) ∧
    (result.1 = false → result.2.chunk = r.chunk ∧ result.2.messageIndex = r.messageIndex ∧ Ahead pb result.2 later ∧
      ∀ m, later.head? = some m → endTime < m.time)

/-- The rounds of `ReadNextChunk`. -/
abbrev ChunkLoop (pb : Protobuf) (beginTime endTime : Nat) (s : RecordReader × Bool) (result : Bool × RecordReader) :
    Prop :=
  Ends (fun _ s => some (nextChunkRound pb beginTime endTime s)) s result

theorem ChunkLoop.next {s s' : RecordReader × Bool} {result : Bool × RecordReader}
    (step : nextChunkRound pb beginTime endTime s = .inl s') (rest : ChunkLoop pb beginTime endTime s' result) :
    ChunkLoop pb beginTime endTime s result :=
  Ends.next (.of_eq fun _ => by rw [step]) rest

theorem ChunkLoop.last {s : RecordReader × Bool} {result : Bool × RecordReader}
    (step : nextChunkRound pb beginTime endTime s = .inr result) : ChunkLoop pb beginTime endTime s result :=
  Ends.last (.of_eq fun _ => by rw [step])

/-- A reader that was only moved. -/
def forward (r : RecordReader) (n : Nat) : RecordReader :=
  { r with fileReader := r.fileReader.moveTo (r.fileReader.fd.pos + n) }

/-- The end of the sections. -/
theorem round_index {i : Index} (reads : pb.index.Reads i) (going : r.reachEnd = false)
    (rest : r.fileReader.fd.rest = (Content.index i).bytes pb) (skip : Bool) :
    ∃ f, nextChunkRound pb beginTime endTime (r, skip) = .inl ({ r with fileReader := f, reachEnd := true }, skip) ∧
      f.reset = r.fileReader.reset := by
  have header : r.fileReader.readSection = (some ⟨SectionType.index.code, pb.index.byteSizeLong i⟩, _) :=
    readSection_of_reads reads rest
  obtain ⟨pos, skipped, _⟩ := skipSection_moves (r.fileReader.moveTo (r.fileReader.fd.pos + sizeofSection))
    (pb.index.byteSizeLong i)
  refine ⟨r.fileReader.moveTo pos, ?_, rfl⟩
  unfold nextChunkRound
  dsimp only
  rw [going, header]
  dsimp only
  rw [SectionType.ofCode_code]
  dsimp only
  rw [skipped]
  rfl

variable {more : List UInt8}

/-- Where the reader stands behind a section. -/
theorem forward_rest {content : Content} (rest : r.fileReader.fd.rest = content.bytes pb ++ more) :
    (r.forward (content.bytes pb).length).fileReader.fd.rest = more :=
  moveTo_rest_append rest

theorem round_channel {c : Channel} (reads : pb.channel.ReadsSome c) (going : r.reachEnd = false)
    (rest : r.fileReader.fd.rest = (Content.channel c).bytes pb ++ more) :
    nextChunkRound pb beginTime endTime (r, false) =
      .inl (r.forward ((Content.channel c).bytes pb).length, false) := by
  obtain ⟨header, body⟩ := content_whole .channel rfl rfl reads rest ⟨"", "", ""⟩
  unfold nextChunkRound
  dsimp only
  rw [if_neg (by rw [going]; exact Bool.false_ne_true), header]
  dsimp only
  rw [SectionType.ofCode_code]
  dsimp only
  rw [body]
  rfl

theorem round_header {h : ChunkHeader} (reads : pb.chunkHeader.ReadsSome h) (going : r.reachEnd = false)
    (rest : r.fileReader.fd.rest = (Content.chunkHeader h).bytes pb ++ more) :
    nextChunkRound pb beginTime endTime (r, false) =
      if h.beginTime > endTime then .inr (false, r.forward ((Content.chunkHeader h).bytes pb).length)
      else .inl (r.forward ((Content.chunkHeader h).bytes pb).length, decide (h.endTime < beginTime)) := by
  obtain ⟨header, body⟩ := content_whole .chunkHeader rfl rfl reads rest ⟨0, 0, 0, 0⟩
  unfold nextChunkRound
  dsimp only
  rw [if_neg (by rw [going]; exact Bool.false_ne_true), header]
  dsimp only
  rw [SectionType.ofCode_code]
  dsimp only
  rw [body]
  rfl

theorem round_body {b : ChunkBody} (reads : pb.chunkBody.ReadsSome b) (going : r.reachEnd = false)
    (rest : r.fileReader.fd.rest = (Content.chunkBody b).bytes pb ++ more) :
    nextChunkRound pb beginTime endTime (r, false) =
      .inr (true, { r.forward ((Content.chunkBody b).bytes pb).length with chunk := b }) := by
  obtain ⟨header, body⟩ := content_whole .chunkBody rfl rfl reads rest ⟨[]⟩
  unfold nextChunkRound
  dsimp only
  rw [if_neg (by rw [going]; exact Bool.false_ne_true), header]
  dsimp only
  rw [SectionType.ofCode_code]
  dsimp only
  rw [body]
  rfl

theorem round_skip {b : ChunkBody} (reads : pb.chunkBody.ReadsSome b) (going : r.reachEnd = false)
    (small : r.fileReader.fd.bytes.length < 2 ^ 63)
    (rest : r.fileReader.fd.rest = (Content.chunkBody b).bytes pb ++ more) :
    nextChunkRound pb beginTime endTime (r, true) =
      .inl (r.forward ((Content.chunkBody b).bytes pb).length, false) := by
  obtain ⟨header, body⟩ := content_skip .chunkBody rfl rfl reads small rest
  unfold nextChunkRound
  dsimp only
  rw [if_neg (by rw [going]; exact Bool.false_ne_true), header]
  dsimp only
  rw [SectionType.ofCode_code]
  dsimp only
  rw [body]
  rfl

/-- The rounds before a chunk is found change nothing of the reader but its place. -/
theorem Chunks.forward {n : Nat} {messages : List SingleMessage} {result : Bool × RecordReader}
    (chunks : Chunks pb beginTime endTime (r.forward n) messages result) :
    Chunks pb beginTime endTime r messages result :=
  ⟨chunks.same, chunks.split⟩

theorem Chunks.dropped {early messages : List SingleMessage} {result : Bool × RecordReader}
    (chunks : Chunks pb beginTime endTime r messages result) (before : ∀ m ∈ early, m.time < beginTime) :
    Chunks pb beginTime endTime r (early ++ messages) result := by
  obtain ⟨same, dropped, later, split, early', found, notFound⟩ := chunks
  refine ⟨same, early ++ dropped, later, by rw [split, List.append_assoc], fun m member => ?_, found, notFound⟩
  exact (List.mem_append.mp member).elim (before m) (early' m)

/-- The sections are read up to a chunk that is not over at the time. A chunk body is skipped if all its messages are
before the time. -/
theorem chunkLoop_spec {contents : List Content} (sections : Sections pb contents) (going : r.reachEnd = false)
    (rest : r.fileReader.fd.rest = contents.flatMap (Content.bytes pb)) (small : r.fileReader.fd.bytes.length < 2 ^ 63)
    (skip : Bool) (skips : skip = true →
      ∃ b more, contents = .chunkBody b :: more ∧ ∀ m ∈ b.messages, m.time < beginTime) :
    ∃ result, ChunkLoop pb beginTime endTime (r, skip) result ∧
      Chunks pb beginTime endTime r (contents.flatMap Content.messages) result := by
  induction sections generalizing r skip with
  | @index i reads =>
    simp only [List.flatMap_cons, List.flatMap_nil, List.append_nil] at rest
    obtain ⟨f, round, same⟩ := round_index reads going rest skip
    refine ⟨_, .next round (.last rfl), ?_⟩
    refine ⟨?_, [], [], rfl, by simp, (fun found => by cases found), fun _ => ⟨rfl, rfl, .ended rfl, by simp⟩⟩
    simp only [RecordReader.reset, same]
  | @channel c contents reads sections ih =>
    have reading : skip = false := by
      by_contra on
      obtain ⟨b, more, same, _⟩ := skips (by simpa using on)
      cases same
    subst reading
    rw [List.flatMap_cons] at rest
    obtain ⟨result, loop, chunks⟩ := ih (r := r.forward _) going (forward_rest rest) small false (by simp)
    exact ⟨result, .next (round_channel reads going rest) loop, chunks.forward⟩
  | @body b contents reads some_ sections ih =>
    rw [List.flatMap_cons] at rest
    cases skip with
    | false =>
      refine ⟨_, .last (round_body reads going rest), rfl, [], _, rfl, by simp, fun _ => ⟨some_, _, rfl, ?_⟩,
        fun found => by cases found⟩
      exact .sections going (forward_rest rest) sections
    | true =>
      obtain ⟨_, _, same, early⟩ := skips rfl
      cases same
      obtain ⟨result, loop, chunks⟩ := ih (r := r.forward _) going (forward_rest rest) small false (by simp)
      exact ⟨result, .next (round_skip reads going small rest) loop, chunks.forward.dropped early⟩
  | @header h b contents reads spans sections ih =>
    have reading : skip = false := by
      by_contra on
      obtain ⟨b, more, same, _⟩ := skips (by simpa using on)
      cases same
    subst reading
    rw [List.flatMap_cons] at rest
    have after := forward_rest rest
    have round : nextChunkRound pb beginTime endTime (r, false) = _ := round_header reads going rest
    by_cases late : h.beginTime > endTime
    · rw [if_pos late] at round
      refine ⟨_, .last round, rfl, [], _, rfl, by simp, (fun found => by cases found), fun _ =>
        ⟨rfl, rfl, .sections going after sections, fun m first => ?_⟩⟩
      cases sections with
      | body _ some_ _ =>
        have member : m ∈ b.messages := by
          obtain ⟨head, tail, all⟩ := List.exists_cons_of_ne_nil some_
          have firstOf : (b.messages ++ contents.flatMap Content.messages).head? = some m := first
          rw [all, List.cons_append, List.head?_cons, Option.some.injEq] at firstOf
          rw [all, ← firstOf]
          exact List.mem_cons_self
        have bounds := spans.within m member
        omega
    · rw [if_neg late] at round
      obtain ⟨result, loop, chunks⟩ := ih (r := r.forward _) going after small
        (decide (h.endTime < beginTime)) fun skips => ⟨b, contents, rfl, fun m member => by
          have bounds := spans.within m member
          simp only [decide_eq_true_eq] at skips
          omega⟩
      exact ⟨result, .next round loop, chunks.forward⟩

/-- What the reader has still to read. -/
def Stands (pb : Protobuf) (r : RecordReader) (messages : List SingleMessage) : Prop :=
  ∃ more, messages = r.pending ++ more ∧ Ahead pb r more

theorem readNextChunk_spec {messages : List SingleMessage} (ahead : Ahead pb r messages)
    (small : r.fileReader.fd.bytes.length < 2 ^ 63) :
    ∃ result, Returns (fun fuel => readNextChunk pb fuel r beginTime endTime) result ∧
      Chunks pb beginTime endTime r messages result := by
  cases ahead with
  | ended atEnd =>
    have last : nextChunkRound pb beginTime endTime (r, false) = .inr (false, r) := by
      unfold nextChunkRound
      dsimp only
      rw [if_pos atEnd]
    have loop : ChunkLoop pb beginTime endTime (r, false) (false, r) := .last last
    exact ⟨_, loop.returns, rfl, [], [], rfl, by simp, (fun found => by cases found),
      fun _ => ⟨rfl, rfl, .ended atEnd, by simp⟩⟩
  | sections going rest sections =>
    obtain ⟨result, loop, chunks⟩ := chunkLoop_spec sections going rest small false (by simp)
    exact ⟨result, loop.returns, chunks⟩

/-- How `ReadMessage` ends in front of the given messages: as reading a queue by a window goes on. -/
structure Read (pb : Protobuf) (beginTime endTime : Nat) (r : RecordReader) (messages : List SingleMessage)
    (result : Option SingleMessage × RecordReader) : Prop where
  same : result.2.reset = r.reset
  some_ : ∀ m, result.1 = some m → ∃ later, Stands pb result.2 later ∧ later.length < messages.length ∧
    out SingleMessage.time beginTime endTime messages = m :: out SingleMessage.time beginTime endTime later ∧
    left SingleMessage.time endTime messages = left SingleMessage.time endTime later
  none_ : result.1 = none → Stands pb result.2 (left SingleMessage.time endTime messages) ∧
    out SingleMessage.time beginTime endTime messages = []

theorem bytes_of_reset (same : r'.reset = r.reset) : r'.fileReader.fd.bytes = r.fileReader.fd.bytes :=
  congrArg (fun r => r.fileReader.fd.bytes) same

theorem header_of_reset (same : r'.reset = r.reset) : r'.header = r.header ∧ r'.isValid = r.isValid :=
  ⟨congrArg (fun r => r.header) same, congrArg (fun r => r.isValid) same⟩

theorem pending_cons {m : SingleMessage} (next : r.chunk.messages[r.messageIndex]? = some m) :
    r.pending = m :: ({ r with messageIndex := r.messageIndex + 1 } : RecordReader).pending := by
  obtain ⟨within, rfl⟩ := List.getElem?_eq_some_iff.mp next
  exact List.drop_eq_getElem_cons within

theorem pending_nil (none_ : r.chunk.messages[r.messageIndex]? = none) : r.pending = [] :=
  List.drop_eq_nil_of_le (List.getElem?_eq_none_iff.mp none_)

theorem Ahead.congr {messages : List SingleMessage} (ahead : Ahead pb r messages) (file : r'.fileReader = r.fileReader)
    (atEnd : r'.reachEnd = r.reachEnd) : Ahead pb r' messages := by
  cases ahead with
  | ended ends => exact .ended (atEnd.trans ends)
  | sections going rest sections => exact .sections (atEnd.trans going) (by rw [file]; exact rest) sections

/-- Messages before the time are passed by. -/
theorem Read.dropped {early messages : List SingleMessage} {result : Option SingleMessage × RecordReader}
    (read : Read pb beginTime endTime r' messages result) (same : r'.reset = r.reset) (le : beginTime ≤ endTime)
    (before : ∀ m ∈ early, m.time < beginTime) : Read pb beginTime endTime r (early ++ messages) result := by
  have passed : out SingleMessage.time beginTime endTime (early ++ messages) = _ ∧ _ := out_dropped le before
  obtain ⟨sameOut, sameLeft⟩ := passed
  refine ⟨read.same.trans same, fun m found => ?_, fun found => ?_⟩
  · obtain ⟨later, stands, less, outs, lefts⟩ := read.some_ m found
    refine ⟨later, stands, ?_, sameOut.trans outs, sameLeft.trans lefts⟩
    rw [List.length_append]
    omega
  · obtain ⟨stands, none_⟩ := read.none_ found
    rw [sameOut, sameLeft]
    exact ⟨stands, none_⟩

/-- What `ReadMessage` makes of the end of `ReadNextChunk`. -/
def afterChunk : Bool × RecordReader → RecordReader ⊕ Option SingleMessage × RecordReader
  | (true, r) => .inl { r with messageIndex := 0 }
  | (false, r) => .inr (none, r)

/-- The loop of `ReadMessage`. -/
abbrev MessageLoop (pb : Protobuf) (beginTime endTime : Nat) (r : RecordReader)
    (result : Option SingleMessage × RecordReader) : Prop :=
  Ends (messageRound pb beginTime endTime) r result

theorem messageLoop_spec (le : beginTime ≤ endTime) {messages : List SingleMessage} (stands : Stands pb r messages)
    (small : r.fileReader.fd.bytes.length < 2 ^ 63) :
    ∃ result, MessageLoop pb beginTime endTime r result ∧ Read pb beginTime endTime r messages result := by
  -- By induction on the number of messages; first for a reader that has messages of a chunk.
  induction count : messages.length using Nat.strong_induction_on generalizing r messages with
  | _ n ih =>
    have inChunk : ∀ {r messages m}, messages.length ≤ n → Stands pb r messages →
        r.fileReader.fd.bytes.length < 2 ^ 63 → r.chunk.messages[r.messageIndex]? = some m →
        ∃ result, MessageLoop pb beginTime endTime r result ∧ Read pb beginTime endTime r messages result := by
      rintro r messages m short ⟨more, rfl, ahead⟩ small next
      let r₁ : RecordReader := { r with messageIndex := r.messageIndex + 1 }
      have stands₁ : Stands pb r₁ (r₁.pending ++ more) := ⟨more, rfl, ahead.congr rfl rfl⟩
      have whole : r.pending ++ more = m :: (r₁.pending ++ more) := by
        rw [pending_cons next]
        rfl
      have shorter : (r₁.pending ++ more).length < n := by
        rw [whole, List.length_cons] at short
        omega
      rw [whole]
      by_cases late : m.time > endTime
      · have round : ∀ fuel, messageRound pb beginTime endTime fuel r = some (.inr (none, r)) := by
          intro fuel
          unfold messageRound
          rw [next]
          exact if_pos late
        have ends : out SingleMessage.time beginTime endTime (m :: (r₁.pending ++ more)) = [] ∧ _ := out_late late
        refine ⟨_, .last (.of_eq round), rfl, (fun m found => by cases found), fun _ => ⟨?_, ends.1⟩⟩
        rw [ends.2]
        exact ⟨more, whole.symm, ahead⟩
      · by_cases early : m.time < beginTime
        · have round : ∀ fuel, messageRound pb beginTime endTime fuel r = some (.inl r₁) := by
            intro fuel
            unfold messageRound
            rw [next]
            exact (if_neg late).trans (if_pos early)
          obtain ⟨result, loop, read⟩ := ih _ shorter stands₁ small rfl
          have passed : Read pb beginTime endTime r ([m] ++ (r₁.pending ++ more)) result :=
            read.dropped rfl le (by simpa using early)
          exact ⟨result, .next (.of_eq round) loop, passed⟩
        · have round : ∀ fuel, messageRound pb beginTime endTime fuel r = some (.inr (some m, r₁)) := by
            intro fuel
            unfold messageRound
            rw [next]
            exact (if_neg late).trans (if_neg early)
          have takes : out SingleMessage.time beginTime endTime (m :: (r₁.pending ++ more)) = _ ∧ _ :=
            out_within (not_lt.mp early) (not_lt.mp late)
          refine ⟨_, .last (.of_eq round), rfl, fun m' found => ?_, fun found => by cases found⟩
          obtain rfl := Option.some.inj found
          exact ⟨_, stands₁, Nat.lt_succ_self _, takes.1, takes.2⟩
    cases next : r.chunk.messages[r.messageIndex]? with
    | some m => exact inChunk (by omega) stands small next
    | none =>
      obtain ⟨more, rfl, ahead⟩ := stands
      rw [pending_nil next, List.nil_append] at count ⊢
      have chunks : ∃ result, Returns (fun fuel => readNextChunk pb fuel r beginTime endTime) result ∧ _ :=
        readNextChunk_spec ahead small
      obtain ⟨⟨found, r'⟩, returns, same, dropped, later, rfl, early, withChunk, without⟩ := chunks
      have round : ∀ fuel, messageRound pb beginTime endTime fuel r =
          (readNextChunk pb fuel r beginTime endTime).map afterChunk := by
        intro fuel
        have unfolded := messageRound.eq_def pb beginTime endTime fuel r
        rw [next] at unfolded
        exact unfolded
      have returned := returns.map afterChunk
      simp only [← round] at returned
      cases found with
      | true =>
        obtain ⟨some_, more, rfl, ahead'⟩ := withChunk rfl
        let r₂ : RecordReader := { r' with messageIndex := 0 }
        obtain ⟨m, rest, chunk⟩ := List.exists_cons_of_ne_nil some_
        have first : r₂.chunk.messages[r₂.messageIndex]? = some m := by
          show r'.chunk.messages[0]? = some m
          rw [chunk]
          rfl
        have stands₂ : Stands pb r₂ (r'.chunk.messages ++ more) := ⟨more, rfl, ahead'.congr rfl rfl⟩
        have small₂ : r₂.fileReader.fd.bytes.length < 2 ^ 63 := by rwa [← bytes_of_reset same] at small
        have short : (r'.chunk.messages ++ more).length ≤ n := by
          rw [← count]
          exact (List.sublist_append_right dropped _).length_le
        obtain ⟨result, loop, read⟩ := inChunk short stands₂ small₂ first
        exact ⟨result, .next returned loop, read.dropped same le early⟩
      | false =>
        obtain ⟨chunk, messageIndex, ahead', late⟩ := without rfl
        have none_ : r'.pending = [] := by
          show r'.chunk.messages.drop r'.messageIndex = []
          rw [chunk, messageIndex]
          exact pending_nil next
        have ends : out SingleMessage.time beginTime endTime later = [] ∧ _ := out_none late
        have read : Read pb beginTime endTime r' later (none, r') := by
          refine ⟨rfl, (fun m found => by cases found), fun _ => ⟨?_, ends.1⟩⟩
          rw [ends.2]
          exact ⟨later, by rw [none_, List.nil_append], ahead'⟩
        exact ⟨_, .last returned, read.dropped same le early⟩

/-- A window that reaches into the times of the file. -/
theorem readMessage_spec (valid : r.isValid = true) (begins : beginTime ≤ r.header.endTime)
    (ends : r.header.beginTime ≤ endTime) (le : beginTime ≤ endTime) {messages : List SingleMessage}
    (stands : Stands pb r messages) (small : r.fileReader.fd.bytes.length < 2 ^ 63) :
    ∃ result, Returns (fun fuel => readMessage pb fuel r beginTime endTime) result ∧
      Read pb beginTime endTime r messages result := by
  obtain ⟨result, loop, read⟩ := messageLoop_spec le stands small
  have inside : ∀ fuel, readMessage pb fuel r beginTime endTime =
      run (messageRound pb beginTime endTime fuel) fuel r := by
    intro fuel
    unfold readMessage
    rw [valid, if_neg (by simp), if_neg (by omega)]
  have returns := loop.returns
  simp only [← inside] at returns
  exact ⟨result, returns, read⟩

theorem readMessage_outside (outside : endTime < r.header.beginTime) (fuel : Nat) :
    readMessage pb fuel r beginTime endTime = some (none, r) := by
  unfold readMessage
  split
  · rfl
  · exact if_pos (.inr outside)

end RecordReader

namespace Content

/-- A section that is read back. -/
def Reads (pb : Protobuf) : Content → Prop
  | .channel c => pb.channel.ReadsSome c
  | .chunkHeader c => pb.chunkHeader.ReadsSome c
  | .chunkBody c => pb.chunkBody.ReadsSome c
  | .index c => pb.index.Reads c

end Content

namespace Item

def messages : Item → List SingleMessage
  | .channel _ => []
  | .chunk c => c.messages

theorem flatMap_messages (items : List Item) :
    (items.flatMap contents).flatMap Content.messages = items.flatMap messages := by
  rw [List.flatMap_assoc]
  refine List.flatMap_congr fun item _ => ?_
  cases item with
  | channel c => rfl
  | chunk c => exact List.append_nil _

end Item

/-- A chunk has messages, and its header the first and the last of their times. -/
def Chunk.Timed (c : Chunk) : Prop :=
  c.messages ≠ [] ∧ Spans c.messages c.header.beginTime c.header.endTime

theorem sections_of_items {pb : Protobuf} {items : List Item} {i : Index}
    (reads : ∀ content ∈ items.flatMap Item.contents ++ [Content.index i], content.Reads pb)
    (timed : ∀ chunk, Item.chunk chunk ∈ items → chunk.Timed) :
    Sections pb (items.flatMap Item.contents ++ [Content.index i]) := by
  induction items with
  | nil => exact .index (reads _ (List.mem_singleton_self _))
  | cons item items ih =>
    rw [List.flatMap_cons, List.append_assoc] at reads ⊢
    have later := ih (fun content member => reads content (List.mem_append_right _ member))
      fun chunk member => timed chunk (List.mem_cons_of_mem _ member)
    cases item with
    | channel c => exact .channel (reads (.channel c) (by simp [Item.contents])) later
    | chunk c =>
      obtain ⟨some_, spans⟩ := timed c List.mem_cons_self
      have header : pb.chunkHeader.ReadsSome c.header := reads (.chunkHeader c.header) (by simp [Item.contents])
      have body : pb.chunkBody.ReadsSome c.body := reads (.chunkBody c.body) (by simp [Item.contents])
      exact .header header spans (.body body some_ later)

namespace RecordReader

/-- A reader of a complete file in which the items were written, wherever it stands. -/
structure Over (pb : Protobuf) (r : RecordReader) (items : List Item) : Prop where
  valid : r.isValid = true
  area : (RecordFileWriter.headerArea pb r.header).length = sizeofSection + HEADER_LENGTH
  file : ∃ i, r.fileReader.fd.bytes = RecordFileWriter.headerArea pb r.header ++
      (items.flatMap Item.contents ++ [Content.index i]).flatMap (Content.bytes pb) ∧
    ∀ content ∈ items.flatMap Item.contents ++ [Content.index i], content.Reads pb
  small : r.fileReader.fd.bytes.length < 2 ^ 63
  timed : ∀ chunk, Item.chunk chunk ∈ items → chunk.Timed

/-- After a reset, the reader stands in front of all messages. -/
theorem Over.stands {pb : Protobuf} {r : RecordReader} {items : List Item} (complete : r.Over pb items) :
    Stands pb r.reset (items.flatMap Item.messages) := by
  obtain ⟨i, layout, reads⟩ := complete.file
  have rest : r.reset.fileReader.fd.rest =
      (items.flatMap Item.contents ++ [Content.index i]).flatMap (Content.bytes pb) := by
    show r.fileReader.fd.bytes.drop (sizeofSection + HEADER_LENGTH) = _
    rw [layout, ← complete.area, List.drop_left]
  have ahead : Ahead pb r.reset _ := .sections rfl rest (sections_of_items reads complete.timed)
  have messages : (items.flatMap Item.contents ++ [Content.index i]).flatMap Content.messages =
      items.flatMap Item.messages := by
    rw [List.flatMap_append, Item.flatMap_messages]
    exact List.append_nil _
  rw [messages] at ahead
  exact ⟨_, rfl, ahead⟩

end RecordReader

end CyberRT.Record
