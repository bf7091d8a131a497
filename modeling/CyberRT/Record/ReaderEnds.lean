import CyberRT.Record.FileWriter
import CyberRT.Record.Reader
import CyberRT.Record.Sections
import CyberRT.Record.Spliter
import CyberRT.Record.Wire

namespace CyberRT.Record
open Posix Loop

namespace RecordFileReader
variable {f f' : RecordFileReader}

/-- The section at the position is a chunk body whose size leads from behind its header back to a position that is not
after it. -/
def LeadsBack (f : RecordFileReader) : Prop :=
  ∃ s, f.readSection.1 = some s ∧ SectionType.ofCode s.type = some .chunkBody ∧
    s.size ≤ -(sizeofSection : Int) ∧ 0 ≤ f.fd.pos + sizeofSection + s.size

/-- Skipping a chunk body that does not lead back makes progress. -/
theorem skipSection_progress {s : Section} (read : f.readSection = (some s, f'))
    (body : SectionType.ofCode s.type = some .chunkBody) (forward : ¬f.LeadsBack) :
    f.fd.pos < (f'.skipSection s.size).2.fd.pos := by
  obtain ⟨_, rfl⟩ := readSection_some read
  obtain ⟨pos, moved, stays | goes⟩ := skipSection_moves (f.moveTo (f.fd.pos + sizeofSection)) s.size
  · rw [moved, stays]
    simp only [moveTo_pos, sizeofSection]
    omega
  · rw [moved]
    simp only [moveTo_pos] at goes ⊢
    have large : -(sizeofSection : Int) < s.size := by
      by_contra small
      refine forward ⟨s, by rw [read], body, not_lt.mp small, ?_⟩
      push_cast at goes
      omega
    push_cast at goes
    omega

end RecordFileReader

namespace RecordReader
open RecordFileReader

variable {pb : Protobuf} {beginTime endTime : Nat} {r r' : RecordReader} {skip skip' : Bool}

/-- The reader elsewhere in the file, or at the end of it. -/
def moved (r : RecordReader) (pos : Nat) (reachEnd : Bool) : RecordReader :=
  { r with fileReader := r.fileReader.moveTo pos, reachEnd := reachEnd }

/-- A round of `ReadNextChunk` that is not the last one has read the header of a section, and it goes forward in the
file if it does not skip a chunk body that leads back, or it has found the index. -/
theorem nextChunkRound_next (next : Next (nextChunkRound pb beginTime endTime) (r, skip) (r', skip')) :
    r.reachEnd = false ∧ r.fileReader.fd.pos + sizeofSection ≤ r.fileReader.fd.bytes.length ∧
    ∃ pos reachEnd, r' = r.moved pos reachEnd ∧
      (reachEnd = true ∨ (skip = true ∧ r.fileReader.LeadsBack) ∨ r.fileReader.fd.pos < pos) := by
  unfold Next nextChunkRound at next
  dsimp only at next
  split at next
  · cases next
  rename_i going
  split at next
  · cases next
  rename_i s f read
  obtain ⟨within, rfl⟩ := readSection_some read
  refine ⟨by simpa using going, within, ?_⟩
  split at next
  · obtain ⟨pos, jumped, _⟩ := skipSection_moves (r.fileReader.moveTo (r.fileReader.fd.pos + sizeofSection)) s.size
    rw [jumped] at next
    cases next
    exact ⟨pos, true, rfl, .inl rfl⟩
  · split at next
    · cases next
    · rename_i channel f read'
      obtain ⟨pos, beyond, rfl⟩ := readSectionOf_beyond read'
      cases next
      exact ⟨pos, r.reachEnd, rfl, .inr (.inr beyond)⟩
  · split at next
    · cases next
    · rename_i header f read'
      obtain ⟨pos, beyond, rfl⟩ := readSectionOf_beyond read'
      split at next
      · cases next
      · cases next
        exact ⟨pos, r.reachEnd, rfl, .inr (.inr beyond)⟩
  · rename_i body
    split at next
    · rename_i skips
      obtain ⟨pos, jumped, _⟩ := skipSection_moves (r.fileReader.moveTo (r.fileReader.fd.pos + sizeofSection)) s.size
      have progress := skipSection_progress read body
      rw [jumped] at next progress
      cases next
      refine ⟨pos, r.reachEnd, rfl, .inr ?_⟩
      by_cases back : r.fileReader.LeadsBack
      · exact .inl ⟨skips, back⟩
      · exact .inr (progress back)
    · cases next
  · cases next
  · cases next

/-- The loop of `ReadNextChunk` only moves the reader. -/
theorem nextChunkRound_visits {t : RecordReader × Bool}
    (visits : Visits (nextChunkRound pb beginTime endTime) (r, skip) t) :
    ∃ pos reachEnd, t.1 = r.moved pos reachEnd := by
  induction visits with
  | refl => exact ⟨r.fileReader.fd.pos, r.reachEnd, rfl⟩
  | tail _ next ih =>
    obtain ⟨pos, reachEnd, here⟩ := ih
    obtain ⟨_, _, pos', reachEnd', there, _⟩ := nextChunkRound_next next
    exact ⟨pos', reachEnd', by rw [there, here]; rfl⟩

/-- No chunk body that is skipped leads back to a section from which the sections lead to the chunk body again. -/
def SkipsOnce (pb : Protobuf) (beginTime endTime : Nat) (r : RecordReader) : Prop :=
  ∀ t t', Visits (nextChunkRound pb beginTime endTime) (r, false) t → t.2 = true ∧ t.1.fileReader.LeadsBack →
    Next (nextChunkRound pb beginTime endTime) t t' → ¬Visits (nextChunkRound pb beginTime endTime) t' t

/-- `ReadNextChunk` ends if and only if it does not skip a chunk body that leads back to itself. -/
theorem readNextChunk_ends_iff (r : RecordReader) (beginTime endTime : Nat) :
    (∃ result, Returns (fun fuel => readNextChunk pb fuel r beginTime endTime) result) ↔
      r.SkipsOnce pb beginTime endTime := by
  have ends : (∃ result, Returns (fun fuel => readNextChunk pb fuel r beginTime endTime) result) ↔
      ∃ n, run (fun s => some (nextChunkRound pb beginTime endTime s)) n (r, false) ≠ none := by
    constructor
    · rintro ⟨result, returns⟩
      obtain ⟨n, done⟩ := returns_iff.mp returns
      exact ⟨n, by rw [done]; exact Option.some_ne_none _⟩
    · rintro ⟨n, some_⟩
      obtain ⟨result, done⟩ := Option.ne_none_iff_exists'.mp some_
      exact ⟨result, returns_iff.mpr ⟨n, done⟩⟩
  rw [ends]
  refine ends_iff_no_return (fun t => 2 * t.1.fileReader.fd.pos + t.2.toNat)
    (fun t => if t.1.reachEnd then r.fileReader.fd.bytes.length else t.1.fileReader.fd.pos)
    (2 * r.fileReader.fd.bytes.length + 2) ?_ ?_ ?_
  · intro t t' visits next
    obtain ⟨pos, reachEnd, here⟩ := nextChunkRound_visits visits
    obtain ⟨_, within, _⟩ := nextChunkRound_next next
    have flag := Bool.toNat_le t.2
    have bytes : t.1.fileReader.fd.bytes.length = r.fileReader.fd.bytes.length := by rw [here]; rfl
    simp only [sizeofSection] at within
    omega
  · rintro ⟨t, skip⟩ ⟨u, skip'⟩ t' u' visitsT visitsU nextT nextU same
    obtain ⟨pos, reachEnd, rfl⟩ := nextChunkRound_visits visitsT
    obtain ⟨pos', reachEnd', rfl⟩ := nextChunkRound_visits visitsU
    obtain ⟨going, _⟩ := nextChunkRound_next nextT
    obtain ⟨going', _⟩ := nextChunkRound_next nextU
    have flags := Bool.toNat_le skip
    have flags' := Bool.toNat_le skip'
    simp only [moved, moveTo_pos] at same going going'
    have samePos : pos = pos' := by omega
    have sameSkip : skip = skip' := by
      cases skip <;> cases skip' <;> simp at same ⊢ <;> omega
    rw [samePos, sameSkip, going, going']
  · rintro ⟨t, skip⟩ ⟨t', skip'⟩ visits next
    obtain ⟨going, within, pos', reachEnd', rfl, found | back | forward⟩ := nextChunkRound_next next
    · obtain ⟨pos, reachEnd, rfl⟩ := nextChunkRound_visits visits
      refine .inr ?_
      simp only [moved, moveTo_pos, moveTo_bytes, sizeofSection] at going within found ⊢
      simp only [going, found, if_true, Bool.false_eq_true, if_false]
      omega
    · exact .inl back
    · refine .inr ?_
      obtain ⟨pos, reachEnd, rfl⟩ := nextChunkRound_visits visits
      simp only [moved, moveTo_pos, moveTo_bytes, sizeofSection] at going within forward ⊢
      simp only [going, Bool.false_eq_true, if_false]
      cases reachEnd' with
      | true =>
        simp only [if_true]
        omega
      | false =>
        simp only [Bool.false_eq_true, if_false]
        exact forward

end RecordReader

namespace Spliter
open RecordFileReader

variable {pb : Protobuf} {sp : Spliter} {f f' : RecordFileReader} {skip skip' : Bool}

/-- How the loop over the sections goes on, whatever it writes. -/
def control (pb : Protobuf) (sp : Spliter) (s : RecordFileReader × Bool) : RecordFileReader × Bool ⊕ Bool :=
  (sp.sectionRound pb s).2

theorem control_next (next : Next (sp.control pb) (f, skip) (f', skip')) :
    f.fd.pos + sizeofSection ≤ f.fd.bytes.length ∧
    ∃ pos, f' = f.moveTo pos ∧ ((skip = true ∧ f.LeadsBack) ∨ f.fd.pos < pos) := by
  unfold Next control sectionRound at next
  dsimp only at next
  split at next
  · cases next
  split at next
  · cases next
  rename_i s g read
  obtain ⟨within, rfl⟩ := readSection_some read
  refine ⟨within, ?_⟩
  split at next
  · cases next
  · split at next
    · cases next
    · rename_i channel g read'
      obtain ⟨pos, beyond, rfl⟩ := readSectionOf_beyond read'
      cases next
      exact ⟨pos, rfl, .inr beyond⟩
  · split at next
    · cases next
    · rename_i header g read'
      obtain ⟨pos, beyond, rfl⟩ := readSectionOf_beyond read'
      cases next
      exact ⟨pos, rfl, .inr beyond⟩
  · rename_i body
    split at next
    · rename_i skips
      obtain ⟨pos, jumped, _⟩ := skipSection_moves (f.moveTo (f.fd.pos + sizeofSection)) s.size
      have progress := skipSection_progress read body
      rw [jumped] at next progress
      cases next
      refine ⟨pos, rfl, ?_⟩
      by_cases back : f.LeadsBack
      · exact .inl ⟨skips, back⟩
      · exact .inr (progress back)
    · split at next
      · cases next
      · rename_i content g read'
        obtain ⟨pos, beyond, rfl⟩ := readSectionOf_beyond read'
        cases next
        exact ⟨pos, rfl, .inr beyond⟩
  · cases next
    refine ⟨_, rfl, .inr ?_⟩
    simp only [sizeofSection]
    omega
  · cases next
    refine ⟨_, rfl, .inr ?_⟩
    simp only [sizeofSection]
    omega

theorem control_visits {t : RecordFileReader × Bool} (visits : Visits (sp.control pb) (f, skip) t) :
    ∃ pos, t.1 = f.moveTo pos := by
  induction visits with
  | refl => exact ⟨f.fd.pos, rfl⟩
  | tail _ next ih =>
    obtain ⟨pos, here⟩ := ih
    obtain ⟨_, pos', there, _⟩ := control_next next
    exact ⟨pos', by rw [there, here]; rfl⟩

/-- What is written does not matter for whether the loop ends. -/
theorem sections_ends (f : RecordFileReader) :
    (∃ result, Returns (fun fuel => sp.sections pb fuel f) result) ↔
      ∃ n, run (fun s => some (sp.control pb s)) n (f, false) ≠ none := by
  have same : ∀ n s calls, (run (fun s => some (sp.writingRound pb s)) n (s, calls)).isSome =
      (run (fun s => some (sp.control pb s)) n s).isSome := by
    intro n
    induction n with
    | zero => exact fun _ _ => rfl
    | succ n ih =>
      intro s calls
      simp only [run, control, writingRound]
      rcases sp.sectionRound pb s with ⟨more, next | result⟩
      · exact ih next (calls ++ more)
      · rfl
  constructor
  · rintro ⟨result, returns⟩
    obtain ⟨n, done⟩ := returns_iff.mp returns
    refine ⟨n, Option.isSome_iff_ne_none.mp ?_⟩
    rw [← same n (f, false) [], done]
    rfl
  · rintro ⟨n, some_⟩
    have ended := Option.isSome_iff_ne_none.mpr some_
    rw [← same n (f, false) []] at ended
    obtain ⟨result, done⟩ := Option.isSome_iff_exists.mp ended
    exact ⟨result, returns_iff.mpr ⟨n, done⟩⟩

/-- No chunk body that is skipped leads back to a section from which the sections lead to the chunk body again. -/
def SkipsOnce (pb : Protobuf) (sp : Spliter) (f : RecordFileReader) : Prop :=
  ∀ t t', Visits (sp.control pb) (f, false) t → t.2 = true ∧ t.1.LeadsBack → Next (sp.control pb) t t' →
    ¬Visits (sp.control pb) t' t

/-- The loop over the sections ends if and only if it does not skip a chunk body that leads back to itself. -/
theorem sections_ends_iff (f : RecordFileReader) :
    (∃ result, Returns (fun fuel => sp.sections pb fuel f) result) ↔ sp.SkipsOnce pb f := by
  rw [sections_ends]
  refine ends_iff_no_return (fun t => 2 * t.1.fd.pos + t.2.toNat) (fun t => t.1.fd.pos) (2 * f.fd.bytes.length + 2)
    ?_ ?_ ?_
  · intro t t' visits next
    obtain ⟨pos, here⟩ := control_visits visits
    obtain ⟨within, _⟩ := control_next next
    have flag := Bool.toNat_le t.2
    have bytes : t.1.fd.bytes.length = f.fd.bytes.length := by rw [here]; rfl
    simp only [sizeofSection] at within
    omega
  · rintro ⟨t, skip⟩ ⟨u, skip'⟩ t' u' visitsT visitsU nextT nextU same
    obtain ⟨pos, rfl⟩ := control_visits visitsT
    obtain ⟨pos', rfl⟩ := control_visits visitsU
    have flags := Bool.toNat_le skip
    have flags' := Bool.toNat_le skip'
    simp only [moveTo_pos] at same
    have samePos : pos = pos' := by omega
    have sameSkip : skip = skip' := by
      cases skip <;> cases skip' <;> simp at same ⊢ <;> omega
    rw [samePos, sameSkip]
  · rintro ⟨t, skip⟩ ⟨t', skip'⟩ visits next
    obtain ⟨_, pos', rfl, back | forward⟩ := control_next next
    · exact .inl back
    · exact .inr forward

end Spliter

open RecordFileReader

/-- The loops over the sections of a file end if and only if they do not skip a chunk body that leads back to itself; so
they end on every file in which no chunk body has a size that leads back. -/
theorem reading_ends_iff (pb : Protobuf) (r : RecordReader) (beginTime endTime : Nat) (sp : Spliter)
    (f : RecordFileReader) :
    ((∃ result, Returns (fun fuel => r.readNextChunk pb fuel beginTime endTime) result) ↔
      r.SkipsOnce pb beginTime endTime) ∧
    ((∃ result, Returns (fun fuel => sp.sections pb fuel f) result) ↔ sp.SkipsOnce pb f) ∧
    ((∀ pos, ¬(r.fileReader.moveTo pos).LeadsBack) → r.SkipsOnce pb beginTime endTime) ∧
    ((∀ pos, ¬(f.moveTo pos).LeadsBack) → sp.SkipsOnce pb f) := by
  refine ⟨RecordReader.readNextChunk_ends_iff r beginTime endTime, Spliter.sections_ends_iff f, ?_, ?_⟩
  · rintro forward t t' visits ⟨_, back⟩
    obtain ⟨pos, reachEnd, here⟩ := RecordReader.nextChunkRound_visits visits
    rw [here] at back
    exact absurd back (forward pos)
  · rintro forward t t' visits ⟨_, back⟩
    obtain ⟨pos, here⟩ := Spliter.control_visits visits
    rw [here] at back
    exact absurd back (forward pos)

namespace Looping

/-- The header of a file with a chunk before the time that is asked for, whose body leads back to its header. -/
def header : Header :=
  { Header.empty with endTime := 100 }

def chunkHeader : ChunkHeader := ⟨1, 5, 1, 1⟩

def protobuf : Protobuf :=
  Wire.protobuf ⟨[header], [chunkHeader], [], [], []⟩

/-- The chunk, whose body has a size of less than -16. -/
def chunk : List UInt8 :=
  Section.encode .chunkHeader (protobuf.chunkHeader.byteSizeLong chunkHeader) ++
    (protobuf.chunkHeader.encode chunkHeader ++
      (Section.encode .chunkBody (2 ^ 64 - 2 * sizeofSection - protobuf.chunkHeader.byteSizeLong chunkHeader) ++ []))

def file : List UInt8 :=
  RecordFileWriter.headerArea protobuf header ++ chunk

theorem header_reads : protobuf.header.Reads header :=
  ⟨by decide, by decide⟩

theorem chunkHeader_reads : protobuf.chunkHeader.Reads chunkHeader :=
  ⟨by decide, by decide⟩

/-- The reader behind the area of the header. -/
def atChunk : RecordFileReader :=
  ⟨⟨file, sizeofSection + HEADER_LENGTH⟩, header, ⟨[]⟩, false⟩

theorem opens : openFile protobuf file = (true, atChunk) :=
  openFile_of_area header_reads rfl

theorem atChunk_rest : atChunk.fd.rest = chunk := by
  have area : (RecordFileWriter.headerArea protobuf header).length = sizeofSection + HEADER_LENGTH :=
    RecordFileWriter.headerArea_length (by decide)
  simp only [atChunk, Fd.rest, file]
  exact List.drop_left' area

theorem reads_chunkHeader :
    atChunk.readSection = (some ⟨SectionType.chunkHeader.code, protobuf.chunkHeader.byteSizeLong chunkHeader⟩,
      atChunk.moveTo (atChunk.fd.pos + sizeofSection)) ∧
    (atChunk.moveTo (atChunk.fd.pos + sizeofSection)).readSectionOf protobuf.chunkHeader
      (protobuf.chunkHeader.byteSizeLong chunkHeader) ⟨0, 0, 0, 0⟩ =
        (true, chunkHeader, atChunk.moveTo (atChunk.fd.pos + sizeofSection + 8)) := by
  have first := readSection_of_reads chunkHeader_reads atChunk_rest
  have rest := moveTo_rest_append atChunk_rest
  rw [Section.encode_length] at rest
  refine ⟨first, ?_⟩
  rw [readSectionOf_encode chunkHeader_reads rest, taken_encode (by decide) rest]
  rfl

theorem reads_chunkBody :
    (atChunk.moveTo (atChunk.fd.pos + sizeofSection + 8)).readSection =
      (some ⟨SectionType.chunkBody.code, -40⟩, atChunk.moveTo (atChunk.fd.pos + 40)) := by
  have rest := moveTo_rest_append atChunk_rest
  have rest := moveTo_rest_append rest
  exact readSection_encode rest (by decide)

/-- `ReadNextChunk` and the section loop come back to the chunk for ever. -/
theorem reading_ends_not : (openFile protobuf file).1 = true ∧
    (¬∃ result, Returns (fun fuel => (RecordReader.create protobuf file).readNextChunk protobuf fuel 10 20) result) ∧
    ¬∃ result, Returns (fun fuel => (⟨[], [], 10, 20⟩ : Spliter).proc protobuf fuel file) result := by
  have created : RecordReader.create protobuf file = ⟨true, header, atChunk, ⟨[]⟩, 0, false⟩ := by
    unfold RecordReader.create
    rw [opens]
    rfl
  refine ⟨by rw [opens], ?_, ?_⟩
  · rw [created]
    rintro ⟨result, returns⟩
    obtain ⟨n, done⟩ := returns_iff.mp returns
    have first : Next (RecordReader.nextChunkRound protobuf 10 20) (⟨true, header, atChunk, ⟨[]⟩, 0, false⟩, false)
        (⟨true, header, atChunk.moveTo (atChunk.fd.pos + sizeofSection + 8), ⟨[]⟩, 0, false⟩, true) := by
      unfold Next RecordReader.nextChunkRound
      simp only [reads_chunkHeader.1, reads_chunkHeader.2, SectionType.ofCode_code]
      rfl
    have second : Next (RecordReader.nextChunkRound protobuf 10 20)
        (⟨true, header, atChunk.moveTo (atChunk.fd.pos + sizeofSection + 8), ⟨[]⟩, 0, false⟩, true)
        (⟨true, header, atChunk, ⟨[]⟩, 0, false⟩, false) := by
      unfold Next RecordReader.nextChunkRound
      simp only [reads_chunkBody, SectionType.ofCode_code]
      rfl
    have never := never_of_return first (.single second) n
    rw [done] at never
    cases never
  · have first : Next (Spliter.control protobuf ⟨[], [], 10, 20⟩) (atChunk, false)
        (atChunk.moveTo (atChunk.fd.pos + sizeofSection + 8), true) := by
      unfold Next Spliter.control Spliter.sectionRound
      simp only [reads_chunkHeader.1, reads_chunkHeader.2, SectionType.ofCode_code]
      rfl
    have second : Next (Spliter.control protobuf ⟨[], [], 10, 20⟩)
        (atChunk.moveTo (atChunk.fd.pos + sizeofSection + 8), true) (atChunk, false) := by
      unfold Next Spliter.control Spliter.sectionRound
      simp only [reads_chunkBody, SectionType.ofCode_code]
      rfl
    have proc : ∀ fuel, (⟨[], [], 10, 20⟩ : Spliter).proc protobuf fuel file =
        (⟨[], [], 10, 20⟩ : Spliter).sections protobuf fuel atChunk := by
      intro fuel
      unfold Spliter.proc
      rw [opens]
      rfl
    simp only [proc]
    rw [Spliter.sections_ends]
    rintro ⟨n, ends⟩
    exact ends (never_of_return first (.single second) n)

end Looping

end CyberRT.Record
