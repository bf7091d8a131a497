import Mathlib.Data.List.Perm.Basic
import CyberRT.Record.Layout
import CyberRT.Record.Wire
import CyberRT.Record.Writer

namespace CyberRT.Record
open Concur

namespace RecordWriter
variable {pb : Protobuf} {header : Header} {r r' : RecordWriter}

/-- The files are as their callers left them, and a file stands where the call that the caller waits for has come. -/
def Pending.Stands (pc : RecordFileWriter.Pc) : Pending → Prop
  | .none => pc = .ready
  | .message _ => pc = .ready ∨ pc = .swapping
  | .splitting | .closing => pc ≠ .ready ∧ pc ≠ .swapping

/-- The channel sections of a file are the channels that were declared, each once. -/
structure Declares (channels declared : List Channel) : Prop where
  same : channels.Perm declared
  names : (declared.map Channel.name).Nodup

/-- The tables of the writer describe the channels that were declared. -/
structure Tables (r : RecordWriter) : Prop where
  keys : r.channelMessageNumberMap.keys.Perm (r.declared.map Channel.name)
  types : ∀ c ∈ r.declared, r.channelMessageTypeMap.get c.name = c.messageType
  descs : ∀ c ∈ r.declared, r.channelProtoDescMap.get c.name = c.protoDesc

/-- What holds in every run. -/
structure Inv (r : RecordWriter) : Prop where
  kept : RecordFileWriter.Kept r.file
  messages : (r.segments.flatMap fun seg => seg.file.messages) ++ r.file.messages = r.messages
  ended : ∀ seg ∈ r.segments, RecordFileWriter.Kept seg.file ∧ seg.file.pc = .closed ∧
    Declares seg.file.channels seg.declared
  channels : Declares r.file.channels r.declared
  tables : Tables r
  stands : r.isOpened = true → Pending.Stands r.file.pc r.pending
  shut : r.isOpened = false → r.pending = .none ∧ r.file.pc = .closed
  numbers : r.segments.length < 100000 → r.number = r.segments.length ∧ r.fileIndex = r.number + 1 ∧
    r.segments.map Segment.number = List.range r.segments.length

theorem Tables.knownChannels (tables : Tables r) : r.knownChannels.Perm r.declared := by
  have shape : r.knownChannels = r.channelMessageNumberMap.keys.map fun name =>
      ⟨name, r.channelMessageTypeMap.get name, r.channelProtoDescMap.get name⟩ := by
    simp [RecordWriter.knownChannels, AList.keys, List.keys]
  rw [shape]
  refine (tables.keys.map _).trans (.of_eq ?_)
  rw [List.map_map]
  conv_rhs => rw [← List.map_id r.declared]
  refine List.map_congr_left fun c member => ?_
  simp only [Function.comp_apply, tables.types c member, tables.descs c member, id_eq]

theorem Tables.onNewMessage (tables : Tables r) (channelName : String) : Tables (r.onNewMessage channelName) := by
  unfold RecordWriter.onNewMessage
  split
  · rename_i number found
    refine ⟨?_, tables.types, tables.descs⟩
    refine List.Perm.trans ?_ tables.keys
    rw [AList.keys_insert]
    exact List.cons_perm_iff_perm_erase.mpr ⟨AList.mem_keys.mp (Table.mem_iff_lookup.mpr ⟨_, found⟩), .refl _⟩
  · exact tables

theorem Tables.onNewChannel (tables : Tables r) {channelName : String}
    (absent : channelName ∉ r.channelMessageNumberMap)
    (messageType protoDesc : String) : Tables (r.onNewChannel channelName messageType protoDesc) := by
  have fresh : ∀ c ∈ r.declared, c.name ≠ channelName := by
    intro c member same
    refine absent (AList.mem_keys.mpr (tables.keys.mem_iff.mpr ?_))
    exact List.mem_map.mpr ⟨c, member, same⟩
  refine ⟨?_, ?_, ?_⟩
  · simp only [RecordWriter.onNewChannel, AList.keys_insert, List.map_append, List.map_cons, List.map_nil]
    rw [List.erase_of_not_mem fun here => absent (AList.mem_keys.mpr here)]
    exact (List.Perm.cons _ tables.keys).trans (List.perm_append_singleton _ _).symm
  · intro c member
    simp only [RecordWriter.onNewChannel] at member ⊢
    rw [Table.get_insert_eq]
    rcases List.mem_append.mp member with old | new
    · rw [if_neg (fresh c old), tables.types c old]
    · obtain rfl := List.mem_singleton.mp new
      exact if_pos rfl
  · intro c member
    simp only [RecordWriter.onNewChannel] at member ⊢
    rw [Table.get_insert_eq]
    rcases List.mem_append.mp member with old | new
    · rw [if_neg (fresh c old), tables.descs c old]
    · obtain rfl := List.mem_singleton.mp new
      exact if_pos rfl

/-- The channels are written into a new file one after the other. -/
theorem writeChannels_spec (pb : Protobuf) {file : RecordFileWriter.State} (kept : RecordFileWriter.Kept file)
    (ready : file.pc = .ready) (channels : List Channel) :
    RecordFileWriter.Kept (writeChannels pb file channels) ∧ (writeChannels pb file channels).pc = .ready ∧
      (writeChannels pb file channels).channels = file.channels ++ channels ∧
      (writeChannels pb file channels).messages = file.messages := by
  induction channels generalizing file with
  | nil => exact ⟨kept, ready, (List.append_nil _).symm, rfl⟩
  | cons channel channels ih =>
    have moves : RecordFileWriter.Moves pb file _ _ := .declares channel ready
    have next := RecordFileWriter.kept_step kept moves
    obtain ⟨kept', ready', all, same⟩ := ih next ready
    refine ⟨kept', ready', all.trans ?_, same⟩
    simp

/-- The next step of a call of the file neither takes a message nor a channel, and comes out of the call only after the
swap of `WriteMessage`. -/
theorem go_frame {s s' : RecordFileWriter.State} (next : s.go pb = some s') :
    s'.messages = s.messages ∧ s'.channels = s.channels ∧ (s'.pc = .ready → s.pc = .swapping) ∧ s'.pc ≠ .swapping := by
  unfold RecordFileWriter.State.go at next
  split at next
  · cases next
  · cases next
  · rename_i here
    cases next
    exact ⟨rfl, rfl, fun _ => here, by simp⟩
  · rename_i here
    cases next
    refine ⟨rfl, rfl, ?_, ?_⟩
    · dsimp only
      split <;> simp
    · dsimp only
      split <;> simp
  · cases next
    exact ⟨rfl, rfl, by simp, by simp⟩
  · rename_i here
    split at next
    · cases next
      exact ⟨rfl, rfl, by simp, by simp⟩
    · cases next
      exact ⟨rfl, rfl, by simp [here], by simp [here]⟩
  · cases next
    exact ⟨rfl, rfl, by simp, by simp⟩
  · cases next
    exact ⟨rfl, rfl, by simp, by simp⟩

/-- A step of the file by which the caller does not come out of its call. -/
theorem Inv.inFile (inv : Inv r) {e : RecordFileWriter.Event} {file : RecordFileWriter.State}
    (moves : RecordFileWriter.Moves pb r.file e file)
    (messages : file.messages = r.file.messages) (channels : file.channels = r.file.channels)
    (stands : r.isOpened = true → Pending.Stands file.pc r.pending)
    (shut : r.isOpened = false → file.pc = .closed) : Inv { r with file := file } where
  kept := RecordFileWriter.kept_step inv.kept moves
  messages := by
    dsimp only
    rw [messages, inv.messages]
  ended := inv.ended
  channels := by
    dsimp only
    rw [channels]
    exact inv.channels
  tables := ⟨inv.tables.keys, inv.tables.types, inv.tables.descs⟩
  stands := stands
  shut := fun closed => ⟨(inv.shut closed).1, shut closed⟩
  numbers := inv.numbers

theorem inv_init : Inv (openFile pb header) where
  kept := RecordFileWriter.kept_start header
  messages := rfl
  ended := by simp [openFile]
  channels := ⟨.refl _, List.nodup_nil⟩
  tables := ⟨.refl _, by simp [openFile], by simp [openFile]⟩
  stands := fun _ => rfl
  shut := fun closed => by cases closed
  numbers := fun _ => ⟨rfl, rfl, rfl⟩

theorem Inv.writeChannel (pb : Protobuf) (inv : Inv r) (opened : r.isOpened = true) (idle : r.pending = .none)
    {channelName : String} (absent : channelName ∉ r.channelMessageNumberMap) (messageType protoDesc : String) :
    Inv { r.onNewChannel channelName messageType protoDesc with
      file :=
        { r.file with
          writer := r.file.writer.writeChannel pb ⟨channelName, messageType, protoDesc⟩
          channels := r.file.channels ++ [⟨channelName, messageType, protoDesc⟩] } } := by
  have ready : r.file.pc = .ready := by
    have stands := inv.stands opened
    rwa [idle] at stands
  have tables := inv.tables.onNewChannel absent messageType protoDesc
  refine ⟨RecordFileWriter.kept_step inv.kept (.declares _ ready), inv.messages, inv.ended, ⟨?_, ?_⟩,
    ⟨tables.keys, tables.types, tables.descs⟩, fun _ => ?_, fun closed => ?_, inv.numbers⟩
  · exact inv.channels.same.append_right _
  · have names := tables.keys.nodup_iff.mp (AList.keys_nodup _)
    exact names
  · show Pending.Stands r.file.pc r.pending
    rw [idle]
    exact ready
  · exact absurd opened (by rw [show r.isOpened = false from closed]; decide)

theorem Inv.writeMessage (pb : Protobuf) (inv : Inv r) (opened : r.isOpened = true) (idle : r.pending = .none)
    (message : SingleMessage) :
    Inv { r.onNewMessage message.channelName with
      file := r.file.writeMessage message, pending := .message message, messages := r.messages ++ [message] } := by
  have ready : r.file.pc = .ready := by
    have stands := inv.stands opened
    rwa [idle] at stands
  have called : (r.file.writeMessage message).pc = .ready ∨ (r.file.writeMessage message).pc = .swapping := by
    unfold RecordFileWriter.State.writeMessage
    dsimp only
    split
    · exact .inr rfl
    · exact .inl rfl
  have tables := inv.tables.onNewMessage message.channelName
  have frame : (r.onNewMessage message.channelName).segments = r.segments ∧
      (r.onNewMessage message.channelName).declared = r.declared ∧
      (r.onNewMessage message.channelName).number = r.number ∧
      (r.onNewMessage message.channelName).fileIndex = r.fileIndex ∧
      (r.onNewMessage message.channelName).isOpened = r.isOpened := by
    unfold RecordWriter.onNewMessage
    split <;> exact ⟨rfl, rfl, rfl, rfl, rfl⟩
  obtain ⟨segments, declared, number, fileIndex, same⟩ := frame
  have moves : RecordFileWriter.Moves pb r.file _ (r.file.writeMessage message) := .adds message _ ready called
  refine ⟨RecordFileWriter.kept_step inv.kept moves, ?_, ?_, ?_,
    ⟨tables.keys, tables.types, tables.descs⟩, fun _ => called, fun closed => ?_, ?_⟩
  · dsimp only
    rw [segments, ← inv.messages, List.append_assoc]
    rfl
  · dsimp only
    rw [segments]
    exact inv.ended
  · dsimp only
    rw [declared]
    exact inv.channels
  · dsimp only at closed
    rw [same, opened] at closed
    cases closed
  · dsimp only
    rw [segments, number, fileIndex]
    exact inv.numbers

theorem Inv.afterMessage (pb : Protobuf) (inv : Inv r) {message : SingleMessage} (idle : r.pending = .message message)
    (ready : r.file.pc = .ready) : Inv (r.afterMessage message) := by
  have moves : RecordFileWriter.Moves pb r.file _ { r.file with pc := .waiting } := .closes ready
  unfold RecordWriter.afterMessage
  dsimp only
  split
  · refine ⟨RecordFileWriter.kept_step inv.kept moves, inv.messages, inv.ended, inv.channels,
      ⟨inv.tables.keys, inv.tables.types, inv.tables.descs⟩, fun _ => ⟨by simp, by simp⟩, fun closed => ?_, inv.numbers⟩
    have none_ := (inv.shut closed).1
    rw [idle] at none_
    cases none_
  · refine ⟨inv.kept, inv.messages, inv.ended, inv.channels,
      ⟨inv.tables.keys, inv.tables.types, inv.tables.descs⟩, fun _ => ready, fun closed => ?_, inv.numbers⟩
    have none_ := (inv.shut closed).1
    rw [idle] at none_
    cases none_

theorem Inv.splitOutfile (inv : Inv r) (opened : r.isOpened = true) (closed : r.file.pc = .closed) :
    Inv (r.splitOutfile pb) := by
  have fresh : RecordFileWriter.Kept (RecordFileWriter.start pb r.header) := RecordFileWriter.kept_start r.header
  obtain ⟨kept, ready, channels, messages⟩ := writeChannels_spec pb fresh rfl r.knownChannels
  refine ⟨kept, ?_, ?_, ⟨?_, inv.channels.names⟩, ⟨inv.tables.keys, inv.tables.types, inv.tables.descs⟩,
    fun _ => ready, fun shut => ?_, fun few => ?_⟩
  · have none_ : (RecordFileWriter.start pb r.header).messages = [] := rfl
    simp only [RecordWriter.splitOutfile, List.flatMap_append, List.flatMap_cons, List.flatMap_nil, messages, none_,
      List.append_nil]
    exact inv.messages
  · intro seg member
    rcases List.mem_append.mp member with old | new
    · exact inv.ended seg old
    · obtain rfl := List.mem_singleton.mp new
      exact ⟨inv.kept, closed, inv.channels⟩
  · have none_ : (RecordFileWriter.start pb r.header).channels = [] := rfl
    simp only [RecordWriter.splitOutfile, channels, none_, List.nil_append]
    exact inv.tables.knownChannels
  · exact absurd opened (by rw [show r.isOpened = false from shut]; decide)
  · simp only [RecordWriter.splitOutfile, List.length_append, List.length_singleton, List.map_append, List.map_cons,
      List.map_nil] at few ⊢
    obtain ⟨number, fileIndex, range⟩ := inv.numbers (by omega)
    have small : ¬r.fileIndex > 99999 := by omega
    rw [if_neg small, range, number, List.range_succ]
    exact ⟨by omega, trivial, rfl⟩

theorem inv_go (inv : Inv r) (next : r.go pb = some r') : Inv r' := by
  have opened : r.pending ≠ .none → r.isOpened = true := by
    intro busy
    by_contra shut
    exact busy (inv.shut (Bool.eq_false_iff.mpr shut)).1
  -- A step of the file that does not lead back to `ready` keeps the caller where it stands in `Close`.
  have inClose : ∀ {file}, r.pending = .splitting ∨ r.pending = .closing → r.file.go pb = some file →
      Inv { r with file := file } := by
    intro file closing moved
    obtain ⟨messages, channels, comesOut, swapping⟩ := go_frame moved
    have on := opened (by rcases closing with here | here <;> rw [here] <;> simp)
    have stands := inv.stands on
    have stay : file.pc ≠ .ready ∧ file.pc ≠ .swapping := by
      refine ⟨fun ready => ?_, swapping⟩
      have swap := comesOut ready
      rcases closing with here | here
      · rw [here] at stands
        exact stands.2 swap
      · rw [here] at stands
        exact stands.2 swap
    refine inv.inFile (RecordFileWriter.go_moves moved) messages channels (fun _ => ?_) fun shut => ?_
    · rcases closing with here | here
      · rw [here]
        exact stay
      · rw [here]
        exact stay
    · rw [on] at shut
      cases shut
  unfold go at next
  split at next
  · cases next
  · rename_i message here
    split at next
    · rename_i ready
      cases next
      exact inv.afterMessage pb here ready
    · rename_i waiting
      obtain ⟨file, moved, rfl⟩ := Option.map_eq_some_iff.mp next
      obtain ⟨messages, channels, _, swapping⟩ := go_frame moved
      have on := opened (by rw [here]; simp)
      refine inv.inFile (RecordFileWriter.go_moves moved) messages channels (fun _ => ?_) fun shut => ?_
      · -- The call is in the swap of `WriteMessage`, which is the end of it.
        have stands := inv.stands on
        rw [here] at stands ⊢
        have swap := stands.resolve_left waiting
        simp only [RecordFileWriter.State.go, swap, Option.some.injEq] at moved
        rw [← moved]
        exact .inl rfl
      · rw [on] at shut
        cases shut
  · rename_i here
    split at next
    · rename_i closed
      cases next
      exact inv.splitOutfile (opened (by rw [here]; simp)) closed
    · obtain ⟨file, moved, rfl⟩ := Option.map_eq_some_iff.mp next
      exact inClose (.inl here) moved
  · rename_i here
    split at next
    · rename_i closed
      cases next
      exact ⟨inv.kept, inv.messages, inv.ended, inv.channels, ⟨inv.tables.keys, inv.tables.types, inv.tables.descs⟩,
        (fun on => by cases on), fun _ => ⟨rfl, closed⟩, inv.numbers⟩
    · obtain ⟨file, moved, rfl⟩ := Option.map_eq_some_iff.mp next
      exact inClose (.inr here) moved

theorem inv_flush (inv : Inv r) {file : RecordFileWriter.State}
    (flushed : RecordFileWriter.step pb r.file .flush = some file) : Inv { r with file := file } := by
  have moves := RecordFileWriter.step_moves flushed
  simp only [RecordFileWriter.step] at flushed
  split at flushed
  · cases flushed
    refine inv.inFile moves rfl rfl inv.stands fun shut => (inv.shut shut).2
  · cases flushed

theorem inv_step {e : Event} (inv : Inv r) (next : step pb r e = some r') : Inv r' := by
  cases e with
  | writeChannel channelName messageType protoDesc =>
    simp only [step] at next
    split at next
    · rename_i idle
      split at next
      · cases next
        exact inv
      · rename_i absent
        have ready : r.file.pc = .ready := by
          have stands := inv.stands idle.1
          rwa [idle.2] at stands
        obtain ⟨file, called, rfl⟩ := Option.map_eq_some_iff.mp next
        rw [RecordFileWriter.step, if_pos ready] at called
        cases called
        exact inv.writeChannel pb idle.1 idle.2 absent messageType protoDesc
    · cases next
  | writeMessage message =>
    simp only [step] at next
    split at next
    · rename_i idle
      have ready : r.file.pc = .ready := by
        have stands := inv.stands idle.1
        rwa [idle.2] at stands
      simp only [RecordFileWriter.step, ready, if_true, Option.map_some, Option.some.injEq] at next
      rw [← next]
      exact inv.writeMessage pb idle.1 idle.2 message
    · cases next
  | close =>
    simp only [step] at next
    split at next
    · rename_i idle
      obtain ⟨file, called, rfl⟩ := Option.map_eq_some_iff.mp next
      have moves := RecordFileWriter.step_moves called
      simp only [RecordFileWriter.step] at called
      split at called
      · cases called
        refine ⟨RecordFileWriter.kept_step inv.kept moves, inv.messages, inv.ended, inv.channels,
          ⟨inv.tables.keys, inv.tables.types, inv.tables.descs⟩, fun _ => ⟨by simp, by simp⟩, fun shut => ?_,
          inv.numbers⟩
        exact absurd idle.1 (by rw [show r.isOpened = false from shut]; decide)
      · cases called
    · cases next
  | go => exact inv_go inv next
  | flush =>
    obtain ⟨file, flushed, rfl⟩ := Option.map_eq_some_iff.mp next
    exact inv_flush inv flushed

theorem inv_reach (reach : (machine pb header).Reach r) : Inv r :=
  Machine.Reach.invariant (M := machine pb header) inv_init (fun _ _ _ inv step => inv_step inv step) reach

/-- Only `WriteMessage` passes a message to a file writer, and only `WriteChannel` a channel. -/
theorem histories_of_go (next : r.go pb = some r') : r'.messages = r.messages ∧ r'.declared = r.declared := by
  unfold RecordWriter.go at next
  split at next
  · cases next
  · split at next
    · cases next
      simp only [RecordWriter.afterMessage]
      split <;> exact ⟨rfl, rfl⟩
    · obtain ⟨file, _, rfl⟩ := Option.map_eq_some_iff.mp next
      exact ⟨rfl, rfl⟩
  · split at next
    · cases next
      exact ⟨rfl, rfl⟩
    · obtain ⟨file, _, rfl⟩ := Option.map_eq_some_iff.mp next
      exact ⟨rfl, rfl⟩
  · split at next
    · cases next
      exact ⟨rfl, rfl⟩
    · obtain ⟨file, _, rfl⟩ := Option.map_eq_some_iff.mp next
      exact ⟨rfl, rfl⟩

theorem declared_of_step {e : Event}
    (other : ∀ channelName messageType protoDesc, e ≠ .writeChannel channelName messageType protoDesc)
    (next : step pb r e = some r') : r'.declared = r.declared := by
  cases e with
  | writeChannel channelName messageType protoDesc => exact absurd rfl (other channelName messageType protoDesc)
  | writeMessage message =>
    simp only [step] at next
    split at next
    · obtain ⟨file, _, rfl⟩ := Option.map_eq_some_iff.mp next
      rw [onNewMessage]
      split <;> rfl
    · cases next
  | close =>
    simp only [step] at next
    split at next
    · obtain ⟨file, _, rfl⟩ := Option.map_eq_some_iff.mp next
      rfl
    · cases next
  | go => exact (histories_of_go next).2
  | flush =>
    obtain ⟨file, _, rfl⟩ := Option.map_eq_some_iff.mp next
    rfl

/-- After `WriteChannel` the channel is declared, and otherwise the same ones are. -/
theorem declared_writeChannel (inv : Inv r) {channelName messageType protoDesc : String}
    (next : step pb r (.writeChannel channelName messageType protoDesc) = some r') (name : String) :
    name ∈ r'.declared.map Channel.name ↔ name = channelName ∨ name ∈ r.declared.map Channel.name := by
  simp only [step] at next
  split at next
  · split at next
    · rename_i known
      cases next
      have declared := inv.tables.keys.mem_iff.mp (AList.mem_keys.mp known)
      exact ⟨Or.inr, fun either => either.elim (fun same => same ▸ declared) id⟩
    · obtain ⟨file, _, rfl⟩ := Option.map_eq_some_iff.mp next
      simp only [onNewChannel, List.map_append, List.mem_append, List.map_cons, List.map_nil, List.mem_singleton]
      exact or_comm
  · cases next

/-- The file has one section for each channel that was declared, and none for another. -/
theorem Inv.sections (inv : Inv r) (name : String) :
    (r.file.writer.storedChannels.filter fun c => c.name = name).length =
      if name ∈ r.declared.map Channel.name then 1 else 0 := by
  rw [inv.kept.channels]
  have names : (r.file.channels.map Channel.name).Perm (r.declared.map Channel.name) := inv.channels.same.map _
  have counted : (r.file.channels.filter fun c => c.name = name).length =
      (r.file.channels.map Channel.name).count name := by
    rw [← List.countP_eq_length_filter, List.count, List.countP_map]
    exact List.countP_congr fun c _ => by simp
  rw [counted, names.count_eq]
  split
  · exact List.count_eq_one_of_mem inv.channels.names ‹_›
  · exact List.count_eq_zero_of_not_mem ‹_›

/-- Each file was written by a run of its own, that began with the header of the writer. -/
structure OfFiles (pb : Protobuf) (header : Header) (r : RecordWriter) : Prop where
  begins : r.header = header
  ended : ∀ seg ∈ r.segments, (RecordFileWriter.machine pb header).Reach seg.file
  file : (RecordFileWriter.machine pb header).Reach r.file

theorem writeChannels_reach {file : RecordFileWriter.State} (reach : (RecordFileWriter.machine pb header).Reach file)
    (ready : file.pc = .ready) (channels : List Channel) :
    (RecordFileWriter.machine pb header).Reach (writeChannels pb file channels) := by
  induction channels generalizing file with
  | nil => exact reach
  | cons channel channels ih =>
    have next : (RecordFileWriter.machine pb header).step file (.writeChannel channel) = some
        { file with writer := file.writer.writeChannel pb channel, channels := file.channels ++ [channel] } :=
      if_pos ready
    exact ih (.next reach trivial next) ready

theorem OfFiles.inFile (files : OfFiles pb header r) {e : RecordFileWriter.Event} {file : RecordFileWriter.State}
    (next : RecordFileWriter.step pb r.file e = some file) (r' : RecordWriter) (sameHeader : r'.header = r.header)
    (segments : r'.segments = r.segments) (sameFile : r'.file = file) : OfFiles pb header r' where
  begins := sameHeader.trans files.begins
  ended := by
    rw [segments]
    exact files.ended
  file := by
    rw [sameFile]
    exact .next files.file trivial next

theorem ofFiles_go (files : OfFiles pb header r) (next : r.go pb = some r') : OfFiles pb header r' := by
  have inFile : ∀ {r'}, ((r.file.go pb).map fun file => { r with file := file }) = some r' → OfFiles pb header r' := by
    intro r' goes
    obtain ⟨file, step, rfl⟩ := Option.map_eq_some_iff.mp goes
    exact files.inFile (e := .go) step _ rfl rfl rfl
  unfold RecordWriter.go at next
  split at next
  · cases next
  · split at next
    · rename_i ready
      cases next
      unfold RecordWriter.afterMessage
      dsimp only
      split
      · exact files.inFile (e := .close) (if_pos ready) _ rfl rfl rfl
      · exact ⟨files.begins, files.ended, files.file⟩
    · exact inFile next
  · split at next
    · cases next
      refine ⟨files.begins, fun seg member => ?_, ?_⟩
      · rcases List.mem_append.mp member with old | new
        · exact files.ended seg old
        · obtain rfl := List.mem_singleton.mp new
          exact files.file
      · have begun : (RecordFileWriter.machine pb header).Reach (RecordFileWriter.start pb r.header) := by
          rw [files.begins]
          exact .start
        exact writeChannels_reach begun rfl _
    · exact inFile next
  · split at next
    · cases next
      exact ⟨files.begins, files.ended, files.file⟩
    · exact inFile next

theorem ofFiles_step {e : Event} (files : OfFiles pb header r) (next : step pb r e = some r') :
    OfFiles pb header r' := by
  cases e with
  | writeChannel channelName messageType protoDesc =>
    simp only [RecordWriter.step] at next
    split at next
    · split at next
      · cases next
        exact files
      · obtain ⟨file, inFile, rfl⟩ := Option.map_eq_some_iff.mp next
        exact files.inFile inFile _ rfl rfl rfl
    · cases next
  | writeMessage message =>
    simp only [RecordWriter.step] at next
    split at next
    · obtain ⟨file, inFile, rfl⟩ := Option.map_eq_some_iff.mp next
      refine files.inFile inFile _ ?_ ?_ rfl
      · unfold RecordWriter.onNewMessage
        split <;> rfl
      · unfold RecordWriter.onNewMessage
        split <;> rfl
    · cases next
  | close =>
    simp only [RecordWriter.step] at next
    split at next
    · obtain ⟨file, inFile, rfl⟩ := Option.map_eq_some_iff.mp next
      exact files.inFile inFile _ rfl rfl rfl
    · cases next
  | go => exact ofFiles_go files next
  | flush =>
    obtain ⟨file, inFile, rfl⟩ := Option.map_eq_some_iff.mp next
    exact files.inFile inFile _ rfl rfl rfl

theorem files_reach (reach : (machine pb header).Reach r) :
    ∀ seg ∈ r.files, (RecordFileWriter.machine pb header).Reach seg.file := by
  have files := Machine.Reach.invariant (M := machine pb header) (P := OfFiles pb header)
    ⟨rfl, by simp [machine, openFile], .start⟩ (fun _ _ _ files next => ofFiles_step files next) reach
  intro seg member
  rcases List.mem_append.mp member with ended | last
  · exact files.ended seg ended
  · obtain rfl := List.mem_singleton.mp last
    exact files.file

/-- The steps of the call that is pending, and of the flush thread, lead from one state to the other. -/
def LeadsTo (pb : Protobuf) (header : Header) (r r' : RecordWriter) : Prop :=
  ∃ es, (∀ e ∈ es, e = .go ∨ e = .flush) ∧ (machine pb header).exec r es = some r'

theorem LeadsTo.refl (r : RecordWriter) : LeadsTo pb header r r :=
  ⟨[], by simp, rfl⟩

theorem LeadsTo.trans {r₁ r₂ r₃ : RecordWriter} (first : LeadsTo pb header r₁ r₂) (second : LeadsTo pb header r₂ r₃) :
    LeadsTo pb header r₁ r₃ := by
  obtain ⟨es, inner, run⟩ := first
  obtain ⟨fs, inner', run'⟩ := second
  refine ⟨es ++ fs, ?_, by rw [Machine.exec_append, run, Option.bind_some, run']⟩
  intro e member
  exact (List.mem_append.mp member).elim (inner e) (inner' e)

theorem LeadsTo.step {e : Event} (inner : e = .go ∨ e = .flush) (next : step pb r e = some r') :
    LeadsTo pb header r r' := by
  refine ⟨[e], fun f member => List.mem_singleton.mp member ▸ inner, ?_⟩
  have first : (machine pb header).step r e = some r' := next
  rw [Machine.exec, first]
  rfl

/-- The caller waits for the `Close` of a file as the file does. -/
theorem leadsTo_closed (pb : Protobuf) (header : Header) (inv : Inv r)
    (closing : r.pending = .splitting ∨ r.pending = .closing) :
    ∃ file, LeadsTo pb header r { r with file := file } ∧ file.pc = .closed := by
  have called : r.file.pc ≠ .ready ∧ r.file.pc ≠ .swapping := by
    have on : r.isOpened = true := by
      by_contra shut
      have none_ := (inv.shut (Bool.eq_false_iff.mpr shut)).1
      rcases closing with here | here
      · exact absurd (here.symm.trans none_) (by simp)
      · exact absurd (here.symm.trans none_) (by simp)
    have stands := inv.stands on
    rcases closing with here | here
    · rwa [here] at stands
    · rwa [here] at stands
  have ends : RecordFileWriter.Closes pb r.file := RecordFileWriter.close_ends inv.kept called
  obtain ⟨es, file, inner, run, closed⟩ := ends
  refine ⟨file, ?_, closed⟩
  -- By induction on the steps of the file; the caller takes each of them.
  clear inv called
  induction es generalizing r with
  | nil =>
    cases run
    exact .refl r
  | cons e es ih =>
    obtain ⟨mid, step, rest⟩ := Option.bind_eq_some_iff.mp run
    obtain ⟨head, tail⟩ := List.forall_mem_cons.mp inner
    have after : LeadsTo pb header { r with file := mid } { r with file := file } :=
      ih (r := { r with file := mid }) closing tail rest
    rcases head with rfl | rfl
    · have moved : r.file.go pb = some mid := step
      have unfinished : r.file.pc ≠ .closed := by
        intro closed
        simp only [RecordFileWriter.State.go, closed] at moved
        cases moved
      refine .trans (.step (.inl rfl) ?_) after
      rcases closing with here | here
      · simp only [RecordWriter.step, RecordWriter.go, here, if_neg unfinished, moved, Option.map_some]
      · simp only [RecordWriter.step, RecordWriter.go, here, if_neg unfinished, moved, Option.map_some]
    · have moved : RecordFileWriter.step pb r.file .flush = some mid := step
      refine .trans (.step (.inr rfl) ?_) after
      simp only [RecordWriter.step, moved, Option.map_some]

theorem go_splitting (here : r.pending = .splitting) (closed : r.file.pc = .closed) :
    r.go pb = some (r.splitOutfile pb) := by
  unfold RecordWriter.go
  rw [here]
  exact if_pos closed

theorem go_closing (here : r.pending = .closing) (closed : r.file.pc = .closed) :
    r.go pb = some { r with isOpened := false, pending := .none } := by
  unfold RecordWriter.go
  rw [here]
  exact if_pos closed

theorem go_swapping {message : SingleMessage} (here : r.pending = .message message) (swapping : r.file.pc = .swapping) :
    r.go pb = some { r with file := { r.file with writer := r.file.writer.swap, pc := .ready } } := by
  have different : r.file.pc ≠ .ready := by rw [swapping]; simp
  unfold RecordWriter.go
  rw [here]
  refine (if_neg different).trans ?_
  simp only [RecordFileWriter.State.go, swapping, Option.map_some]

/-- Every call ends. -/
theorem leadsTo_idle (inv : Inv r) : ∃ r', LeadsTo pb header r r' ∧ r'.pending = .none ∧
    (r.pending = .closing → r'.isOpened = false) := by
  have fromSplit : ∀ {r : RecordWriter}, Inv r → r.pending = .splitting →
      ∃ r', LeadsTo pb header r r' ∧ r'.pending = .none := by
    intro r inv here
    obtain ⟨file, leads, closed⟩ := leadsTo_closed pb header inv (.inl here)
    exact ⟨_, leads.trans (.step (.inl rfl) (go_splitting here closed)), rfl⟩
  have fromReady : ∀ {r : RecordWriter} {message}, Inv r → r.pending = .message message → r.file.pc = .ready →
      ∃ r', LeadsTo pb header r r' ∧ r'.pending = .none := by
    intro r message inv here ready
    have next : r.go pb = some (r.afterMessage message) := by simp only [RecordWriter.go, here, if_pos ready]
    have inv' := inv_go inv next
    by_cases idle : (r.afterMessage message).pending = .none
    · exact ⟨_, .step (.inl rfl) next, idle⟩
    · have splits : (r.afterMessage message).pending = .splitting := by
        unfold RecordWriter.afterMessage at idle ⊢
        dsimp only at idle ⊢
        split at idle
        · rename_i full
          rw [if_pos full]
        · exact absurd rfl idle
      obtain ⟨last, leads, none_⟩ := fromSplit inv' splits
      exact ⟨last, (LeadsTo.step (.inl rfl) next).trans leads, none_⟩
  cases here : r.pending with
  | none => exact ⟨r, .refl r, here, by simp⟩
  | message message =>
    have on : r.isOpened = true := by
      by_contra shut
      have none_ := (inv.shut (Bool.eq_false_iff.mpr shut)).1
      rw [here] at none_
      cases none_
    have stands := inv.stands on
    rw [here] at stands
    rcases stands with ready | swapping
    · obtain ⟨last, leads, none_⟩ := fromReady inv here ready
      exact ⟨last, leads, none_, by simp⟩
    · have next : r.go pb = some _ := go_swapping here swapping
      obtain ⟨last, leads, none_⟩ := fromReady (inv_go inv next) here rfl
      exact ⟨last, (LeadsTo.step (.inl rfl) next).trans leads, none_, by simp⟩
  | splitting =>
    obtain ⟨last, leads, none_⟩ := fromSplit inv here
    exact ⟨last, leads, none_, by simp⟩
  | closing =>
    obtain ⟨file, leads, closed⟩ := leadsTo_closed pb header inv (.inr here)
    exact ⟨_, leads.trans (.step (.inl rfl) (go_closing here closed)), rfl, fun _ => rfl⟩

/-- A file that was closed holds all its messages. -/
theorem stored_of_closed {file : RecordFileWriter.State} (kept : RecordFileWriter.Kept file)
    (closed : file.pc = .closed) :
    file.writer.stored.Perm file.messages := by
  have empties := kept.empties
  rw [closed] at empties
  have messages := kept.messages
  rwa [empties.1, empties.2, List.append_nil, List.append_nil] at messages

theorem Inv.ended_stored (inv : Inv r) :
    (r.segments.flatMap fun seg => seg.file.writer.stored).Perm (r.segments.flatMap fun seg => seg.file.messages) := by
  refine List.Perm.flatMap_left _ fun seg member => ?_
  obtain ⟨kept, closed, _⟩ := inv.ended seg member
  exact stored_of_closed kept closed

/-- In every state of every run, the messages in the segment files and in the two chunks are those passed to
`WriteMessage`. After `Close`, which ends, they all are in the files, and each file has a channel section for each
channel that was declared before it ended. The bytes of each file are the area of its header and the sections. -/
theorem writer_keeps_messages (reach : (machine pb header).Reach r) :
    ((r.files.flatMap fun seg => seg.file.writer.stored) ++ r.file.writer.chunkFlush.messages ++
      r.file.writer.chunkActive.messages).Perm r.messages ∧
    (∀ seg ∈ r.segments, Declares seg.file.writer.storedChannels seg.declared) ∧
    (r.isOpened = false → (r.files.flatMap fun seg => seg.file.writer.stored).Perm r.messages ∧
      ∀ seg ∈ r.files, Declares seg.file.writer.storedChannels seg.declared) ∧
    (r.files.length < 100000 → (r.files.map Segment.number).Nodup) ∧
    (∃ r', LeadsTo pb header r r' ∧ r'.pending = .none ∧ (r.pending = .closing → r'.isOpened = false)) ∧
    (RecordFileWriter.HeaderFits pb → ∀ seg ∈ r.files, seg.file.writer.fd.bytes =
      RecordFileWriter.headerArea pb (RecordFileWriter.writtenHeader header seg.file) ++
        seg.file.writer.sections.flatMap (Content.bytes pb)) := by
  have inv := inv_reach reach
  have ended : ∀ seg ∈ r.segments, Declares seg.file.writer.storedChannels seg.declared := by
    intro seg member
    obtain ⟨kept, _, declares⟩ := inv.ended seg member
    rw [kept.channels]
    exact declares
  have all : ((r.files.flatMap fun seg => seg.file.writer.stored) ++ r.file.writer.chunkFlush.messages ++
      r.file.writer.chunkActive.messages).Perm r.messages := by
    rw [← inv.messages]
    simp only [files, List.flatMap_append, List.flatMap_cons, List.flatMap_nil, List.append_nil, List.append_assoc]
    refine inv.ended_stored.append ?_
    simpa only [List.append_assoc] using inv.kept.messages
  refine ⟨all, ended, fun shut => ⟨?_, ?_⟩, fun few => ?_, leadsTo_idle inv, fun fits seg member => ?_⟩
  · have empties := inv.kept.empties
    rw [(inv.shut shut).2] at empties
    rwa [empties.1, empties.2, List.append_nil, List.append_nil] at all
  · intro seg member
    rcases List.mem_append.mp member with old | new
    · exact ended seg old
    · obtain rfl := List.mem_singleton.mp new
      show Declares r.file.writer.storedChannels r.declared
      rw [inv.kept.channels]
      exact inv.channels
  · have length : r.files.length = r.segments.length + 1 := by simp [files]
    obtain ⟨number, _, range⟩ := inv.numbers (by omega)
    simp only [files, List.map_append, List.map_cons, List.map_nil, range, number]
    rw [← List.range_succ]
    exact List.nodup_range
  · obtain ⟨items, laid⟩ := RecordFileWriter.laid_reach fits (files_reach reach seg member)
    exact laid.bytes

/-- A segment takes no more than one byte, so that the second message ends the first segment. -/
def oneByteSegments : Header :=
  { Header.empty with segmentRawSize := 1 }

def twoSegments : List Event :=
  [.writeChannel "a" "t" "", .writeMessage ⟨"a", 5, [1]⟩, .go, .writeMessage ⟨"a", 3, [2]⟩, .go, .go, .go, .flush, .go,
    .go, .go, .go, .writeMessage ⟨"a", 4, [3]⟩, .go, .close, .go, .go, .flush, .go, .go, .go, .go]

/-- The state in which both segments are closed. -/
def afterTwoSegments : RecordWriter :=
  (machine (Wire.protobuf .none) oneByteSegments).stateAt twoSegments twoSegments.length

theorem writer_keeps_messages_run :
    (machine (Wire.protobuf .none) oneByteSegments).Reach afterTwoSegments ∧
    (afterTwoSegments.files.map fun seg => seg.file.writer.stored) =
      [[⟨"a", 5, [1]⟩, ⟨"a", 3, [2]⟩], [⟨"a", 4, [3]⟩]] ∧
    (afterTwoSegments.files.flatMap fun seg => seg.file.writer.stored).Perm afterTwoSegments.messages ∧
    ∀ seg ∈ afterTwoSegments.files, seg.file.writer.fd.bytes =
      RecordFileWriter.headerArea (Wire.protobuf .none) (RecordFileWriter.writtenHeader oneByteSegments seg.file) ++
        seg.file.writer.sections.flatMap (Content.bytes (Wire.protobuf .none)) :=
  have reach := Machine.stateAt_reach twoSegments (by decide)
  have keeps := writer_keeps_messages reach
  ⟨reach, by decide, (keeps.2.2.1 (by decide)).1, keeps.2.2.2.2.2 Wire.header_length⟩

end RecordWriter

end CyberRT.Record
