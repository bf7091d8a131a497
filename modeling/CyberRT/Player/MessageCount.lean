import CyberRT.Player.PlayTaskProducer
import CyberRT.Record.IndexRuns
import Mathlib.Data.Int.ModEq

namespace CyberRT.Record
open Concur

namespace RecordReader

/-- A round of the loop of the constructor over the index. The first entry of a name stays. -/
def noteChannel (info : Table String ChannelCache) (single : SingleIndex) : Table String ChannelCache :=
  match single.type, single.cache with
  | .channel, .channel cache => if (info.lookup cache.name).isSome then info else info.insert cache.name cache
  | _, _ => info

/-- `channel_info_`, from the index of the file. -/
def channelInfo (index : Index) : Table String ChannelCache :=
  index.indexes.foldl noteChannel ∅

/-- The channels that the constructor finds. -/
def channelInfoOf (pb : Protobuf) (bytes : List UInt8) : Table String ChannelCache :=
  match RecordFileReader.openFile pb bytes with
  | (false, _) => ∅
  | (true, f) =>
    match f.readIndex pb with
    | (false, _) => ∅
    | (true, f) => channelInfo f.index

/-- The names of a sorted set. What follows does not depend on their order. -/
def getChannelList (info : Table String ChannelCache) : List String :=
  info.keys

def getMessageNumber (info : Table String ChannelCache) (channelName : String) : Nat :=
  ((info.lookup channelName).map ChannelCache.messageNumber).getD 0

def getMessageType (info : Table String ChannelCache) (channelName : String) : String :=
  ((info.lookup channelName).map ChannelCache.messageType).getD ""

theorem mem_noteChannel {info : Table String ChannelCache} {single : SingleIndex} {channelName : String} :
    channelName ∈ noteChannel info single ↔ channelName ∈ info ∨
      ∃ cache, single.type = .channel ∧ single.cache = .channel cache ∧ cache.name = channelName := by
  unfold noteChannel
  split
  · rename_i cache type content
    split
    · rename_i there
      have inside : cache.name ∈ info := AList.lookup_isSome.mp there
      constructor
      · exact .inl
      · rintro (before | ⟨_, -, same, rfl⟩)
        · exact before
        · rw [content] at same
          cases same
          exact inside
    · rw [AList.mem_insert, or_comm]
      refine or_congr_right ⟨fun same => ⟨cache, type, content, same.symm⟩, ?_⟩
      rintro ⟨_, -, same, rfl⟩
      rw [content] at same
      cases same
      rfl
  · rename_i other
    constructor
    · exact .inl
    · rintro (before | ⟨cache, type, content, -⟩)
      · exact before
      · exact (other cache type content).elim

theorem lookup_noteChannel {info : Table String ChannelCache} {single : SingleIndex} {channelName : String}
    {cache : ChannelCache} (found : (noteChannel info single).lookup channelName = some cache) :
    info.lookup channelName = some cache ∨ single.cache = .channel cache ∧ cache.name = channelName := by
  unfold noteChannel at found
  split at found
  · rename_i cache' type content
    split at found
    · exact .inl found
    · rw [Table.lookup_insert_eq] at found
      split at found
      · rename_i same
        cases found
        exact .inr ⟨content, same.symm⟩
      · exact .inl found
  · exact .inl found

theorem mem_channelInfo {index : Index} {channelName : String} :
    channelName ∈ channelInfo index ↔ ∃ single ∈ index.indexes, ∃ cache,
      single.type = .channel ∧ single.cache = .channel cache ∧ cache.name = channelName := by
  have run (singles : List SingleIndex) (info : Table String ChannelCache) :
      channelName ∈ singles.foldl noteChannel info ↔ channelName ∈ info ∨ ∃ single ∈ singles, ∃ cache,
        single.type = .channel ∧ single.cache = .channel cache ∧ cache.name = channelName := by
    induction singles generalizing info with
    | nil => simp
    | cons single singles ih =>
      rw [List.foldl_cons, ih, mem_noteChannel, or_assoc]
      simp only [List.mem_cons, exists_eq_or_imp]
  rw [channelInfo, run]
  exact or_iff_right (AList.notMem_empty _)

theorem lookup_channelInfo {index : Index} {channelName : String} {cache : ChannelCache}
    (found : (channelInfo index).lookup channelName = some cache) :
    ∃ single ∈ index.indexes, single.cache = .channel cache ∧ cache.name = channelName := by
  have run (singles : List SingleIndex) (info : Table String ChannelCache)
      (found : (singles.foldl noteChannel info).lookup channelName = some cache) :
      info.lookup channelName = some cache ∨
        ∃ single ∈ singles, single.cache = .channel cache ∧ cache.name = channelName := by
    induction singles generalizing info with
    | nil => exact .inl found
    | cons single singles ih =>
      rcases ih _ found with here | ⟨later, member, content⟩
      · rcases lookup_noteChannel here with before | now
        · exact .inl before
        · exact .inr ⟨single, List.mem_cons_self, now⟩
      · exact .inr ⟨later, List.mem_cons_of_mem _ member, content⟩
  exact (run _ _ found).resolve_left (by simp)

end RecordReader

namespace Content

/-- Only a channel has an entry that tells of a channel. -/
theorem cache_entry {count : String → Nat} {pos : Nat} {content : Content} {single : SingleIndex}
    (member : single ∈ content.entry count pos) {cache : ChannelCache} (channel : single.cache = .channel cache) :
    ∃ c, content = .channel c ∧ cache = ⟨count c.name, c.name, c.messageType, c.protoDesc⟩ := by
  cases content with
  | channel c =>
    obtain rfl := List.mem_singleton.mp member
    exact ⟨c, rfl, (Cache.channel.inj channel).symm⟩
  | chunkHeader c =>
    obtain rfl := List.mem_singleton.mp member
    cases channel
  | chunkBody c =>
    obtain rfl := List.mem_singleton.mp member
    cases channel
  | index c => cases member

/-- Every channel has its entry. -/
theorem channel_entries (pb : Protobuf) (count : String → Nat) (pos : Nat) {contents : List Content} {c : Channel}
    (member : Content.channel c ∈ contents) :
    ∃ pos', ⟨.channel, pos', .channel ⟨count c.name, c.name, c.messageType, c.protoDesc⟩⟩ ∈
      entries pb count pos contents := by
  obtain ⟨before, after, rfl⟩ := List.append_of_mem member
  refine ⟨pos + (before.flatMap (bytes pb)).length, ?_⟩
  rw [entries_append]
  exact List.mem_append_right _ List.mem_cons_self

end Content

/-- A `uint64_t` to which a number is added. -/
def addMod (total n : Nat) : Nat :=
  (total + n) % 2 ^ 64

def subMod (total n : Nat) : Nat :=
  (total + (2 ^ 64 - n % 2 ^ 64)) % 2 ^ 64

structure PlayParam where
  isPlayAllChannels : Bool
  channelsToPlay : List String
  blackChannels : List String

/-- What `ReadRecordInfo` gathers. -/
structure RecordInfo where
  recordReaders : List RecordReader
  msgTypes : Table String String
  earliestBeginTime : Nat
  latestEndTime : Nat
  totalMsgNum : Nat

namespace RecordInfo
open RecordReader

def create : RecordInfo :=
  ⟨[], ∅, 2 ^ 64 - 1, 0, 0⟩

/-- A round of the loop over the channels of a file. -/
def readChannel (param : PlayParam) (channels : Table String ChannelCache) (info : RecordInfo) (channelName : String) :
    RecordInfo :=
  if channelName ∈ param.blackChannels then
    { info with totalMsgNum := subMod info.totalMsgNum (getMessageNumber channels channelName) }
  else
    let info := { info with msgTypes := info.msgTypes.insert channelName (getMessageType channels channelName) }
    if !param.isPlayAllChannels ∧ channelName ∈ param.channelsToPlay then
      { info with totalMsgNum := addMod info.totalMsgNum (getMessageNumber channels channelName) }
    else info

/-- A round of the loop over the files. -/
def readFile (pb : Protobuf) (param : PlayParam) (info : RecordInfo) (bytes : List UInt8) : RecordInfo :=
  let recordReader := RecordReader.create pb bytes
  if !recordReader.isValid then info
  else if !recordReader.header.isComplete then info
  else
    let channels := channelInfoOf pb bytes
    let info := (getChannelList channels).foldl (readChannel param channels)
      { info with recordReaders := info.recordReaders ++ [recordReader] }
    let header := recordReader.header
    { info with
      totalMsgNum :=
        if param.isPlayAllChannels then addMod info.totalMsgNum header.messageNumber else info.totalMsgNum
      earliestBeginTime := min info.earliestBeginTime header.beginTime
      latestEndTime := max info.latestEndTime header.endTime }

/-- `ReadRecordInfo` on files with the given bytes; `none` where it returns false. -/
def readRecordInfo (pb : Protobuf) (param : PlayParam) (files : List (List UInt8)) : Option RecordInfo :=
  if files.isEmpty then none else some (files.foldl (readFile pb param) create)

/-- The channels for which `CreateWriters` has a writer created. It returns false if one cannot be. -/
def createWriters (creates : String → String → Bool) (param : PlayParam) :
    List (Sigma fun _ : String => String) → Option (List String)
  | [] => some []
  | ⟨channelName, msgType⟩ :: more =>
    if param.isPlayAllChannels ∨ channelName ∈ param.channelsToPlay then
      if channelName ∈ param.blackChannels then createWriters creates param more
      else if creates channelName msgType then (createWriters creates param more).map (channelName :: ·)
      else none
    else createWriters creates param more

end RecordInfo

/-- A complete file whose index describes it, whose header counts the messages, and which declares their channels. -/
structure CorrectFile (pb : Protobuf) where
  bytes : List UInt8
  header : Header
  index : Index
  items : List Item
  describes : RecordFileWriter.Describes pb bytes header index items
  readsHeader : pb.header.Reads header
  readsIndex : pb.index.Reads index
  small : bytes.length < 2 ^ 63
  counted : header.messageNumber = ((items.flatMap Item.contents).flatMap Content.messages).length
  declared : ∀ m ∈ (items.flatMap Item.contents).flatMap Content.messages,
    ∃ c : Channel, Content.channel c ∈ items.flatMap Item.contents ∧ c.name = m.channelName

namespace CorrectFile
variable {pb : Protobuf}

def messages (file : CorrectFile pb) : List SingleMessage :=
  (file.items.flatMap Item.contents).flatMap Content.messages

theorem create_eq (file : CorrectFile pb) :
    (RecordReader.create pb file.bytes).isValid = true ∧ (RecordReader.create pb file.bytes).header = file.header ∧
      RecordReader.channelInfoOf pb file.bytes = RecordReader.channelInfo file.index := by
  obtain ⟨f, f', opened, header, read, index⟩ :=
    file.describes.readIndex file.readsHeader file.readsIndex file.small
  unfold RecordReader.create RecordReader.channelInfoOf
  simp only [opened, read]
  exact ⟨trivial, header, by rw [index]⟩

/-- The channels that sections of the file declare. -/
def Declared (file : CorrectFile pb) (channelName : String) : Prop :=
  ∃ c : Channel, Content.channel c ∈ file.items.flatMap Item.contents ∧ c.name = channelName

def channels (file : CorrectFile pb) : Table String ChannelCache :=
  RecordReader.channelInfo file.index

/-- The list of the channels is that of the sections. -/
theorem mem_channels (file : CorrectFile pb) (channelName : String) :
    channelName ∈ file.channels ↔ file.Declared channelName := by
  rw [channels, RecordReader.mem_channelInfo, file.describes.entries]
  constructor
  · rintro ⟨single, member, cache, -, content, rfl⟩
    obtain ⟨before, section_, after, all, entry⟩ := Content.mem_entries member
    obtain ⟨c, rfl, rfl⟩ := Content.cache_entry entry content
    exact ⟨c, by rw [all]; simp, rfl⟩
  · rintro ⟨c, member, rfl⟩
    obtain ⟨pos, entry⟩ := Content.channel_entries pb
      (RecordFileWriter.numberOf ((file.items.flatMap Item.contents).flatMap Content.messages))
      (RecordFileWriter.headerArea pb file.header).length member
    exact ⟨_, entry, _, rfl, rfl, rfl⟩

/-- The number of a channel in the list is the number of its messages. -/
theorem getMessageNumber_eq (file : CorrectFile pb) {channelName : String} (member : channelName ∈ file.channels) :
    RecordReader.getMessageNumber file.channels channelName =
      RecordFileWriter.numberOf file.messages channelName := by
  obtain ⟨cache, found⟩ := Table.mem_iff_lookup.mp member
  obtain ⟨single, listed, content, named⟩ := RecordReader.lookup_channelInfo found
  rw [file.describes.entries] at listed
  obtain ⟨before, section_, after, all, entry⟩ := Content.mem_entries listed
  obtain ⟨c, rfl, rfl⟩ := Content.cache_entry entry content
  rw [RecordReader.getMessageNumber, found]
  exact congrArg (RecordFileWriter.numberOf file.messages) named

theorem messages_covered (file : CorrectFile pb) : ∀ m ∈ file.messages, m.channelName ∈ file.channels.keys :=
  fun m member => AList.mem_keys.mp ((file.mem_channels _).mpr (file.declared m member))

end CorrectFile

theorem addMod_modEq (total n : Nat) : (addMod total n : Int) ≡ total + n [ZMOD 2 ^ 64] := by
  rw [addMod, Int.natCast_mod, Nat.cast_add]
  exact Int.mod_modEq _ _

theorem subMod_modEq (total n : Nat) : (subMod total n : Int) ≡ total - n [ZMOD 2 ^ 64] := by
  unfold Int.ModEq subMod
  omega

theorem addMod_lt (total n : Nat) : addMod total n < 2 ^ 64 :=
  Nat.mod_lt _ (by decide)

theorem subMod_lt (total n : Nat) : subMod total n < 2 ^ 64 :=
  Nat.mod_lt _ (by decide)

namespace PlayParam

/-- How often a message of the channel is counted in the loop over the channels. -/
def weight (param : PlayParam) (channelName : String) : Int :=
  if channelName ∈ param.blackChannels then -1
  else if !param.isPlayAllChannels ∧ channelName ∈ param.channelsToPlay then 1
  else 0

/-- A channel that is to be played. -/
def Plays (param : PlayParam) (channelName : String) : Prop :=
  (param.isPlayAllChannels = true ∨ channelName ∈ param.channelsToPlay) ∧ channelName ∉ param.blackChannels

instance (param : PlayParam) : DecidablePred param.Plays :=
  fun _ => inferInstanceAs (Decidable (_ ∧ _))

/-- With the header, a message that is to be played counts once. A black one counts only where all are played. -/
theorem weight_eq (param : PlayParam) (channelName : String) :
    param.weight channelName + (if param.isPlayAllChannels then 1 else 0) =
      (if param.Plays channelName then 1 else 0) -
        (if param.isPlayAllChannels then 0 else if channelName ∈ param.blackChannels then 1 else 0) := by
  unfold weight Plays
  by_cases black : channelName ∈ param.blackChannels
  · by_cases all : param.isPlayAllChannels = true <;> simp [black, all]
  · by_cases all : param.isPlayAllChannels = true <;> simp [black, all]

theorem sum_weight (param : PlayParam) (messages : List SingleMessage) :
    (messages.map fun m => param.weight m.channelName).sum +
        (if param.isPlayAllChannels then (messages.length : Int) else 0) =
      (messages.countP fun m => param.Plays m.channelName : Nat) -
        (if param.isPlayAllChannels then 0
          else messages.countP fun m => m.channelName ∈ param.blackChannels : Nat) := by
  induction messages with
  | nil => simp
  | cons m messages ih =>
    have first := param.weight_eq m.channelName
    simp only [List.map_cons, List.sum_cons, List.length_cons, List.countP_cons, decide_eq_true_eq]
    split_ifs at * <;> push_cast at * <;> omega

end PlayParam

namespace CorrectFile
variable {pb : Protobuf}

/-- What `ReadRecordInfo` adds for a file and takes away, as a number that may be negative. -/
def balance (file : CorrectFile pb) (param : PlayParam) : Int :=
  ((RecordReader.getChannelList file.channels).map fun channelName =>
      RecordReader.getMessageNumber file.channels channelName • param.weight channelName).sum +
    if param.isPlayAllChannels then (file.header.messageNumber : Int) else 0

/-- Where all channels are played, the black ones are taken from the messages of the header. Else they are taken from
the messages to be played, among which they are not. -/
theorem balance_eq (file : CorrectFile pb) (param : PlayParam) :
    file.balance param = (file.messages.countP fun m => param.Plays m.channelName : Nat) -
      (if param.isPlayAllChannels then 0
        else file.messages.countP fun m => m.channelName ∈ param.blackChannels : Nat) := by
  have numbers : ((RecordReader.getChannelList file.channels).map fun channelName =>
      RecordReader.getMessageNumber file.channels channelName • param.weight channelName).sum =
      (file.messages.map fun m => param.weight m.channelName).sum := by
    rw [← Table.sum_countP SingleMessage.channelName param.weight file.channels.keys_nodup file.messages_covered]
    congr 1
    refine List.map_congr_left fun channelName member => ?_
    rw [file.getMessageNumber_eq (AList.mem_keys.mpr member)]
    rfl
  rw [balance, numbers, file.counted]
  exact param.sum_weight file.messages

end CorrectFile

namespace RecordInfo
open RecordReader
variable {pb : Protobuf}

theorem readChannel_total (param : PlayParam) (channels : Table String ChannelCache) (info : RecordInfo)
    (channelName : String) : ((readChannel param channels info channelName).totalMsgNum : Int) ≡
      info.totalMsgNum + getMessageNumber channels channelName • param.weight channelName [ZMOD 2 ^ 64] := by
  unfold readChannel PlayParam.weight
  split
  · rw [neg_nsmul, nsmul_one, ← sub_eq_add_neg]
    exact subMod_modEq _ _
  · dsimp only
    split
    · rw [nsmul_one]
      exact addMod_modEq _ _
    · rw [nsmul_zero, add_zero]

theorem readChannel_lt {param : PlayParam} {channels : Table String ChannelCache} {info : RecordInfo}
    (channelName : String) (small : info.totalMsgNum < 2 ^ 64) :
    (readChannel param channels info channelName).totalMsgNum < 2 ^ 64 := by
  unfold readChannel
  split
  · exact subMod_lt _ _
  · dsimp only
    split
    · exact addMod_lt _ _
    · exact small

theorem mem_readChannel {param : PlayParam} {channels : Table String ChannelCache} {info : RecordInfo}
    {channelName name : String} : name ∈ (readChannel param channels info channelName).msgTypes ↔
      name ∈ info.msgTypes ∨ name ∉ param.blackChannels ∧ name = channelName := by
  unfold readChannel
  split
  · rename_i black
    refine (or_iff_left ?_).symm
    rintro ⟨white, rfl⟩
    exact white black
  · rename_i white
    have inserted : name ∈ info.msgTypes.insert channelName (getMessageType channels channelName) ↔
        name ∈ info.msgTypes ∨ name ∉ param.blackChannels ∧ name = channelName := by
      rw [AList.mem_insert, or_comm]
      refine or_congr_right ⟨fun same => ⟨same ▸ white, same⟩, And.right⟩
    dsimp only
    split
    · exact inserted
    · exact inserted

/-- The files were read after the others. -/
structure Gathered (param : PlayParam) (info info' : RecordInfo) (files : List (CorrectFile pb)) : Prop where
  total : (info'.totalMsgNum : Int) ≡
    info.totalMsgNum + (files.map fun file => file.balance param).sum [ZMOD 2 ^ 64]
  small : info.totalMsgNum < 2 ^ 64 → info'.totalMsgNum < 2 ^ 64
  types : ∀ name, name ∈ info'.msgTypes ↔
    name ∈ info.msgTypes ∨ name ∉ param.blackChannels ∧ ∃ file ∈ files, file.Declared name

/-- The loop over the channels of a file. -/
theorem readChannels (param : PlayParam) (channels : Table String ChannelCache) (info : RecordInfo)
    (names : List String) :
    let info' := names.foldl (readChannel param channels) info
    (info'.totalMsgNum : Int) ≡ info.totalMsgNum +
        (names.map fun name => getMessageNumber channels name • param.weight name).sum [ZMOD 2 ^ 64] ∧
      (info.totalMsgNum < 2 ^ 64 → info'.totalMsgNum < 2 ^ 64) ∧
      ∀ name, name ∈ info'.msgTypes ↔ name ∈ info.msgTypes ∨ name ∉ param.blackChannels ∧ name ∈ names := by
  induction names generalizing info with
  | nil => simp
  | cons channelName names ih =>
    obtain ⟨total, small, types⟩ := ih (readChannel param channels info channelName)
    refine ⟨?_, fun before => small (readChannel_lt channelName before), fun name => ?_⟩
    · rw [List.map_cons, List.sum_cons, ← add_assoc]
      exact total.trans ((readChannel_total param channels info channelName).add_right _)
    · rw [List.foldl_cons, types, mem_readChannel, or_assoc, ← and_or_left, List.mem_cons]

theorem readFile_gathers (param : PlayParam) (info : RecordInfo) (file : CorrectFile pb) :
    Gathered param info (readFile pb param info file.bytes) [file] := by
  obtain ⟨valid, header, channels⟩ := file.create_eq
  have complete := file.describes.complete
  obtain ⟨total, small, types⟩ := readChannels param file.channels
    { info with recordReaders := info.recordReaders ++ [RecordReader.create pb file.bytes] }
    (getChannelList file.channels)
  have listed (name : String) : name ∈ getChannelList file.channels ↔ ∃ f ∈ [file], f.Declared name := by
    rw [getChannelList, ← AList.mem_keys, file.mem_channels]
    simp
  unfold readFile
  simp only [valid, header, complete, channels, Bool.not_true, Bool.false_eq_true, if_false]
  refine ⟨?_, fun before => ?_, fun name => ?_⟩
  · rw [List.map_singleton, List.sum_singleton, CorrectFile.balance, ← add_assoc]
    dsimp only
    split
    · exact (addMod_modEq _ _).trans (total.add_right _)
    · rw [add_zero]
      exact total
  · dsimp only
    split
    · exact addMod_lt _ _
    · exact small before
  · rw [← listed]
    exact types name

theorem readFiles_gather (param : PlayParam) (info : RecordInfo) (files : List (CorrectFile pb)) :
    Gathered param info ((files.map CorrectFile.bytes).foldl (readFile pb param) info) files := by
  induction files generalizing info with
  | nil => exact ⟨by simp [Int.ModEq], id, by simp⟩
  | cons file files ih =>
    have first := readFile_gathers param info file
    have rest := ih (readFile pb param info file.bytes)
    rw [List.map_cons, List.foldl_cons]
    refine ⟨?_, fun before => rest.small (first.small before), fun name => ?_⟩
    · have here := first.total
      rw [List.map_singleton, List.sum_singleton] at here
      rw [List.map_cons, List.sum_cons, ← add_assoc]
      exact rest.total.trans (here.add_right _)
    · rw [rest.types, first.types, or_assoc, ← and_or_left]
      simp only [List.mem_cons, exists_eq_or_imp, List.not_mem_nil, or_false, exists_eq_left]

/-- A channel has a writer if it is to be played and its type is known. -/
theorem mem_createWriters {creates : String → String → Bool} {param : PlayParam}
    {entries : List (Sigma fun _ : String => String)} {writers : List String}
    (made : createWriters creates param entries = some writers) (name : String) :
    name ∈ writers ↔ param.Plays name ∧ name ∈ entries.map Sigma.fst := by
  induction entries generalizing writers with
  | nil =>
    cases made
    simp
  | cons entry entries ih =>
    obtain ⟨channelName, msgType⟩ := entry
    have skipped (rest : createWriters creates param entries = some writers) (not : ¬param.Plays channelName) :
        name ∈ writers ↔ param.Plays name ∧ name ∈ (⟨channelName, msgType⟩ :: entries).map Sigma.fst := by
      rw [ih rest, List.map_cons, List.mem_cons]
      refine and_congr_right fun plays => (or_iff_right ?_).symm
      rintro rfl
      exact not plays
    rw [createWriters] at made
    split at made
    · rename_i chosen
      split at made
      · rename_i black
        exact skipped made fun plays => plays.2 black
      · rename_i white
        split at made
        · obtain ⟨rest, more, rfl⟩ := Option.map_eq_some_iff.mp made
          rw [List.mem_cons, ih more, List.map_cons, List.mem_cons, and_or_left]
          refine or_congr_left ⟨fun same => ⟨same ▸ ⟨chosen, white⟩, same⟩, And.right⟩
        · cases made
    · rename_i others
      exact skipped made fun plays => others plays.1

/-- The total is the number of messages on the channels that have a writer. Nothing was taken from it that it did not
have. -/
def CountsRight (param : PlayParam) (files : List (CorrectFile pb)) (info : RecordInfo) (writers : List String) :
    Prop :=
  info.totalMsgNum = ((files.flatMap CorrectFile.messages).countP fun m => m.channelName ∈ writers) ∧
    (info.totalMsgNum : Int) = (files.map fun file => file.balance param).sum

theorem sum_balance (param : PlayParam) (files : List (CorrectFile pb)) :
    (files.map fun file => file.balance param).sum =
      ((files.flatMap CorrectFile.messages).countP fun m => param.Plays m.channelName : Nat) -
        (if param.isPlayAllChannels then 0
          else (files.flatMap CorrectFile.messages).countP fun m => m.channelName ∈ param.blackChannels : Nat) := by
  induction files with
  | nil => simp
  | cons file files ih =>
    rw [List.map_cons, List.sum_cons, ih, file.balance_eq, List.flatMap_cons, List.countP_append, List.countP_append]
    split_ifs <;> push_cast <;> omega

/-- The total is right if all channels are played, or else no message is on a black one. -/
theorem countsRight_iff {creates : String → String → Bool} {param : PlayParam} {files : List (CorrectFile pb)}
    {info : RecordInfo} {writers : List String}
    (read : readRecordInfo pb param (files.map CorrectFile.bytes) = some info)
    (made : createWriters creates param info.msgTypes.entries = some writers) :
    CountsRight param files info writers ↔
      (param.isPlayAllChannels = true ∨
        ∀ m ∈ files.flatMap CorrectFile.messages, m.channelName ∉ param.blackChannels) ∧
      ((files.flatMap CorrectFile.messages).countP fun m => param.Plays m.channelName) < 2 ^ 64 := by
  have gathered : Gathered param create info files := by
    unfold readRecordInfo at read
    split at read
    · cases read
    · cases read
      exact readFiles_gather param create files
  have small := gathered.small (by decide)
  have total := gathered.total
  rw [show create.totalMsgNum = 0 from rfl, Nat.cast_zero, zero_add, sum_balance] at total
  have written : ((files.flatMap CorrectFile.messages).countP fun m => m.channelName ∈ writers) =
      (files.flatMap CorrectFile.messages).countP fun m => param.Plays m.channelName := by
    refine List.countP_congr fun m member => ?_
    obtain ⟨file, inside, mine⟩ := List.mem_flatMap.mp member
    rw [decide_eq_true_iff, decide_eq_true_iff, mem_createWriters made]
    refine and_iff_left_of_imp fun plays => ?_
    exact AList.mem_keys.mp ((gathered.types _).mpr (.inr ⟨plays.2, file, inside, file.declared m mine⟩))
  have black : ((files.flatMap CorrectFile.messages).countP fun m => m.channelName ∈ param.blackChannels) = 0 ↔
      ∀ m ∈ files.flatMap CorrectFile.messages, m.channelName ∉ param.blackChannels := by
    simp [List.countP_eq_zero]
  rw [CountsRight, written, ← black, sum_balance]
  unfold Int.ModEq at total
  cases all : param.isPlayAllChannels with
  | true =>
    simp only [all, if_true, true_or, true_and, Nat.cast_zero, sub_zero] at total ⊢
    omega
  | false =>
    simp only [all, Bool.false_eq_true, if_false, false_or] at total ⊢
    omega

/-- A file with one message, on the channel `a`. -/
def oneMessageFile : CorrectFile RecordFileWriter.oneMessageProtobuf where
  bytes := RecordFileWriter.headerArea RecordFileWriter.oneMessageProtobuf RecordFileWriter.oneMessageHeader ++
    [.channel ⟨"a", "t", ""⟩, .chunkHeader ⟨5, 5, 1, 1⟩, .chunkBody ⟨[⟨"a", 5, [1]⟩]⟩,
      .index RecordFileWriter.oneMessageIndex].flatMap (Content.bytes RecordFileWriter.oneMessageProtobuf)
  header := RecordFileWriter.oneMessageHeader
  index := RecordFileWriter.oneMessageIndex
  items := [.channel ⟨"a", "t", ""⟩, .chunk ⟨⟨5, 5, 1, 1⟩, ⟨[⟨"a", 5, [1]⟩]⟩⟩]
  describes := ⟨rfl, rfl, by decide +kernel, by decide +kernel⟩
  readsHeader := ⟨by decide, by decide⟩
  readsIndex := ⟨by decide, by decide⟩
  small := by decide +kernel
  counted := rfl
  declared := by
    intro m member
    obtain rfl := List.mem_singleton.mp member
    exact ⟨⟨"a", "t", ""⟩, List.mem_cons_self, rfl⟩

/-- The index of a file with one message, on the channel `b`. -/
def otherIndex : Index :=
  ⟨[⟨.channel, 2064, .channel ⟨1, "b", "t", ""⟩⟩, ⟨.chunkHeader, 2088, .chunkHeader ⟨1, 5, 5, 1⟩⟩,
    ⟨.chunkBody, 2112, .chunkBody ⟨1⟩⟩]⟩

def twoFilesProtobuf : Protobuf :=
  Wire.protobuf ⟨[RecordFileWriter.oneMessageHeader], [], [], [RecordFileWriter.oneMessageIndex, otherIndex], []⟩

def firstFile : CorrectFile twoFilesProtobuf where
  bytes := RecordFileWriter.headerArea twoFilesProtobuf RecordFileWriter.oneMessageHeader ++
    [.channel ⟨"a", "t", ""⟩, .chunkHeader ⟨5, 5, 1, 1⟩, .chunkBody ⟨[⟨"a", 5, [1]⟩]⟩,
      .index RecordFileWriter.oneMessageIndex].flatMap (Content.bytes twoFilesProtobuf)
  header := RecordFileWriter.oneMessageHeader
  index := RecordFileWriter.oneMessageIndex
  items := [.channel ⟨"a", "t", ""⟩, .chunk ⟨⟨5, 5, 1, 1⟩, ⟨[⟨"a", 5, [1]⟩]⟩⟩]
  describes := ⟨rfl, rfl, by decide +kernel, by decide +kernel⟩
  readsHeader := ⟨by decide, by decide⟩
  readsIndex := ⟨by decide, by decide⟩
  small := by decide +kernel
  counted := rfl
  declared := by
    intro m member
    obtain rfl := List.mem_singleton.mp member
    exact ⟨⟨"a", "t", ""⟩, List.mem_cons_self, rfl⟩

def secondFile : CorrectFile twoFilesProtobuf where
  bytes := RecordFileWriter.headerArea twoFilesProtobuf RecordFileWriter.oneMessageHeader ++
    [.channel ⟨"b", "t", ""⟩, .chunkHeader ⟨5, 5, 1, 1⟩, .chunkBody ⟨[⟨"b", 5, [1]⟩]⟩,
      .index otherIndex].flatMap (Content.bytes twoFilesProtobuf)
  header := RecordFileWriter.oneMessageHeader
  index := otherIndex
  items := [.channel ⟨"b", "t", ""⟩, .chunk ⟨⟨5, 5, 1, 1⟩, ⟨[⟨"b", 5, [1]⟩]⟩⟩]
  describes := ⟨rfl, rfl, by decide +kernel, by decide +kernel⟩
  readsHeader := ⟨by decide, by decide⟩
  readsIndex := ⟨by decide, by decide⟩
  small := by decide +kernel
  counted := rfl
  declared := by
    intro m member
    obtain rfl := List.mem_singleton.mp member
    exact ⟨⟨"b", "t", ""⟩, List.mem_cons_self, rfl⟩

/-- All channels are played but for the black one. -/
theorem countsRight_twoFiles : ∃ info,
    readRecordInfo twoFilesProtobuf ⟨true, [], ["b"]⟩ [firstFile.bytes, secondFile.bytes] = some info ∧
      createWriters (fun _ _ => true) ⟨true, [], ["b"]⟩ info.msgTypes.entries = some ["a"] ∧
      info.totalMsgNum = 1 ∧ CountsRight ⟨true, [], ["b"]⟩ [firstFile, secondFile] info ["a"] := by
  have gathered : (readRecordInfo twoFilesProtobuf ⟨true, [], ["b"]⟩ [firstFile.bytes, secondFile.bytes]).map
      (fun info => (info.totalMsgNum, info.msgTypes.entries)) = some (1, [⟨"a", "t"⟩]) := by decide +kernel
  obtain ⟨info, read, same⟩ := Option.map_eq_some_iff.mp gathered
  obtain ⟨total, types⟩ := Prod.mk.inj same
  have made : createWriters (fun _ _ => true) ⟨true, [], ["b"]⟩ info.msgTypes.entries = some ["a"] := by
    rw [types]
    decide
  have files : [firstFile.bytes, secondFile.bytes] = [firstFile, secondFile].map CorrectFile.bytes := rfl
  rw [files] at read
  exact ⟨info, read, made, total, (countsRight_iff read made).mpr ⟨.inl rfl, by decide +kernel⟩⟩

/-- The only message is on a black channel, and nothing is to be played. It is taken from a total of zero. -/
theorem not_countsRight : ∃ info,
    readRecordInfo RecordFileWriter.oneMessageProtobuf ⟨false, ["b"], ["a"]⟩ [oneMessageFile.bytes] = some info ∧
      createWriters (fun _ _ => true) ⟨false, ["b"], ["a"]⟩ info.msgTypes.entries = some [] ∧
      info.totalMsgNum = 2 ^ 64 - 1 ∧ ¬CountsRight ⟨false, ["b"], ["a"]⟩ [oneMessageFile] info [] := by
  have gathered : (readRecordInfo RecordFileWriter.oneMessageProtobuf ⟨false, ["b"], ["a"]⟩
      [oneMessageFile.bytes]).map (fun info => (info.totalMsgNum, info.msgTypes.entries)) =
        some (2 ^ 64 - 1, []) := by decide +kernel
  obtain ⟨info, read, same⟩ := Option.map_eq_some_iff.mp gathered
  obtain ⟨total, types⟩ := Prod.mk.inj same
  refine ⟨info, read, by rw [types]; rfl, total, ?_⟩
  rintro ⟨counted, -⟩
  rw [total] at counted
  exact absurd counted (by decide +kernel)

end RecordInfo

end CyberRT.Record
