import CyberRT.Lib.Fd
import CyberRT.Transport.SegmentCapacity
import Mathlib.Data.Nat.Bitwise

namespace CyberRT
open Posix

/-- `std::memcpy` out of a buffer: `n` bytes from `offset` on. -/
def memcpyFrom (src : List UInt8) (offset n : Nat) : Vector UInt8 n :=
  Vector.ofFn fun i => src.getD (offset + i) 0

/-- `std::memcpy` into a buffer, at `offset`. -/
def memcpyTo (dst : List UInt8) (offset : Nat) (data : List UInt8) : List UInt8 :=
  dst.take offset ++ data ++ dst.drop (offset + data.length)

theorem memcpyFrom_append {n offset : Nat} {before : List UInt8} (atOffset : before.length = offset)
    (data : Vector UInt8 n) (after : List UInt8) : memcpyFrom (before ++ data.toList ++ after) offset n = data := by
  subst atOffset
  ext i bound
  have copied : (before ++ data.toList ++ after)[before.length + i]? = some data[i] := by
    rw [List.append_assoc, List.getElem?_append_right (Nat.le_add_right ..), Nat.add_sub_cancel_left,
      List.getElem?_append_left (by simpa using bound)]
    simp [bound]
  simp only [memcpyFrom, Vector.getElem_ofFn, List.getD_eq_getElem?_getD, copied, Option.getD_some]

/-- Filling a buffer piece by piece. -/
theorem memcpyTo_append {offset : Nat} {before : List UInt8} (atOffset : before.length = offset)
    (old data : List UInt8) : memcpyTo (before ++ old) offset data = before ++ data ++ old.drop data.length := by
  subst atOffset
  simp [memcpyTo, List.drop_append]

/-- An id: its bytes, and their hash value once they were set. -/
structure Identity where
  data : Vector UInt8 idSize
  hashValue : UInt64
  deriving DecidableEq

namespace Identity
variable (hash : List UInt8 → UInt64)

/-- `Identity(false)` -/
def blank : Identity :=
  ⟨Vector.replicate idSize 0, 0⟩

/-- An id after `set_data`, which ends with `Update`. -/
def setData (data : Vector UInt8 idSize) : Identity :=
  ⟨data, hash data.toList⟩

/-- `operator==` compares the bytes. -/
def eq (lhs rhs : Identity) : Bool :=
  lhs.data == rhs.data

/-- The hash value is that of the bytes, as `Update` leaves it. -/
def Updated (id : Identity) : Prop :=
  id.hashValue = hash id.data.toList

@[simp] theorem length_data (id : Identity) : id.data.toList.length = idSize :=
  Vector.length_toList

theorem setData_eq (id : Identity) : (setData hash id.data).eq id = true := by
  simp [setData, eq]

theorem Updated.setData_eq {hash : List UInt8 → UInt64} {id : Identity} (updated : id.Updated hash) :
    setData hash id.data = id := by
  rw [setData, ← updated]

end Identity

structure MessageInfo where
  senderId : Identity
  channelId : UInt64
  seqNum : UInt64
  spareId : Identity
  deriving DecidableEq

namespace MessageInfo

/-- The bytes of `seq_num_` in the memory of the host. -/
def seqBytes (seqNum : UInt64) : List UInt8 :=
  littleEndian 8 seqNum.toNat

def ofSeqBytes (bytes : Vector UInt8 8) : UInt64 :=
  UInt64.ofNat (ofLittleEndian bytes.toList)

/-- `SerializeTo(std::string*)`: what the string holds then, unless it is null. -/
def serializeToString (info : MessageInfo) (dst : Option (List UInt8)) : Option (List UInt8) :=
  match dst with
  | none => none
  | some _ => some ((info.senderId.data.toList ++ seqBytes info.seqNum) ++ info.spareId.data.toList)

/-- `SerializeTo(char*, std::size_t)`: what the buffer holds then, unless it is refused. -/
def serializeTo (info : MessageInfo) (dst : Option (List UInt8)) (len : Nat) : Option (List UInt8) :=
  match dst with
  | none => none
  | some dst =>
    if len < messageInfoKSize then none
    else
      let dst := memcpyTo dst 0 info.senderId.data.toList
      let dst := memcpyTo dst idSize (seqBytes info.seqNum)
      some (memcpyTo dst (idSize + 8) info.spareId.data.toList)

section
variable (hash : List UInt8 → UInt64)

/-- `DeserializeFrom(const char*, std::size_t)` -/
def deserializeFrom (info : MessageInfo) (src : Option (List UInt8)) (len : Nat) : Bool × MessageInfo :=
  match src with
  | none => (false, info)
  | some src =>
    if len ≠ messageInfoKSize then (false, info)
    else
      (true, { info with
        senderId := Identity.setData hash (memcpyFrom src 0 idSize)
        seqNum := ofSeqBytes (memcpyFrom src idSize 8)
        spareId := Identity.setData hash (memcpyFrom src (idSize + 8) idSize) })

/-- `DeserializeFrom(const std::string&)` -/
def deserializeFromString (info : MessageInfo) (src : List UInt8) : Bool × MessageInfo :=
  info.deserializeFrom hash (some src) src.length

end

/-- The ids compare equal and the sequence numbers are the same; an id whose hash value is up to date is restored with
it. -/
structure Restored (hash : List UInt8 → UInt64) (info result : MessageInfo) : Prop where
  senderId : result.senderId.eq info.senderId = true
  spareId : result.spareId.eq info.spareId = true
  seqNum : result.seqNum = info.seqNum
  sender_updated : info.senderId.Updated hash → result.senderId = info.senderId
  spare_updated : info.spareId.Updated hash → result.spareId = info.spareId

theorem seqBytes_length (seqNum : UInt64) : (seqBytes seqNum).length = 8 :=
  littleEndian_length 8 _

theorem ofSeqBytes_seqBytes (seqNum : UInt64) {bytes : Vector UInt8 8} (same : bytes.toList = seqBytes seqNum) :
    ofSeqBytes bytes = seqNum := by
  have bound : seqNum.toNat < 256 ^ 8 := seqNum.toNat_lt
  rw [ofSeqBytes, same, seqBytes, ofLittleEndian_littleEndian, Nat.mod_eq_of_lt bound, UInt64.ofNat_toNat]

theorem serializeToString_length (info : MessageInfo) {dst : List UInt8} {bytes : List UInt8}
    (written : info.serializeToString (some dst) = some bytes) : bytes.length = messageInfoKSize := by
  cases Option.some.inj written
  simp only [List.length_append, Identity.length_data, seqBytes_length]
  rfl

/-- Both overloads write the same bytes; what is behind them in the buffer stays. -/
theorem serializeTo_eq (info : MessageInfo) (dst buf : List UInt8) {len : Nat} (room : messageInfoKSize ≤ len) :
    info.serializeTo (some buf) len =
      (info.serializeToString (some dst)).map fun bytes => bytes ++ buf.drop messageInfoKSize := by
  have both : (info.senderId.data.toList ++ seqBytes info.seqNum).length = idSize + 8 := by
    rw [List.length_append, Identity.length_data, seqBytes_length]
  have filled : memcpyTo buf 0 info.senderId.data.toList =
      info.senderId.data.toList ++ buf.drop info.senderId.data.toList.length :=
    memcpyTo_append List.length_nil buf _
  simp only [serializeTo, serializeToString, if_neg (Nat.not_lt.mpr room), Option.map_some, Option.some.injEq]
  rw [filled, memcpyTo_append info.senderId.length_data, memcpyTo_append both, List.drop_drop, List.drop_drop,
    seqBytes_length, Identity.length_data, Identity.length_data]
  rfl

/-- What is behind the bytes of the info does not matter to the reader of a pointer. -/
theorem deserializeFrom_restored (hash : List UInt8 → UInt64) (info other : MessageInfo) {dst bytes : List UInt8}
    (written : info.serializeToString (some dst) = some bytes) (more : List UInt8) :
    (other.deserializeFrom hash (some (bytes ++ more)) messageInfoKSize).1 = true ∧
      Restored hash info (other.deserializeFrom hash (some (bytes ++ more)) messageInfoKSize).2 := by
  cases Option.some.inj written
  have both : (info.senderId.data.toList ++ seqBytes info.seqNum).length = idSize + 8 := by
    rw [List.length_append, Identity.length_data, seqBytes_length]
  have sender : memcpyFrom (info.senderId.data.toList ++ seqBytes info.seqNum ++ info.spareId.data.toList ++ more) 0
      idSize = info.senderId.data := by
    rw [List.append_assoc, List.append_assoc]
    exact memcpyFrom_append List.length_nil info.senderId.data _
  have seq : memcpyFrom (info.senderId.data.toList ++ seqBytes info.seqNum ++ info.spareId.data.toList ++ more) idSize
      8 = ⟨⟨seqBytes info.seqNum⟩, seqBytes_length _⟩ := by
    rw [List.append_assoc]
    exact memcpyFrom_append info.senderId.length_data ⟨⟨seqBytes info.seqNum⟩, seqBytes_length _⟩ _
  have spare : memcpyFrom (info.senderId.data.toList ++ seqBytes info.seqNum ++ info.spareId.data.toList ++ more)
      (idSize + 8) idSize = info.spareId.data :=
    memcpyFrom_append both info.spareId.data more
  simp only [deserializeFrom, ne_eq, not_true, if_false, sender, seq, spare, true_and]
  exact ⟨Identity.setData_eq hash _, Identity.setData_eq hash _, ofSeqBytes_seqBytes _ rfl,
    fun updated => updated.setData_eq, fun updated => updated.setData_eq⟩

theorem deserializeFromString_restored (hash : List UInt8 → UInt64) (info other : MessageInfo) {dst bytes : List UInt8}
    (written : info.serializeToString (some dst) = some bytes) :
    (other.deserializeFromString hash bytes).1 = true ∧
      Restored hash info (other.deserializeFromString hash bytes).2 := by
  have whole := deserializeFrom_restored hash info other written []
  rwa [List.append_nil, ← serializeToString_length info written] at whole

/-- A buffer of another length is refused. -/
theorem deserializeFrom_refused (hash : List UInt8 → UInt64) (info : MessageInfo) (src : Option (List UInt8)) {len : Nat}
    (other : len ≠ messageInfoKSize) : info.deserializeFrom hash src len = (false, info) := by
  cases src with
  | none => rfl
  | some src => simp [deserializeFrom, other]

end MessageInfo

/-- A `SequenceNumber_t` of fastrtps. -/
structure SequenceNumber where
  high : Int32
  low : UInt32
  deriving DecidableEq

/-- A `SampleIdentity` of fastrtps: the bytes of the writer's GUID, and a sequence number. -/
structure SampleIdentity where
  writerGuid : Vector UInt8 16
  sequenceNumber : SequenceNumber
  deriving DecidableEq

/-- What `RtpsTransmitter::Transmit` makes of the related sample identity of `wparams`. -/
def RtpsTransmitter.relatedSampleIdentity (wparams : SampleIdentity) (msgInfo : MessageInfo) : SampleIdentity :=
  let ptr := memcpyTo wparams.writerGuid.toList 0 msgInfo.senderId.data.toList
  let ptr := memcpyTo ptr idSize msgInfo.spareId.data.toList
  { writerGuid := memcpyFrom ptr 0 16
    sequenceNumber :=
      { high := ((msgInfo.seqNum &&& 0xFFFFFFFF00000000) >>> 32).toUInt32.toInt32
        low := (msgInfo.seqNum &&& 0xFFFFFFFF).toUInt32.toInt32.toUInt32 } }

/-- `seq_num` of `SubListener::onNewDataMessage`: the low part is extended with zeros. -/
def SubListener.seqNum (sequenceNumber : SequenceNumber) : UInt64 :=
  ((sequenceNumber.high.toInt64 <<< 32) ||| sequenceNumber.low.toUInt64.toInt64).toUInt64

/-- `msg_info_` after `SubListener::onNewDataMessage` has read the related sample identity. -/
def SubListener.fetch (hash : List UInt8 → UInt64) (msgInfo : MessageInfo) (relatedSampleIdentity : SampleIdentity) :
    MessageInfo :=
  let ptr := relatedSampleIdentity.writerGuid.toList
  { msgInfo with
    senderId := Identity.setData hash (memcpyFrom ptr 0 idSize)
    spareId := Identity.setData hash (memcpyFrom ptr idSize idSize)
    seqNum := SubListener.seqNum relatedSampleIdentity.sequenceNumber }

theorem getLsbD_lowMask : ∀ i : Fin 64, (0xFFFFFFFF#64).getLsbD i = decide (i.val < 32) := by decide

theorem getLsbD_highMask : ∀ i : Fin 64, (0xFFFFFFFF00000000#64).getLsbD i = decide (32 ≤ i.val) := by decide

namespace RtpsTransmitter

theorem high_bits (wparams : SampleIdentity) (msgInfo : MessageInfo) :
    (relatedSampleIdentity wparams msgInfo).sequenceNumber.high.toBitVec =
      msgInfo.seqNum.toBitVec.extractLsb' 32 32 := by
  have masked : (relatedSampleIdentity wparams msgInfo).sequenceNumber.high.toBitVec =
      ((msgInfo.seqNum.toBitVec &&& 0xFFFFFFFF00000000#64) >>> 32).setWidth 32 := by
    simp [relatedSampleIdentity]
  rw [masked]
  ext i bound
  have mask := getLsbD_highMask ⟨32 + i, by omega⟩
  simp only at mask
  simp [mask]

theorem low_bits (wparams : SampleIdentity) (msgInfo : MessageInfo) :
    (relatedSampleIdentity wparams msgInfo).sequenceNumber.low.toBitVec = msgInfo.seqNum.toBitVec.setWidth 32 := by
  have masked : (relatedSampleIdentity wparams msgInfo).sequenceNumber.low.toBitVec =
      (msgInfo.seqNum.toBitVec &&& 0xFFFFFFFF#64).setWidth 32 := by
    simp [relatedSampleIdentity]
  rw [masked]
  ext i bound
  have mask := getLsbD_lowMask ⟨i, by omega⟩
  simp only at mask
  rw [BitVec.getElem_setWidth, BitVec.getElem_setWidth, BitVec.getLsbD_and, mask]
  simp [bound]

/-- The sign of the high part is shifted out. -/
theorem seqNum_restored (wparams : SampleIdentity) (msgInfo : MessageInfo) :
    SubListener.seqNum (relatedSampleIdentity wparams msgInfo).sequenceNumber = msgInfo.seqNum := by
  apply UInt64.eq_of_toBitVec_eq
  have joined : ∀ s : SequenceNumber, (SubListener.seqNum s).toBitVec =
      (s.high.toBitVec.signExtend 64) <<< 32 ||| s.low.toBitVec.setWidth 64 := by
    intro s
    simp [SubListener.seqNum]
  rw [joined, high_bits, low_bits]
  ext i bound
  simp only [BitVec.getElem_or, BitVec.getElem_shiftLeft, BitVec.getElem_signExtend, BitVec.getElem_setWidth,
    BitVec.getLsbD_setWidth]
  by_cases small : i < 32
  · simp [small, BitVec.getLsbD_eq_getElem bound]
  · have inside : i - 32 < 32 := by omega
    simp [small, inside, show 32 + (i - 32) = i by omega, BitVec.getLsbD_eq_getElem bound]

theorem guid_eq (wparams : SampleIdentity) (msgInfo : MessageInfo) :
    (relatedSampleIdentity wparams msgInfo).writerGuid.toList =
      msgInfo.senderId.data.toList ++ msgInfo.spareId.data.toList := by
  have filled : memcpyTo wparams.writerGuid.toList 0 msgInfo.senderId.data.toList =
      msgInfo.senderId.data.toList ++ wparams.writerGuid.toList.drop msgInfo.senderId.data.toList.length :=
    memcpyTo_append List.length_nil _ _
  have none : (wparams.writerGuid.toList.drop (idSize + idSize)) = [] :=
    List.drop_eq_nil_of_le wparams.writerGuid.length_toList.le
  simp only [relatedSampleIdentity]
  rw [filled, memcpyTo_append msgInfo.senderId.length_data, List.drop_drop, Identity.length_data,
    Identity.length_data, none, List.append_nil]
  have length : (msgInfo.senderId.data.toList ++ msgInfo.spareId.data.toList).length = 16 := by
    rw [List.length_append, Identity.length_data, Identity.length_data]
    rfl
  have whole := memcpyFrom_append List.length_nil
    ⟨⟨msgInfo.senderId.data.toList ++ msgInfo.spareId.data.toList⟩, length⟩ []
  rw [List.append_nil, List.nil_append] at whole
  exact congrArg Vector.toList whole

theorem fetch_restored (hash : List UInt8 → UInt64) (wparams : SampleIdentity) (info other : MessageInfo) :
    MessageInfo.Restored hash info (SubListener.fetch hash other (relatedSampleIdentity wparams info)) := by
  have sender : memcpyFrom (info.senderId.data.toList ++ info.spareId.data.toList) 0 idSize = info.senderId.data :=
    memcpyFrom_append List.length_nil info.senderId.data _
  have spare : memcpyFrom (info.senderId.data.toList ++ info.spareId.data.toList) idSize idSize = info.spareId.data := by
    have whole := memcpyFrom_append info.senderId.length_data info.spareId.data []
    rwa [List.append_nil] at whole
  simp only [SubListener.fetch, guid_eq, sender, spare]
  exact ⟨Identity.setData_eq hash _, Identity.setData_eq hash _, seqNum_restored wparams info,
    fun updated => updated.setData_eq, fun updated => updated.setData_eq⟩

end RtpsTransmitter

namespace MessageInfo

/-- Any info survives both encodings, and nothing of another length is taken for one. -/
theorem info_survives (hash : List UInt8 → UInt64) (info other : MessageInfo) :
    (∃ bytes : List UInt8,
      (∀ dst, info.serializeToString (some dst) = some bytes) ∧
      (∀ buf len, messageInfoKSize ≤ len →
        info.serializeTo (some buf) len = some (bytes ++ buf.drop messageInfoKSize)) ∧
      (other.deserializeFromString hash bytes).1 = true ∧
      Restored hash info (other.deserializeFromString hash bytes).2 ∧
      ∀ more, (other.deserializeFrom hash (some (bytes ++ more)) messageInfoKSize).1 = true ∧
        Restored hash info (other.deserializeFrom hash (some (bytes ++ more)) messageInfoKSize).2) ∧
    (∀ wparams, Restored hash info
      (SubListener.fetch hash other (RtpsTransmitter.relatedSampleIdentity wparams info))) ∧
    (∀ src len, len ≠ messageInfoKSize → other.deserializeFrom hash src len = (false, other)) ∧
    ∀ src, src.length ≠ messageInfoKSize → other.deserializeFromString hash src = (false, other) := by
  refine ⟨?_, fun wparams => RtpsTransmitter.fetch_restored hash wparams info other,
    fun src len different => deserializeFrom_refused hash other src different,
    fun src different => deserializeFrom_refused hash other (some src) different⟩
  obtain ⟨bytes, written⟩ : ∃ bytes, info.serializeToString (some []) = some bytes := ⟨_, rfl⟩
  obtain ⟨accepted, restored⟩ := deserializeFromString_restored hash info other written
  refine ⟨bytes, fun dst => written, fun buf len room => ?_, accepted, restored,
    fun more => deserializeFrom_restored hash info other written more⟩
  rw [serializeTo_eq info [] buf room, written, Option.map_some]

/-- A sequence number whose high half is no positive `int32_t`. -/
theorem info_survives_high :
    let info : MessageInfo := ⟨⟨Vector.replicate idSize 1, 7⟩, 0, 0xFFFFFFFF00000001, ⟨Vector.replicate idSize 2, 9⟩⟩
    let wparams : SampleIdentity := ⟨Vector.replicate 16 0, ⟨0, 0⟩⟩
    (RtpsTransmitter.relatedSampleIdentity wparams info).sequenceNumber = ⟨-1, 1⟩ ∧
      (SubListener.fetch (fun _ => 0) info (RtpsTransmitter.relatedSampleIdentity wparams info)).seqNum =
        0xFFFFFFFF00000001 ∧
      info.deserializeFrom (fun _ => 0) none 2 = (false, info) := by
  intro info wparams
  have survives := info_survives (fun _ => 0) info info
  exact ⟨by decide, (survives.2.1 wparams).seqNum, survives.2.2.1 none 2 (by decide)⟩

end MessageInfo

end CyberRT
