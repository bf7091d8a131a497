import CyberRT.Message.HeaderContent

namespace CyberRT.Message
open Posix MessageHeader

/-- What a way gives to the reader has the given content. -/
def Delivers (given : Option Reading) (content : List UInt8) : Prop :=
  ∃ r, given = some r ∧ r.content = content

/-- A message for which no size wraps around. -/
def AnyMessage.Small (m : AnyMessage) : Prop :=
  m.content.length < 2 ^ 31

namespace AnyMessage
variable {m : AnyMessage}

theorem Small.byteSize_eq (small : m.Small) : m.byteSize = m.content.length := by
  have size : m.byteSize = int32 m.content.length := by
    cases m <;> rfl
  rw [size, int32_length small]

theorem Small.serializeToArray_eq (small : m.Small) (data : List UInt8) {size : Int}
    (room : m.content.length ≤ size) : m.serializeToArray data size = some (copyInto data m.content) := by
  cases m with
  | raw m =>
    have fits : ¬ size < int32 m.message.length := by
      rw [show int32 m.message.length = m.message.length from small.byteSize_eq]
      exact not_lt.mpr room
    simp only [serializeToArray, RawMessage.serializeToArray, contentToArray, if_neg fits, content]
  | py m =>
    have fits : ¬ size < int32 m.data.length := by
      rw [show int32 m.data.length = m.data.length from small.byteSize_eq]
      exact not_lt.mpr room
    simp only [serializeToArray, PyMessageWrap.serializeToArray, contentToArray, if_neg fits, content]
  | proto m =>
    have below : ¬ m.byteSizeLong ≥ 2 ^ 31 := Nat.not_le.mpr small
    have fits : ¬ size < m.byteSizeLong := not_lt.mpr room
    simp only [serializeToArray, ProtoMessage.serializeToArray, if_neg below, if_neg fits, content]

theorem Small.serializeToString_eq (small : m.Small) : m.serializeToString = some m.content := by
  cases m with
  | raw m => rfl
  | py m => rfl
  | proto m =>
    have below : ¬ m.byteSizeLong ≥ 2 ^ 31 := Nat.not_le.mpr small
    simp only [serializeToString, ProtoMessage.serializeToString, if_neg below, content]

end AnyMessage

namespace Reading
variable {r : Reading}

theorem parseFromArray_delivers (r : Reading) (data : List UInt8) {size : Int} (positive : 0 < size) :
    Delivers (r.parseFromArray data size) (data.take size.toNat) := by
  have accepted : contentFromArray (some data) size = some (data.take size.toNat) := if_neg (not_le.mpr positive)
  cases r with
  | raw m =>
    refine ⟨.raw { m with message := data.take size.toNat }, ?_, rfl⟩
    simp only [parseFromArray, RawMessage.parseFromArray, accepted, Option.map_some]
  | py m =>
    refine ⟨.py { m with data := data.take size.toNat }, ?_, rfl⟩
    simp only [parseFromArray, PyMessageWrap.parseFromArray, accepted, Option.map_some]

/-- An empty buffer is refused. -/
theorem parseFromArray_refuses (r : Reading) (data : List UInt8) {size : Int} (empty : size ≤ 0) :
    r.parseFromArray data size = none := by
  have refused : contentFromArray (some data) size = none := if_pos empty
  cases r with
  | raw m => simp only [parseFromArray, RawMessage.parseFromArray, refused, Option.map_none]
  | py m => simp only [parseFromArray, PyMessageWrap.parseFromArray, refused, Option.map_none]

theorem parseFromString_delivers (r : Reading) (str : List UInt8) : Delivers (r.parseFromString str) str := by
  cases r with
  | raw m => exact ⟨_, rfl, rfl⟩
  | py m => exact ⟨_, rfl, rfl⟩

end Reading

namespace AnyMessage
variable {m : AnyMessage}

/-- The header of the message, as `SerializeToHC` writes it. -/
def header (m : AnyMessage) : MessageHeader :=
  (MessageHeader.create.setMsgType m.messageType).setContentSize m.content.length

/-- A message as the templates see it, of whichever type it is. -/
def traits : MessageType AnyMessage where
  byteSize := byteSize
  messageType := messageType
  setTypeName _ m := m
  serializeToArray := serializeToArray
  parseFromArray _ _ _ := none

theorem Small.writes (small : m.Small) : traits.Writes m m.content where
  size := small.byteSize_eq
  writes data _ room := small.serializeToArray_eq data room

theorem length_header (m : AnyMessage) : m.header.bytes.length = headerSize :=
  traits.length_header m m.content

theorem Small.serializeToHC_eq (small : m.Small) {data : List UInt8}
    (room : data.length = headerSize + m.content.length) :
    m.serializeToHC data data.length = some (m.header.bytes ++ m.content) :=
  small.writes.serializeToHC_eq room

theorem Small.fullByteSize_eq (small : m.Small) (fits : m.content.length + headerSize < 2 ^ 31) :
    m.fullByteSize = ((headerSize + m.content.length : Nat) : Int) :=
  small.writes.fullByteSize_eq fits

/-- Within the process a message is handed over if it and its header fit an `int`, and it is not empty. -/
theorem viaHC_delivers (r : Reading) (nonempty : m.content ≠ []) (fits : m.content.length + headerSize < 2 ^ 31) :
    Delivers (m.viaHC r) m.content := by
  have small : m.Small := by
    unfold Small
    omega
  have positive : 0 < m.content.length := List.length_pos_of_ne_nil nonempty
  have full := small.fullByteSize_eq fits
  have room : (List.replicate (headerSize + m.content.length) (0 : UInt8)).length = headerSize + m.content.length :=
    List.length_replicate
  have written := small.serializeToHC_eq room
  have length : (m.header.bytes ++ m.content).length = headerSize + m.content.length := by
    rw [List.length_append, length_header]
  have bound : m.content.length < 2 ^ 32 := by omega
  have announced : contentSizeOf (m.header.bytes ++ m.content) = m.content.length :=
    (laid_setMsgType _).contentSizeOf_eq bound _
  rw [room] at written
  rw [viaHC, full, if_neg (by omega), Int.toNat_natCast, written, Option.bind_some, Reading.parseFromHC, length,
    int32_length (by omega), announced, if_neg (by omega), if_neg (by omega), int32_length small, ← m.length_header,
    List.drop_left]
  have some : (0 : Int) < m.content.length := by omega
  have read := r.parseFromArray_delivers m.content some
  rwa [Int.toNat_natCast, List.take_length] at read

/-- Through shared memory a message is handed over if it fits an `int`, and it is not empty. -/
theorem viaShm_delivers (r : Reading) {block info : List UInt8} (nonempty : m.content ≠ []) (small : m.Small)
    (room : m.content.length + messageInfoKSize ≤ block.length) : Delivers (m.viaShm r block info) m.content := by
  have positive : 0 < m.content.length := List.length_pos_of_ne_nil nonempty
  have bound : m.content.length < 2 ^ 31 := small
  have msgSize : (m.byteSize % 2 ^ 64).toNat = m.content.length := by
    rw [small.byteSize_eq]
    omega
  have written : memcpyTo (m.content ++ block.drop m.content.length) m.content.length info =
      m.content ++ (info ++ (block.drop m.content.length).drop info.length) := by
    rw [memcpyTo_append rfl, List.append_assoc]
  simp only [viaShm, msgSize]
  rw [if_neg (by omega), int32_length bound, small.serializeToArray_eq block le_rfl, Option.bind_some,
    copyInto_eq (by omega), written]
  have some : (0 : Int) < m.content.length := by omega
  have read := r.parseFromArray_delivers (m.content ++ (info ++ (block.drop m.content.length).drop info.length)) some
  rwa [Int.toNat_natCast, List.take_left] at read

/-- Over RTPS a protobuf message is handed over if it fits an `int`. -/
theorem viaRtps_delivers (r : Reading) (small : m.Small) : Delivers (m.viaRtps r) m.content := by
  rw [viaRtps, small.serializeToString_eq, Option.bind_some]
  exact r.parseFromString_delivers m.content

/-- The other messages go over RTPS whatever their size. -/
theorem viaRtps_delivers_any (r : Reading) (other : ∀ p, m ≠ proto p) : Delivers (m.viaRtps r) m.content := by
  cases m with
  | raw m => exact r.parseFromString_delivers m.message
  | py m => exact r.parseFromString_delivers m.data
  | proto m => exact absurd rfl (other m)

/-- Within the process an empty message is refused by the reader. -/
theorem viaHC_refuses (r : Reading) (empty : m.content = []) : m.viaHC r = none := by
  have none : m.content.length = 0 := List.length_eq_zero_iff.mpr empty
  have small : m.Small := by
    unfold Small
    omega
  have full := small.fullByteSize_eq (by rw [none]; decide)
  have room : (List.replicate headerSize (0 : UInt8)).length = headerSize + m.content.length := by
    rw [List.length_replicate, none, Nat.add_zero]
  have written := small.serializeToHC_eq room
  have announced : contentSizeOf (m.header.bytes ++ m.content) = m.content.length :=
    (laid_setMsgType _).contentSizeOf_eq (by omega) _
  rw [room, none, Nat.add_zero] at written
  rw [none, Nat.add_zero] at full
  rw [viaHC, full, if_neg (by omega), Int.toNat_natCast, written, Option.bind_some, Reading.parseFromHC, announced,
    none]
  split
  · rfl
  · split
    · rfl
    · exact r.parseFromArray_refuses _ (by decide)

/-- Through shared memory an empty message is refused by the reader. -/
theorem viaShm_refuses (r : Reading) (block info : List UInt8) (empty : m.content = []) :
    m.viaShm r block info = none := by
  have none : m.content.length = 0 := List.length_eq_zero_iff.mpr empty
  have small : m.Small := by
    unfold Small
    omega
  have msgSize : (m.byteSize % 2 ^ 64).toNat = 0 := by
    rw [small.byteSize_eq, none]
    rfl
  simp only [viaShm, msgSize]
  split
  · rfl
  · rw [small.serializeToArray_eq block (by rw [none]; decide), Option.bind_some]
    exact r.parseFromArray_refuses _ (by decide)

/-- A message that is not empty reaches the reader with its content on each of the three ways that has room for it; an
empty one reaches it over RTPS only. -/
theorem ways_agree (m : AnyMessage) (r : Reading) :
    (m.content ≠ [] → m.content.length + headerSize < 2 ^ 31 → Delivers (m.viaHC r) m.content) ∧
    (m.content ≠ [] → m.Small → ∀ block info, m.content.length + messageInfoKSize ≤ block.length →
      Delivers (m.viaShm r block info) m.content) ∧
    (m.Small → Delivers (m.viaRtps r) m.content) ∧
    ((∀ p, m ≠ proto p) → Delivers (m.viaRtps r) m.content) ∧
    (m.content = [] → m.viaHC r = none ∧ ∀ block info, m.viaShm r block info = none) :=
  ⟨fun nonempty fits => viaHC_delivers r nonempty fits,
    fun nonempty small _ _ room => viaShm_delivers r nonempty small room,
    fun small => viaRtps_delivers r small,
    fun other => viaRtps_delivers_any r other,
    fun empty => ⟨viaHC_refuses r empty, fun block info => viaShm_refuses r block info empty⟩⟩

/-- A message of one byte to a Python reader. -/
theorem ways_agree_byte :
    let m := raw ⟨[7], 0⟩
    let r := Reading.py ⟨[], []⟩
    Delivers (m.viaHC r) [7] ∧ Delivers (m.viaShm r (List.replicate 32 0) []) [7] ∧ Delivers (m.viaRtps r) [7] := by
  intro m r
  have agree := ways_agree m r
  have nonempty : m.content ≠ [] := by decide
  have length : m.content.length = 1 := rfl
  have small : m.Small := by
    unfold Small
    omega
  have room : m.content.length + messageInfoKSize ≤ (List.replicate 32 (0 : UInt8)).length := by decide
  refine ⟨agree.1 nonempty (by rw [length]; decide), agree.2.1 nonempty small _ _ room, agree.2.2.1 small⟩

/-- An empty raw message goes over RTPS, and neither through shared memory nor within the process. -/
theorem empty_differs :
    let m := raw ⟨[], 0⟩
    let r := Reading.raw ⟨[], 0⟩
    ¬ Delivers (m.viaHC r) m.content ∧ ¬ Delivers (m.viaShm r (List.replicate 32 0) []) m.content ∧
      Delivers (m.viaRtps r) m.content := by
  intro m r
  have within : m.viaHC r = none := viaHC_refuses r rfl
  have shared : m.viaShm r (List.replicate 32 0) [] = none := viaShm_refuses r _ _ rfl
  rw [within, shared]
  exact ⟨fun ⟨_, given, _⟩ => Option.some_ne_none _ given.symm, fun ⟨_, given, _⟩ => Option.some_ne_none _ given.symm,
    viaRtps_delivers_any r fun _ => by simp [m]⟩

end AnyMessage

end CyberRT.Message
