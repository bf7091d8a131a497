import CyberRT.Message.MessageTraits
import Mathlib.Data.List.TakeWhile

namespace CyberRT.Message
open Posix MessageHeader

theorem copyInto_eq {buf content : List UInt8} (room : content.length ≤ buf.length) :
    copyInto buf content = content ++ buf.drop content.length := by
  have whole : (content ++ buf.drop content.length).length = buf.length := by
    rw [List.length_append, List.length_drop]
    omega
  simp only [copyInto, memcpyTo, List.take_zero, List.nil_append, Nat.zero_add]
  rw [← whole, List.take_length]

theorem int32_length {n : Nat} (small : n < 2 ^ 31) : int32 n = n :=
  int32_eq (by omega) (by omega)

theorem takeWhile_append_stop {α : Type} {p : α → Bool} {x : α} (stop : p x = false) (before after : List α) :
    (before ++ x :: after).takeWhile p = before.takeWhile p := by
  induction before with
  | nil => rw [List.nil_append, List.takeWhile_cons, stop, List.takeWhile_nil, if_neg Bool.false_ne_true]
  | cons y before ih => rw [List.cons_append, List.takeWhile_cons, List.takeWhile_cons, ih]

namespace MessageHeader

/-- The fields have the lengths of the arrays. -/
structure Laid (h : MessageHeader) : Prop where
  front : (h.magicNum ++ h.seq ++ h.timestampNs ++ h.srcId ++ h.dstId ++ h.msgType ++ h.res).length = headerSize - 4
  contentSize : h.contentSize.length = 4

theorem laid_setMsgType (msgType : List UInt8) : (create.setMsgType msgType).Laid := by
  have cut : (if msgType.length ≥ 129 then 128 else msgType.length) ≤ 128 := by
    split <;> omega
  have magic : (ascii "BDACBDAC").length = 8 := rfl
  unfold setMsgType
  split
  · refine ⟨?_, by simp [create]⟩
    simp only [List.length_append, List.length_replicate, magic, headerSize, create]
  · refine ⟨?_, by simp [create]⟩
    simp only [memcpyTo, List.take_zero, List.nil_append, Nat.zero_add, List.length_append, List.length_take,
      List.length_drop, List.length_replicate, magic, headerSize, create]
    omega

theorem Laid.setContentSize {h : MessageHeader} (laid : h.Laid) (contentSize : Nat) :
    (h.setContentSize contentSize).Laid where
  front := laid.front
  contentSize := by simp [MessageHeader.setContentSize]

theorem Laid.length_bytes {h : MessageHeader} (laid : h.Laid) : h.bytes.length = headerSize := by
  rw [bytes, List.length_append, laid.front, laid.contentSize]
  rfl

/-- The size that was set is the one that is read. -/
theorem Laid.contentSizeOf_eq {h : MessageHeader} (laid : h.Laid) {contentSize : Nat} (bound : contentSize < 2 ^ 32)
    (rest : List UInt8) : contentSizeOf ((h.setContentSize contentSize).bytes ++ rest) = contentSize := by
  have length : (littleEndian 4 contentSize).reverse.length = 4 := by simp
  have read : memcpyFrom ((h.setContentSize contentSize).bytes ++ rest) (headerSize - 4) 4 =
      ⟨⟨(littleEndian 4 contentSize).reverse⟩, length⟩ :=
    memcpyFrom_append laid.front ⟨⟨(littleEndian 4 contentSize).reverse⟩, length⟩ rest
  have whole : contentSize < 256 ^ 4 := bound
  rw [contentSizeOf, read, Vector.toList_mk, List.reverse_reverse, ofLittleEndian_littleEndian,
    Nat.mod_eq_of_lt whole]

end MessageHeader

/-- What the templates take of a message type. `setTypeName` does nothing for a type that has none. -/
structure MessageType (T : Type) where
  byteSize : T → Int
  messageType : T → List UInt8
  setTypeName : List UInt8 → T → T
  serializeToArray : T → List UInt8 → Int → Option (List UInt8)
  parseFromArray : T → List UInt8 → Int → Option T

/-- An access to the bytes of a buffer, by the first index and the number of the bytes. -/
structure Access where
  first : Nat
  count : Nat
  deriving DecidableEq

/-- Where `msg_type_` is in a header. -/
def msgTypeOffset : Nat := 40

/-- The characters of a string that ends with a zero. -/
def cString (data : List UInt8) (offset : Nat) : List UInt8 :=
  (data.drop offset).takeWhile (· ≠ 0)

namespace MessageType
variable {T : Type}

def fullByteSize (t : MessageType T) (m : T) : Int :=
  if t.byteSize m < 0 then t.byteSize m else int32 (t.byteSize m + headerSize)

def serializeToHC (t : MessageType T) (m : T) (data : List UInt8) (size : Int) : Option (List UInt8) :=
  if t.byteSize m < 0 then none
  else
    let header := (MessageHeader.create.setMsgType (t.messageType m)).setContentSize (t.byteSize m).toNat
    let data := copyInto data header.bytes
    let leftSize := size - headerSize
    (t.serializeToArray m (data.drop headerSize) leftSize).map fun rest => data.take headerSize ++ rest

/-- `ParseFromHC` into `m`, with what it reads: the size in the header, the type name up to the zero that ends it, and
the range that it hands to `ParseFromArray`, if it comes to that. The bytes of `data` after the first `size` are not of
the array. -/
def parseFromHC (t : MessageType T) (m : T) (data : List UInt8) (size : Int) : List Access × Option Access × Option T :=
  if size < headerSize then ([], none, none)
  else
    let contentSize := contentSizeOf data
    if size - headerSize < contentSize then ([⟨headerSize - 4, 4⟩], none, none)
    else
      let typeName := cString data msgTypeOffset
      ([⟨headerSize - 4, 4⟩, ⟨msgTypeOffset, typeName.length + 1⟩], some ⟨headerSize, contentSize⟩,
        t.parseFromArray (t.setTypeName typeName m) (data.drop headerSize) (int32 contentSize))

/-- The message serializes to the given bytes. -/
structure Writes (t : MessageType T) (m : T) (content : List UInt8) : Prop where
  size : t.byteSize m = content.length
  writes : ∀ (data : List UInt8) (size : Int), content.length ≤ size →
    t.serializeToArray m data size = some (copyInto data content)

/-- The header of the message, as `SerializeToHC` writes it. -/
def header (t : MessageType T) (m : T) (content : List UInt8) : MessageHeader :=
  (MessageHeader.create.setMsgType (t.messageType m)).setContentSize content.length

/-- What a header keeps of a type name. -/
def carried (typeName : List UInt8) : List UInt8 :=
  (typeName.take 128).takeWhile (· ≠ 0)

theorem carried_eq {typeName : List UInt8} (plain : 0 ∉ typeName) : carried typeName = typeName.take 128 := by
  refine List.takeWhile_eq_self_iff.mpr fun c member => ?_
  have other : c ≠ 0 := fun zero => plain (zero ▸ List.mem_of_mem_take member)
  exact decide_eq_true other

theorem setMsgType_msgType (typeName : List UInt8) :
    ∃ zeros, (MessageHeader.create.setMsgType typeName).msgType = typeName.take 128 ++ 0 :: zeros := by
  unfold setMsgType
  split
  · rename_i none
    rw [List.length_eq_zero_iff.mp none]
    exact ⟨List.replicate 128 0, rfl⟩
  · have cut : typeName.take (if typeName.length ≥ 129 then 128 else typeName.length) = typeName.take 128 := by
      split
      · rfl
      · rw [List.take_length, List.take_of_length_le (by omega)]
    have short : (typeName.take 128).length ≤ 128 := List.length_take_le _ _
    refine ⟨List.replicate (128 - (typeName.take 128).length) 0, ?_⟩
    simp only [memcpyTo, cut, List.take_zero, List.nil_append, Nat.zero_add, List.drop_replicate]
    rw [← List.replicate_succ, show 129 - (typeName.take 128).length = 128 - (typeName.take 128).length + 1 by omega]

theorem length_header (t : MessageType T) (m : T) (content : List UInt8) :
    (t.header m content).bytes.length = headerSize :=
  ((laid_setMsgType _).setContentSize _).length_bytes

theorem cString_header (t : MessageType T) (m : T) (content rest : List UInt8) :
    cString ((t.header m content).bytes ++ rest) msgTypeOffset = carried (t.messageType m) := by
  obtain ⟨zeros, field⟩ := setMsgType_msgType (t.messageType m)
  generalize named : create.setMsgType (t.messageType m) = h at field
  have front : h.magicNum ++ h.seq ++ h.timestampNs ++ h.srcId ++ h.dstId =
      ascii "BDACBDAC" ++ List.replicate 32 0 := by
    rw [← named, setMsgType]
    split <;> rfl
  have length : (ascii "BDACBDAC" ++ List.replicate 32 (0 : UInt8)).length = msgTypeOffset := rfl
  have split : (t.header m content).bytes ++ rest =
      (h.magicNum ++ h.seq ++ h.timestampNs ++ h.srcId ++ h.dstId) ++
        ((t.messageType m).take 128 ++ 0 :: (zeros ++ (h.res ++ ((h.setContentSize content.length).contentSize ++
          rest)))) := by
    rw [header, named]
    simp only [MessageHeader.bytes, setContentSize, field, List.append_assoc, List.cons_append]
  rw [cString, split, front, ← length, List.drop_left]
  exact takeWhile_append_stop (by decide) _ _

theorem Writes.fullByteSize_eq {t : MessageType T} {m : T} {content : List UInt8} (writes : t.Writes m content)
    (fits : content.length + headerSize < 2 ^ 31) : t.fullByteSize m = ((headerSize + content.length : Nat) : Int) := by
  have sum : (content.length : Int) + (headerSize : Int) = ((headerSize + content.length : Nat) : Int) := by
    omega
  have size := writes.size
  rw [fullByteSize, if_neg (by omega), size, sum, int32_length (by omega)]

theorem Writes.serializeToHC_eq {t : MessageType T} {m : T} {content : List UInt8} (writes : t.Writes m content)
    {data : List UInt8} (room : data.length = headerSize + content.length) :
    t.serializeToHC m data data.length = some ((t.header m content).bytes ++ content) := by
  have size := writes.size
  have nonneg : ¬ t.byteSize m < 0 := by omega
  have headed : copyInto data (t.header m content).bytes = (t.header m content).bytes ++ data.drop headerSize := by
    rw [copyInto_eq (by rw [length_header]; omega), length_header]
  have left : (content.length : Int) ≤ data.length - headerSize := by omega
  have rest : (data.drop headerSize).length = content.length := by
    rw [List.length_drop]
    omega
  have same : (MessageHeader.create.setMsgType (t.messageType m)).setContentSize (t.byteSize m).toNat =
      t.header m content := by
    rw [size, Int.toNat_natCast, header]
  simp only [serializeToHC, if_neg nonneg]
  rw [same, headed, ← t.length_header m content, List.drop_left, List.take_left, t.length_header m content,
    writes.writes _ _ left, copyInto_eq rest.ge, Option.map_some, ← rest, List.drop_length, List.append_nil]

/-- Every buffer of the full size takes the message, and `ParseFromHC` makes `parsed` of it. The type name is in the
header, cut to 128 characters. -/
def RoundTrips (t : MessageType T) (m into parsed : T) : Prop :=
  ∀ data : List UInt8, (data.length : Int) = t.fullByteSize m →
    ∃ buf, t.serializeToHC m data data.length = some buf ∧ buf.length = data.length ∧
      (t.parseFromHC into buf data.length).2.2 = some parsed ∧
        (0 ∉ t.messageType m → cString buf msgTypeOffset = (t.messageType m).take 128)

theorem Writes.roundTrips {t : MessageType T} {m into parsed : T} {content : List UInt8} (writes : t.Writes m content)
    (fits : content.length + headerSize < 2 ^ 31)
    (reads : t.parseFromArray (t.setTypeName (carried (t.messageType m)) into) content content.length = some parsed) :
    t.RoundTrips m into parsed := by
  intro data full
  rw [writes.fullByteSize_eq fits] at full
  have room : data.length = headerSize + content.length := by omega
  have length : ((t.header m content).bytes ++ content).length = data.length := by
    rw [List.length_append, length_header, room]
  have announced : contentSizeOf ((t.header m content).bytes ++ content) = content.length :=
    (laid_setMsgType _).contentSizeOf_eq (by omega) _
  refine ⟨_, writes.serializeToHC_eq room, length, ?_, fun plain => ?_⟩
  · simp only [parseFromHC, announced, cString_header]
    rw [if_neg (by omega), if_neg (by omega)]
    simp only [int32_length (show content.length < 2 ^ 31 by omega)]
    rw [← t.length_header m content, List.drop_left]
    exact reads
  · rw [cString_header, carried_eq plain]

/-- The range that is handed to `ParseFromArray` lies behind the header and before the end. -/
theorem parseFromHC_range (t : MessageType T) (m : T) (data : List UInt8) (size : Int) :
    ∀ range ∈ (t.parseFromHC m data size).2.1,
      headerSize ≤ range.first ∧ (range.first : Int) + range.count ≤ size := by
  intro range handed
  simp only [parseFromHC] at handed
  split at handed
  · cases handed
  · split at handed
    · cases handed
    · rename_i large inside
      cases handed
      exact ⟨le_rfl, by dsimp only; omega⟩

theorem length_takeWhile_le {p : UInt8 → Bool} {data : List UInt8} {i : Nat} {x : UInt8} (found : data[i]? = some x)
    (stop : p x = false) : (data.takeWhile p).length ≤ i := by
  induction data generalizing i with
  | nil => cases found
  | cons y data ih =>
    rw [List.takeWhile_cons]
    cases i with
    | zero =>
      cases found
      rw [stop]
      exact Nat.zero_le _
    | succ i =>
      split
      · exact Nat.succ_le_succ (ih found)
      · exact Nat.zero_le _

/-- What `ParseFromHC` reads itself is before the end if a zero is there that ends the type name. -/
theorem parseFromHC_reads (t : MessageType T) (m : T) (data : List UInt8) (size : Int)
    (zero : ∃ i : Nat, msgTypeOffset ≤ i ∧ (i : Int) < size ∧ data[i]? = some 0) :
    ∀ access ∈ (t.parseFromHC m data size).1, (access.first : Int) + access.count ≤ size := by
  obtain ⟨i, after, before, found⟩ := zero
  have name : (cString data msgTypeOffset).length ≤ i - msgTypeOffset := by
    refine length_takeWhile_le (x := 0) ?_ (by decide)
    rwa [List.getElem?_drop, Nat.add_sub_cancel' after]
  simp only [parseFromHC]
  split
  · exact List.forall_mem_nil _
  · rename_i large
    unfold headerSize at large ⊢
    split
    · simp only [List.mem_singleton, forall_eq]
      omega
    · simp only [List.mem_cons, List.not_mem_nil, or_false, forall_eq_or_imp, forall_eq]
      unfold msgTypeOffset at *
      omega

/-- Without a zero the type name is read over the end: `ParseFromHC` does not see to it that there is one. -/
theorem parseFromHC_overruns (t : MessageType T) (m : T) {n : Nat} (long : headerSize + 0x01010101 ≤ n) :
    ∃ access ∈ (t.parseFromHC m (List.replicate n 1) n).1, n < access.first + access.count := by
  unfold headerSize at long
  have size : contentSizeOf (List.replicate n 1) = 0x01010101 := by
    have read : memcpyFrom (List.replicate n 1) (headerSize - 4) 4 = #v[1, 1, 1, 1] := by
      ext i bound
      have inside : headerSize - 4 + i < n := by
        unfold headerSize
        omega
      have ones : (#v[1, 1, 1, 1] : Vector UInt8 4)[i] = 1 := by
        match i, bound with
        | 0, _ | 1, _ | 2, _ | 3, _ => rfl
      simp only [memcpyFrom, Vector.getElem_ofFn, List.getD_eq_getElem?_getD, List.getElem?_replicate, inside, if_true,
        Option.getD_some, ones]
    rw [contentSizeOf, read]
    decide
  have name : (cString (List.replicate n 1) msgTypeOffset).length = n - msgTypeOffset := by
    rw [cString, List.drop_replicate, List.takeWhile_replicate, if_pos (by decide), List.length_replicate]
  refine ⟨⟨msgTypeOffset, n - msgTypeOffset + 1⟩, ?_, ?_⟩
  · simp only [parseFromHC, size, name]
    rw [if_neg (by unfold headerSize; omega), if_neg (by unfold headerSize; omega)]
    exact List.mem_cons_of_mem _ List.mem_cons_self
  · unfold msgTypeOffset
    dsimp only
    omega

end MessageType

def RawMessage.messageType : MessageType RawMessage where
  byteSize := RawMessage.byteSize
  messageType _ := RawMessage.typeName
  setTypeName _ m := m
  serializeToArray m data size := m.serializeToArray (some data) size
  parseFromArray m data size := m.parseFromArray (some data) size

def PyMessageWrap.messageType : MessageType PyMessageWrap where
  byteSize := PyMessageWrap.byteSize
  messageType _ := PyMessageWrap.fullName
  setTypeName _ m := m
  serializeToArray m data size := m.serializeToArray (some data) size
  parseFromArray m data size := m.parseFromArray (some data) size

/-- A type of protobuf messages, by what its messages serialize to and what is parsed of bytes. -/
structure ProtobufType (P : Type) where
  fullName : List UInt8
  serialized : P → List UInt8
  parse : List UInt8 → Option P

def ProtobufType.messageType {P : Type} (p : ProtobufType P) : MessageType P where
  byteSize m := int32 (p.serialized m).length
  messageType _ := p.fullName
  setTypeName _ m := m
  serializeToArray m data size := ProtoMessage.serializeToArray ⟨p.fullName, p.serialized m⟩ data size
  parseFromArray _ data size := if size < 0 then none else p.parse (data.take size.toNat)

theorem contentToArray_eq {content : List UInt8} (small : content.length < 2 ^ 31) (data : List UInt8) {size : Int}
    (room : content.length ≤ size) : contentToArray content (some data) size = some (copyInto data content) := by
  have fits : ¬ size < int32 content.length := by
    rw [int32_length small]
    exact not_lt.mpr room
  simp only [contentToArray, if_neg fits]

theorem contentFromArray_eq {content : List UInt8} (nonempty : content ≠ []) :
    contentFromArray (some content) content.length = some content := by
  have positive := List.length_pos_of_ne_nil nonempty
  have accepted : ¬ (content.length : Int) ≤ 0 := by omega
  simp only [contentFromArray, if_neg accepted, Int.toNat_natCast, List.take_length]

theorem RawMessage.writes {m : RawMessage} (small : m.message.length < 2 ^ 31) :
    RawMessage.messageType.Writes m m.message where
  size := by simp only [messageType, byteSize, int32_length small]
  writes data size room := by simp only [messageType, serializeToArray, contentToArray_eq small data room]

theorem PyMessageWrap.writes {m : PyMessageWrap} (small : m.data.length < 2 ^ 31) :
    PyMessageWrap.messageType.Writes m m.data where
  size := by simp only [messageType, byteSize, int32_length small]
  writes data size room := by simp only [messageType, serializeToArray, contentToArray_eq small data room]

theorem ProtobufType.writes {P : Type} {p : ProtobufType P} {m : P} (small : (p.serialized m).length < 2 ^ 31) :
    p.messageType.Writes m (p.serialized m) where
  size := by simp only [messageType, int32_length small]
  writes data size room := by
    have below : ¬ (⟨p.fullName, p.serialized m⟩ : ProtoMessage).byteSizeLong ≥ 2 ^ 31 := Nat.not_le.mpr small
    have fits : ¬ size < (⟨p.fullName, p.serialized m⟩ : ProtoMessage).byteSizeLong := not_lt.mpr room
    simp only [messageType, ProtoMessage.serializeToArray, if_neg below, if_neg fits]

/-- A message goes through a buffer with its header if it is not too long, and a raw message or a Python message if it
is not empty. Whatever the buffer, `ParseFromArray` is handed a range inside of it. -/
theorem framing :
    (∀ m into : RawMessage, m.message ≠ [] → m.message.length + headerSize < 2 ^ 31 →
      RawMessage.messageType.RoundTrips m into { into with message := m.message }) ∧
    (∀ m into : PyMessageWrap, m.data ≠ [] → m.data.length + headerSize < 2 ^ 31 →
      PyMessageWrap.messageType.RoundTrips m into { into with data := m.data }) ∧
    (∀ (P : Type) (p : ProtobufType P) (m into : P), p.parse (p.serialized m) = some m →
      (p.serialized m).length + headerSize < 2 ^ 31 → p.messageType.RoundTrips m into m) ∧
    (∀ (T : Type) (t : MessageType T) (m into parsed : T) (content : List UInt8), t.Writes m content →
      content.length + headerSize < 2 ^ 31 →
      t.parseFromArray (t.setTypeName (MessageType.carried (t.messageType m)) into) content content.length =
        some parsed → t.RoundTrips m into parsed) ∧
    (∀ (T : Type) (t : MessageType T) (m : T) (data : List UInt8) (size : Int),
      (∀ range ∈ (t.parseFromHC m data size).2.1, headerSize ≤ range.first ∧ (range.first : Int) + range.count ≤ size) ∧
      ((∃ i : Nat, msgTypeOffset ≤ i ∧ (i : Int) < size ∧ data[i]? = some 0) →
        ∀ access ∈ (t.parseFromHC m data size).1, (access.first : Int) + access.count ≤ size)) := by
  refine ⟨?_, ?_, ?_, ?_, fun T t m data size => ⟨t.parseFromHC_range m data size, t.parseFromHC_reads m data size⟩⟩
  · intro m into nonempty fits
    refine (RawMessage.writes (by omega)).roundTrips fits ?_
    simp only [RawMessage.messageType, RawMessage.parseFromArray, contentFromArray_eq nonempty, Option.map_some]
  · intro m into nonempty fits
    refine (PyMessageWrap.writes (by omega)).roundTrips fits ?_
    simp only [PyMessageWrap.messageType, PyMessageWrap.parseFromArray, contentFromArray_eq nonempty, Option.map_some]
  · intro P p m into reads fits
    refine (ProtobufType.writes (by omega)).roundTrips fits ?_
    have nonneg : ¬ ((p.serialized m).length : Int) < 0 := by omega
    simp only [ProtobufType.messageType, if_neg nonneg, Int.toNat_natCast, List.take_length, reads]
  · intro T t m into parsed content writes fits reads
    exact writes.roundTrips fits reads

theorem framing_short :
    RawMessage.messageType.RoundTrips ⟨[1, 2], 7⟩ ⟨[], 3⟩ ⟨[1, 2], 3⟩ ∧
      ∀ range ∈ (RawMessage.messageType.parseFromHC ⟨[], 0⟩ (List.replicate 200 1) 200).2.1,
        headerSize ≤ range.first ∧ (range.first : Int) + range.count ≤ 200 :=
  ⟨framing.1 ⟨[1, 2], 7⟩ ⟨[], 3⟩ (by decide) (by decide),
    (framing.2.2.2.2 RawMessage RawMessage.messageType ⟨[], 0⟩ (List.replicate 200 1) 200).1⟩

/-- Of a buffer no more is parsed than is behind the header. -/
theorem RawMessage.length_parsed {m into parsed : RawMessage} (trips : RawMessage.messageType.RoundTrips m into parsed)
    {n : Nat} (full : RawMessage.messageType.fullByteSize m = n) : parsed.message.length ≤ n - headerSize := by
  obtain ⟨buf, -, length, parses, -⟩ := trips (List.replicate n 0) (by rw [full, List.length_replicate])
  rw [List.length_replicate] at length parses
  simp only [MessageType.parseFromHC] at parses
  split at parses
  · cases parses
  · split at parses
    · cases parses
    · simp only [RawMessage.messageType, RawMessage.parseFromArray, contentFromArray] at parses
      split at parses
      · cases parses
      · rw [← Option.some.inj parses]
        simp only [List.length_take, List.length_drop, length]
        exact Nat.min_le_right _ _

/-- An empty raw message is refused, one of 4 GiB and a byte is taken for one of a byte, and a buffer without a zero is
read over its end. -/
theorem not_framing :
    (¬RawMessage.messageType.RoundTrips ⟨[], 0⟩ ⟨[], 0⟩ ⟨[], 0⟩) ∧
    (¬RawMessage.messageType.RoundTrips ⟨List.replicate (2 ^ 32 + 1) 0, 0⟩ ⟨[], 0⟩
      ⟨List.replicate (2 ^ 32 + 1) 0, 0⟩) ∧
    ∃ access ∈ (RawMessage.messageType.parseFromHC ⟨[], 0⟩ (List.replicate 16843201 1) (16843201 : Nat)).1,
      16843201 < access.first + access.count := by
  refine ⟨fun trips => ?_, fun trips => ?_, RawMessage.messageType.parseFromHC_overruns _ (by decide)⟩
  · have writes : RawMessage.messageType.Writes ⟨[], 0⟩ [] := RawMessage.writes (m := ⟨[], 0⟩) (by decide)
    have full := writes.fullByteSize_eq (by decide)
    obtain ⟨buf, written, -, parses, -⟩ := trips (List.replicate headerSize 0)
      (by rw [full, List.length_replicate]; rfl)
    rw [writes.serializeToHC_eq (by rw [List.length_replicate]; rfl)] at written
    have announced : contentSizeOf buf = 0 := by
      rw [← Option.some.inj written]
      exact (laid_setMsgType _).contentSizeOf_eq (by decide) _
    simp only [MessageType.parseFromHC, announced] at parses
    split at parses
    · cases parses
    · split at parses
      · cases parses
      · cases parses
  · have size : RawMessage.messageType.byteSize ⟨List.replicate (2 ^ 32 + 1) 0, 0⟩ = 1 := by
      simp only [RawMessage.messageType, RawMessage.byteSize, List.length_replicate]
      decide
    have full : RawMessage.messageType.fullByteSize ⟨List.replicate (2 ^ 32 + 1) 0, 0⟩ = (193 : Nat) := by
      rw [MessageType.fullByteSize, size]
      decide
    have short := RawMessage.length_parsed trips full
    rw [List.length_replicate] at short
    exact absurd short (by decide)

end CyberRT.Message
