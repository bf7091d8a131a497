import CyberRT.Livox.FastCRC
import CyberRT.Transport.MessageInfo

namespace CyberRT.Livox
open Posix

def kSdkProtocolSof : UInt8 := 0xAA

def kSdkPacketCrcSize : Nat := 4

def kSdkPacketPreambleCrcSize : Nat := 2

/-- `sizeof(SdkPreamble)`. -/
def getPreambleLen : Nat := 9

/-- `sizeof(SdkPacket) - 1 + kSdkPacketCrcSize`. -/
def getPacketWrapperLen : Nat := 12 - 1 + kSdkPacketCrcSize

/-- A command with the bytes that its pointer points to, of which `dataLen` are its data. -/
structure CommPacket where
  packetType : UInt8
  protocol : UInt8
  protocolVersion : UInt8
  cmdSet : UInt8
  cmdCode : UInt32
  sender : UInt32
  subSender : UInt32
  receiver : UInt32
  subReceiver : UInt32
  seqNum : UInt32
  data : List UInt8
  dataLen : UInt16
  padding : UInt32
  deriving DecidableEq

/-- Bytes are written over an array from an index on, unless some of them fall outside of it. -/
def store (buf : List UInt8) (index : Int) (bytes : List UInt8) : Option (List UInt8) :=
  if 0 ≤ index ∧ index + bytes.length ≤ buf.length then some (memcpyTo buf index.toNat bytes) else none

def load (buf : List UInt8) (index : Int) (count : Nat) : Option (List UInt8) :=
  if 0 ≤ index ∧ index + count ≤ buf.length then some ((buf.drop index.toNat).take count) else none

/-- What `Pack` returns, and leaves in the buffer and in `out_len`. -/
structure Packed where
  ret : Int
  outBuf : List UInt8
  outLen : Option Nat
  deriving DecidableEq

/-- The seeds of the two checksums. -/
structure LivoxProtocol where
  seed16 : BitVec 16
  seed32 : BitVec 32

namespace LivoxProtocol

/-- The fields of a packet go to their offsets in the buffer at an address, which may be longer than the size that is
given. There is no result if an access falls outside of the buffer or of the data. -/
def pack (prot : LivoxProtocol) (address : Nat) (outBuf : List UInt8) (outBufSize : Nat) (inPacket : CommPacket) :
    Option Packed :=
  if inPacket.protocol ≠ 0 then some ⟨-1, outBuf, none⟩
  else do
    let buf ← store outBuf 0 [kSdkProtocolSof]
    -- the length of the packet is a number of 16 bits
    let length := (inPacket.dataLen + getPacketWrapperLen.toUInt16).toNat
    let buf ← store buf 2 (littleEndian 2 length)
    if length > outBufSize then return ⟨-1, buf, none⟩
    let buf ← store buf 1 [1]
    let buf ← store buf 4 [inPacket.packetType]
    let buf ← store buf 5 (littleEndian 2 (inPacket.seqNum &&& 0xFFFF).toNat)
    let fields ← load buf 0 (getPreambleLen - kSdkPacketPreambleCrcSize)
    let buf ← store buf 7 (littleEndian 2 (FastCRC16.mcrf4xxCalc prot.seed16 address fields).toNat)
    let buf ← store buf 9 [inPacket.cmdSet]
    let buf ← store buf 10 [inPacket.cmdCode.toUInt8]
    let data ← load inPacket.data 0 inPacket.dataLen.toNat
    let buf ← store buf 11 data
    let body ← load buf 0 (length.toUInt16 - kSdkPacketCrcSize.toUInt16).toNat
    let crc := FastCRC32.crc32Calc prot.seed32 address body
    let buf ← store buf ((length : Int) - 4) (littleEndian 4 crc.toNat)
    return ⟨0, buf, some length⟩

def getPacketLen (buf : List UInt8) : Option Nat :=
  (load buf 2 2).map ofLittleEndian

def checkPreamble (prot : LivoxProtocol) (address : Nat) (buf : List UInt8) : Option Int := do
  let sof ← load buf 0 1
  if sof ≠ [kSdkProtocolSof] then return -1
  let preamble ← load buf 0 getPreambleLen
  if FastCRC16.mcrf4xxCalc prot.seed16 address preamble = 0 then return 0 else return -1

def checkPacket (prot : LivoxProtocol) (address : Nat) (buf : List UInt8) : Option Int := do
  let length ← getPacketLen buf
  let crc ← load buf ((length : Int) - 4) 4
  let body ← load buf 0 (length.toUInt16 - kSdkPacketCrcSize.toUInt16).toNat
  if FastCRC32.crc32Calc prot.seed32 address body = BitVec.ofNat 32 (ofLittleEndian crc) then return 0 else return -1

/-- `ParsePacket`, with the packet unless it is too short. The pointer to its data points into the buffer. -/
def parsePacket (inBuf : List UInt8) (inLen : Nat) : Option (Int × Option CommPacket) :=
  if inLen < getPacketWrapperLen then some (-1, none)
  else do
    let version ← load inBuf 1 1
    let length ← load inBuf 2 2
    let packetType ← load inBuf 4 1
    let seqNum ← load inBuf 5 2
    let cmdSet ← load inBuf 9 1
    let cmdId ← load inBuf 10 1
    return (0, some {
      packetType := packetType.headD 0
      protocol := 0
      protocolVersion := version.headD 0
      cmdSet := cmdSet.headD 0
      cmdCode := (cmdId.headD 0).toUInt32
      sender := 0, subSender := 0, receiver := 0, subReceiver := 0
      seqNum := (ofLittleEndian seqNum).toUInt32
      data := inBuf.drop 11
      dataLen := (ofLittleEndian length).toUInt16 - getPacketWrapperLen.toUInt16
      padding := 0 })

end LivoxProtocol

namespace CommPacket

/-- The bytes that the checksum of the preamble is of. -/
def fields (p : CommPacket) : List UInt8 :=
  [kSdkProtocolSof, 1] ++ littleEndian 2 (p.dataLen.toNat + 15) ++ [p.packetType] ++
    littleEndian 2 (p.seqNum &&& 0xFFFF).toNat

/-- What the receiver has of a packet that was sent. -/
def received (p : CommPacket) (data : List UInt8) : CommPacket where
  packetType := p.packetType
  protocol := 0
  protocolVersion := 1
  cmdSet := p.cmdSet
  cmdCode := p.cmdCode.toUInt8.toUInt32
  sender := 0
  subSender := 0
  receiver := 0
  subReceiver := 0
  seqNum := p.seqNum &&& 0xFFFF
  data := data
  dataLen := p.dataLen
  padding := 0

end CommPacket

namespace LivoxProtocol

def preamble (prot : LivoxProtocol) (p : CommPacket) : List UInt8 :=
  p.fields ++ littleEndian 2 (Crc.run mcrf4xx prot.seed16 p.fields).toNat

def body (prot : LivoxProtocol) (p : CommPacket) : List UInt8 :=
  prot.preamble p ++ [p.cmdSet, p.cmdCode.toUInt8] ++ p.data.take p.dataLen.toNat

/-- The bytes of a packet. -/
def encode (prot : LivoxProtocol) (p : CommPacket) : List UInt8 :=
  prot.body p ++
    littleEndian 4 (Crc.run crc32 (prot.seed32 ^^^ 0xffffffff) (prot.body p) ^^^ 0xffffffff).toNat

end LivoxProtocol

theorem store_append (before old after bytes : List UInt8) {index : Int} (here : index = before.length)
    (length : bytes.length = old.length) :
    store (before ++ (old ++ after)) index bytes = some (before ++ (bytes ++ after)) := by
  have inside : 0 ≤ index ∧ index + bytes.length ≤ (before ++ (old ++ after)).length := by
    simp only [List.length_append, length, here]
    omega
  rw [store, if_pos inside, here, Int.toNat_natCast, memcpyTo_append rfl, length, List.drop_left, List.append_assoc]

theorem load_append (before middle after : List UInt8) {index : Int} {count : Nat} (here : index = before.length)
    (length : count = middle.length) : load (before ++ (middle ++ after)) index count = some middle := by
  have inside : 0 ≤ index ∧ index + count ≤ (before ++ (middle ++ after)).length := by
    simp only [List.length_append, length, here]
    omega
  rw [load, if_pos inside, here, length, Int.toNat_natCast, List.drop_left, List.take_left]

/-- A buffer with room for a packet with `n` bytes of data, cut where the fields of the packet go. -/
theorem exists_parts {outBuf : List UInt8} {n : Nat} (room : n + 15 ≤ outBuf.length) :
    ∃ h₀ h₁ h₂ h₃ h₄ h₅ h₆ h₇ h₈ h₉ h₁₀ old c₀ c₁ c₂ c₃ rest,
      outBuf = h₀ :: h₁ :: h₂ :: h₃ :: h₄ :: h₅ :: h₆ :: h₇ :: h₈ :: h₉ :: h₁₀ :: (old ++ (c₀ :: c₁ :: c₂ :: c₃ :: rest)) ∧
      old.length = n := by
  match outBuf, room with
  | h₀ :: h₁ :: h₂ :: h₃ :: h₄ :: h₅ :: h₆ :: h₇ :: h₈ :: h₉ :: h₁₀ :: more, room =>
    simp only [List.length_cons] at room
    have four : 4 ≤ (more.drop n).length := by
      rw [List.length_drop]
      omega
    match cut : more.drop n, four with
    | c₀ :: c₁ :: c₂ :: c₃ :: rest, _ =>
      refine ⟨h₀, h₁, h₂, h₃, h₄, h₅, h₆, h₇, h₈, h₉, h₁₀, more.take n, c₀, c₁, c₂, c₃, rest, ?_, ?_⟩
      · rw [← cut, List.take_append_drop]
      · rw [List.length_take]
        omega

namespace LivoxProtocol
variable (prot : LivoxProtocol) (address : Nat)

theorem pack_eq {outBuf : List UInt8} {outBufSize : Nat} {p : CommPacket} (plain : p.protocol = 0)
    (small : p.dataLen.toNat + 15 < 2 ^ 16) (fits : p.dataLen.toNat + 15 ≤ outBufSize)
    (room : outBufSize ≤ outBuf.length) (readable : p.dataLen.toNat ≤ p.data.length) :
    prot.pack address outBuf outBufSize p =
      some ⟨0, prot.encode p ++ outBuf.drop (p.dataLen.toNat + 15), some (p.dataLen.toNat + 15)⟩ := by
  obtain ⟨h₀, h₁, h₂, h₃, h₄, h₅, h₆, h₇, h₈, h₉, h₁₀, old, c₀, c₁, c₂, c₃, rest, rfl, oldLength⟩ :=
    exists_parts (Nat.le_trans fits room)
  have length : (p.dataLen + getPacketWrapperLen.toUInt16).toNat = p.dataLen.toNat + 15 := by
    rw [UInt16.toNat_add]
    exact Nat.mod_eq_of_lt small
  have bodyLength : ((p.dataLen.toNat + 15).toUInt16 - kSdkPacketCrcSize.toUInt16).toNat = 11 + p.dataLen.toNat := by
    have four : kSdkPacketCrcSize.toUInt16 ≤ (p.dataLen.toNat + 15).toUInt16 := by
      rw [UInt16.le_iff_toNat_le, Nat.toUInt16_eq, UInt16.toNat_ofNat_of_lt' small]
      exact Nat.le_add_left 4 (p.dataLen.toNat + 11)
    rw [UInt16.toNat_sub_of_le _ _ four, Nat.toUInt16_eq, UInt16.toNat_ofNat_of_lt' small]
    exact Nat.add_comm ..
  have fits' : ¬ p.dataLen.toNat + 15 > outBufSize := Nat.not_lt.mpr fits
  have dataLength : (p.data.take p.dataLen.toNat).length = p.dataLen.toNat := List.length_take_of_le readable
  have data : load p.data 0 p.dataLen.toNat = some (p.data.take p.dataLen.toNat) := by
    have read := load_append [] (p.data.take p.dataLen.toNat) (p.data.drop p.dataLen.toNat) rfl dataLength.symm
    rwa [List.nil_append, List.take_append_drop] at read
  obtain ⟨l₀, l₁, lengthBytes⟩ : ∃ l₀ l₁, littleEndian 2 (p.dataLen.toNat + 15) = [l₀, l₁] := ⟨_, _, rfl⟩
  obtain ⟨s₀, s₁, seqBytes⟩ : ∃ s₀ s₁, littleEndian 2 (p.seqNum &&& 0xFFFF).toNat = [s₀, s₁] := ⟨_, _, rfl⟩
  have fields : p.fields = [kSdkProtocolSof, 1, l₀, l₁, p.packetType, s₀, s₁] := by
    rw [CommPacket.fields, lengthBytes, seqBytes]
    rfl
  obtain ⟨k₀, k₁, crc16Bytes⟩ : ∃ k₀ k₁,
      littleEndian 2 (Crc.run mcrf4xx prot.seed16 p.fields).toNat = [k₀, k₁] := ⟨_, _, rfl⟩
  have front : prot.preamble p ++ [p.cmdSet, p.cmdCode.toUInt8] =
      [kSdkProtocolSof, 1, l₀, l₁, p.packetType, s₀, s₁, k₀, k₁, p.cmdSet, p.cmdCode.toUInt8] := by
    rw [preamble, crc16Bytes, fields]
    rfl
  have bodyLength' : (prot.body p).length = 11 + p.dataLen.toNat := by
    rw [LivoxProtocol.body, front, List.length_append, dataLength]
    rfl
  generalize tail : old ++ (c₀ :: c₁ :: c₂ :: c₃ :: rest) = more
  have sof : store (h₀ :: h₁ :: h₂ :: h₃ :: h₄ :: h₅ :: h₆ :: h₇ :: h₈ :: h₉ :: h₁₀ :: more) 0
      [kSdkProtocolSof] = some _ :=
    store_append [] [h₀] _ _ rfl rfl
  have lengthField : store (kSdkProtocolSof :: h₁ :: h₂ :: h₃ :: h₄ :: h₅ :: h₆ :: h₇ :: h₈ :: h₉ :: h₁₀ :: more) 2
      [l₀, l₁] = some _ :=
    store_append [kSdkProtocolSof, h₁] [h₂, h₃] _ _ rfl rfl
  have version : store (kSdkProtocolSof :: h₁ :: l₀ :: l₁ :: h₄ :: h₅ :: h₆ :: h₇ :: h₈ :: h₉ :: h₁₀ :: more) 1
      [1] = some _ :=
    store_append [kSdkProtocolSof] [h₁] _ _ rfl rfl
  have packetType : store (kSdkProtocolSof :: 1 :: l₀ :: l₁ :: h₄ :: h₅ :: h₆ :: h₇ :: h₈ :: h₉ :: h₁₀ :: more) 4
      [p.packetType] = some _ :=
    store_append [kSdkProtocolSof, 1, l₀, l₁] [h₄] _ _ rfl rfl
  have seqNum : store
      (kSdkProtocolSof :: 1 :: l₀ :: l₁ :: p.packetType :: h₅ :: h₆ :: h₇ :: h₈ :: h₉ :: h₁₀ :: more) 5
      [s₀, s₁] = some _ :=
    store_append [kSdkProtocolSof, 1, l₀, l₁, p.packetType] [h₅, h₆] _ _ rfl rfl
  have readFields : load
      (kSdkProtocolSof :: 1 :: l₀ :: l₁ :: p.packetType :: s₀ :: s₁ :: h₇ :: h₈ :: h₉ :: h₁₀ :: more) 0
      (getPreambleLen - kSdkPacketPreambleCrcSize) = some p.fields := by
    rw [fields]
    exact load_append [] [kSdkProtocolSof, 1, l₀, l₁, p.packetType, s₀, s₁] _ rfl rfl
  have preambleCrc : store
      (kSdkProtocolSof :: 1 :: l₀ :: l₁ :: p.packetType :: s₀ :: s₁ :: h₇ :: h₈ :: h₉ :: h₁₀ :: more) 7
      [k₀, k₁] = some _ :=
    store_append [kSdkProtocolSof, 1, l₀, l₁, p.packetType, s₀, s₁] [h₇, h₈] _ _ rfl rfl
  have cmdSet : store
      (kSdkProtocolSof :: 1 :: l₀ :: l₁ :: p.packetType :: s₀ :: s₁ :: k₀ :: k₁ :: h₉ :: h₁₀ :: more) 9
      [p.cmdSet] = some _ :=
    store_append [kSdkProtocolSof, 1, l₀, l₁, p.packetType, s₀, s₁, k₀, k₁] [h₉] _ _ rfl rfl
  have cmdId : store
      (kSdkProtocolSof :: 1 :: l₀ :: l₁ :: p.packetType :: s₀ :: s₁ :: k₀ :: k₁ :: p.cmdSet :: h₁₀ :: more) 10
      [p.cmdCode.toUInt8] =
        some (prot.preamble p ++ [p.cmdSet, p.cmdCode.toUInt8] ++ (old ++ (c₀ :: c₁ :: c₂ :: c₃ :: rest))) := by
    rw [front, tail]
    exact store_append [kSdkProtocolSof, 1, l₀, l₁, p.packetType, s₀, s₁, k₀, k₁, p.cmdSet] [h₁₀] more _ rfl rfl
  have dataField : store (prot.preamble p ++ [p.cmdSet, p.cmdCode.toUInt8] ++ (old ++ (c₀ :: c₁ :: c₂ :: c₃ :: rest)))
      11 (p.data.take p.dataLen.toNat) = some (prot.body p ++ (c₀ :: c₁ :: c₂ :: c₃ :: rest)) := by
    rw [LivoxProtocol.body, List.append_assoc (prot.preamble p ++ _)]
    exact store_append _ old _ _ (by rw [front]; rfl) (dataLength.trans oldLength.symm)
  have readBody : load (prot.body p ++ (c₀ :: c₁ :: c₂ :: c₃ :: rest)) 0 (11 + p.dataLen.toNat) = some (prot.body p) :=
    load_append [] (prot.body p) _ rfl bodyLength'.symm
  have crc : store (prot.body p ++ (c₀ :: c₁ :: c₂ :: c₃ :: rest)) (((p.dataLen.toNat + 15 : Nat) : Int) - 4)
      (littleEndian 4 (Crc.run crc32 (prot.seed32 ^^^ 0xffffffff) (prot.body p) ^^^ 0xffffffff).toNat) =
        some (prot.encode p ++ rest) := by
    rw [encode, List.append_assoc]
    refine store_append _ [c₀, c₁, c₂, c₃] _ _ ?_ rfl
    rw [bodyLength']
    omega
  simp only [pack, plain, ne_eq, not_true, if_false, sof, lengthField, version, packetType, seqNum, readFields,
    preambleCrc, cmdSet, cmdId, data, dataField, length, lengthBytes, fits', seqBytes, crc16Bytes,
    FastCRC16.mcrf4xxCalc_eq, FastCRC32.crc32Calc_eq, bodyLength, readBody, crc, Option.bind_eq_bind, Option.bind_some,
    List.nil_append, List.cons_append]
  have cut : h₀ :: h₁ :: h₂ :: h₃ :: h₄ :: h₅ :: h₆ :: h₇ :: h₈ :: h₉ :: h₁₀ :: more =
      [h₀, h₁, h₂, h₃, h₄, h₅, h₆, h₇, h₈, h₉, h₁₀] ++ old ++ [c₀, c₁, c₂, c₃] ++ rest := by
    rw [← tail]
    simp
  have cutLength : ([h₀, h₁, h₂, h₃, h₄, h₅, h₆, h₇, h₈, h₉, h₁₀] ++ old ++ [c₀, c₁, c₂, c₃]).length =
      p.dataLen.toNat + 15 := by
    simp only [List.length_append, List.length_cons, List.length_nil, oldLength]
    omega
  rw [cut, ← cutLength, List.drop_left]
  rfl

end LivoxProtocol

end CyberRT.Livox
