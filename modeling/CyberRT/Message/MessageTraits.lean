import CyberRT.Base.AtomicRWLock
import CyberRT.Transport.MessageInfo

namespace CyberRT.Message
open Posix

/-- The bytes of an identifier of the source. -/
def ascii (s : String) : List UInt8 :=
  s.toList.map fun c => c.toNat.toUInt8

/-- `memcpy` to the beginning of a buffer. What goes over its end is not in it. -/
def copyInto (buf content : List UInt8) : List UInt8 :=
  (memcpyTo buf 0 content).take buf.length

/-- `SerializeToArray` of a message that is its content. -/
def contentToArray (content : List UInt8) (data : Option (List UInt8)) (size : Int) : Option (List UInt8) :=
  match data with
  | none => none
  | some buf => if size < int32 content.length then none else some (copyInto buf content)

/-- `ParseFromArray` of a message that is its content. -/
def contentFromArray (data : Option (List UInt8)) (size : Int) : Option (List UInt8) :=
  match data with
  | none => none
  | some buf => if size ≤ 0 then none else some (buf.take size.toNat)

structure RawMessage where
  message : List UInt8
  timestamp : UInt64
  deriving DecidableEq

namespace RawMessage

def byteSize (m : RawMessage) : Int :=
  int32 m.message.length

def typeName : List UInt8 :=
  ascii "apollo.cyber.message.RawMessage"

def serializeToArray (m : RawMessage) (data : Option (List UInt8)) (size : Int) : Option (List UInt8) :=
  contentToArray m.message data size

def serializeToString (m : RawMessage) (str : Option (List UInt8)) : Option (List UInt8) :=
  str.map fun _ => m.message

def parseFromArray (m : RawMessage) (data : Option (List UInt8)) (size : Int) : Option RawMessage :=
  (contentFromArray data size).map fun message => { m with message := message }

def parseFromString (m : RawMessage) (str : List UInt8) : Option RawMessage :=
  some { m with message := str }

end RawMessage

structure PyMessageWrap where
  data : List UInt8
  typeName : List UInt8
  deriving DecidableEq

namespace PyMessageWrap

def byteSize (m : PyMessageWrap) : Int :=
  int32 m.data.length

/-- `TypeName()`, whatever `type_name_` is. -/
def fullName : List UInt8 :=
  ascii "apollo.cyber.message.PyMessage"

def serializeToArray (m : PyMessageWrap) (data : Option (List UInt8)) (size : Int) : Option (List UInt8) :=
  contentToArray m.data data size

def serializeToString (m : PyMessageWrap) (output : Option (List UInt8)) : Option (List UInt8) :=
  output.map fun _ => m.data

def parseFromArray (m : PyMessageWrap) (data : Option (List UInt8)) (size : Int) : Option PyMessageWrap :=
  (contentFromArray data size).map fun content => { m with data := content }

def parseFromString (m : PyMessageWrap) (msgstr : List UInt8) : Option PyMessageWrap :=
  some { m with data := msgstr }

end PyMessageWrap

/-- A protobuf message, by the name of its type and the bytes into which it serializes. -/
structure ProtoMessage where
  fullName : List UInt8
  serialized : List UInt8
  deriving DecidableEq

namespace ProtoMessage

def byteSizeLong (m : ProtoMessage) : Nat :=
  m.serialized.length

/-- Protobuf serializes no message of 2 GiB and more. -/
def serializeToArray (m : ProtoMessage) (data : List UInt8) (size : Int) : Option (List UInt8) :=
  if m.byteSizeLong ≥ 2 ^ 31 then none
  else if size < m.byteSizeLong then none
  else some (copyInto data m.serialized)

def serializeToString (m : ProtoMessage) : Option (List UInt8) :=
  if m.byteSizeLong ≥ 2 ^ 31 then none else some m.serialized

end ProtoMessage

/-- A message of one of the types whose traits are modelled. -/
inductive AnyMessage
  | raw (m : RawMessage)
  | py (m : PyMessageWrap)
  | proto (m : ProtoMessage)
  deriving DecidableEq

namespace AnyMessage

/-- The bytes that the message stands for. -/
def content : AnyMessage → List UInt8
  | raw m => m.message
  | py m => m.data
  | proto m => m.serialized

def messageType : AnyMessage → List UInt8
  | raw _ => RawMessage.typeName
  | py _ => PyMessageWrap.fullName
  | proto m => m.fullName

def byteSize : AnyMessage → Int
  | raw m => m.byteSize
  | py m => m.byteSize
  | proto m => int32 m.byteSizeLong

def serializeToArray (m : AnyMessage) (data : List UInt8) (size : Int) : Option (List UInt8) :=
  match m with
  | raw m => m.serializeToArray (some data) size
  | py m => m.serializeToArray (some data) size
  | proto m => m.serializeToArray data size

def serializeToString : AnyMessage → Option (List UInt8)
  | raw m => m.serializeToString (some [])
  | py m => m.serializeToString (some [])
  | proto m => m.serializeToString

end AnyMessage

/-- The object into which a reader of raw messages or of Python messages parses. -/
inductive Reading
  | raw (m : RawMessage)
  | py (m : PyMessageWrap)
  deriving DecidableEq

namespace Reading

def content : Reading → List UInt8
  | raw m => m.message
  | py m => m.data

def parseFromArray (r : Reading) (data : List UInt8) (size : Int) : Option Reading :=
  match r with
  | raw m => (m.parseFromArray (some data) size).map raw
  | py m => (m.parseFromArray (some data) size).map py

def parseFromString (r : Reading) (str : List UInt8) : Option Reading :=
  match r with
  | raw m => (m.parseFromString str).map raw
  | py m => (m.parseFromString str).map py

end Reading

/-- A `MessageHeader`, whose fields are all arrays of bytes. -/
structure MessageHeader where
  magicNum : List UInt8
  seq : List UInt8
  timestampNs : List UInt8
  srcId : List UInt8
  dstId : List UInt8
  msgType : List UInt8
  res : List UInt8
  contentSize : List UInt8

namespace MessageHeader

/-- The header as the constructor leaves it. -/
def create : MessageHeader where
  magicNum := ascii "BDACBDAC"
  seq := List.replicate 8 0
  timestampNs := List.replicate 8 0
  srcId := List.replicate 8 0
  dstId := List.replicate 8 0
  msgType := List.replicate 129 0
  res := List.replicate 19 0
  contentSize := List.replicate 4 0

/-- A name that is too long is cut off; the last byte stays zero. -/
def setMsgType (h : MessageHeader) (msgType : List UInt8) : MessageHeader :=
  if msgType.length = 0 then h
  else
    let realLen := if msgType.length ≥ 129 then 128 else msgType.length
    { h with msgType := memcpyTo (List.replicate 129 0) 0 (msgType.take realLen) }

/-- The size, the highest byte first. -/
def setContentSize (h : MessageHeader) (contentSize : Nat) : MessageHeader :=
  { h with contentSize := (littleEndian 4 contentSize).reverse }

/-- The header in memory. -/
def bytes (h : MessageHeader) : List UInt8 :=
  h.magicNum ++ h.seq ++ h.timestampNs ++ h.srcId ++ h.dstId ++ h.msgType ++ h.res ++ h.contentSize

/-- `sizeof(MessageHeader)` -/
def headerSize : Nat := 192

/-- `content_size()` of the header at the beginning of a buffer. -/
def contentSizeOf (data : List UInt8) : Nat :=
  ofLittleEndian (memcpyFrom data (headerSize - 4) 4).toList.reverse

end MessageHeader

namespace AnyMessage
open MessageHeader

def fullByteSize (m : AnyMessage) : Int :=
  if m.byteSize < 0 then m.byteSize else int32 (m.byteSize + headerSize)

/-- `SerializeToHC`: the header, and the content behind it. -/
def serializeToHC (m : AnyMessage) (data : List UInt8) (size : Int) : Option (List UInt8) :=
  if m.byteSize < 0 then none
  else
    let header := (MessageHeader.create.setMsgType m.messageType).setContentSize m.byteSize.toNat
    let data := copyInto data header.bytes
    let leftSize := size - headerSize
    (m.serializeToArray (data.drop headerSize) leftSize).map fun rest => data.take headerSize ++ rest

end AnyMessage

namespace Reading
open MessageHeader

/-- `ParseFromHC`. Neither type of reader has a `SetTypeName`. -/
def parseFromHC (r : Reading) (data : List UInt8) (size : Int) : Option Reading :=
  if size < headerSize then none
  else if size - headerSize < contentSizeOf data then none
  else r.parseFromArray (data.drop headerSize) (int32 (contentSizeOf data))

end Reading

namespace AnyMessage

/-- `IntraDispatcher::OnMessage` and `ListenerHandler::RunFromString`, when the listener has another message type. -/
def viaHC (m : AnyMessage) (r : Reading) : Option Reading :=
  if m.fullByteSize < 0 then none
  else
    (m.serializeToHC (List.replicate m.fullByteSize.toNat 0) m.fullByteSize).bind fun msg =>
      r.parseFromHC msg (int32 msg.length)

/-- `ShmTransmitter::Transmit` and the listener adapter of `ShmDispatcher`. `block` is the buffer of the block that
`AcquireBlockToWrite` gives, which has room for the message and its info. -/
def viaShm (m : AnyMessage) (r : Reading) (block info : List UInt8) : Option Reading :=
  let msgSize := (m.byteSize % 2 ^ 64).toNat
  if block.length < msgSize + messageInfoKSize then none
  else
    (m.serializeToArray block (int32 msgSize)).bind fun buf =>
      r.parseFromArray (memcpyTo buf msgSize info) (int32 msgSize)

/-- `RtpsTransmitter::Transmit` and the listener adapter of `RtpsDispatcher`. -/
def viaRtps (m : AnyMessage) (r : Reading) : Option Reading :=
  m.serializeToString.bind fun str => r.parseFromString str

end AnyMessage

end CyberRT.Message
