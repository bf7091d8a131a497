import Mathlib.Init

namespace CyberRT.Record

inductive SectionType
  | header
  | chunkHeader
  | chunkBody
  | index
  | channel
  deriving DecidableEq

inductive CompressType
  | none
  | bz2
  | lz4
  deriving DecidableEq

structure SingleMessage where
  channelName : String
  time : Nat
  content : List UInt8
  deriving DecidableEq

structure ChunkHeader where
  beginTime : Nat
  endTime : Nat
  messageNumber : Nat
  rawSize : Nat
  deriving DecidableEq

structure ChunkBody where
  messages : List SingleMessage
  deriving DecidableEq

structure Channel where
  name : String
  messageType : String
  protoDesc : String
  deriving DecidableEq

structure ChannelCache where
  messageNumber : Nat
  name : String
  messageType : String
  protoDesc : String
  deriving DecidableEq

structure ChunkHeaderCache where
  messageNumber : Nat
  beginTime : Nat
  endTime : Nat
  rawSize : Nat
  deriving DecidableEq

structure ChunkBodyCache where
  messageNumber : Nat
  deriving DecidableEq

/-- The `oneof cache` of a `SingleIndex`. -/
inductive Cache
  | channel (cache : ChannelCache)
  | chunkHeader (cache : ChunkHeaderCache)
  | chunkBody (cache : ChunkBodyCache)
  deriving DecidableEq

structure SingleIndex where
  type : SectionType
  position : Nat
  cache : Cache
  deriving DecidableEq

structure Index where
  indexes : List SingleIndex
  deriving DecidableEq

structure Header where
  majorVersion : Nat
  minorVersion : Nat
  compress : CompressType
  chunkInterval : Nat
  segmentInterval : Nat
  indexPosition : Nat
  chunkNumber : Nat
  channelNumber : Nat
  beginTime : Nat
  endTime : Nat
  messageNumber : Nat
  size : Nat
  isComplete : Bool
  chunkRawSize : Nat
  segmentRawSize : Nat
  deriving DecidableEq

/-- A header with no field set. -/
def Header.empty : Header :=
  ⟨0, 0, .none, 0, 0, 0, 0, 0, 0, 0, 0, 0, false, 0, 0⟩

end CyberRT.Record
