import Mathlib.Init

namespace CyberRT
namespace ShmConf

def extraSize : Nat := 1024 * 4
def stateSize : Nat := 1024
def blockSize : Nat := 1024
def messageInfoSize : Nat := 1024

def blockNum16K : Nat := 512
def messageSize16K : Nat := 1024 * 16

def blockNum128K : Nat := 128
def messageSize128K : Nat := 1024 * 128

def blockNum1M : Nat := 64
def messageSize1M : Nat := 1024 * 1024

def blockNum8M : Nat := 32
def messageSize8M : Nat := 1024 * 1024 * 8

def blockNum16M : Nat := 16
def messageSize16M : Nat := 1024 * 1024 * 16

def blockNumMore : Nat := 8
def messageSizeMore : Nat := 1024 * 1024 * 32

def getCeilingMessageSize (realMsgSize : Nat) : Nat :=
  if realMsgSize ≤ messageSize16K then messageSize16K
  else if realMsgSize ≤ messageSize128K then messageSize128K
  else if realMsgSize ≤ messageSize1M then messageSize1M
  else if realMsgSize ≤ messageSize8M then messageSize8M
  else if realMsgSize ≤ messageSize16M then messageSize16M
  else messageSizeMore

def getBlockBufSize (ceilingMsgSize : Nat) : Nat :=
  ceilingMsgSize + messageInfoSize

def getBlockNum (ceilingMsgSize : Nat) : Nat :=
  if ceilingMsgSize = messageSize16K then blockNum16K
  else if ceilingMsgSize = messageSize128K then blockNum128K
  else if ceilingMsgSize = messageSize1M then blockNum1M
  else if ceilingMsgSize = messageSize8M then blockNum8M
  else if ceilingMsgSize = messageSize16M then blockNum16M
  else if ceilingMsgSize = messageSizeMore then blockNumMore
  else 0

def ceilings : List Nat :=
  [messageSize16K, messageSize128K, messageSize1M, messageSize8M, messageSize16M, messageSizeMore]

theorem getCeilingMessageSize_mem (size : Nat) : getCeilingMessageSize size ∈ ceilings := by
  unfold getCeilingMessageSize ceilings
  repeat' split
  all_goals simp

/-- A ceiling is its own ceiling. -/
theorem getCeilingMessageSize_idem (size : Nat) :
    getCeilingMessageSize (getCeilingMessageSize size) = getCeilingMessageSize size := by
  have fixed : ∀ ceiling ∈ ceilings, getCeilingMessageSize ceiling = ceiling := by decide
  exact fixed _ (getCeilingMessageSize_mem size)

/-- The ceiling is no less than the size, up to the largest ceiling. -/
theorem le_getCeilingMessageSize (size : Nat) : min size messageSizeMore ≤ getCeilingMessageSize size := by
  unfold getCeilingMessageSize
  split
  · omega
  split
  · omega
  split
  · omega
  split
  · omega
  split <;> omega

end ShmConf

/-- The layout of a segment. All of it follows from the ceiling of the message size. -/
structure ShmConf where
  ceilingMsgSize : Nat
  blockBufSize : Nat
  blockNum : Nat
  managedShmSize : Nat
  ceiling : ShmConf.getCeilingMessageSize ceilingMsgSize = ceilingMsgSize
  bufSize : blockBufSize = ShmConf.getBlockBufSize ceilingMsgSize
  num : blockNum = ShmConf.getBlockNum ceilingMsgSize
  managed : managedShmSize = ShmConf.extraSize + ShmConf.stateSize + (ShmConf.blockSize + blockBufSize) * blockNum

namespace ShmConf

def update (realMsgSize : Nat) : ShmConf where
  ceilingMsgSize := getCeilingMessageSize realMsgSize
  blockBufSize := getBlockBufSize (getCeilingMessageSize realMsgSize)
  blockNum := getBlockNum (getCeilingMessageSize realMsgSize)
  managedShmSize := extraSize + stateSize +
    (blockSize + getBlockBufSize (getCeilingMessageSize realMsgSize)) * getBlockNum (getCeilingMessageSize realMsgSize)
  ceiling := getCeilingMessageSize_idem realMsgSize
  bufSize := rfl
  num := rfl
  managed := rfl

/-- `ShmConf()` -/
def new : ShmConf :=
  update messageSize16K

/-- To update a layout with its own ceiling changes nothing. -/
theorem update_ceilingMsgSize (conf : ShmConf) : update conf.ceilingMsgSize = conf := by
  obtain ⟨ceilingMsgSize, blockBufSize, blockNum, managedShmSize, ceiling, rfl, rfl, rfl⟩ := conf
  simp only [update, ceiling]

theorem blockNum_pos (conf : ShmConf) : 0 < conf.blockNum := by
  have ceiling := conf.ceiling
  rw [conf.num]
  unfold getCeilingMessageSize at ceiling
  split at ceiling
  · rw [← ceiling]; decide
  split at ceiling
  · rw [← ceiling]; decide
  split at ceiling
  · rw [← ceiling]; decide
  split at ceiling
  · rw [← ceiling]; decide
  split at ceiling <;> · rw [← ceiling]; decide

end ShmConf

end CyberRT
