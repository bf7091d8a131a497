import CyberRT.Lib.Table

namespace CyberRT

/-- A slot of a signal. Its number stands for its address. -/
structure Slot (α : Type) where
  number : Nat
  cb : α
  connected : Bool

/-- A signal with its slots, and the number of the next slot. -/
structure Signal (α : Type) where
  slots : List (Slot α)
  next : Nat

/-- A connection knows its slot; the signal is the one that made it. -/
structure Connection where
  slot : Nat
  deriving DecidableEq

namespace Signal
variable {α : Type}

def empty : Signal α :=
  ⟨[], 0⟩

def connect (s : Signal α) (cb : α) : Connection × Signal α :=
  (⟨s.next⟩, { slots := s.slots ++ [⟨s.next, cb, true⟩], next := s.next + 1 })

def clearDisconnectedSlots (s : Signal α) : Signal α :=
  { s with slots := s.slots.filter fun slot => slot.connected }

def disconnect (s : Signal α) (conn : Connection) : Signal α :=
  if s.slots.any fun slot => slot.number == conn.slot then
    clearDisconnectedSlots
      { s with slots := s.slots.map fun slot =>
          if slot.number == conn.slot then { slot with connected := false } else slot }
  else s

/-- The callbacks that a call of the signal invokes. -/
def call (s : Signal α) : List α :=
  (s.slots.filter fun slot => slot.connected).map fun slot => slot.cb

/-- The signal after a call. -/
def afterCall (s : Signal α) : Signal α :=
  s.clearDisconnectedSlots

theorem call_connect (s : Signal α) (cb : α) : (s.connect cb).2.call = s.call ++ [cb] := by
  simp [call, connect]

/-- A call invokes the same callbacks the next time. -/
theorem call_afterCall (s : Signal α) : s.afterCall.call = s.call := by
  simp [call, afterCall, clearDisconnectedSlots]

end Signal

end CyberRT
