import CyberRT.Base.Signal

namespace CyberRT
open Concur

instance {α : Type} : Inhabited (Signal α) := ⟨.empty⟩

/-- The listeners of one message type: those for every sender, and those for one opposite each. -/
structure ListenerHandler (α : Type) where
  signal : Signal α
  signalConns : Table UInt64 Connection
  signals : Table UInt64 (Signal α)
  signalsConns : Table UInt64 (Table UInt64 Connection)

namespace ListenerHandler
variable {α : Type}

def empty : ListenerHandler α :=
  ⟨.empty, ∅, ∅, ∅⟩

instance : Inhabited (ListenerHandler α) := ⟨.empty⟩

/-- A slot just connected is connected, so `Connect` always records the connection. -/
def connect (h : ListenerHandler α) (selfId : UInt64) (listener : α) : ListenerHandler α :=
  let (connection, signal) := h.signal.connect listener
  { h with signal, signalConns := h.signalConns.insert selfId connection }

def connectOpposite (h : ListenerHandler α) (selfId oppoId : UInt64) (listener : α) : ListenerHandler α :=
  let (connection, signal) := (h.signals.get oppoId).connect listener
  { h with signals := h.signals.insert oppoId signal
           signalsConns := h.signalsConns.insert oppoId ((h.signalsConns.get oppoId).insert selfId connection) }

def disconnect (h : ListenerHandler α) (selfId : UInt64) : ListenerHandler α :=
  match h.signalConns.lookup selfId with
  | none => h
  | some connection =>
    { h with signal := h.signal.disconnect connection, signalConns := h.signalConns.erase selfId }

def disconnectOpposite (h : ListenerHandler α) (selfId oppoId : UInt64) : ListenerHandler α :=
  match (h.signalsConns.get oppoId).lookup selfId with
  | none => h
  | some connection =>
    { h with signals := h.signals.insert oppoId ((h.signals.get oppoId).disconnect connection)
             signalsConns := h.signalsConns.insert oppoId ((h.signalsConns.get oppoId).erase selfId) }

/-- The listeners that a message of the given sender reaches. -/
def run (h : ListenerHandler α) (sender : UInt64) : List α :=
  h.signal.call ++ (h.signals.get sender).call

/-- The signal of the listeners without an opposite, or with the given one. -/
def signalAt (h : ListenerHandler α) : Option UInt64 → Signal α
  | none => h.signal
  | some oppoId => h.signals.get oppoId

def connAt (h : ListenerHandler α) (oppo : Option UInt64) (selfId : UInt64) : Option Connection :=
  match oppo with
  | none => h.signalConns.lookup selfId
  | some oppoId => (h.signalsConns.get oppoId).lookup selfId

def connectAt (h : ListenerHandler α) (oppo : Option UInt64) (selfId : UInt64) (listener : α) : ListenerHandler α :=
  match oppo with
  | none => h.connect selfId listener
  | some oppoId => h.connectOpposite selfId oppoId listener

def disconnectAt (h : ListenerHandler α) (oppo : Option UInt64) (selfId : UInt64) : ListenerHandler α :=
  match oppo with
  | none => h.disconnect selfId
  | some oppoId => h.disconnectOpposite selfId oppoId

theorem run_eq (h : ListenerHandler α) (sender : UInt64) :
    h.run sender = (h.signalAt none).call ++ (h.signalAt (some sender)).call := rfl

theorem signalAt_connectAt (h : ListenerHandler α) (oppo oppo' : Option UInt64) (selfId : UInt64) (listener : α) :
    (h.connectAt oppo selfId listener).signalAt oppo' =
      if oppo' = oppo then ((h.signalAt oppo).connect listener).2 else h.signalAt oppo' := by
  cases oppo <;> cases oppo' <;> simp [connectAt, signalAt, connect, connectOpposite, Table.get_insert_eq]

theorem connAt_connectAt (h : ListenerHandler α) (oppo oppo' : Option UInt64) (selfId selfId' : UInt64) (listener : α) :
    (h.connectAt oppo selfId listener).connAt oppo' selfId' =
      if oppo' = oppo ∧ selfId' = selfId then some ((h.signalAt oppo).connect listener).1
      else h.connAt oppo' selfId' := by
  cases oppo with
  | none =>
    cases oppo' with
    | none => simp [connectAt, connAt, connect, signalAt, Table.lookup_insert_eq]
    | some oppo' => simp [connectAt, connAt, connect]
  | some oppo =>
    cases oppo' with
    | none => simp [connectAt, connAt, connectOpposite]
    | some oppo' =>
      by_cases same : oppo' = oppo
      · simp [connectAt, connAt, connectOpposite, signalAt, Table.get_insert_eq, Table.lookup_insert_eq, same]
      · simp [connectAt, connAt, connectOpposite, Table.get_insert_eq, same]

theorem disconnectAt_none {h : ListenerHandler α} {oppo : Option UInt64} {selfId : UInt64}
    (absent : h.connAt oppo selfId = none) : h.disconnectAt oppo selfId = h := by
  cases oppo <;> simp_all [disconnectAt, connAt, disconnect, disconnectOpposite]

theorem signalAt_disconnectAt {h : ListenerHandler α} {oppo : Option UInt64} {selfId : UInt64} {conn : Connection}
    (found : h.connAt oppo selfId = some conn) (oppo' : Option UInt64) :
    (h.disconnectAt oppo selfId).signalAt oppo' =
      if oppo' = oppo then (h.signalAt oppo).disconnect conn else h.signalAt oppo' := by
  cases oppo <;> cases oppo' <;>
    simp_all [disconnectAt, connAt, signalAt, disconnect, disconnectOpposite, Table.get_insert_eq]

theorem connAt_disconnectAt {h : ListenerHandler α} {oppo : Option UInt64} {selfId : UInt64} {conn : Connection}
    (found : h.connAt oppo selfId = some conn) (oppo' : Option UInt64) (selfId' : UInt64) :
    (h.disconnectAt oppo selfId).connAt oppo' selfId' =
      if oppo' = oppo ∧ selfId' = selfId then none else h.connAt oppo' selfId' := by
  cases oppo with
  | none =>
    cases oppo' with
    | none => simp_all [disconnectAt, connAt, disconnect, Table.lookup_erase_eq]
    | some oppo' => simp_all [disconnectAt, connAt, disconnect]
  | some oppo =>
    cases oppo' with
    | none => simp_all [disconnectAt, connAt, disconnectOpposite]
    | some oppo' =>
      by_cases same : oppo' = oppo
      · simp_all [disconnectAt, connAt, disconnectOpposite, Table.get_insert_eq, Table.lookup_erase_eq]
      · simp_all [disconnectAt, connAt, disconnectOpposite, Table.get_insert_eq]

end ListenerHandler

end CyberRT
