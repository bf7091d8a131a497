import CyberRT.Lib.Threads
import CyberRT.Transport.ListenerRegistration

namespace CyberRT
open Concur

namespace Dispatcher
variable {α : Type}

/-- What a thread asks `AddListener` for: the channel of the attributes, the ids and the listener. -/
structure Registration (α : Type) where
  channelId : UInt64
  entry : ListenerHandler.Entry α

/-- A call of `AddListener` that has returned, with the handler to which it connected the listener. -/
structure Added (α : Type) where
  registration : Registration α
  handler : Nat

/-- The dispatcher with the handlers that its threads have made. `madeFor` has the channel of each, and `called` and
`added` are the calls so far and those among them that have returned. -/
structure Shared (α : Type) where
  msgListeners : Table UInt64 Nat
  handlers : Nat → ListenerHandler α
  madeFor : List UInt64
  called : List (Registration α)
  added : List (Added α)

def Shared.init : Shared α :=
  ⟨∅, fun _ => .empty, [], [], []⟩

/-- Where a thread stands in `AddListener`. -/
inductive At (α : Type)
  | idle
  | get (r : Registration α)
  | set (r : Registration α)
  | connect (r : Registration α) (handler : Nat)

inductive Input (α : Type)
  | addListener (r : Registration α)
  | next

/-- A call had the id, so no further one has it. -/
def Shared.Known (m : Shared α) (selfId : UInt64) : Prop :=
  ∃ r ∈ m.called, r.entry.selfId = selfId

instance (m : Shared α) (selfId : UInt64) : Decidable (m.Known selfId) :=
  inferInstanceAs (Decidable (∃ r ∈ m.called, r.entry.selfId = selfId))

/-- One step of `AddListener` while the dispatcher is not shut down and all listeners have one message type. -/
def act (m : Shared α) : At α → Input α → Option (Shared α × At α)
  | .idle, .addListener r => if m.Known r.entry.selfId then none else some ({ m with called := r :: m.called }, .get r)
  | .get r, .next =>
    match m.msgListeners.lookup r.channelId with
    | some handler => some (m, .connect r handler)
    | none => some (m, .set r)
  | .set r, .next =>
    let handler := m.madeFor.length
    some ({ m with msgListeners := m.msgListeners.insert r.channelId handler
                   handlers := Function.update m.handlers handler .empty
                   madeFor := m.madeFor ++ [r.channelId] }, .connect r handler)
  | .connect r handler, .next =>
    let connected := (m.handlers handler).connectAt r.entry.oppo r.entry.selfId r.entry.listener
    some ({ m with handlers := Function.update m.handlers handler connected
                   added := m.added ++ [⟨r, handler⟩] }, .idle)
  | _, _ => none

section Machine
variable (τ : Type) [DecidableEq τ]

/-- The threads that call `AddListener`, in any interleaving. -/
def machine (α : Type) : Machine (Config τ (Shared α) (At α)) (τ × Input α) :=
  Config.machine .init (fun _ => .idle) act

end Machine

/-- The handler that the dispatcher holds for a channel. -/
def Shared.handlerOf (m : Shared α) (channelId : UInt64) : ListenerHandler α :=
  (m.msgListeners.lookup channelId).elim .empty m.handlers

/-- The listeners that the calls on a channel ask for. -/
def Shared.onChannel (m : Shared α) (channelId : UInt64) : List (ListenerHandler.Entry α) :=
  (m.called.filter fun r => r.channelId = channelId).map fun r => r.entry

/-- A handler knows a connection of the listener, and its slot is connected. -/
def Connected (h : ListenerHandler α) (e : ListenerHandler.Entry α) : Prop :=
  ∃ conn slot, h.connAt e.oppo e.selfId = some conn ∧ slot ∈ (h.signalAt e.oppo).slots ∧ slot.connected = true ∧
    slot.number = conn.slot ∧ slot.cb = e.listener

/-- Every listener is connected to the handler of its channel, and a message of the channel reaches each one that
accepts its sender, once and no other. -/
structure Shared.Complete (m : Shared α) : Prop where
  connected : ∀ r ∈ m.called, Connected (m.handlerOf r.channelId) r.entry
  reached : ∀ channelId sender, ((m.handlerOf channelId).run sender).Perm
    (ListenerHandler.Ledger.concerned (m.onChannel channelId) sender)

/-- A thread that stores a handler finds none stored for the channel. -/
def FindsNone {τ : Type} (s : Config τ (Shared α) (At α)) (e : τ × Input α) : Prop :=
  ∀ r, s.thread e.1 = .set r → s.shared.msgListeners.lookup r.channelId = none

/-- The call that a thread has not finished. -/
def At.pending : At α → Option (Registration α)
  | .idle => none
  | .get r => some r
  | .set r => some r
  | .connect r _ => some r

/-- The handler to which a thread is about to connect its listener. -/
def At.connecting : At α → Option Nat
  | .connect _ handler => some handler
  | _ => none

namespace Shared

/-- The listeners that were connected to a handler. -/
def connectedTo (m : Shared α) (handler : Nat) : List (ListenerHandler.Entry α) :=
  (m.added.filter fun a => a.handler = handler).map fun a => a.registration.entry

structure Inv (m : Shared α) : Prop where
  stored : ∀ channelId (handler : Nat), m.msgListeners.lookup channelId = some handler →
    m.madeFor[handler]? = some channelId
  held : ∀ (handler : Nat) channelId, m.madeFor[handler]? = some channelId → m.msgListeners.lookup channelId ≠ none
  made : ∀ a ∈ m.added, m.madeFor[a.handler]? = some a.registration.channelId
  known : ∀ a ∈ m.added, a.registration ∈ m.called
  called : (m.called.map fun r => r.entry.selfId).Nodup
  added : (m.added.map fun a => a.registration.entry.selfId).Nodup
  tracks : ∀ handler, (m.handlers handler).Tracks ⟨m.connectedTo handler, []⟩

/-- The call of a thread is under way, and knows a handler of its channel if it is about to connect to it. -/
structure Holds (m : Shared α) (l : At α) : Prop where
  called : ∀ r, l.pending = some r → r ∈ m.called
  going : ∀ r, l.pending = some r → ∀ a ∈ m.added, a.registration.entry.selfId ≠ r.entry.selfId
  handler : ∀ r (handler : Nat), l = .connect r handler → m.madeFor[handler]? = some r.channelId

end Shared

/-- Two threads are not in the same call. -/
def Apart (l k : At α) : Prop :=
  ∀ r r', l.pending = some r → k.pending = some r' → r.entry.selfId ≠ r'.entry.selfId

section Steps
variable {m m' : Shared α} {l l' : At α} {c : Input α}

/-- What a step of a thread does: it starts a call, reads the handler, stores a new one or connects the listener. -/
theorem act_cases (step : act m l c = some (m', l')) :
    (∃ r, l = .idle ∧ l' = .get r ∧ ¬ m.Known r.entry.selfId ∧ m' = { m with called := r :: m.called }) ∨
    (∃ r, l = .get r ∧ m' = m ∧
      ((∃ handler, m.msgListeners.lookup r.channelId = some handler ∧ l' = .connect r handler) ∨ l' = .set r)) ∨
    (∃ r, l = .set r ∧ l' = .connect r m.madeFor.length ∧
      m' = { m with msgListeners := m.msgListeners.insert r.channelId m.madeFor.length
                    handlers := Function.update m.handlers m.madeFor.length .empty
                    madeFor := m.madeFor ++ [r.channelId] }) ∨
    ∃ r handler, l = .connect r handler ∧ l' = .idle ∧
      m' = { m with handlers := Function.update m.handlers handler
                      ((m.handlers handler).connectAt r.entry.oppo r.entry.selfId r.entry.listener)
                    added := m.added ++ [⟨r, handler⟩] } := by
  cases l with
  | idle =>
    cases c with
    | next => cases step
    | addListener r =>
      simp only [act] at step
      split at step
      · cases step
      · rename_i unknown
        cases step
        exact Or.inl ⟨r, rfl, rfl, unknown, rfl⟩
  | get r =>
    cases c with
    | addListener r' => cases step
    | next =>
      simp only [act] at step
      split at step
      · rename_i handler found
        cases step
        exact Or.inr (Or.inl ⟨r, rfl, rfl, Or.inl ⟨handler, found, rfl⟩⟩)
      · cases step
        exact Or.inr (Or.inl ⟨r, rfl, rfl, Or.inr rfl⟩)
  | set r =>
    cases c with
    | addListener r' => cases step
    | next =>
      cases step
      exact Or.inr (Or.inr (Or.inl ⟨r, rfl, rfl, rfl⟩))
  | connect r handler =>
    cases c with
    | addListener r' => cases step
    | next =>
      cases step
      exact Or.inr (Or.inr (Or.inr ⟨r, handler, rfl, rfl, rfl⟩))

/-- Every handler that was made is the one that the dispatcher holds. -/
def Shared.Current (m : Shared α) : Prop :=
  ∀ (handler : Nat) channelId, m.madeFor[handler]? = some channelId → m.msgListeners.lookup channelId = some handler

/-- A handler that is stored over another one takes its place for good. -/
theorem act_current (inv : m.Inv) (step : act m l c = some (m', l')) :
    m'.Current ↔ m.Current ∧ ∀ r, l = .set r → m.msgListeners.lookup r.channelId = none := by
  rcases act_cases step with ⟨r, rfl, rfl, -, rfl⟩ | ⟨r, rfl, rfl, -⟩ | ⟨r, rfl, rfl, rfl⟩ | ⟨r, handler, rfl, rfl, rfl⟩
  · exact (and_iff_left fun _ at_set => by cases at_set).symm
  · exact (and_iff_left fun _ at_set => by cases at_set).symm
  · constructor
    · intro current
      have none : m.msgListeners.lookup r.channelId = none := by
        refine Option.eq_none_iff_forall_ne_some.mpr fun handler found => ?_
        have made := inv.stored r.channelId handler found
        have below := (List.getElem?_eq_some_iff.mp made).1
        have after := current handler r.channelId (by rw [List.getElem?_append_left below, made])
        rw [AList.lookup_insert] at after
        exact absurd (Option.some.inj after) (Nat.ne_of_gt below)
      refine ⟨fun handler channelId made => ?_, fun r' same => ?_⟩
      · have below := (List.getElem?_eq_some_iff.mp made).1
        have after := current handler channelId (by rw [List.getElem?_append_left below, made])
        rw [Table.lookup_insert_eq] at after
        split at after
        · exact absurd (Option.some.inj after) (Nat.ne_of_gt below)
        · exact after
      · cases same
        exact none
    · rintro ⟨current, finds⟩ handler channelId made
      rw [Table.lookup_insert_eq]
      rw [List.getElem?_append] at made
      split at made
      · rename_i below
        have other : ¬ channelId = r.channelId := by
          rintro rfl
          exact inv.held handler r.channelId made (finds r rfl)
        rw [if_neg other]
        exact current handler channelId made
      · rename_i above
        obtain ⟨bound, same⟩ := List.getElem?_eq_some_iff.mp made
        rw [List.length_singleton] at bound
        rw [← same, List.getElem_singleton, if_pos rfl]
        exact congrArg some (by omega)
  · exact (and_iff_left fun _ at_set => by cases at_set).symm

/-- A connect under an id that no listener of the handler has. -/
theorem ledger_connect {entries : List (ListenerHandler.Entry α)} {e : ListenerHandler.Entry α}
    (fresh : ∀ e' ∈ entries, e'.selfId ≠ e.selfId) :
    (⟨entries, []⟩ : ListenerHandler.Ledger α).connect e.oppo e.selfId e.listener = ⟨entries ++ [e], []⟩ := by
  have apart : ∀ e' ∈ entries, ¬ e'.HasIds e.oppo e.selfId := fun e' member same => fresh e' member same.2
  have under : (⟨entries, []⟩ : ListenerHandler.Ledger α).under e.oppo e.selfId = [] :=
    List.filter_eq_nil_iff.mpr fun e' member => by simpa using apart e' member
  have others : (⟨entries, []⟩ : ListenerHandler.Ledger α).others e.oppo e.selfId = entries :=
    List.filter_eq_self.mpr fun e' member => by simpa using apart e' member
  rw [ListenerHandler.Ledger.connect, under, others]
  rfl

theorem Shared.connectedTo_connect (m : Shared α) (r : Registration α) (handler handler' : Nat)
    (handlers : Nat → ListenerHandler α) :
    ({ m with handlers, added := m.added ++ [⟨r, handler⟩] } : Shared α).connectedTo handler' =
      m.connectedTo handler' ++ if handler = handler' then [r.entry] else [] := by
  simp only [connectedTo, List.filter_append, List.map_append]
  split <;> simp [*]

/-- No call has connected to a handler that is not made. -/
theorem Shared.Inv.connectedTo_length (inv : m.Inv) : m.connectedTo m.madeFor.length = [] := by
  have none : (m.added.filter fun a => a.handler = m.madeFor.length) = [] := by
    refine List.filter_eq_nil_iff.mpr fun a member => ?_
    have below := (List.getElem?_eq_some_iff.mp (inv.made a member)).1
    simpa using Nat.ne_of_lt below
  rw [connectedTo, none, List.map_nil]

theorem Shared.Inv.step (inv : m.Inv) (holds : m.Holds l) (step : act m l c = some (m', l')) : m'.Inv := by
  rcases act_cases step with ⟨r, rfl, rfl, unknown, rfl⟩ | ⟨r, rfl, rfl, -⟩ | ⟨r, rfl, rfl, rfl⟩ |
    ⟨r, handler, rfl, rfl, rfl⟩
  · refine { inv with known := ?_, called := ?_ }
    · exact fun a member => List.mem_cons_of_mem _ (inv.known a member)
    · refine List.nodup_cons.mpr ⟨fun member => ?_, inv.called⟩
      obtain ⟨r', inside, same⟩ := List.mem_map.mp member
      exact unknown ⟨r', inside, same⟩
  · exact inv
  · refine { inv with stored := ?_, held := ?_, made := ?_, tracks := ?_ }
    · intro channelId handler found
      rw [Table.lookup_insert_eq] at found
      split at found
      · rename_i same
        cases found
        rw [List.getElem?_concat_length, same]
      · have made := inv.stored channelId handler found
        rw [List.getElem?_append_left (List.getElem?_eq_some_iff.mp made).1, made]
    · intro handler channelId made
      rw [Table.lookup_insert_eq]
      split
      · exact Option.some_ne_none _
      · rename_i other
        refine inv.held handler channelId ?_
        rw [List.getElem?_append] at made
        split at made
        · exact made
        · obtain ⟨bound, same⟩ := List.getElem?_eq_some_iff.mp made
          rw [List.getElem_singleton] at same
          exact absurd same.symm other
    · intro a member
      have made := inv.made a member
      rw [List.getElem?_append_left (List.getElem?_eq_some_iff.mp made).1, made]
    · intro handler
      change (Function.update m.handlers m.madeFor.length .empty handler).Tracks ⟨m.connectedTo handler, []⟩
      by_cases same : handler = m.madeFor.length
      · rw [same, Function.update_self, inv.connectedTo_length]
        exact ListenerHandler.tracks_empty
      · rw [Function.update_of_ne same]
        exact inv.tracks handler
  · refine { inv with made := ?_, known := ?_, added := ?_, tracks := ?_ }
    · intro a member
      rcases List.mem_append.mp member with old | new
      · exact inv.made a old
      · rw [List.mem_singleton.mp new]
        exact holds.handler r handler rfl
    · intro a member
      rcases List.mem_append.mp member with old | new
      · exact inv.known a old
      · rw [List.mem_singleton.mp new]
        exact holds.called r rfl
    · rw [List.map_append]
      refine List.nodup_append'.mpr ⟨inv.added, List.nodup_singleton _, fun selfId old new => ?_⟩
      obtain ⟨a, member, rfl⟩ := List.mem_map.mp old
      exact holds.going r rfl a member (List.mem_singleton.mp new)
    · intro handler'
      have fresh : ∀ e ∈ m.connectedTo handler, e.selfId ≠ r.entry.selfId := by
        intro e member
        obtain ⟨a, inside, rfl⟩ := List.mem_map.mp member
        exact holds.going r rfl a (List.mem_filter.mp inside).1
      rw [Shared.connectedTo_connect]
      dsimp only
      by_cases same : handler = handler'
      · subst same
        rw [if_pos rfl, Function.update_self, ← ledger_connect fresh]
        exact (inv.tracks handler).connect r.entry.oppo r.entry.selfId r.entry.listener
      · rw [if_neg same, List.append_nil, Function.update_of_ne (Ne.symm same)]
        exact inv.tracks handler'

theorem Shared.Holds.step (inv : m.Inv) (holds : m.Holds l) (step : act m l c = some (m', l')) : m'.Holds l' := by
  rcases act_cases step with ⟨r, rfl, rfl, unknown, rfl⟩ | ⟨r, rfl, rfl, next⟩ | ⟨r, rfl, rfl, rfl⟩ |
    ⟨r, handler, rfl, rfl, rfl⟩
  · refine ⟨?_, ?_, fun r' handler at_connect => by cases at_connect⟩
    · rintro r' ⟨⟩
      exact List.mem_cons_self ..
    · rintro r' ⟨⟩ a member same
      exact unknown ⟨a.registration, inv.known a member, same⟩
  · rcases next with ⟨handler, found, rfl⟩ | rfl
    · refine ⟨holds.called, holds.going, ?_⟩
      rintro r' handler' ⟨⟩
      exact inv.stored r.channelId handler found
    · exact ⟨holds.called, holds.going, fun r' handler at_connect => by cases at_connect⟩
  · refine ⟨holds.called, holds.going, ?_⟩
    rintro r' handler ⟨⟩
    exact List.getElem?_concat_length
  · exact ⟨fun _ none => (by cases none), fun _ none => (by cases none), fun _ _ at_connect => (by cases at_connect)⟩

/-- What another thread relies on while a thread takes a step. -/
theorem Shared.Holds.other {k : At α} (holds : m.Holds k) (own : m.Holds l) (apart : Apart l k)
    (step : act m l c = some (m', l')) : m'.Holds k ∧ Apart l' k := by
  rcases act_cases step with ⟨r, rfl, rfl, unknown, rfl⟩ | ⟨r, rfl, rfl, next⟩ | ⟨r, rfl, rfl, rfl⟩ |
    ⟨r, handler, rfl, rfl, rfl⟩
  · refine ⟨⟨fun r' pending => List.mem_cons_of_mem _ (holds.called r' pending), holds.going, holds.handler⟩, ?_⟩
    rintro r' r'' ⟨⟩ pending same
    exact unknown ⟨r'', holds.called r'' pending, same.symm⟩
  · refine ⟨holds, ?_⟩
    rcases next with ⟨handler, found, rfl⟩ | rfl
    · exact apart
    · exact apart
  · refine ⟨⟨holds.called, holds.going, fun r' handler at_connect => ?_⟩, apart⟩
    have made := holds.handler r' handler at_connect
    rw [List.getElem?_append_left (List.getElem?_eq_some_iff.mp made).1, made]
  · refine ⟨⟨holds.called, fun r' pending a member => ?_, holds.handler⟩, fun _ _ none => by cases none⟩
    rcases List.mem_append.mp member with old | new
    · exact holds.going r' pending a old
    · rw [List.mem_singleton.mp new]
      exact apart r r' rfl pending

end Steps

theorem Apart.symm {l k : At α} (apart : Apart l k) : Apart k l :=
  fun r r' pending pending' same => apart r' r pending' pending same.symm

theorem outline : Config.Outline (act (α := α)) Shared.Inv Shared.Holds Apart where
  own := fun _ _ _ _ _ inv holds step => ⟨inv.step holds step, holds.step inv step⟩
  other := fun _ _ _ _ _ _ _ own holds apart _ step =>
    have after := holds.other own apart step
    ⟨after.1, after.2, after.2.symm⟩

section Runs
variable {τ : Type} [DecidableEq τ] {s : Config τ (Shared α) (At α)}

theorem holds_of_reach (reach : (machine τ α).Reach s) : Config.Holds Shared.Inv Shared.Holds Apart s := by
  refine outline.reach ⟨?_, ?_, ?_⟩ reach
  · exact {
      stored := fun _ _ found => by cases found
      held := fun _ _ made => by cases made
      made := fun _ member => by cases member
      known := fun _ member => by cases member
      called := List.nodup_nil
      added := List.nodup_nil
      tracks := fun _ => ListenerHandler.tracks_empty }
  · exact fun _ => ⟨fun _ none => (by cases none), fun _ none => (by cases none),
      fun _ _ at_connect => (by cases at_connect)⟩
  · exact fun _ _ _ _ _ none => by cases none

/-- Every call has returned or is under way, and every handler has a listener or is about to get one. -/
structure Accounted (s : Config τ (Shared α) (At α)) : Prop where
  calls : ∀ r ∈ s.shared.called, (∃ a ∈ s.shared.added, a.registration = r) ∨ ∃ t, (s.thread t).pending = some r
  handlers : ∀ (handler : Nat) channelId, s.shared.madeFor[handler]? = some channelId →
    (∃ a ∈ s.shared.added, a.handler = handler) ∨ ∃ t, (s.thread t).connecting = some handler

theorem stays {β : Type} (f : At α → Option β) {thread : τ → At α} {t : τ} {l : At α} {x : β}
    (own : f (thread t) = some x → f l = some x) (before : ∃ u, f (thread u) = some x) :
    ∃ u, f (Function.update thread t l u) = some x :=
  Config.exists_move (P := fun k => f k = some x) (fun _ => id) own before

theorem accounted_of_reach (reach : (machine τ α).Reach s) : Accounted s := by
  refine Machine.Reach.invariant (P := Accounted) ?_ ?_ reach
  · exact ⟨fun _ member => (by cases member), fun _ _ made => (by cases made)⟩
  rintro s ⟨t, c⟩ s' accounted step
  obtain ⟨m, l, moved, rfl⟩ := Config.move_eq_some.mp step
  generalize at_t : s.thread t = here at moved
  rcases act_cases moved with ⟨r, rfl, rfl, -, rfl⟩ | ⟨r, rfl, rfl, next⟩ | ⟨r, rfl, rfl, rfl⟩ |
    ⟨r, handler, rfl, rfl, rfl⟩
  · constructor
    · intro r' member
      rcases List.mem_cons.mp member with rfl | old
      · exact Or.inr ⟨t, congrArg At.pending (Function.update_self t _ s.thread)⟩
      · exact (accounted.calls r' old).imp_right (stays At.pending (by simp [at_t, At.pending]))
    · intro handler channelId made
      exact (accounted.handlers handler channelId made).imp_right (stays At.connecting (by simp [at_t, At.connecting]))
  · constructor
    · refine fun r' member => (accounted.calls r' member).imp_right (stays At.pending fun pending => ?_)
      rw [at_t] at pending
      rcases next with ⟨handler, -, rfl⟩ | rfl
      · exact pending
      · exact pending
    · intro handler channelId made
      exact (accounted.handlers handler channelId made).imp_right (stays At.connecting (by simp [at_t, At.connecting]))
  · constructor
    · refine fun r' member => (accounted.calls r' member).imp_right (stays At.pending fun pending => ?_)
      rw [at_t] at pending
      exact pending
    · intro handler channelId made
      dsimp only at made
      rw [List.getElem?_append] at made
      split at made
      · exact (accounted.handlers handler channelId made).imp_right (stays At.connecting (by simp [at_t, At.connecting]))
      · have bound := (List.getElem?_eq_some_iff.mp made).1
        rw [List.length_singleton] at bound
        have same : s.shared.madeFor.length = handler := by omega
        exact Or.inr ⟨t, (congrArg At.connecting (Function.update_self t _ s.thread)).trans (congrArg some same)⟩
  · have added : ∀ a ∈ s.shared.added, a ∈ s.shared.added ++ [⟨r, handler⟩] := fun a => List.mem_append_left _
    constructor
    · intro r' member
      rcases accounted.calls r' member with ⟨a, inside, same⟩ | going
      · exact Or.inl ⟨a, added a inside, same⟩
      · refine (Config.own_or_exists (P := fun k : At α => k.pending = some r') going).imp_left fun mine => ?_
        rw [at_t] at mine
        exact ⟨_, List.mem_append_right _ (List.mem_singleton_self _), Option.some.inj mine⟩
    · intro handler' channelId made
      rcases accounted.handlers handler' channelId made with ⟨a, inside, same⟩ | going
      · exact Or.inl ⟨a, added a inside, same⟩
      · refine (Config.own_or_exists (P := fun k : At α => k.connecting = some handler') going).imp_left fun mine => ?_
        rw [at_t] at mine
        exact ⟨_, List.mem_append_right _ (List.mem_singleton_self _), Option.some.inj mine⟩

/-- No thread is inside `AddListener`. -/
def AllReturned (s : Config τ (Shared α) (At α)) : Prop :=
  ∀ t, s.thread t = .idle

omit [DecidableEq τ] in
theorem Accounted.added (accounted : Accounted s) (returned : AllReturned s) {r : Registration α}
    (member : r ∈ s.shared.called) : ∃ a ∈ s.shared.added, a.registration = r := by
  refine (accounted.calls r member).resolve_right ?_
  rintro ⟨t, pending⟩
  rw [returned t] at pending
  cases pending

omit [DecidableEq τ] in
theorem Accounted.used (accounted : Accounted s) (returned : AllReturned s) {handler : Nat} {channelId : UInt64}
    (made : s.shared.madeFor[handler]? = some channelId) : ∃ a ∈ s.shared.added, a.handler = handler := by
  refine (accounted.handlers handler channelId made).resolve_right ?_
  rintro ⟨t, pending⟩
  rw [returned t] at pending
  cases pending

section Rest
variable {m : Shared α}

theorem Shared.handlerOf_of_lookup {channelId : UInt64} {handler : Nat}
    (found : m.msgListeners.lookup channelId = some handler) : m.handlerOf channelId = m.handlers handler := by
  rw [handlerOf, found, Option.elim_some]

/-- A listener that is connected to a handler was connected to it by its own call. -/
theorem Shared.Inv.handler_of_connected (inv : m.Inv) {a : Added α} (member : a ∈ m.added) {handler : Nat}
    (connected : Connected (m.handlers handler) a.registration.entry) : a.handler = handler := by
  obtain ⟨conn, slot, known, -⟩ := connected
  obtain ⟨e, inside, ids⟩ := (inv.tracks handler).entry _ _ _ known
  obtain ⟨b, own, rfl⟩ := List.mem_map.mp inside
  obtain ⟨added, target⟩ := List.mem_filter.mp own
  have same := List.inj_on_of_nodup_map inv.added added member ids.2
  rw [← same]
  simpa using target

/-- If the channel's handler is the one to which its calls connected, their listeners are connected to it. -/
theorem Shared.Inv.connected (inv : m.Inv) (current : m.Current) {a : Added α} (member : a ∈ m.added) :
    Connected (m.handlerOf a.registration.channelId) a.registration.entry := by
  have stored := current a.handler a.registration.channelId (inv.made a member)
  have inside : a.registration.entry ∈ m.connectedTo a.handler :=
    List.mem_map_of_mem (List.mem_filter.mpr ⟨member, by simp⟩)
  obtain ⟨conn, slot, known, held, number, cb⟩ := (inv.tracks a.handler).slot _ inside
  rw [handlerOf_of_lookup stored]
  exact ⟨conn, slot, known, held, ((inv.tracks a.handler).sound _).connected slot held, number, cb⟩

end Rest

omit [DecidableEq τ] in
/-- The calls on a channel have all connected to its handler. -/
theorem connectedTo_perm (inv : s.shared.Inv) (accounted : Accounted s) (returned : AllReturned s)
    (current : s.shared.Current) {channelId : UInt64} {handler : Nat}
    (found : s.shared.msgListeners.lookup channelId = some handler) :
    (s.shared.connectedTo handler).Perm (s.shared.onChannel channelId) := by
  have added : (s.shared.added.map fun a => a.registration).Nodup :=
    List.Nodup.of_map (fun r : Registration α => r.entry.selfId) (by rw [List.map_map]; exact inv.added)
  have called : s.shared.called.Nodup := inv.called.of_map
  have same : ((s.shared.added.filter fun a => a.handler = handler).map fun a => a.registration).Perm
      (s.shared.called.filter fun r => r.channelId = channelId) := by
    refine (List.perm_ext_iff_of_nodup ?_ (called.filter _)).mpr fun r => ?_
    · exact added.sublist (List.filter_sublist.map _)
    · rw [List.mem_map, List.mem_filter, decide_eq_true_eq]
      constructor
      · rintro ⟨a, member, rfl⟩
        obtain ⟨inside, target⟩ := List.mem_filter.mp member
        have target : a.handler = handler := by simpa using target
        have own := inv.made a inside
        rw [target, inv.stored channelId handler found] at own
        exact ⟨inv.known a inside, (Option.some.inj own).symm⟩
      · rintro ⟨member, on⟩
        obtain ⟨a, inside, rfl⟩ := accounted.added returned member
        have stored := current a.handler a.registration.channelId (inv.made a inside)
        rw [on, found] at stored
        exact ⟨a, List.mem_filter.mpr ⟨inside, by simpa using (Option.some.inj stored).symm⟩, rfl⟩
  have entries := same.map fun r => r.entry
  rwa [List.map_map] at entries

theorem complete_iff_current (reach : (machine τ α).Reach s) (returned : AllReturned s) :
    s.shared.Complete ↔ s.shared.Current := by
  have inv := (holds_of_reach reach).shared
  have accounted := accounted_of_reach reach
  constructor
  · intro complete handler channelId made
    obtain ⟨a, member, rfl⟩ := accounted.used returned made
    have on := Option.some.inj ((inv.made a member).symm.trans made)
    obtain ⟨stored, found⟩ := Option.ne_none_iff_exists'.mp (inv.held a.handler channelId made)
    have connected := complete.connected a.registration (inv.known a member)
    rw [on, Shared.handlerOf_of_lookup found] at connected
    rw [inv.handler_of_connected member connected, found]
  · intro current
    constructor
    · intro r member
      obtain ⟨a, inside, rfl⟩ := accounted.added returned member
      exact inv.connected current inside
    · intro channelId sender
      cases found : s.shared.msgListeners.lookup channelId with
      | none =>
        have none : s.shared.onChannel channelId = [] := by
          refine List.map_eq_nil_iff.mpr (List.filter_eq_nil_iff.mpr fun r member => ?_)
          obtain ⟨a, inside, rfl⟩ := accounted.added returned member
          have held := inv.held a.handler _ (inv.made a inside)
          simp only [decide_eq_true_eq]
          rintro rfl
          exact held found
        rw [Shared.handlerOf, found, none]
        exact .refl _
      | some handler =>
        have ran := (inv.tracks handler).run sender
        have same := connectedTo_perm inv accounted returned current found
        rw [List.append_nil] at ran
        rw [Shared.handlerOf_of_lookup found]
        exact ran.trans ((same.filter _).map _)

/-- Once all calls have returned, every listener is connected to the handler of its channel if and only if no thread
stored a handler over another. -/
theorem complete_iff_findsNone {es : List (τ × Input α)} (run : (machine τ α).exec (machine τ α).init es = some s)
    (returned : AllReturned s) : s.shared.Complete ↔ (machine τ α).Meets FindsNone (machine τ α).init es := by
  have reach : (machine τ α).Reach s := Machine.exec_reachWhen .start (Machine.meets_true _ _) run
  rw [complete_iff_current reach returned]
  have keep : ∀ (s : Config τ (Shared α) (At α)) e s', (machine τ α).Reach s → (machine τ α).step s e = some s' →
      (s'.shared.Current ↔ s.shared.Current ∧ FindsNone s e) := by
    rintro s ⟨t, c⟩ s' before step
    obtain ⟨m, l, moved, rfl⟩ := Config.move_eq_some.mp step
    exact act_current (holds_of_reach before).shared moved
  refine (Machine.exec_iff_meets keep .start run).trans (and_iff_right ?_)
  exact fun _ _ made => by cases made

end Runs

def firstListener : Registration Nat :=
  ⟨7, 1, none, 10⟩

def secondListener : Registration Nat :=
  ⟨7, 2, none, 20⟩

/-- One thread after the other: the second finds the handler of the first. -/
def inTurn : List (Bool × Input Nat) :=
  [(false, .addListener firstListener), (false, .next), (false, .next), (false, .next),
    (true, .addListener secondListener), (true, .next), (true, .next)]

/-- Both threads look for the handler of the channel before one of them stores it. -/
def bothMiss : List (Bool × Input Nat) :=
  [(false, .addListener firstListener), (true, .addListener secondListener), (false, .next), (true, .next),
    (false, .next), (true, .next), (false, .next), (true, .next)]

theorem inTurn_complete : ((machine Bool Nat).stateAt inTurn 7).shared.Complete := by
  have run : (machine Bool Nat).exec (machine Bool Nat).init inTurn = some ((machine Bool Nat).stateAt inTurn 7) := rfl
  have returned : AllReturned ((machine Bool Nat).stateAt inTurn 7) := fun t => (by cases t <;> rfl)
  refine (complete_iff_findsNone run returned).mpr ⟨nofun, nofun, ?_, nofun, nofun, nofun, nofun, trivial⟩
  rintro r ⟨⟩
  rfl

/-- The second handler replaces the first, and the listener on the first one is called no more. -/
theorem bothMiss_loses :
    (machine Bool Nat).exec (machine Bool Nat).init bothMiss = some ((machine Bool Nat).stateAt bothMiss 8) ∧
      AllReturned ((machine Bool Nat).stateAt bothMiss 8) ∧
      firstListener ∈ ((machine Bool Nat).stateAt bothMiss 8).shared.called ∧
      (∀ sender, (((machine Bool Nat).stateAt bothMiss 8).shared.handlerOf firstListener.channelId).run sender = [20]) ∧
      ¬ ((machine Bool Nat).stateAt bothMiss 8).shared.Complete := by
  refine ⟨rfl, fun t => (by cases t <;> rfl), List.mem_cons_of_mem _ (List.mem_cons_self ..), fun _ => rfl, ?_⟩
  intro complete
  have lengths := (complete.reached 7 5).length_eq
  exact absurd lengths (by decide)

end Dispatcher

end CyberRT
