import CyberRT.Transport.ListenerHandler

namespace CyberRT
open Concur

namespace Signal
variable {α : Type} {s : Signal α}

/-- Between two calls no slot of a signal is disconnected, and no two have the same number. -/
structure Sound (s : Signal α) : Prop where
  connected : ∀ slot ∈ s.slots, slot.connected = true
  below : ∀ slot ∈ s.slots, slot.number < s.next
  nodup : (s.slots.map fun slot => slot.number).Nodup

theorem sound_empty : (empty : Signal α).Sound where
  connected := by simp [empty]
  below := by simp [empty]
  nodup := by simp [empty]

theorem Sound.connect (sound : s.Sound) (cb : α) : (s.connect cb).2.Sound where
  connected := by
    intro slot member
    rcases List.mem_append.mp member with old | new
    · exact sound.connected slot old
    · rw [List.mem_singleton.mp new]
  below := by
    intro slot member
    rcases List.mem_append.mp member with old | new
    · exact Nat.lt_succ_of_lt (sound.below slot old)
    · rw [List.mem_singleton.mp new]
      exact Nat.lt_succ_self s.next
  nodup := by
    have fresh : ∀ slot ∈ s.slots, ¬ slot.number = s.next := fun slot member =>
      Nat.ne_of_lt (sound.below slot member)
    simp only [Signal.connect, List.map_append, List.map_cons, List.map_nil]
    refine List.nodup_append'.mpr ⟨sound.nodup, List.nodup_singleton _, ?_⟩
    intro number old new
    obtain ⟨slot, member, rfl⟩ := List.mem_map.mp old
    exact fresh slot member (List.mem_singleton.mp new)

theorem Sound.filter_connected (sound : s.Sound) : (s.slots.filter fun slot => slot.connected) = s.slots :=
  List.filter_eq_self.mpr sound.connected

theorem Sound.call_eq (sound : s.Sound) : s.call = s.slots.map fun slot => slot.cb := by
  rw [call, sound.filter_connected]

theorem Sound.afterCall_eq (sound : s.Sound) : s.afterCall = s := by
  rw [afterCall, clearDisconnectedSlots, sound.filter_connected]

/-- Disconnecting takes the slot of the connection out, and no other. -/
theorem Sound.slots_disconnect (sound : s.Sound) (conn : Connection) :
    (s.disconnect conn).slots = s.slots.filter fun slot => !decide (slot.number = conn.slot) := by
  unfold disconnect
  split
  · simp only [clearDisconnectedSlots, List.filter_map]
    have unchanged : (s.slots.filter ((fun slot => slot.connected) ∘ fun slot =>
        if slot.number == conn.slot then { slot with connected := false } else slot)) =
        s.slots.filter fun slot => !decide (slot.number = conn.slot) := by
      refine List.filter_congr fun slot member => ?_
      by_cases hit : slot.number = conn.slot
      · simp [hit]
      · simp [hit, sound.connected slot member]
    rw [unchanged]
    refine (List.map_congr_left fun slot member => ?_).trans (List.map_id _)
    have other : ¬ slot.number = conn.slot := by simpa using (List.mem_filter.mp member).2
    simp [other]
  · rename_i absent
    refine (List.filter_eq_self.mpr fun slot member => ?_).symm
    by_contra hit
    exact absent (List.any_eq_true.mpr ⟨slot, member, by simpa using hit⟩)

theorem next_disconnect (s : Signal α) (conn : Connection) : (s.disconnect conn).next = s.next := by
  unfold disconnect
  split <;> rfl

theorem Sound.disconnect (sound : s.Sound) (conn : Connection) : (s.disconnect conn).Sound where
  connected := by
    rw [sound.slots_disconnect]
    exact fun slot member => sound.connected slot (List.mem_filter.mp member).1
  below := by
    rw [sound.slots_disconnect, next_disconnect]
    exact fun slot member => sound.below slot (List.mem_filter.mp member).1
  nodup := by
    rw [sound.slots_disconnect]
    exact sound.nodup.sublist (List.filter_sublist.map _)

/-- The callback of the slot is called no more, and the others as before. -/
theorem Sound.call_disconnect (sound : s.Sound) {conn : Connection} {slot : Slot α} (member : slot ∈ s.slots)
    (own : slot.number = conn.slot) : s.call.Perm (slot.cb :: (s.disconnect conn).call) := by
  have alone : (s.slots.filter fun x => decide (x.number = conn.slot)) = [slot] := by
    rw [← own]
    have once : (s.slots.filter fun x => decide (x.number = slot.number)).Nodup := sound.nodup.of_map.filter _
    refine List.perm_singleton.mp ((List.perm_ext_iff_of_nodup once (List.nodup_singleton slot)).mpr fun x => ?_)
    rw [List.mem_filter, List.mem_singleton, decide_eq_true_eq]
    constructor
    · rintro ⟨inside, same⟩
      exact List.inj_on_of_nodup_map sound.nodup inside member same
    · rintro rfl
      exact ⟨member, rfl⟩
  have split := List.filter_append_perm (fun x : Slot α => decide (x.number = conn.slot)) s.slots
  rw [alone] at split
  rw [sound.call_eq, (sound.disconnect conn).call_eq, sound.slots_disconnect]
  exact (split.symm.map fun x => x.cb)

end Signal

namespace ListenerHandler
variable {α : Type}

inductive Call (α : Type)
  | connect (selfId : UInt64) (listener : α)
  | connectOpposite (selfId oppoId : UInt64) (listener : α)
  | disconnect (selfId : UInt64)
  | disconnectOpposite (selfId oppoId : UInt64)
  | run (sender : UInt64)

/-- The handler after `Run`, which lets each signal that it calls clear its slots. -/
def afterRun (h : ListenerHandler α) (sender : UInt64) : ListenerHandler α :=
  let h := { h with signal := h.signal.afterCall }
  match h.signals.lookup sender with
  | none => h
  | some signal => { h with signals := h.signals.insert sender signal.afterCall }

def apply (h : ListenerHandler α) : Call α → ListenerHandler α
  | .connect selfId listener => h.connect selfId listener
  | .connectOpposite selfId oppoId listener => h.connectOpposite selfId oppoId listener
  | .disconnect selfId => h.disconnect selfId
  | .disconnectOpposite selfId oppoId => h.disconnectOpposite selfId oppoId
  | .run sender => h.afterRun sender

def after (calls : List (Call α)) : ListenerHandler α :=
  calls.foldl apply empty

/-- A listener with the ids under which it was connected. -/
structure Entry (α : Type) where
  selfId : UInt64
  oppo : Option UInt64
  listener : α

def Entry.HasIds (e : Entry α) (oppo : Option UInt64) (selfId : UInt64) : Prop :=
  e.oppo = oppo ∧ e.selfId = selfId

instance (e : Entry α) (oppo : Option UInt64) (selfId : UInt64) : Decidable (e.HasIds oppo selfId) :=
  inferInstanceAs (Decidable (_ ∧ _))

/-- The listeners that are connected after the calls so far, and those whose place another one took under the same
ids. -/
structure Ledger (α : Type) where
  current : List (Entry α)
  replaced : List (Entry α)

namespace Ledger

def empty : Ledger α :=
  ⟨[], []⟩

def under (l : Ledger α) (oppo : Option UInt64) (selfId : UInt64) : List (Entry α) :=
  l.current.filter fun e => e.HasIds oppo selfId

def others (l : Ledger α) (oppo : Option UInt64) (selfId : UInt64) : List (Entry α) :=
  l.current.filter fun e => !decide (e.HasIds oppo selfId)

def connect (l : Ledger α) (oppo : Option UInt64) (selfId : UInt64) (listener : α) : Ledger α where
  current := l.others oppo selfId ++ [⟨selfId, oppo, listener⟩]
  replaced := l.replaced ++ l.under oppo selfId

def disconnect (l : Ledger α) (oppo : Option UInt64) (selfId : UInt64) : Ledger α :=
  { l with current := l.others oppo selfId }

def apply (l : Ledger α) : Call α → Ledger α
  | .connect selfId listener => l.connect none selfId listener
  | .connectOpposite selfId oppoId listener => l.connect (some oppoId) selfId listener
  | .disconnect selfId => l.disconnect none selfId
  | .disconnectOpposite selfId oppoId => l.disconnect (some oppoId) selfId
  | .run _ => l

def after (calls : List (Call α)) : Ledger α :=
  calls.foldl apply empty

/-- The listeners of a list of entries that a message of the sender concerns. -/
def concerned (entries : List (Entry α)) (sender : UInt64) : List α :=
  (entries.filter fun e => e.oppo = none ∨ e.oppo = some sender).map fun e => e.listener

/-- The call connects no listener under ids under which one is connected. -/
def Fresh (l : Ledger α) : Call α → Prop
  | .connect selfId _ => l.under none selfId = []
  | .connectOpposite selfId oppoId _ => l.under (some oppoId) selfId = []
  | _ => True

/-- Every call is fresh when it is made. -/
def AllFresh : Ledger α → List (Call α) → Prop
  | _, [] => True
  | l, call :: calls => l.Fresh call ∧ (l.apply call).AllFresh calls

end Ledger

/-- The listeners of a list of entries for one opposite, or for none. -/
def placed (entries : List (Entry α)) (oppo : Option UInt64) : List α :=
  (entries.filter fun e => e.oppo = oppo).map fun e => e.listener

namespace Ledger
variable {l : Ledger α} {oppo : Option UInt64} {selfId : UInt64}

/-- No two listeners are connected under the same ids. -/
def Unique (l : Ledger α) : Prop :=
  l.current.Pairwise fun e e' => ¬ e'.HasIds e.oppo e.selfId

theorem mem_under {e : Entry α} : e ∈ l.under oppo selfId ↔ e ∈ l.current ∧ e.HasIds oppo selfId := by
  rw [under, List.mem_filter, decide_eq_true_eq]

theorem mem_others {e : Entry α} : e ∈ l.others oppo selfId ↔ e ∈ l.current ∧ ¬ e.HasIds oppo selfId := by
  rw [others, List.mem_filter, Bool.not_eq_true', decide_eq_false_iff_not]

theorem under_append_others (l : Ledger α) (oppo : Option UInt64) (selfId : UInt64) :
    (l.under oppo selfId ++ l.others oppo selfId).Perm l.current :=
  List.filter_append_perm (fun e : Entry α => decide (e.HasIds oppo selfId)) l.current

theorem Unique.others (unique : l.Unique) (oppo : Option UInt64) (selfId : UInt64) :
    (l.disconnect oppo selfId).Unique :=
  unique.sublist List.filter_sublist

theorem Unique.connect (unique : l.Unique) (oppo : Option UInt64) (selfId : UInt64) (listener : α) :
    (l.connect oppo selfId listener).Unique := by
  refine List.pairwise_append.mpr ⟨unique.others oppo selfId, List.pairwise_singleton _ _, ?_⟩
  intro e member e' new same
  rw [List.mem_singleton.mp new] at same
  exact (mem_others.mp member).2 ⟨same.1.symm, same.2.symm⟩

theorem Unique.under_eq (unique : l.Unique) {e : Entry α} (member : e ∈ l.current) (ids : e.HasIds oppo selfId) :
    l.under oppo selfId = [e] := by
  have own : e ∈ l.under oppo selfId := mem_under.mpr ⟨member, ids⟩
  have apart : (l.under oppo selfId).Pairwise fun e e' => ¬ e'.HasIds e.oppo e.selfId :=
    unique.sublist List.filter_sublist
  have here : ∀ e' ∈ l.under oppo selfId, e'.HasIds oppo selfId := fun e' inside => (mem_under.mp inside).2
  revert own apart here
  cases l.under oppo selfId with
  | nil => exact fun own => absurd own List.not_mem_nil
  | cons first rest =>
    intro own apart here
    have none : rest = [] := by
      refine List.eq_nil_iff_forall_not_mem.mpr fun e' inside => ?_
      have first_ids := here first (List.mem_cons_self ..)
      have ids' := here e' (List.mem_cons_of_mem _ inside)
      exact (List.pairwise_cons.mp apart).1 e' inside
        ⟨ids'.1.trans first_ids.1.symm, ids'.2.trans first_ids.2.symm⟩
    rw [none] at own ⊢
    rw [List.mem_singleton.mp own]

open scoped List in
/-- The entries for an opposite after a connect: a replaced one stays among them. -/
theorem placed_connect (l : Ledger α) (oppo oppo' : Option UInt64) (selfId : UInt64) (listener : α) :
    (placed ((l.connect oppo selfId listener).current ++ (l.connect oppo selfId listener).replaced) oppo').Perm
      (placed (l.current ++ l.replaced) oppo' ++ if oppo' = oppo then [listener] else []) := by
  have moved : ((l.connect oppo selfId listener).current ++ (l.connect oppo selfId listener).replaced).Perm
      (l.current ++ l.replaced ++ [⟨selfId, oppo, listener⟩]) := by
    have whole := l.under_append_others oppo selfId
    calc (l.others oppo selfId ++ [⟨selfId, oppo, listener⟩]) ++ (l.replaced ++ l.under oppo selfId)
        ~ (l.replaced ++ l.under oppo selfId) ++ (l.others oppo selfId ++ [⟨selfId, oppo, listener⟩]) :=
          List.perm_append_comm
      _ ~ l.replaced ++ (l.under oppo selfId ++ l.others oppo selfId) ++ [⟨selfId, oppo, listener⟩] := by
          simp only [List.append_assoc, List.Perm.refl]
      _ ~ l.replaced ++ l.current ++ [⟨selfId, oppo, listener⟩] := (whole.append_left _).append_right _
      _ ~ l.current ++ l.replaced ++ [⟨selfId, oppo, listener⟩] := List.perm_append_comm.append_right _
  refine ((moved.filter _).map _).trans ?_
  rw [List.filter_append, List.map_append]
  by_cases same : oppo' = oppo
  · simp [placed, same]
  · have other : ¬ oppo = oppo' := fun back => same back.symm
    simp [placed, same, other]

theorem Unique.placed_disconnect (unique : l.Unique) {e : Entry α} (member : e ∈ l.current)
    (ids : e.HasIds oppo selfId) :
    (placed (l.current ++ l.replaced) oppo).Perm
      (e.listener :: placed ((l.disconnect oppo selfId).current ++ l.replaced) oppo) := by
  have whole := l.under_append_others oppo selfId
  rw [unique.under_eq member ids] at whole
  have split : (l.current ++ l.replaced).Perm (e :: (l.others oppo selfId ++ l.replaced)) :=
    whole.symm.append_right _
  refine ((split.filter _).map _).trans ?_
  rw [List.filter_cons_of_pos (by simpa using ids.1)]
  exact .refl _

theorem placed_disconnect_other (l : Ledger α) {oppo oppo' : Option UInt64} (selfId : UInt64) (other : oppo' ≠ oppo) :
    placed ((l.disconnect oppo selfId).current ++ l.replaced) oppo' = placed (l.current ++ l.replaced) oppo' := by
  unfold placed disconnect others
  rw [List.filter_append, List.filter_append, List.filter_filter]
  congr 2
  refine List.filter_congr fun e _ => ?_
  by_cases here : e.oppo = oppo'
  · have apart : ¬ e.oppo = oppo := fun there => other (here.symm.trans there)
    simp [Entry.HasIds, here, here ▸ apart]
  · simp [here]

end Ledger

/-- Each connected listener has its own slot and a connection that knows it; the replaced ones have a slot that no
connection knows. -/
structure Tracks (h : ListenerHandler α) (l : Ledger α) : Prop where
  sound : ∀ oppo, (h.signalAt oppo).Sound
  called : ∀ oppo, (h.signalAt oppo).call.Perm (placed (l.current ++ l.replaced) oppo)
  slot : ∀ e ∈ l.current, ∃ conn slot, h.connAt e.oppo e.selfId = some conn ∧
    slot ∈ (h.signalAt e.oppo).slots ∧ slot.number = conn.slot ∧ slot.cb = e.listener
  entry : ∀ oppo selfId conn, h.connAt oppo selfId = some conn → ∃ e ∈ l.current, e.HasIds oppo selfId
  apart : ∀ oppo selfId selfId' conn, h.connAt oppo selfId = some conn → h.connAt oppo selfId' = some conn →
    selfId' = selfId
  unique : l.Unique

variable {h : ListenerHandler α} {l : Ledger α}

theorem tracks_empty : Tracks (empty : ListenerHandler α) .empty where
  sound := by
    intro oppo
    cases oppo <;> exact Signal.sound_empty
  called := by
    intro oppo
    cases oppo <;> exact .refl _
  slot := by simp [Ledger.empty]
  entry := by
    intro oppo selfId conn known
    cases oppo <;> simp [empty, connAt, Table.get_empty] at known
    cases known
  apart := by
    intro oppo selfId selfId' conn known
    cases oppo <;> simp [empty, connAt, Table.get_empty] at known
    cases known
  unique := List.Pairwise.nil

/-- Every connection is older than the next slot of its signal. -/
theorem Tracks.conn_below (tracks : Tracks h l) {oppo : Option UInt64} {selfId : UInt64} {conn : Connection}
    (known : h.connAt oppo selfId = some conn) : conn.slot < (h.signalAt oppo).next := by
  obtain ⟨e, member, rfl, rfl⟩ := tracks.entry oppo selfId conn known
  obtain ⟨conn', slot, known', inside, number, _⟩ := tracks.slot e member
  cases known.symm.trans known'
  rw [← number]
  exact (tracks.sound e.oppo).below slot inside

theorem Tracks.connect (tracks : Tracks h l) (oppo : Option UInt64) (selfId : UInt64) (listener : α) :
    Tracks (h.connectAt oppo selfId listener) (l.connect oppo selfId listener) where
  sound := by
    intro oppo'
    rw [signalAt_connectAt]
    split
    · exact (tracks.sound oppo).connect listener
    · exact tracks.sound oppo'
  called := by
    intro oppo'
    refine .trans ?_ (l.placed_connect oppo oppo' selfId listener).symm
    rw [signalAt_connectAt]
    split
    · rename_i same
      rw [Signal.call_connect, same]
      exact (tracks.called oppo).append_right _
    · rw [List.append_nil]
      exact tracks.called oppo'
  slot := by
    intro e member
    rw [connAt_connectAt, signalAt_connectAt]
    rcases List.mem_append.mp member with old | new
    · obtain ⟨inside, other⟩ := Ledger.mem_others.mp old
      obtain ⟨conn, slot, known, held, number, cb⟩ := tracks.slot e inside
      have elsewhere : ¬ (e.oppo = oppo ∧ e.selfId = selfId) := other
      rw [if_neg elsewhere]
      refine ⟨conn, slot, known, ?_, number, cb⟩
      split
      · rename_i same
        exact List.mem_append_left _ (same ▸ held)
      · exact held
    · rw [List.mem_singleton.mp new, if_pos ⟨rfl, rfl⟩, if_pos rfl]
      exact ⟨_, _, rfl, List.mem_append_right _ (List.mem_singleton_self _), rfl, rfl⟩
  entry := by
    intro oppo' selfId' conn known
    by_cases here : oppo' = oppo ∧ selfId' = selfId
    · exact ⟨_, List.mem_append_right _ (List.mem_singleton_self _), here.1.symm, here.2.symm⟩
    · rw [connAt_connectAt, if_neg here] at known
      obtain ⟨e, member, rfl, rfl⟩ := tracks.entry oppo' selfId' conn known
      exact ⟨e, List.mem_append_left _ (Ledger.mem_others.mpr ⟨member, here⟩), rfl, rfl⟩
  apart := by
    intro oppo' first second conn known known'
    rw [connAt_connectAt] at known known'
    split at known
    · rename_i here
      cases known
      split at known'
      · rename_i there
        rw [here.2, there.2]
      · exact absurd (tracks.conn_below known') (by rw [here.1]; exact Nat.lt_irrefl _)
    · split at known'
      · rename_i there
        cases known'
        exact absurd (tracks.conn_below known) (by rw [there.1]; exact Nat.lt_irrefl _)
      · exact tracks.apart oppo' first second conn known known'
  unique := tracks.unique.connect oppo selfId listener

/-- A disconnect of ids under which no listener is connected changes nothing. -/
theorem Tracks.disconnect_absent (tracks : Tracks h l) {oppo : Option UInt64} {selfId : UInt64}
    (absent : h.connAt oppo selfId = none) : l.disconnect oppo selfId = l := by
  have all : l.others oppo selfId = l.current := by
    refine List.filter_eq_self.mpr fun e member => ?_
    obtain ⟨conn, slot, known, _⟩ := tracks.slot e member
    rw [Bool.not_eq_true', decide_eq_false_iff_not]
    rintro ⟨rfl, rfl⟩
    rw [absent] at known
    cases known
  rw [Ledger.disconnect, all]

theorem Tracks.disconnect_present (tracks : Tracks h l) {oppo : Option UInt64} {selfId : UInt64} {conn : Connection}
    (found : h.connAt oppo selfId = some conn) :
    Tracks (h.disconnectAt oppo selfId) (l.disconnect oppo selfId) where
  sound := by
    intro oppo'
    rw [signalAt_disconnectAt found]
    split
    · exact (tracks.sound oppo).disconnect conn
    · exact tracks.sound oppo'
  called := by
    intro oppo'
    rw [signalAt_disconnectAt found]
    split
    · rename_i same
      obtain ⟨e, member, ids⟩ := tracks.entry oppo selfId conn found
      obtain ⟨conn', slot, known, held, number, cb⟩ := tracks.slot e member
      rw [ids.1, ids.2, found] at known
      cases known
      rw [ids.1] at held
      have before := (tracks.sound oppo).call_disconnect held number
      have ledger := tracks.unique.placed_disconnect member ids
      rw [cb] at before
      rw [same]
      exact (before.symm.trans ((tracks.called oppo).trans ledger)).cons_inv
    · rename_i other
      have same := l.placed_disconnect_other selfId other
      exact same.symm ▸ tracks.called oppo'
  slot := by
    intro e member
    obtain ⟨inside, other⟩ := Ledger.mem_others.mp member
    obtain ⟨conn', slot, known, held, number, cb⟩ := tracks.slot e inside
    have elsewhere : ¬ (e.oppo = oppo ∧ e.selfId = selfId) := other
    rw [connAt_disconnectAt found, if_neg elsewhere, signalAt_disconnectAt found]
    refine ⟨conn', slot, known, ?_, number, cb⟩
    split
    · rename_i same
      rw [same] at known held
      have different : ¬ slot.number = conn.slot := by
        intro equal
        have conns : conn' = conn := congrArg Connection.mk (number.symm.trans equal)
        exact other ⟨same, tracks.apart oppo selfId e.selfId conn found (conns ▸ known)⟩
      rw [(tracks.sound oppo).slots_disconnect]
      exact List.mem_filter.mpr ⟨held, by simpa using different⟩
    · exact held
  entry := by
    intro oppo' selfId' conn' known
    rw [connAt_disconnectAt found] at known
    split at known
    · cases known
    · rename_i other
      obtain ⟨e, member, rfl, rfl⟩ := tracks.entry oppo' selfId' conn' known
      exact ⟨e, Ledger.mem_others.mpr ⟨member, other⟩, rfl, rfl⟩
  apart := by
    intro oppo' first second conn' known known'
    rw [connAt_disconnectAt found] at known known'
    split at known
    · cases known
    · split at known'
      · cases known'
      · exact tracks.apart oppo' first second conn' known known'
  unique := tracks.unique.others oppo selfId

theorem Tracks.disconnect (tracks : Tracks h l) (oppo : Option UInt64) (selfId : UInt64) :
    Tracks (h.disconnectAt oppo selfId) (l.disconnect oppo selfId) := by
  cases found : h.connAt oppo selfId with
  | none =>
    rw [disconnectAt_none found, tracks.disconnect_absent found]
    exact tracks
  | some conn => exact tracks.disconnect_present found

/-- A run finds no slot to clear. -/
theorem Tracks.signalAt_afterRun (tracks : Tracks h l) (sender : UInt64) (oppo : Option UInt64) :
    (h.afterRun sender).signalAt oppo = h.signalAt oppo := by
  have plain : (h.signal.afterCall) = h.signal := (tracks.sound none).afterCall_eq
  have own : (h.signals.get sender).afterCall = h.signals.get sender := (tracks.sound (some sender)).afterCall_eq
  cases found : h.signals.lookup sender with
  | none => simp only [afterRun, plain, found]
  | some signal =>
    rw [Table.get_of_lookup found] at own
    simp only [afterRun, plain, found, own]
    cases oppo with
    | none => rfl
    | some oppo =>
      simp only [signalAt, Table.get_insert_eq]
      split
      · rename_i same
        rw [same, Table.get_of_lookup found]
      · rfl

theorem connAt_afterRun (h : ListenerHandler α) (sender : UInt64) (oppo : Option UInt64) (selfId : UInt64) :
    (h.afterRun sender).connAt oppo selfId = h.connAt oppo selfId := by
  cases found : h.signals.lookup sender <;> cases oppo <;> simp [afterRun, found, connAt]

theorem Tracks.afterRun (tracks : Tracks h l) (sender : UInt64) : Tracks (h.afterRun sender) l where
  sound := by
    simp only [tracks.signalAt_afterRun]
    exact tracks.sound
  called := by
    simp only [tracks.signalAt_afterRun]
    exact tracks.called
  slot := by
    simp only [tracks.signalAt_afterRun, connAt_afterRun]
    exact tracks.slot
  entry := by
    simp only [connAt_afterRun]
    exact tracks.entry
  apart := by
    simp only [connAt_afterRun]
    exact tracks.apart
  unique := tracks.unique

theorem Tracks.apply (tracks : Tracks h l) (call : Call α) : Tracks (h.apply call) (l.apply call) := by
  cases call with
  | connect selfId listener => exact tracks.connect none selfId listener
  | connectOpposite selfId oppoId listener => exact tracks.connect (some oppoId) selfId listener
  | disconnect selfId => exact tracks.disconnect none selfId
  | disconnectOpposite selfId oppoId => exact tracks.disconnect (some oppoId) selfId
  | run sender => exact tracks.afterRun sender

theorem Tracks.foldl (tracks : Tracks h l) (calls : List (Call α)) :
    Tracks (calls.foldl ListenerHandler.apply h) (calls.foldl Ledger.apply l) := by
  induction calls generalizing h l with
  | nil => exact tracks
  | cons call calls ih => exact ih (tracks.apply call)

theorem tracks_after (calls : List (Call α)) : Tracks (after calls) (Ledger.after calls) :=
  tracks_empty.foldl calls

namespace Ledger

/-- A message of the sender concerns the entries without an opposite and those for the sender. -/
theorem concerned_perm (entries : List (Entry α)) (sender : UInt64) :
    (concerned entries sender).Perm (placed entries none ++ placed entries (some sender)) := by
  have split := List.filter_append_perm (fun e : Entry α => decide (e.oppo = none))
    (entries.filter fun e => e.oppo = none ∨ e.oppo = some sender)
  rw [List.filter_filter, List.filter_filter] at split
  have without : (entries.filter fun e => decide (e.oppo = none) && decide (e.oppo = none ∨ e.oppo = some sender)) =
      entries.filter fun e => e.oppo = none := by
    refine List.filter_congr fun e _ => ?_
    by_cases none : e.oppo = none <;> simp [none]
  have opposite : (entries.filter fun e => !decide (e.oppo = none) && decide (e.oppo = none ∨ e.oppo = some sender)) =
      entries.filter fun e => e.oppo = some sender := by
    refine List.filter_congr fun e _ => ?_
    by_cases none : e.oppo = none <;> simp [none]
  rw [without, opposite] at split
  rw [placed, placed, ← List.map_append]
  exact split.symm.map _

/-- Entries that concern no sender are no entries. -/
theorem eq_nil_of_concerned {entries : List (Entry α)} (none : ∀ sender, concerned entries sender = []) :
    entries = [] := by
  refine List.eq_nil_iff_forall_not_mem.mpr fun e member => ?_
  have concerns : e.oppo = Option.none ∨ e.oppo = some (e.oppo.getD 0) := by
    cases e.oppo with
    | none => exact Or.inl rfl
    | some oppo => exact Or.inr rfl
  have called : e.listener ∈ concerned entries (e.oppo.getD 0) :=
    List.mem_map_of_mem (List.mem_filter.mpr ⟨member, by simpa using concerns⟩)
  rw [none] at called
  exact List.not_mem_nil called

theorem replaced_apply (l : Ledger α) (call : Call α) :
    (l.apply call).replaced = [] ↔ l.replaced = [] ∧ l.Fresh call := by
  cases call with
  | connect selfId listener => exact List.append_eq_nil_iff
  | connectOpposite selfId oppoId listener => exact List.append_eq_nil_iff
  | disconnect selfId => exact (and_iff_left trivial).symm
  | disconnectOpposite selfId oppoId => exact (and_iff_left trivial).symm
  | run sender => exact (and_iff_left trivial).symm

/-- A replaced listener is never taken out again. -/
theorem replaced_foldl (l : Ledger α) (calls : List (Call α)) :
    (calls.foldl apply l).replaced = [] ↔ l.replaced = [] ∧ l.AllFresh calls := by
  induction calls generalizing l with
  | nil => exact (and_iff_left trivial).symm
  | cons call calls ih =>
    rw [List.foldl_cons, ih, replaced_apply, and_assoc]
    rfl

end Ledger

/-- What a run calls: the connected listeners that the message concerns, and the replaced ones too. -/
theorem Tracks.run (tracks : Tracks h l) (sender : UInt64) :
    (h.run sender).Perm (Ledger.concerned (l.current ++ l.replaced) sender) := by
  have whole := Ledger.concerned_perm (l.current ++ l.replaced) sender
  have called := (tracks.called none).append (tracks.called (some sender))
  rw [run_eq]
  exact called.trans whole.symm

theorem run_perm (calls : List (Call α)) (sender : UInt64) :
    ((after calls).run sender).Perm
      (Ledger.concerned (Ledger.after calls).current sender ++
        Ledger.concerned (Ledger.after calls).replaced sender) := by
  refine ((tracks_after calls).run sender).trans ?_
  rw [Ledger.concerned, List.filter_append, List.map_append]
  exact .refl _

/-- Every run after the calls is exact if and only if no call connected a listener under ids under which one was
connected. -/
theorem runs_exact (calls : List (Call α)) :
    (∀ sender, ((after calls).run sender).Perm (Ledger.concerned (Ledger.after calls).current sender)) ↔
      Ledger.empty.AllFresh calls := by
  have fresh : (Ledger.after calls).replaced = [] ↔ Ledger.empty.AllFresh calls :=
    (Ledger.replaced_foldl .empty calls).trans (and_iff_right rfl)
  rw [← fresh]
  constructor
  · intro each
    refine Ledger.eq_nil_of_concerned fun sender => ?_
    have lengths := ((run_perm calls sender).symm.trans (each sender)).length_eq
    rw [List.length_append] at lengths
    exact List.length_eq_zero_iff.mp (by omega)
  · intro none sender
    have all := run_perm calls sender
    have empty : Ledger.concerned ([] : List (Entry α)) sender = [] := rfl
    rwa [none, empty, List.append_nil] at all

/-- A second connect under the same id: the first listener is called ever after, even when the id is disconnected. -/
theorem replaced_called :
    let connects : List (Call Nat) := [.connect 1 10, .connect 1 11]
    (after connects).run 5 = [10, 11] ∧ Ledger.concerned (Ledger.after connects).current 5 = [11] ∧
      (after (connects ++ [.disconnect 1])).run 5 = [10] ∧
      Ledger.concerned (Ledger.after (connects ++ [.disconnect 1])).current 5 = [] ∧
      ¬ ∀ sender, ((after connects).run sender).Perm (Ledger.concerned (Ledger.after connects).current sender) := by
  intro connects
  have both : (after connects).run 5 = [10, 11] := by decide
  have asked : Ledger.concerned (Ledger.after connects).current 5 = [11] := by decide
  refine ⟨both, asked, by decide, by decide, fun each => ?_⟩
  have lengths := (each 5).length_eq
  rw [both, asked] at lengths
  exact absurd lengths (by decide)

end ListenerHandler

end CyberRT
