import CyberRT.Node.ReaderTopology
import CyberRT.Transport.ListenerRegistration

namespace CyberRT.ReaderTopology
open Concur
variable {attr : RoleAttributes} {channelId : UInt64} {w : Writers attr.getChannelName channelId}
  {m m' : Shared} {l l' k : At} {c : Input} {id id' : UInt64} {operateType : OperateType}

/-- A thread that calls the listeners for no writer. -/
def At.Quiet (l : At) : Prop :=
  l = .idle ∨ ∃ msg, l = .notify msg ∧ msg.roleType = .reader

/-- The message of a reader changes no writer in the registry. -/
theorem announce_spec (m : Shared) (roleAttr : RoleAttributes) (operateType : OperateType) :
    ∃ manager : ChannelManager, manager.channelWriters = m.manager.channelWriters ∧
      (announce m roleAttr operateType).1 = { m with manager } ∧ (announce m roleAttr operateType).2.Quiet := by
  unfold announce
  split
  · exact ⟨m.manager, rfl, rfl, Or.inl rfl⟩
  · rename_i msg sent
    have role : msg.roleType = .reader := by
      simp only [ChannelManager.localMsg] at sent
      split at sent
      · cases sent
      · split at sent
        · cases sent
        · split at sent
          · cases sent
          · cases sent
            rfl
    refine ⟨m.manager.dispose msg, ?_, rfl, Or.inr ⟨msg, rfl, role⟩⟩
    simp only [ChannelManager.dispose]
    split <;> simp [ChannelManager.disposeJoin, ChannelManager.disposeLeave, role]

inductive Moves (w : Writers attr.getChannelName channelId) (m : Shared) : At → Input → Shared → At → Prop
  | join (roleAttr : RoleAttributes) (channel : roleAttr.getChannelName = attr.getChannelName) :
      Moves w m .idle (.joinTheTopology roleAttr) { m with signal := (m.signal.connect roleAttr).2 }
        (.getWriters ⟨roleAttr, (m.signal.connect roleAttr).1⟩)
  | getWriters (reader : Reader) :
      Moves w m (.getWriters reader) .next m (.enable reader (m.manager.channelWriters.search channelId))
  | enable (reader : Reader) (writer : RoleAttributes) (rest : List RoleAttributes) :
      Moves w m (.enable reader (writer :: rest)) .next { m with receiver := m.receiver.enable writer }
        (.enable reader rest)
  | joined (reader : Reader) (manager : ChannelManager) (l' : At)
      (same : manager.channelWriters = m.manager.channelWriters) (quiet : l'.Quiet) :
      Moves w m (.enable reader []) .next { m with manager, joined := reader :: m.joined } l'
  | remove (reader : Reader) (member : reader ∈ m.joined) :
      Moves w m .idle (.leaveTheTopology reader)
        { m with signal := m.signal.disconnect reader.changeConn, joined := m.joined.erase reader } (.leave reader)
  | left (reader : Reader) (manager : ChannelManager) (l' : At)
      (same : manager.channelWriters = m.manager.channelWriters) (quiet : l'.Quiet) :
      Moves w m (.leave reader) .next { m with manager } l'
  | change (operateType : OperateType) (id : UInt64) (turn : Registered w m id ↔ operateType = .leave) :
      Moves w m .idle (.change operateType id)
        { m with manager := m.manager.dispose (changeMsg w operateType id) } (.notify (changeMsg w operateType id))
  | notify (msg : ChangeMsg) : Moves w m (.notify msg) .next m (.call msg m.signal.slots)
  | called (msg : ChangeMsg) (slot : Slot RoleAttributes) (rest : List (Slot RoleAttributes))
      (connected : Connected m.signal slot) :
      Moves w m (.call msg (slot :: rest)) .next { m with receiver := onChannelChange slot.cb m.receiver msg }
        (.call msg rest)
  | skipped (msg : ChangeMsg) (slot : Slot RoleAttributes) (rest : List (Slot RoleAttributes))
      (disconnected : ¬ Connected m.signal slot) : Moves w m (.call msg (slot :: rest)) .next m (.call msg rest)
  | ended (msg : ChangeMsg) : Moves w m (.call msg []) .next { m with signal := m.signal.afterCall } .idle

theorem act_moves (step : act w m l c = some (m', l')) : Moves w m l c m' l' := by
  unfold act at step
  split at step
  · split at step
    · rename_i roleAttr channel
      cases step
      exact .join roleAttr channel
    · cases step
  · cases step
    exact .getWriters _
  · cases step
    exact .enable ..
  · rename_i reader
    obtain ⟨manager, same, shared, quiet⟩ := announce_spec { m with joined := reader :: m.joined } reader.roleAttr .join
    have both := Option.some.inj step
    rw [both] at shared quiet
    dsimp only at shared
    rw [shared]
    exact .joined reader manager l' same quiet
  · split at step
    · rename_i reader member
      cases step
      exact .remove reader member
    · cases step
  · rename_i reader
    obtain ⟨manager, same, shared, quiet⟩ := announce_spec m reader.roleAttr .leave
    have both := Option.some.inj step
    rw [both] at shared quiet
    dsimp only at shared
    rw [shared]
    exact .left reader manager l' same quiet
  · split at step
    · rename_i operateType id turn
      cases step
      exact .change operateType id turn
    · cases step
  · cases step
    exact .notify _
  · split at step
    · rename_i msg slot rest connected
      cases step
      exact .called msg slot rest connected
    · rename_i msg slot rest disconnected
      cases step
      exact .skipped msg slot rest disconnected
  · cases step
    exact .ended _
  · cases step

theorem getId_attr (w : Writers attr.getChannelName channelId) (id : UInt64) : (w.attr id).getId = id := by
  rw [RoleAttributes.getId, w.own, Option.getD_some]

theorem attr_inj (same : w.attr id = w.attr id') : id = id' := by
  have ids := congrArg RoleAttributes.getId same
  rwa [getId_attr, getId_attr] at ids

/-- A LEAVE removes the writer itself and no other. -/
theorem matchAttr_attr : RoleWriter.matchAttr (w.attr id') (w.attr id) = true ↔ id' = id := by
  constructor
  · intro hit
    have ids := (RoleWriter.matchAttr_iff.mp hit).2.1 (by rw [w.own]; rfl)
    rwa [getId_attr, getId_attr, eq_comm] at ids
  · rintro rfl
    exact RoleWriter.matchAttr_iff.mpr ⟨fun _ => rfl, fun _ => rfl, fun _ => rfl, fun _ => rfl, fun _ => rfl⟩

theorem channelWriters_change (manager : ChannelManager) (operateType : OperateType) (id : UInt64) :
    (manager.dispose (changeMsg w operateType id)).channelWriters =
      if operateType = .join then manager.channelWriters.add (w.attr id).getChannelId (w.attr id)
      else manager.channelWriters.remove (w.attr id).getChannelId (w.attr id) := by
  cases operateType <;>
    simp [ChannelManager.dispose, ChannelManager.disposeJoin, ChannelManager.disposeLeave, changeMsg]

theorem registered_change (m : Shared) (operateType : OperateType) (id id' : UInt64) :
    Registered w { m with manager := m.manager.dispose (changeMsg w operateType id) } id' ↔
      if id' = id then operateType = .join else Registered w m id' := by
  simp only [Registered, channelWriters_change]
  cases operateType with
  | join =>
    rw [if_pos rfl, MultiValueWarehouse.add, List.mem_append, List.mem_singleton]
    split
    · rename_i same
      rw [same]
      exact iff_of_true (Or.inr rfl) rfl
    · rename_i other
      exact or_iff_left fun same => other (attr_inj (Prod.mk.inj same).2)
  | leave =>
    rw [if_neg (by decide), MultiValueWarehouse.remove, List.mem_filter]
    split
    · rename_i same
      refine iff_of_false ?_ (by decide)
      rw [same]
      simp [matchAttr_attr]
    · rename_i other
      refine and_iff_left ?_
      rw [Bool.not_eq_true', Bool.and_eq_false_imp]
      exact fun _ => Bool.eq_false_iff.mpr fun hit => other (matchAttr_attr.mp hit)

/-- The listener of a reader is connected. -/
def Held (signal : Signal RoleAttributes) (reader : Reader) : Prop :=
  ∃ slot ∈ signal.slots, slot.number = reader.changeConn.slot

/-- The reader that joins on a thread, and the message for which the thread calls the listeners. -/
def At.reader : At → Option Reader
  | .getWriters reader | .enable reader _ => some reader
  | _ => none

def At.msg : At → Option ChangeMsg
  | .notify msg | .call msg _ => some msg
  | _ => none

structure Inv (w : Writers attr.getChannelName channelId) (m : Shared) : Prop where
  signal : m.signal.Sound
  channel : ∀ slot ∈ m.signal.slots, slot.cb.getChannelName = attr.getChannelName
  own : m.receiver.attr = attr
  receiver : m.receiver.Sound w.attr
  writers : ∀ item ∈ m.manager.channelWriters, ∃ id, item = ((w.attr id).getChannelId, w.attr id)
  held : ∀ reader ∈ m.joined, Held m.signal reader
  distinct : (m.joined.map fun reader => reader.changeConn.slot).Nodup

theorem Inv.on (inv : Inv w m) (on : (w.attr id).getChannelName = attr.getChannelName) :
    (w.attr id).getChannelName = m.receiver.attr.getChannelName :=
  on.trans (congrArg RoleAttributes.getChannelName inv.own.symm)

structure Holds (w : Writers attr.getChannelName channelId) (m : Shared) (l : At) : Prop where
  held : ∀ reader, l.reader = some reader → Held m.signal reader ∧
    ∀ other ∈ m.joined, other.changeConn.slot ≠ reader.changeConn.slot
  writers : ∀ reader rest, l = .enable reader rest → ∀ writer ∈ rest, ∃ id, writer = w.attr id ∧
    (w.attr id).getChannelName = attr.getChannelName
  msg : ∀ msg, l.msg = some msg → msg.roleType = .writer → ∃ operateType id, msg = changeMsg w operateType id
  slots : ∀ msg rest, l = .call msg rest → ∀ slot ∈ rest, slot.cb.getChannelName = attr.getChannelName

def Apart (l k : At) : Prop :=
  ∀ reader reader', l.reader = some reader → k.reader = some reader' →
    reader.changeConn.slot ≠ reader'.changeConn.slot

theorem Apart.symm (apart : Apart l k) : Apart k l :=
  fun reader reader' at_ at_' same => apart reader' reader at_' at_ same.symm

/-- Removing the listener of one reader leaves that of another. -/
theorem Held.disconnect {signal : Signal RoleAttributes} (sound : signal.Sound) {reader : Reader}
    (held : Held signal reader) {conn : Connection} (other : reader.changeConn.slot ≠ conn.slot) :
    Held (signal.disconnect conn) reader := by
  obtain ⟨slot, member, number⟩ := held
  refine ⟨slot, ?_, number⟩
  rw [sound.slots_disconnect]
  exact List.mem_filter.mpr ⟨member, by simpa [number] using other⟩

theorem Held.connect {signal : Signal RoleAttributes} {reader : Reader} (held : Held signal reader)
    (roleAttr : RoleAttributes) : Held (signal.connect roleAttr).2 reader := by
  obtain ⟨slot, member, number⟩ := held
  exact ⟨slot, List.mem_append_left _ member, number⟩

theorem Held.below {signal : Signal RoleAttributes} (sound : signal.Sound) {reader : Reader}
    (held : Held signal reader) : reader.changeConn.slot < signal.next := by
  obtain ⟨slot, member, number⟩ := held
  exact number ▸ sound.below slot member

/-- The listener calls `Enable` or `Disable` for the writers of the channel. -/
theorem onChannelChange_attr {roleAttr : RoleAttributes} {r : HybridReceiver}
    (channel : roleAttr.getChannelName = attr.getChannelName) (operateType : OperateType) (id : UInt64) :
    onChannelChange roleAttr r (changeMsg w operateType id) =
      if (w.attr id).getChannelName = attr.getChannelName then
        if operateType = .join then r.enable (w.attr id) else r.disable (w.attr id)
      else r := by
  cases operateType <;> by_cases on : (w.attr id).getChannelName = attr.getChannelName <;>
    simp [onChannelChange, changeMsg, channel, on]

theorem onChannelChange_other {roleAttr : RoleAttributes} {r : HybridReceiver} {msg : ChangeMsg}
    (other : msg.roleType ≠ .writer) : onChannelChange roleAttr r msg = r :=
  if_pos other

theorem onChannelChange_sound {slot : Slot RoleAttributes} {msg : ChangeMsg} (inv : Inv w m)
    (channel : slot.cb.getChannelName = attr.getChannelName)
    (known : msg.roleType = .writer → ∃ operateType id, msg = changeMsg w operateType id) :
    (onChannelChange slot.cb m.receiver msg).Sound w.attr ∧ (onChannelChange slot.cb m.receiver msg).attr = attr := by
  by_cases writer : msg.roleType = .writer
  · obtain ⟨operateType, id, rfl⟩ := known writer
    rw [onChannelChange_attr channel]
    split
    · rename_i on
      have on := inv.on on
      split
      · exact ⟨(inv.receiver.enable (getId_attr w) on).1, (HybridReceiver.enable_frame ..).1.trans inv.own⟩
      · exact ⟨(inv.receiver.disable (getId_attr w) on).1, (HybridReceiver.disable_frame ..).1.trans inv.own⟩
    · exact ⟨inv.receiver, inv.own⟩
  · rw [onChannelChange_other writer]
    exact ⟨inv.receiver, inv.own⟩

/-- A thread that joins no reader and calls no listener knows nothing. -/
theorem holds_outside (reader : l.reader = none) (msg : l.msg = none) : Holds w m l where
  held _ at_ := by
    rw [reader] at at_
    cases at_
  writers _ _ at_ := by
    rw [at_] at reader
    cases reader
  msg _ at_ := by
    rw [msg] at at_
    cases at_
  slots _ _ at_ := by
    rw [at_] at msg
    cases msg

theorem At.Quiet.holds (quiet : l.Quiet) : Holds w m l := by
  rcases quiet with rfl | ⟨msg, rfl, role⟩
  · exact holds_outside rfl rfl
  · refine ⟨fun _ at_ => (by cases at_), fun _ _ at_ => (by cases at_), ?_, fun _ _ at_ => (by cases at_)⟩
    rintro _ ⟨⟩ writer
    rw [role] at writer
    cases writer

theorem Inv.step (inv : Inv w m) (holds : Holds w m l) (moves : Moves w m l c m' l') : Inv w m' := by
  cases moves with
  | join roleAttr channel =>
    refine { inv with signal := inv.signal.connect roleAttr, channel := ?_, held := ?_ }
    · intro slot member
      rcases List.mem_append.mp member with old | new
      · exact inv.channel slot old
      · rw [List.mem_singleton.mp new]
        exact channel
    · exact fun reader member => (inv.held reader member).connect roleAttr
  | getWriters reader => exact inv
  | enable reader writer rest =>
    obtain ⟨id, rfl, on⟩ := holds.writers reader _ rfl writer (List.mem_cons_self ..)
    exact { inv with
      own := (HybridReceiver.enable_frame ..).1.trans inv.own
      receiver := (inv.receiver.enable (getId_attr w) (inv.on on)).1 }
  | joined reader manager l' same quiet =>
    obtain ⟨held, other⟩ := holds.held reader rfl
    refine { inv with writers := same ▸ inv.writers, held := ?_, distinct := ?_ }
    · intro reader' member
      rcases List.mem_cons.mp member with rfl | old
      · exact held
      · exact inv.held reader' old
    · refine List.nodup_cons.mpr ⟨fun member => ?_, inv.distinct⟩
      obtain ⟨reader', old, same⟩ := List.mem_map.mp member
      exact other reader' old same
  | remove reader member =>
    have apart : ∀ reader' ∈ m.joined.erase reader, reader'.changeConn.slot ≠ reader.changeConn.slot := by
      intro reader' rest same
      have readers : m.joined.Nodup := inv.distinct.of_map
      have equal := List.inj_on_of_nodup_map inv.distinct (List.mem_of_mem_erase rest) member same
      exact (readers.mem_erase_iff.mp rest).1 equal
    refine { inv with signal := inv.signal.disconnect reader.changeConn, channel := ?_, held := ?_, distinct := ?_ }
    · intro slot member
      rw [inv.signal.slots_disconnect] at member
      exact inv.channel slot (List.mem_filter.mp member).1
    · intro reader' rest
      exact (inv.held reader' (List.mem_of_mem_erase rest)).disconnect inv.signal (apart reader' rest)
    · exact inv.distinct.sublist (List.erase_sublist.map _)
  | left reader manager l' same quiet => exact { inv with writers := same ▸ inv.writers }
  | change operateType id turn =>
    refine { inv with writers := fun item member => ?_ }
    dsimp only at member
    rw [channelWriters_change] at member
    split at member
    · rcases List.mem_append.mp member with old | new
      · exact inv.writers item old
      · exact ⟨id, List.mem_singleton.mp new⟩
    · exact inv.writers item (List.mem_filter.mp member).1
  | notify msg => exact inv
  | called msg slot rest connected =>
    obtain ⟨sound, own⟩ := onChannelChange_sound inv (holds.slots msg _ rfl slot (List.mem_cons_self ..))
      (holds.msg msg rfl)
    exact { inv with own := own, receiver := sound }
  | skipped msg slot rest disconnected => exact inv
  | ended msg =>
    rw [inv.signal.afterCall_eq]
    exact inv

/-- What a thread knows of the listeners stays while another thread moves. -/
theorem Holds.other (inv : Inv w m) (own : Holds w m l) (holds : Holds w m k) (apart : Apart l k)
    (moves : Moves w m l c m' l') : Holds w m' k ∧ Apart l' k := by
  cases moves with
  | join roleAttr channel =>
    refine ⟨{ holds with held := fun reader at_ => ?_ }, ?_⟩
    · obtain ⟨held, other⟩ := holds.held reader at_
      exact ⟨held.connect roleAttr, other⟩
    · rintro _ reader ⟨⟩ at_
      exact Nat.ne_of_gt ((holds.held reader at_).1.below inv.signal)
  | getWriters reader => exact ⟨holds, apart⟩
  | enable reader writer rest => exact ⟨{ holds with }, apart⟩
  | joined reader manager l' same quiet =>
    refine ⟨{ holds with held := fun reader' at_ => ⟨(holds.held reader' at_).1, fun other member => ?_⟩ }, ?_⟩
    · rcases List.mem_cons.mp member with rfl | old
      · exact apart other reader' rfl at_
      · exact (holds.held reader' at_).2 other old
    · rcases quiet with rfl | ⟨msg, rfl, -⟩ <;> exact fun _ _ at_ => by cases at_
  | remove reader member =>
    refine ⟨{ holds with held := fun reader' at_ => ?_ }, fun _ _ at_ => by cases at_⟩
    obtain ⟨held, other⟩ := holds.held reader' at_
    exact ⟨held.disconnect inv.signal (other reader member).symm,
      fun other' rest => other other' (List.mem_of_mem_erase rest)⟩
  | left reader manager l' same quiet =>
    refine ⟨{ holds with }, ?_⟩
    rcases quiet with rfl | ⟨msg, rfl, -⟩ <;> exact fun _ _ at_ => by cases at_
  | change operateType id turn => exact ⟨{ holds with }, fun _ _ at_ => by cases at_⟩
  | notify msg => exact ⟨holds, fun _ _ at_ => by cases at_⟩
  | called msg slot rest connected => exact ⟨{ holds with }, fun _ _ at_ => by cases at_⟩
  | skipped msg slot rest disconnected => exact ⟨holds, fun _ _ at_ => by cases at_⟩
  | ended msg =>
    rw [inv.signal.afterCall_eq]
    exact ⟨holds, fun _ _ at_ => by cases at_⟩

theorem Holds.step (inv : Inv w m) (holds : Holds w m l) (moves : Moves w m l c m' l') : Holds w m' l' := by
  cases moves with
  | join roleAttr channel =>
    refine ⟨?_, fun _ _ at_ => (by cases at_), fun _ at_ => (by cases at_), fun _ _ at_ => (by cases at_)⟩
    rintro _ ⟨⟩
    refine ⟨⟨_, List.mem_append_right _ (List.mem_singleton_self _), rfl⟩, fun other member => ?_⟩
    exact Nat.ne_of_lt ((inv.held other member).below inv.signal)
  | getWriters reader =>
    refine ⟨holds.held, ?_, fun _ at_ => (by cases at_), fun _ _ at_ => (by cases at_)⟩
    rintro _ _ ⟨⟩ writer member
    obtain ⟨item, found, rfl⟩ := List.mem_map.mp member
    obtain ⟨registered, key⟩ := List.mem_filter.mp found
    obtain ⟨id, rfl⟩ := inv.writers item registered
    exact ⟨id, rfl, (w.agree id).mp (by simpa using key)⟩
  | enable reader writer rest =>
    refine ⟨holds.held, ?_, fun _ at_ => (by cases at_), fun _ _ at_ => (by cases at_)⟩
    rintro _ _ ⟨⟩ writer' member
    exact holds.writers reader _ rfl writer' (List.mem_cons_of_mem _ member)
  | joined reader manager l' same quiet => exact quiet.holds
  | remove reader member => exact holds_outside rfl rfl
  | left reader manager l' same quiet => exact quiet.holds
  | change operateType id turn =>
    refine ⟨fun _ at_ => (by cases at_), fun _ _ at_ => (by cases at_), ?_, fun _ _ at_ => (by cases at_)⟩
    rintro _ ⟨⟩ _
    exact ⟨operateType, id, rfl⟩
  | notify msg =>
    refine ⟨fun _ at_ => (by cases at_), fun _ _ at_ => (by cases at_), holds.msg, ?_⟩
    rintro _ _ ⟨⟩
    exact inv.channel
  | called msg slot rest connected =>
    refine ⟨fun _ at_ => (by cases at_), fun _ _ at_ => (by cases at_), holds.msg, ?_⟩
    rintro _ _ ⟨⟩ slot' member
    exact holds.slots msg _ rfl slot' (List.mem_cons_of_mem _ member)
  | skipped msg slot rest disconnected =>
    refine ⟨fun _ at_ => (by cases at_), fun _ _ at_ => (by cases at_), holds.msg, ?_⟩
    rintro _ _ ⟨⟩ slot' member
    exact holds.slots msg _ rfl slot' (List.mem_cons_of_mem _ member)
  | ended msg => exact holds_outside rfl rfl

theorem outline (w : Writers attr.getChannelName channelId) : Config.Outline (act w) (Inv w) (Holds w) Apart where
  own := fun _ _ _ _ _ inv holds step => ⟨inv.step holds (act_moves step), holds.step inv (act_moves step)⟩
  other := fun _ _ _ _ _ _ inv own holds apart _ step =>
    have after := own.other inv holds apart (act_moves step)
    ⟨after.1, after.2, after.2.symm⟩

section Owes
variable {τ : Type} [DecidableEq τ] {thread : τ → At} {t : τ}

/-- A registered writer is in the tables or is to be enabled, if there is a listener, and a writer in the tables is
registered or is to be disabled. -/
structure Owes (w : Writers attr.getChannelName channelId) (m : Shared) (thread : τ → At) (id : UInt64) : Prop where
  enters : Registered w m id → Listening m.signal →
    m.receiver.Knows (w.attr id) ∨ ∃ t, (thread t).Enters w m.signal id
  leaves : m.receiver.Knows (w.attr id) → Registered w m id ∨ ∃ t, (thread t).Delivers w m.signal .leave id

theorem At.Delivers.connect {signal : Signal RoleAttributes} (delivers : k.Delivers w signal operateType id)
    (roleAttr : RoleAttributes) : k.Delivers w (signal.connect roleAttr).2 operateType id := by
  cases k with
  | notify msg =>
    obtain ⟨same, slot, member, connected⟩ := delivers
    exact ⟨same, slot, List.mem_append_left _ member, connected⟩
  | call msg rest =>
    obtain ⟨same, slot, member, held, inside, known⟩ := delivers
    exact ⟨same, slot, member, held, List.mem_append_left _ inside, known⟩
  | _ => cases delivers

theorem Owes.keep (owes : Owes w m thread id) (at_t : thread t = l)
    (registered : Registered w m' id ↔ Registered w m id)
    (knows : m'.receiver.Knows (w.attr id) ↔ m.receiver.Knows (w.attr id)) (signal : m'.signal = m.signal)
    (enters : l.Enters w m.signal id → l'.Enters w m.signal id)
    (leaves : l.Delivers w m.signal .leave id → l'.Delivers w m.signal .leave id) :
    Owes w m' (Function.update thread t l') id where
  enters := by
    rw [registered, knows, signal]
    exact fun here listening => (owes.enters here listening).imp_right
      (Config.exists_move (fun _ at_ => at_) (at_t ▸ enters))
  leaves := by
    rw [registered, knows, signal]
    exact fun here => (owes.leaves here).imp_right (Config.exists_move (fun _ at_ => at_) (at_t ▸ leaves))

theorem Inv.knows_channel (inv : Inv w m) (knows : m.receiver.Knows (w.attr id)) :
    (w.attr id).getChannelName = attr.getChannelName := by
  obtain ⟨mode, mapped, -⟩ := knows
  have on := HybridReceiver.mappedMode_isSome.mp (Option.isSome_of_eq_some mapped)
  exact on.trans (congrArg RoleAttributes.getChannelName inv.own)

/-- The list of writers that a reader takes has the registered writers of the channel. -/
theorem mem_search (registered : Registered w m id) (on : (w.attr id).getChannelName = attr.getChannelName) :
    w.attr id ∈ m.manager.channelWriters.search channelId :=
  List.mem_map_of_mem (f := Prod.snd) (List.mem_filter.mpr ⟨registered, by simpa using (w.agree id).mpr on⟩)

/-- `Enable` of a registered writer, or of one whose LEAVE is to come. -/
theorem Owes.enable (owes : Owes w m thread id) (inv : Inv w m) (at_t : thread t = l) {other : UInt64}
    (on : (w.attr other).getChannelName = attr.getChannelName)
    (allowed : Registered w m other ∨ ∃ u, (thread u).Delivers w m.signal .leave other)
    (enters : id ≠ other → l.Enters w m.signal id → l'.Enters w m.signal id)
    (leaves : ¬ l.Delivers w m.signal .leave id) :
    Owes w { m with receiver := m.receiver.enable (w.attr other) } (Function.update thread t l') id := by
  have knows := (inv.receiver.enable (getId_attr w) (inv.on on)).2 id
  by_cases same : id = other
  · subst same
    refine ⟨fun _ _ => Or.inl (knows.mpr (Or.inl rfl)), fun _ => allowed.imp_right ?_⟩
    exact Config.exists_move (fun _ at_ => at_) fun at_ => absurd (at_t ▸ at_) leaves
  · refine owes.keep at_t .rfl (knows.trans (or_iff_right same)) rfl (enters same) fun at_ => absurd at_ leaves

/-- `Disable` of a writer that is not registered, or that is to be enabled. -/
theorem Owes.disable (owes : Owes w m thread id) (inv : Inv w m) (at_t : thread t = l) {other : UInt64}
    (on : (w.attr other).getChannelName = attr.getChannelName)
    (allowed : ¬ Registered w m other ∨ ∃ u, (thread u).Enters w m.signal other)
    (enters : ¬ l.Enters w m.signal id)
    (leaves : id ≠ other → l.Delivers w m.signal .leave id → l'.Delivers w m.signal .leave id) :
    Owes w { m with receiver := m.receiver.disable (w.attr other) } (Function.update thread t l') id := by
  have knows := (inv.receiver.disable (getId_attr w) (inv.on on)).2 id
  by_cases same : id = other
  · subst same
    refine ⟨fun registered _ => Or.inr ?_, fun known => absurd rfl (knows.mp known).1⟩
    refine Config.exists_move (fun _ at_ => at_) (fun at_ => absurd (at_t ▸ at_) enters) (allowed.resolve_left ?_)
    exact fun absent => absent registered
  · refine owes.keep at_t .rfl (knows.trans (and_iff_right same)) rfl (fun at_ => absurd at_ enters) (leaves same)

theorem changeMsg_inj {other : OperateType} (same : changeMsg w operateType id = changeMsg w other id') :
    operateType = other ∧ id = id' :=
  ⟨congrArg ChangeMsg.operateType same, attr_inj (congrArg ChangeMsg.roleAttr same)⟩

/-- A listener is called, and one call less is to come. -/
theorem Owes.called (owes : Owes w m thread id) (inv : Inv w m) {msg : ChangeMsg} {slot : Slot RoleAttributes}
    {rest : List (Slot RoleAttributes)} (holds : Holds w m (.call msg (slot :: rest)))
    (orderly : Orderly w ⟨m, thread⟩ (t, .next)) (on : (w.attr id).getChannelName = attr.getChannelName)
    (at_t : thread t = .call msg (slot :: rest)) (connected : Connected m.signal slot) :
    Owes w { m with receiver := onChannelChange slot.cb m.receiver msg }
      (Function.update thread t (.call msg rest)) id := by
  by_cases writer : msg.roleType = .writer
  · obtain ⟨operateType, other, rfl⟩ := holds.msg msg rfl writer
    rw [onChannelChange_attr (holds.slots _ _ rfl slot (List.mem_cons_self ..))]
    have calls : Calls w m.signal operateType other (thread t) := Or.inr ⟨slot, rest, at_t, connected⟩
    by_cases onOther : (w.attr other).getChannelName = attr.getChannelName
    · rw [if_pos onOther]
      cases operateType with
      | join =>
        refine owes.enable inv at_t onOther (orderly.enable other rfl calls) ?_ ?_
        · exact fun different at_ => absurd (changeMsg_inj at_.1).2.symm different
        · exact fun at_ => nomatch (changeMsg_inj at_.1).1
      | leave =>
        refine owes.disable inv at_t onOther (orderly.disable other rfl calls) ?_ ?_
        · exact fun at_ => nomatch (changeMsg_inj at_.1).1
        · exact fun different at_ => absurd (changeMsg_inj at_.1).2.symm different
    · rw [if_neg onOther]
      have different : ∀ operateType', ¬ (At.call (changeMsg w operateType other) (slot :: rest)).Delivers w m.signal
          operateType' id := fun _ at_ => onOther ((changeMsg_inj at_.1).2 ▸ on)
      exact owes.keep at_t .rfl .rfl rfl (fun at_ => absurd at_ (different .join))
        fun at_ => absurd at_ (different .leave)
  · rw [onChannelChange_other writer]
    have different : ∀ operateType', ¬ (At.call msg (slot :: rest)).Delivers w m.signal operateType' id :=
      fun _ at_ => writer (congrArg ChangeMsg.roleType at_.1)
    exact owes.keep at_t .rfl .rfl rfl (fun at_ => absurd at_ (different .join))
      fun at_ => absurd at_ (different .leave)

/-- The message of a writer updates the registry, and is to be delivered if there is a listener. -/
theorem Owes.change (owes : Owes w m thread id) {other : UInt64} (at_t : thread t = .idle)
    (orderly : Orderly w ⟨m, thread⟩ (t, .change operateType other)) :
    Owes w { m with manager := m.manager.dispose (changeMsg w operateType other) }
      (Function.update thread t (.notify (changeMsg w operateType other))) id := by
  have registered := registered_change (w := w) m operateType other id
  by_cases same : id = other
  · subst same
    rw [if_pos rfl] at registered
    cases operateType with
    | join =>
      refine ⟨fun _ listening => Or.inr ⟨t, ?_⟩, fun _ => Or.inl (registered.mpr rfl)⟩
      rw [Function.update_self]
      exact ⟨rfl, listening⟩
    | leave =>
      refine ⟨fun here => (nomatch registered.mp here), fun known => Or.inr ⟨t, ?_⟩⟩
      rw [Function.update_self]
      exact ⟨rfl, orderly.leave id rfl known⟩
  · rw [if_neg same] at registered
    exact owes.keep at_t registered .rfl rfl (fun at_ => at_.elim) fun at_ => at_.elim

theorem owes_step (inv : Inv w m) (holds : Holds w m l) (orderly : Orderly w ⟨m, thread⟩ (t, c))
    (on : (w.attr id).getChannelName = attr.getChannelName) (owes : Owes w m thread id) (at_t : thread t = l)
    (moves : Moves w m l c m' l') : Owes w m' (Function.update thread t l') id := by
  cases moves with
  | join roleAttr channel =>
    refine ⟨fun _ _ => Or.inr ⟨t, by rw [Function.update_self]; trivial⟩, fun known => ?_⟩
    refine (owes.leaves known).imp_right (Config.exists_move (fun _ at_ => at_.connect roleAttr) fun at_ => ?_)
    rw [at_t] at at_
    exact at_.elim
  | getWriters reader =>
    refine ⟨fun registered _ => Or.inr ⟨t, ?_⟩, fun known => ?_⟩
    · rw [Function.update_self]
      exact mem_search registered on
    · refine (owes.leaves known).imp_right (Config.exists_move (fun _ at_ => at_) fun at_ => ?_)
      rw [at_t] at at_
      exact at_.elim
  | enable reader writer rest =>
    obtain ⟨other, rfl, onOther⟩ := holds.writers reader _ rfl writer (List.mem_cons_self ..)
    have allowed := orderly.enable other rfl (Or.inl ⟨rfl, reader, rest, at_t⟩)
    refine owes.enable inv at_t onOther allowed (fun different at_ => ?_) fun at_ => at_.elim
    exact (List.mem_cons.mp at_).resolve_left fun same => different (attr_inj same)
  | joined reader manager l' same quiet =>
    have registered : Registered w { m with manager, joined := reader :: m.joined } id ↔ Registered w m id := by
      rw [Registered, Registered, same]
    exact owes.keep at_t registered .rfl rfl (fun at_ => absurd at_ List.not_mem_nil) fun at_ => at_.elim
  | remove reader member =>
    obtain ⟨enters, leaves⟩ := orderly.remove reader rfl id on
    refine ⟨fun registered listening => ?_, fun known => ?_⟩
    · refine or_iff_not_imp_left.mpr fun unknown => ?_
      refine Config.exists_move (fun _ at_ => at_) (fun at_ => ?_) (enters registered unknown listening)
      rw [at_t] at at_
      exact at_.elim
    · refine or_iff_not_imp_left.mpr fun unregistered => ?_
      refine Config.exists_move (fun _ at_ => at_) (fun at_ => ?_) (leaves unregistered known)
      rw [at_t] at at_
      exact at_.elim
  | left reader manager l' same quiet =>
    have registered : Registered w { m with manager } id ↔ Registered w m id := by rw [Registered, Registered, same]
    exact owes.keep at_t registered .rfl rfl (fun at_ => at_.elim) fun at_ => at_.elim
  | change operateType other turn => exact owes.change at_t orderly
  | notify msg =>
    refine owes.keep at_t .rfl .rfl rfl ?_ ?_
    · rintro ⟨same, slot, member, connected⟩
      exact ⟨same, slot, member, slot, member, rfl, connected⟩
    · rintro ⟨same, slot, member, connected⟩
      exact ⟨same, slot, member, slot, member, rfl, connected⟩
  | called msg slot rest connected => exact owes.called inv holds orderly on at_t connected
  | skipped msg slot rest disconnected =>
    refine owes.keep at_t .rfl .rfl rfl ?_ ?_
    · rintro ⟨same, slot', member, known⟩
      exact ⟨same, slot', (List.mem_cons.mp member).resolve_left fun equal => disconnected (equal ▸ known), known⟩
    · rintro ⟨same, slot', member, known⟩
      exact ⟨same, slot', (List.mem_cons.mp member).resolve_left fun equal => disconnected (equal ▸ known), known⟩
  | ended msg =>
    rw [inv.signal.afterCall_eq]
    refine owes.keep at_t .rfl .rfl rfl ?_ ?_
    · rintro ⟨-, slot, member, -⟩
      cases member
    · rintro ⟨-, slot, member, -⟩
      cases member

end Owes

section Runs
variable {τ : Type} [DecidableEq τ] {hostName : String} {processId : Int} {mode : CommunicationMode}
  {s : Config τ Shared At}

theorem holds_of_reach (reach : (machine w τ hostName processId mode).Reach s) :
    Config.Holds (Inv w) (Holds w) Apart s := by
  refine (outline w).reach ⟨?_, fun _ => holds_outside rfl rfl, fun _ _ _ _ _ at_ => by cases at_⟩ reach
  exact {
    signal := Signal.sound_empty
    channel := fun _ member => (by cases member)
    own := rfl
    receiver := HybridReceiver.sound_init attr mode
    writers := fun _ member => (by cases member)
    held := fun _ member => (by cases member)
    distinct := List.nodup_nil }

theorem owes_of_reach (reach : (machine w τ hostName processId mode).ReachWhen (Orderly w) s)
    (on : (w.attr id).getChannelName = attr.getChannelName) : Owes w s.shared s.thread id := by
  refine reach.invariant_of_reach (P := fun s => Owes w s.shared s.thread id) ?_ ?_
  · exact ⟨fun registered => absurd registered List.not_mem_nil,
      fun known => absurd known (HybridReceiver.not_knows_init attr (w.attr id) mode)⟩
  · rintro s ⟨t, c⟩ s' before owes orderly step
    obtain ⟨m', l', moved, rfl⟩ := Config.move_eq_some.mp step
    have holds := holds_of_reach before
    exact owes_step holds.shared (holds.thread t) orderly on owes rfl (act_moves moved)

/-- Once no operation is in progress and a reader is joined, the receiver follows the registry. -/
theorem follows_when_orderly (reach : (machine w τ hostName processId mode).ReachWhen (Orderly w) s)
    (idle : ∀ t, s.thread t = .idle) (joined : s.shared.joined ≠ []) : Follows w s.shared := by
  have inv := (holds_of_reach reach.reach).shared
  obtain ⟨reader, member⟩ := List.exists_mem_of_ne_nil _ joined
  obtain ⟨slot, held, -⟩ := inv.held reader member
  have listening : Listening s.shared.signal := ⟨slot, held, inv.signal.connected slot held⟩
  have none_ : ∀ {P : At → Prop}, ¬ P .idle → ¬ ∃ t, P (s.thread t) := by
    rintro P absent ⟨t, at_⟩
    exact absent (idle t ▸ at_)
  have tables : ∀ mode id, id ∈ s.shared.receiver.transmitters.get mode ↔
      Registered w s.shared id ∧ s.shared.receiver.mappedMode (w.attr id) = some mode := by
    intro mode id
    constructor
    · intro member
      obtain ⟨writer, found⟩ := Table.mem_iff_lookup.mp member
      have mapped := (inv.receiver.mapped mode id writer found).2
      have known := (HybridReceiver.knows_iff (getId_attr w) mapped).mpr member
      have owes := owes_of_reach reach (inv.knows_channel known)
      exact ⟨(owes.leaves known).resolve_right (none_ fun at_ => at_), mapped⟩
    · rintro ⟨registered, mapped⟩
      have on := HybridReceiver.mappedMode_isSome.mp (Option.isSome_of_eq_some mapped)
      have on := on.trans (congrArg RoleAttributes.getChannelName inv.own)
      have known := ((owes_of_reach reach on).enters registered listening).resolve_right (none_ fun at_ => at_)
      exact (HybridReceiver.knows_iff (getId_attr w) mapped).mp known
  refine ⟨fun mode id writer => ?_, fun mode id => (inv.receiver.enabled mode id).trans (tables mode id),
    inv.receiver.once⟩
  rw [← and_assoc, ← tables]
  constructor
  · intro found
    exact ⟨Table.mem_iff_lookup.mpr ⟨writer, found⟩, (inv.receiver.mapped mode id writer found).1⟩
  · rintro ⟨member, rfl⟩
    obtain ⟨writer, found⟩ := Table.mem_iff_lookup.mp member
    rw [found, (inv.receiver.mapped mode id writer found).1]

end Runs

/-- Only a thread that enables writers, or calls the listeners for a writer, calls `Enable` or `Disable`. -/
def At.calling : At → Bool
  | .enable _ (_ :: _) => true
  | .call msg (_ :: _) => msg.roleType = .writer
  | _ => false

theorem not_calls {signal : Signal RoleAttributes} (outside : l.calling = false) (operateType : OperateType)
    (id : UInt64) : ¬ Calls w signal operateType id l := by
  rintro (⟨-, reader, rest, rfl⟩ | ⟨slot, rest, rfl, -⟩)
  · cases outside
  · simp [At.calling, changeMsg] at outside

def Input.leaving : Input → Bool
  | .leaveTheTopology _ | .change .leave _ => true
  | _ => false

/-- A step that calls neither `Enable` nor `Disable` for a writer, in which no listener is removed and no writer leaves. -/
theorem orderly_outside {τ : Type} {s : Config τ Shared At} {e : τ × Input}
    (calling : (s.thread e.1).calling = false) (leaving : e.2.leaving = false) : Orderly w s e where
  enable id _ at_ := absurd at_ (not_calls calling .join id)
  disable id _ at_ := absurd at_ (not_calls calling .leave id)
  remove reader at_ := by
    rw [at_] at leaving
    cases leaving
  leave id at_ := by
    rw [at_] at leaving
    cases leaving

/-- A listener is called for the JOIN of a writer that is registered. -/
theorem orderly_join {τ : Type} {s : Config τ Shared At} {t : τ} {rest : List (Slot RoleAttributes)} (id : UInt64)
    (at_ : s.thread t = .call (changeMsg w .join id) rest) (registered : Registered w s.shared id) :
    Orderly w s (t, .next) := by
  refine ⟨?_, ?_, fun _ at_leave => (by cases at_leave), fun _ at_change => (by cases at_change)⟩
  · rintro id' - (⟨-, _, _, here⟩ | ⟨_, _, here, -⟩)
    · cases at_.symm.trans here
    · rw [← (changeMsg_inj (At.call.inj (at_.symm.trans here)).1).2]
      exact Or.inl registered
  · rintro id' - (⟨leave, -⟩ | ⟨_, _, here, -⟩)
    · cases leave
    · cases (changeMsg_inj (At.call.inj (at_.symm.trans here)).1).1

def channelAttr : RoleAttributes :=
  { RoleAttributes.empty with channelName := some "a", channelId := some 1, id := some 9 }

/-- All writers are on the channel. -/
def talkers : Writers channelAttr.getChannelName 1 where
  attr id := { channelAttr with id := some id }
  own _ := rfl
  agree _ := iff_of_true rfl rfl

/-- A reader joins: it adds its listener, takes the writers and announces itself to its own listener. -/
def readerJoins (enables : Nat) : List (Bool × Input) :=
  (false, .joinTheTopology channelAttr) :: List.replicate (enables + 5) (false, .next)

/-- A message of the writer, which the given number of listeners get. -/
def changes (operateType : OperateType) (listeners : Nat) : List (Bool × Input) :=
  (true, .change operateType 5) :: List.replicate (listeners + 2) (true, .next)

/-- The writer joins while the reader listens. -/
def joinsLater : List (Bool × Input) :=
  readerJoins 0 ++ changes .join 1

/-- The writer leaves after the reader has taken it from the registry, and before the reader enables it. -/
def leavesBetween : List (Bool × Input) :=
  changes .join 0 ++ [(false, Input.joinTheTopology channelAttr), (false, Input.next)] ++ changes .leave 1 ++
    List.replicate 5 (false, Input.next)

/-- The writer leaves while there is no reader, and another reader gets the receiver of the first. -/
def leavesAfter : List (Bool × Input) :=
  changes .join 0 ++ readerJoins 1 ++
    [(false, Input.leaveTheTopology ⟨channelAttr, ⟨0⟩⟩), (false, Input.next), (false, Input.next), (false, Input.next)] ++
    changes .leave 0 ++ readerJoins 0

def oneWriter : Machine (Config Bool Shared At) (Bool × Input) :=
  machine talkers Bool "h" 1 .default

theorem follows_joinsLater : Follows talkers (oneWriter.stateAt joinsLater 10).shared := by
  have run := Machine.exec_run (M := oneWriter) joinsLater rfl (false, .next)
  have allowed : ∀ i, i < joinsLater.length →
      Orderly talkers (oneWriter.stateAt joinsLater i) (joinsLater.getD i (false, .next)) := by
    intro i bound
    by_cases joins : i = 8
    · subst joins
      exact orderly_join 5 rfl (by decide)
    · have quiet : ∀ j < 10, j ≠ 8 → ((oneWriter.stateAt joinsLater j).thread
          (joinsLater.getD j (false, .next)).1).calling = false ∧
          (joinsLater.getD j (false, .next)).2.leaving = false := by decide
      exact orderly_outside (quiet i bound joins).1 (quiet i bound joins).2
  exact follows_when_orderly (run.reachWhen allowed le_rfl) (fun t => (by cases t <;> rfl)) (by decide)

/-- In both runs the receiver is enabled for the writer although it is not registered. -/
theorem leavesBetween_stale :
    (oneWriter.Reach (oneWriter.stateAt leavesBetween 14) ∧
      (∀ t, (oneWriter.stateAt leavesBetween 14).thread t = .idle) ∧
      (oneWriter.stateAt leavesBetween 14).shared.joined ≠ [] ∧
      ¬ Follows talkers (oneWriter.stateAt leavesBetween 14).shared) ∧
    oneWriter.Reach (oneWriter.stateAt leavesAfter 23) ∧
      (∀ t, (oneWriter.stateAt leavesAfter 23).thread t = .idle) ∧
      (oneWriter.stateAt leavesAfter 23).shared.joined ≠ [] ∧
      ¬ Follows talkers (oneWriter.stateAt leavesAfter 23).shared := by
  refine ⟨⟨Machine.stateAt_reach leavesBetween rfl, fun t => (by cases t <;> rfl), by decide, fun follows => ?_⟩,
    Machine.stateAt_reach leavesAfter rfl, fun t => (by cases t <;> rfl), by decide, fun follows => ?_⟩
  · exact absurd ((follows.enabled .intra 5).mp (by decide)).1 (by decide)
  · exact absurd ((follows.enabled .intra 5).mp (by decide)).1 (by decide)

end CyberRT.ReaderTopology
