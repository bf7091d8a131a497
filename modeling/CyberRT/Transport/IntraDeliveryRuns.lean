import CyberRT.Transport.IntraDelivery

namespace CyberRT.IntraDispatcher
open Concur
variable {L : Type} {d : IntraDispatcher L} {r : Registry L}

theorem connectWrapper_chain (d : IntraDispatcher L) (w : ListenerWrapper) (created : Bool) :
    (d.connectWrapper w created).chain = d.chain ∧ (d.connectWrapper w created).isShutdown = d.isShutdown := by
  unfold connectWrapper getHandler
  split
  · rename_i made
    split at made
    · split at made <;> cases made
      split <;> exact ⟨rfl, rfl⟩
    · cases made
      split <;> exact ⟨rfl, rfl⟩
  · rename_i made
    split at made
    · split at made <;> cases made
      exact ⟨rfl, rfl⟩
    · cases made

/-- The first wrapper of a channel creates its handler. -/
theorem connectWrapper_fresh {w : ListenerWrapper} (fresh : d.msgListeners.lookup w.channelId = none) :
    (d.connectWrapper w true).msgListeners =
      (d.msgListeners.insert w.channelId (w.messageType, ListenerHandler.empty)).insert w.channelId
        (w.messageType, ListenerHandler.empty.connectAt w.oppoId w.selfId w) := by
  unfold connectWrapper getHandler
  rw [fresh]
  rfl

theorem connectWrapper_known {w : ListenerWrapper} {base : String} {h : ListenerHandler ListenerWrapper}
    (known : d.msgListeners.lookup w.channelId = some (base, h)) (created : Bool) :
    (d.connectWrapper w created).msgListeners =
      if w.messageType = base ∧ created = true then
        d.msgListeners.insert w.channelId (base, h.connectAt w.oppoId w.selfId w)
      else d.msgListeners := by
  unfold connectWrapper getHandler
  rw [known]
  by_cases same : w.messageType = base
  · cases created <;> simp [same]
  · simp [same]

theorem Refines.created_iff (refines : Refines d r) (x : Registration L) :
    (d.chain.addAt x).2 = true ↔ r.of x.messageType x.channelId x.oppoId = [] := by
  rw [ChannelChain.created_addAt]
  have serves := refines.chain x.messageType x.channelId x.oppoId
  cases found : d.chain.handlerAt x.messageType x.channelId x.oppoId with
  | none =>
    rw [found] at serves
    exact iff_of_true rfl (List.map_eq_nil_iff.mp serves)
  | some h =>
    rw [found] at serves
    exact iff_of_false nofun fun none => serves.1 (by rw [none, List.map_nil])

theorem Refines.chain_add (refines : Refines d r) (x : Registration L) (type : String) (ch : UInt64)
    (oppo : Option UInt64) :
    Serves oppo (((r.add x).of type ch oppo).map fun x => x.listener) ((d.chain.addAt x).1.handlerAt type ch oppo) := by
  rw [ChannelChain.handlerAt_addAt, Registry.of_add]
  by_cases here : type = x.messageType ∧ ch = x.channelId ∧ oppo = x.oppoId
  · obtain ⟨rfl, rfl, rfl⟩ := here
    have serves := refines.chain x.messageType x.channelId x.oppoId
    simp only [and_self, if_true, List.map_append, List.map_cons, List.map_nil]
    refine ⟨by simp, fun oppo' => ?_⟩
    rw [ListenerHandler.signalAt_connectAt]
    have before : ∀ oppo', (((d.chain.handlerAt x.messageType x.channelId x.oppoId).getD .empty).signalAt oppo').call =
        if oppo' = x.oppoId then (r.of x.messageType x.channelId x.oppoId).map (fun x => x.listener) else [] := by
      intro oppo'
      cases found : d.chain.handlerAt x.messageType x.channelId x.oppoId with
      | none =>
        rw [found] at serves
        rw [show (r.of x.messageType x.channelId x.oppoId).map (fun x => x.listener) = [] from serves]
        cases oppo' <;> simp [ListenerHandler.signalAt, ListenerHandler.empty, Signal.call, Signal.empty,
          Table.get_empty, default]
      | some h =>
        rw [found] at serves
        exact serves.2 oppo'
    split
    · rename_i same
      rw [Signal.call_connect, before, if_pos rfl]
    · rename_i other
      rw [before, if_neg other]
  · have other : ¬ (x.messageType = type ∧ x.channelId = ch ∧ x.oppoId = oppo) := by
      rintro ⟨rfl, rfl, rfl⟩
      exact here ⟨rfl, rfl, rfl⟩
    rw [if_neg here, if_neg other, List.append_nil]
    exact refines.chain type ch oppo

/-- A new registration at the end of a list changes the owner of an empty place only. -/
theorem owner_add (x : Registration L) (base : String) (ch : UInt64) (oppo : Option UInt64) :
    (r.add x).owner base ch oppo =
      if x.messageType = base ∧ x.channelId = ch ∧ x.oppoId = oppo ∧ r.of base ch oppo = [] then some x.selfId
      else r.owner base ch oppo := by
  unfold Registry.owner
  rw [Registry.of_add]
  by_cases here : x.messageType = base ∧ x.channelId = ch ∧ x.oppoId = oppo
  · cases old : r.of base ch oppo with
    | nil => simp [here]
    | cons y ys => simp [here]
  · have other : ¬ (x.messageType = base ∧ x.channelId = ch ∧ x.oppoId = oppo ∧ r.of base ch oppo = []) :=
      fun all => here ⟨all.1, all.2.1, all.2.2.1⟩
    rw [if_neg here, if_neg other, List.append_nil]

theorem Refines.wrapper_add (refines : Refines d r) (x : Registration L) (ch : UInt64) (base : String)
    (h : ListenerHandler ListenerWrapper) (found : (d.addAt x).msgListeners.lookup ch = some (base, h))
    (oppo : Option UInt64) : Holds h base ch oppo ((r.add x).owner base ch oppo) := by
  unfold addAt at found
  rw [owner_add]
  cases before : d.msgListeners.lookup x.channelId with
  | none =>
    have fresh : r.base x.channelId = none := by rw [← refines.base, before, Option.map_none]
    have created : (d.chain.addAt x).2 = true := (refines.created_iff x).mpr (refines.of_eq_nil fresh _ _)
    rw [created, connectWrapper_fresh (d := { d with chain := (d.chain.addAt x).1 }) before] at found
    simp only [Table.lookup_insert_eq] at found
    split at found
    · rename_i here
      cases Option.some.inj found
      have none := refines.of_eq_nil fresh x.messageType
      by_cases same : x.oppoId = oppo
      · subst same
        rw [if_pos ⟨rfl, here.symm, rfl, here ▸ none x.oppoId⟩, here]
        exact (holds_empty _ _ _).connect
      · rw [if_neg fun all => same all.2.2.1, Registry.owner, here, none oppo]
        refine (holds_empty x.messageType x.channelId oppo).congr ?_ fun selfId => ?_
        · rw [ListenerHandler.signalAt_connectAt, if_neg (Ne.symm same)]
        · rw [ListenerHandler.connAt_connectAt, if_neg fun both => same both.1.symm]
    · rename_i elsewhere
      rw [if_neg fun all => elsewhere all.2.1.symm]
      exact refines.wrapper ch base h found oppo
  | some entry =>
    obtain ⟨base', h'⟩ := entry
    rw [connectWrapper_known (d := { d with chain := (d.chain.addAt x).1 }) before] at found
    split at found
    · rename_i connects
      obtain ⟨rfl, created⟩ := connects
      have empty := (refines.created_iff x).mp created
      rw [Table.lookup_insert_eq] at found
      split at found
      · rename_i here
        cases Option.some.inj found
        have old := refines.wrapper x.channelId x.messageType h' before
        by_cases same : x.oppoId = oppo
        · subst same
          rw [if_pos ⟨rfl, here.symm, rfl, here ▸ empty⟩, here]
          have holds := old x.oppoId
          rw [Registry.owner, empty] at holds
          exact holds.connect
        · rw [if_neg fun all => same all.2.2.1, here]
          refine (old oppo).congr ?_ fun selfId => ?_
          · rw [ListenerHandler.signalAt_connectAt, if_neg (Ne.symm same)]
          · rw [ListenerHandler.connAt_connectAt, if_neg fun both => same both.1.symm]
      · rename_i elsewhere
        rw [if_neg fun all => elsewhere all.2.1.symm]
        exact refines.wrapper ch base h found oppo
    · rename_i keeps
      have stays : ¬ (x.messageType = base ∧ x.channelId = ch ∧ x.oppoId = oppo ∧ r.of base ch oppo = []) := by
        rintro ⟨rfl, rfl, rfl, empty⟩
        cases before.symm.trans found
        exact keeps ⟨rfl, (refines.created_iff x).mpr empty⟩
      rw [if_neg stays]
      exact refines.wrapper ch base h found oppo

theorem Refines.base_add (refines : Refines d r) (x : Registration L) (ch : UInt64) :
    ((d.addAt x).msgListeners.lookup ch).map Prod.fst = (r.add x).base ch := by
  unfold addAt
  have known := refines.base x.channelId
  cases before : d.msgListeners.lookup x.channelId with
  | none =>
    have fresh : r.base x.channelId = none := by rw [← known, before, Option.map_none]
    have created : (d.chain.addAt x).2 = true := (refines.created_iff x).mpr (refines.of_eq_nil fresh _ _)
    rw [created, connectWrapper_fresh (d := { d with chain := (d.chain.addAt x).1 }) before]
    simp only [Table.lookup_insert_eq, Registry.add]
    split
    · rename_i here
      rw [here, fresh]
      rfl
    · exact refines.base ch
  | some entry =>
    obtain ⟨base', h'⟩ := entry
    rw [before] at known
    rw [connectWrapper_known (d := { d with chain := (d.chain.addAt x).1 }) before]
    have same : (r.add x).base ch = r.base ch := by
      simp only [Registry.add]
      split
      · rename_i here
        rw [here, ← known]
        rfl
      · rfl
    rw [same, ← refines.base]
    split
    · rw [Table.lookup_insert_eq]
      split
      · rename_i here
        rw [here, before]
        rfl
      · rfl
    · rfl

theorem Refines.add (refines : Refines d r) {x : Registration L}
    (fits : r.FitsAdd x.messageType x.channelId x.oppoId) : Refines (d.addAt x) (r.add x) where
  running := (connectWrapper_chain _ _ _).2.trans refines.running
  base := refines.base_add x
  wrapper := refines.wrapper_add x
  chain := by
    intro type ch oppo
    rw [addAt, (connectWrapper_chain _ _ _).1]
    exact refines.chain_add x type ch oppo
  led := by
    intro y member
    have grows : ∀ {type ch oppo}, r.of type ch oppo ≠ [] → (r.add x).of type ch oppo ≠ [] := by
      intro type ch oppo some none
      rw [Registry.of_add] at none
      exact some (List.append_eq_nil_iff.mp none).1
    have itself : (r.add x).of x.messageType x.channelId x.oppoId ≠ [] := by
      rw [Registry.of_add, if_pos ⟨rfl, rfl, rfl⟩]
      simp
    rcases List.mem_append.mp member with old | new
    · obtain ⟨base, known, some⟩ := refines.led y old
      refine ⟨base, ?_, grows some⟩
      simp only [Registry.add, known, Option.getD_some, ite_self]
    · obtain rfl := List.mem_singleton.mp new
      simp only [Registry.add, if_true, Option.some.injEq, exists_eq_left']
      cases known : r.base y.channelId with
      | none => exact itself
      | some base =>
        rcases fits base known with rfl | some
        · exact itself
        · exact grows some

section
variable {messageType : String} {selfId channelId : UInt64} {oppoId : Option UInt64}

/-- A removal that fits takes the owner away only together with all registrations of the place. -/
theorem owner_remove (fits : r.FitsRemove messageType selfId channelId oppoId) {base : String}
    (known : r.base channelId = some base) :
    (r.remove messageType selfId channelId oppoId).owner base channelId oppoId =
      if r.owner base channelId oppoId = some selfId then none else r.owner base channelId oppoId := by
  unfold Registry.owner
  rw [Registry.of_remove fits.1]
  cases old : r.of base channelId oppoId with
  | nil => simp
  | cons y ys =>
    have member : y ∈ r.of base channelId oppoId := by rw [old]; exact List.mem_cons_self ..
    obtain ⟨inside, type, channel, oppo⟩ := Registry.mem_of.mp member
    by_cases own : y.selfId = selfId
    · have all := fits.2 base known (by rw [Registry.owner, old]; simp [own]) y inside channel oppo
      simp [own, ← type, all]
    · have other : ¬ (base = messageType ∧ channelId = channelId ∧ oppoId = oppoId) := by
        rintro ⟨rfl, -, -⟩
        exact own (fits.1 y member)
      rw [if_neg other]
      simp [own]

theorem Refines.remove (refines : Refines d r) (fits : r.FitsRemove messageType selfId channelId oppoId) :
    Refines (d.removeAt messageType selfId channelId oppoId) (r.remove messageType selfId channelId oppoId) := by
  have chains : (d.disconnectWrapper channelId oppoId selfId).chain = d.chain := by
    unfold disconnectWrapper
    split <;> rfl
  constructor
  · rw [← refines.running]
    unfold removeAt disconnectWrapper
    dsimp only
    split <;> rfl
  · intro ch
    rw [show (r.remove messageType selfId channelId oppoId).base ch = r.base ch from rfl, ← refines.base]
    unfold removeAt disconnectWrapper
    dsimp only
    split
    · rfl
    · rename_i base h found
      rw [Table.lookup_insert_eq]
      split
      · rename_i here
        rw [here, found]
        rfl
      · rfl
  · intro ch base h found oppo
    unfold removeAt disconnectWrapper at found
    dsimp only at found
    have elsewhere : ∀ {base' : String}, ¬ (base' = messageType ∧ ch = channelId ∧ oppo = oppoId) →
        (r.remove messageType selfId channelId oppoId).owner base' ch oppo = r.owner base' ch oppo := by
      intro base' other
      rw [Registry.owner, Registry.of_remove fits.1, if_neg other, Registry.owner]
    split at found
    · rename_i absent
      rw [elsewhere]
      · exact refines.wrapper ch base h found oppo
      · rintro ⟨-, rfl, -⟩
        cases absent.symm.trans found
    · rename_i base' h' before
      rw [Table.lookup_insert_eq] at found
      split at found
      · rename_i here
        subst here
        cases Option.some.inj found
        have holds := refines.wrapper ch base h' before oppo
        by_cases same : oppo = oppoId
        · subst same
          have known : r.base ch = some base := by rw [← refines.base, before]; rfl
          rw [owner_remove fits known]
          split
          · rename_i own
            rw [own] at holds
            exact holds.disconnect
          · rename_i other
            have absent : h'.connAt oppo selfId = none := by
              cases owned : r.owner base ch oppo with
              | none =>
                rw [owned] at holds
                exact holds.2 selfId
              | some owner =>
                rw [owned] at holds
                obtain ⟨n, _, conns⟩ := holds
                rw [conns, if_neg fun equal => other (by rw [owned, equal])]
            rw [ListenerHandler.disconnectAt_none absent]
            exact holds
        · rw [elsewhere fun all => same all.2.2]
          cases connected : h'.connAt oppoId selfId with
          | none =>
            rw [ListenerHandler.disconnectAt_none connected]
            exact holds
          | some conn =>
            refine holds.congr ?_ fun selfId' => ?_
            · rw [ListenerHandler.signalAt_disconnectAt connected, if_neg same]
            · rw [ListenerHandler.connAt_disconnectAt connected, if_neg fun both => same both.1]
      · rename_i channel
        rw [elsewhere fun all => channel all.2.1]
        exact refines.wrapper ch base h found oppo
  · intro type ch oppo
    rw [removeAt]
    dsimp only
    rw [chains, ChannelChain.handlerAt_removeAt, Registry.of_remove fits.1]
    split
    · rfl
    · exact refines.chain type ch oppo
  · intro x member
    obtain ⟨inside, kept⟩ := List.mem_filter.mp member
    obtain ⟨base, known, some⟩ := refines.led x inside
    refine ⟨base, known, ?_⟩
    rw [Registry.of_remove fits.1]
    split
    · rename_i here
      obtain ⟨rfl, rfl, rfl⟩ := here
      -- The wrapper's owner is removed, so every registration of the place is, `x` included.
      obtain ⟨y, ys, old⟩ := List.exists_cons_of_ne_nil some
      have own : y.selfId = selfId := fits.1 y (by rw [old]; exact List.mem_cons_self ..)
      have type := fits.2 base known (by rw [Registry.owner, old]; simp [own]) x inside rfl rfl
      have self := fits.1 x (Registry.mem_of.mpr ⟨inside, type, rfl, rfl⟩)
      simp [type, self] at kept
    · exact some

end

/-- The listeners that one wrapper reaches are those registered for its channel and opposite. -/
theorem Refines.part {convert : String → String → Bool} (refines : Refines d r) (total : ∀ a b, convert a b = true)
    {ch : UInt64} {base : String} {h : ListenerHandler ListenerWrapper}
    (found : d.msgListeners.lookup ch = some (base, h)) (sender : UInt64) {oppo : Option UInt64}
    (heard : oppo = none ∨ oppo = some sender) :
    ((h.signalAt oppo).call.flatMap fun w => d.chain.run convert w sender).Perm
      ((r.regs.filter fun x => x.channelId = ch ∧ x.oppoId = oppo).map fun x => x.listener) := by
  have known : r.base ch = some base := by rw [← refines.base, found]; rfl
  have holds := refines.wrapper ch base h found oppo
  cases owned : r.owner base ch oppo with
  | none =>
    rw [owned] at holds
    have none : (r.regs.filter fun x => x.channelId = ch ∧ x.oppoId = oppo) = [] := by
      refine List.eq_nil_iff_forall_not_mem.mpr fun x member => ?_
      obtain ⟨inside, place⟩ := List.mem_filter.mp member
      obtain ⟨rfl, rfl⟩ := of_decide_eq_true place
      obtain ⟨base', known', some⟩ := refines.led x inside
      cases known.symm.trans known'
      obtain ⟨y, ys, old⟩ := List.exists_cons_of_ne_nil some
      rw [Registry.owner, old] at owned
      cases owned
    rw [none, Signal.call, holds.1]
    exact .nil
  | some owner =>
    rw [owned] at holds
    obtain ⟨n, slots, _⟩ := holds
    have served : ∀ type, ∀ h' : ListenerHandler L, d.chain.handlerAt type ch oppo = some h' →
        h'.run sender = (r.of type ch oppo).map fun x => x.listener := by
      intro type h' at'
      have serves := refines.chain type ch oppo
      rw [at'] at serves
      rw [ListenerHandler.run_eq, serves.2, serves.2]
      rcases heard with rfl | rfl
      · simp
      · simp
    have wrapped : (h.signalAt oppo).call = [⟨owner, oppo, ch, base⟩] := by rw [Signal.call, slots]; rfl
    rw [wrapped, List.flatMap_singleton, ChannelChain.run_eq total]
    generalize table : (d.chain.handlersAt oppo).get ch = ofChannel
    have gather : (ofChannel.entries.flatMap fun ele => ele.2.run sender) =
        (ofChannel.keys.flatMap fun type => r.of type ch oppo).map fun x => x.listener := by
      rw [List.map_flatMap, AList.keys, List.keys, List.flatMap_map]
      refine List.flatMap_congr fun ele member => served ele.1 ele.2 ?_
      rw [ChannelChain.handlerAt, table]
      exact Table.mem_entries_iff.mp member
    have sorted : ∀ type, r.of type ch oppo =
        (r.regs.filter fun x => x.channelId = ch ∧ x.oppoId = oppo).filter fun x => x.messageType = type := by
      intro type
      rw [List.filter_filter, Registry.of]
      refine List.filter_congr fun x _ => ?_
      simp [Bool.decide_and]
    rw [gather]
    simp only [sorted]
    refine (Table.perm_flatMap_filter (fun x : Registration L => x.messageType) ofChannel.keys_nodup ?_).map _
    intro x member
    obtain ⟨inside, place⟩ := List.mem_filter.mp member
    obtain ⟨channel, opposite⟩ := of_decide_eq_true place
    by_contra absent
    have serves := refines.chain x.messageType ch oppo
    rw [ChannelChain.handlerAt, table,
      AList.lookup_eq_none.mpr fun present => absent (AList.mem_keys.mp present)] at serves
    have none : r.of x.messageType ch oppo = [] := List.map_eq_nil_iff.mp serves
    exact absurd (Registry.mem_of.mpr ⟨inside, rfl, channel, opposite⟩) (by rw [none]; exact List.not_mem_nil)

/-- Every listener that the message concerns is invoked once, and no other. -/
theorem Refines.exact {convert : String → String → Bool} (refines : Refines d r) (total : ∀ a b, convert a b = true)
    (ch : UInt64) (type : String) (sender : UInt64) :
    (d.onMessage convert ch type sender).Perm (r.concerned ch sender) := by
  unfold onMessage Registry.concerned
  rw [refines.running]
  simp only [Bool.false_eq_true, if_false]
  split
  · rename_i absent
    have fresh : r.base ch = none := by rw [← refines.base, absent]; rfl
    have none : (r.regs.filter fun x => x.channelId = ch ∧ (x.oppoId = none ∨ x.oppoId = some sender)) = [] := by
      refine List.eq_nil_iff_forall_not_mem.mpr fun x member => ?_
      obtain ⟨inside, place⟩ := List.mem_filter.mp member
      obtain ⟨base, known, _⟩ := refines.led x inside
      rw [(of_decide_eq_true place).1, fresh] at known
      cases known
    rw [none]
    exact .nil
  · rename_i base h found
    rw [total, Bool.or_true, if_pos rfl, ListenerHandler.run_eq, List.flatMap_append]
    refine ((refines.part total found sender (Or.inl rfl)).append
      (refines.part total found sender (Or.inr rfl))).trans ?_
    rw [← List.map_append]
    refine List.Perm.map _ ?_
    have split := List.filter_append_perm (fun x : Registration L => decide (x.oppoId = none))
      (r.regs.filter fun x => x.channelId = ch ∧ (x.oppoId = none ∨ x.oppoId = some sender))
    rw [List.filter_filter, List.filter_filter] at split
    refine List.Perm.trans (List.Perm.of_eq ?_) split
    congr 1
    · refine List.filter_congr fun x _ => ?_
      grind
    · refine List.filter_congr fun x _ => ?_
      grind

/-- A dispatcher together with the registry of the calls made to it. -/
structure State (L : Type) where
  dispatcher : IntraDispatcher L
  registry : Registry L

def machine (L : Type) : Machine (State L) (Call L) where
  init := ⟨init, .empty⟩
  step := fun s call => some ⟨s.dispatcher.apply call, s.registry.apply call⟩

theorem apply_refines {call : Call L} (refines : Refines d r) (fits : r.Fits call) :
    Refines (d.apply call) (r.apply call) := by
  have open' : ¬ d.isShutdown = true := by rw [refines.running]; decide
  cases call with
  | addListener type self listener =>
    have same : d.addListener type self listener = d.addAt ⟨type, self.getId, self.getChannelId, none, listener⟩ := by
      rw [addListener, if_neg open']
      rfl
    rw [apply, same]
    exact refines.add fits
  | addListenerOpposite type self opposite listener =>
    have same : d.addListenerOpposite type self opposite listener =
        d.addAt ⟨type, self.getId, self.getChannelId, some opposite.getId, listener⟩ := by
      rw [addListenerOpposite, if_neg open']
      rfl
    rw [apply, same]
    exact refines.add fits
  | removeListener type self =>
    have same : d.removeListener type self = d.removeAt type self.getId self.getChannelId none := by
      rw [removeListener, if_neg open']
      rfl
    rw [apply, same]
    exact refines.remove fits
  | removeListenerOpposite type self opposite =>
    have same : d.removeListenerOpposite type self opposite =
        d.removeAt type self.getId self.getChannelId (some opposite.getId) := by
      rw [removeListenerOpposite, if_neg open']
      rfl
    rw [apply, same]
    exact refines.remove fits

/-- Delivery is exact after every sequence of calls that fit: a listener of another type than the channel's
first finds a listener of that type with the same opposite, and a removal takes no other listener's
handler or wrapper away. -/
theorem onMessage_exact {convert : String → String → Bool} (total : ∀ a b, convert a b = true) {s : State L}
    (reach : (machine L).ReachWhen (fun s call => s.registry.Fits call) s) (ch : UInt64) (type : String)
    (sender : UInt64) : (s.dispatcher.onMessage convert ch type sender).Perm (s.registry.concerned ch sender) := by
  have refines : Refines s.dispatcher s.registry := by
    refine reach.invariant (P := fun s => Refines s.dispatcher s.registry) refines_init ?_
    intro s call s' refines fits step
    cases Option.some.inj step
    exact apply_refines refines fits
  exact refines.exact total ch type sender

/-- The role of a receiver on channel 7. -/
def receiver (id : UInt64) : RoleAttributes :=
  { RoleAttributes.empty with channelId := some 7, id := some id }

def mixedTypes : List (Call String) :=
  [.addListener "Chatter" (receiver 1) "a", .addListener "RawMessage" (receiver 2) "b",
    .addListenerOpposite "Chatter" (receiver 3) (receiver 9) "c", .removeListener "RawMessage" (receiver 2)]

theorem mixedTypes_exact :
    let s := (machine String).stateAt mixedTypes 4
    (s.dispatcher.onMessage (fun _ _ => true) 7 "RawMessage" 9).Perm (s.registry.concerned 7 9) ∧
      s.registry.concerned 7 9 = ["a", "c"] := by
  have meets : (machine String).Meets (fun s call => s.registry.Fits call) (machine String).init mixedTypes := by
    refine ⟨?_, ?_, ?_, ?_, trivial⟩
    · intro base known
      cases known
    · intro base known
      cases Option.some.inj known
      exact Or.inr (by decide)
    · intro base known
      cases Option.some.inj known
      exact Or.inl rfl
    · refine ⟨by decide, fun base known => ?_⟩
      cases Option.some.inj known
      exact fun own => absurd own (by decide)
  have reach := Machine.stateAt_reachWhen mixedTypes meets rfl
  exact ⟨onMessage_exact (fun _ _ => rfl) reach 7 "RawMessage" 9, by decide⟩

/-- Two receivers of one type on a channel; the first is closed. -/
def oneCloses : List (Call String) :=
  [.addListener "Chatter" (receiver 1) "a", .addListener "Chatter" (receiver 2) "b",
    .removeListener "Chatter" (receiver 1)]

/-- The second receiver's listener is registered, but no message reaches it. -/
theorem oneCloses_silent :
    let s := (machine String).stateAt oneCloses 3
    (machine String).Reach s ∧ s.registry.concerned 7 9 = ["b"] ∧
      s.dispatcher.onMessage (fun _ _ => true) 7 "Chatter" 9 = [] :=
  ⟨Machine.stateAt_reach oneCloses rfl, by decide, by decide⟩

end CyberRT.IntraDispatcher
