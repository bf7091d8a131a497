import CyberRT.Record.Recorder
import CyberRT.Record.ViewerRuns
import CyberRT.Record.WriterRuns

namespace CyberRT.Record
open Concur
open RecordViewer (Sorted)

/-- A writer that is closed stays so, and one that is open is closed by its own steps only. -/
theorem RecordWriter.messages_of_step {pb : Protobuf} {r r' : RecordWriter} {e : RecordWriter.Event}
    (other : ∀ message, e ≠ .writeMessage message) (step : RecordWriter.step pb r e = some r') :
    r'.messages = r.messages ∧ (r'.isOpened = true → r.isOpened = true) := by
  cases e with
  | writeChannel channelName messageType protoDesc =>
    simp only [RecordWriter.step] at step
    split at step
    · rename_i opened
      split at step
      · cases step
        exact ⟨rfl, id⟩
      · obtain ⟨file, _, rfl⟩ := Option.map_eq_some_iff.mp step
        exact ⟨rfl, fun _ => opened.1⟩
    · cases step
  | writeMessage message => exact absurd rfl (other message)
  | close =>
    simp only [RecordWriter.step] at step
    split at step
    · rename_i opened
      obtain ⟨file, _, rfl⟩ := Option.map_eq_some_iff.mp step
      exact ⟨rfl, fun _ => opened.1⟩
    · cases step
  | go =>
    refine ⟨(histories_of_go step).1, ?_⟩
    simp only [RecordWriter.step, RecordWriter.go] at step
    split at step
    · cases step
    · split at step
      · cases step
        simp only [RecordWriter.afterMessage]
        split <;> exact id
      · obtain ⟨file, _, rfl⟩ := Option.map_eq_some_iff.mp step
        exact id
    · split at step
      · cases step
        exact id
      · obtain ⟨file, _, rfl⟩ := Option.map_eq_some_iff.mp step
        exact id
    · split at step
      · cases step
        exact fun opened => by cases opened
      · obtain ⟨file, _, rfl⟩ := Option.map_eq_some_iff.mp step
        exact id
  | flush =>
    obtain ⟨file, _, rfl⟩ := Option.map_eq_some_iff.mp step
    exact ⟨rfl, id⟩

namespace Recorder
variable {pb : Protobuf} {r r' : Shared} {pc pc' : Pc}

/-- The messages were passed on in the order of their times, each with the time that its callback had taken. -/
structure Inv (r : Shared) : Prop where
  order : Sorted (r.passed.map Prod.fst)
  own : ∀ item ∈ r.passed, item.1.time = item.2
  past : ∀ item ∈ r.passed, item.1.time ≤ r.clock
  writer : r.writer.messages <+: r.passed.map Prod.fst
  opened : r.writer.isOpened = true → r.writer.messages = r.passed.map Prod.fst

/-- A callback has taken a time that none of the messages passed on is after, and its argument is this time. -/
structure At (r : Shared) (pc : Pc) : Prop where
  clock : ∀ time, pc.taken = some time → time ≤ r.clock
  after : ∀ time, pc.taken = some time → ∀ item ∈ r.passed, item.1.time ≤ time
  stored : ∀ channelName content time, pc = .read channelName content time → r.messageTime = time
  argument : ∀ channelName content time argument, pc = .write channelName content time argument → argument = time

/-- A thread in none of the places that the assertions are about. -/
theorem at_outside (none : pc.taken = none) : At r pc where
  clock time taken := by rw [none] at taken; cases taken
  after time taken := by rw [none] at taken; cases taken
  stored channelName content time here := by rw [here] at none; cases none
  argument channelName content time argument here := by rw [here] at none; cases none

theorem At.mono (here : At r pc) (clock : r.clock ≤ r'.clock) (passed : r'.passed = r.passed)
    (messageTime : r'.messageTime = r.messageTime) : At r' pc where
  clock time taken := (here.clock time taken).trans clock
  after time taken := passed ▸ here.after time taken
  stored channelName content time at_read := messageTime.trans (here.stored channelName content time at_read)
  argument := here.argument

theorem Inv.mono (inv : Inv r) (clock : r.clock ≤ r'.clock) (passed : r'.passed = r.passed)
    (messages : r'.writer.messages = r.writer.messages)
    (opened : r'.writer.isOpened = true → r.writer.isOpened = true) : Inv r' where
  order := passed ▸ inv.order
  own := passed ▸ inv.own
  past item member := (inv.past item (passed ▸ member)).trans clock
  writer := by rw [messages, passed]; exact inv.writer
  opened still := by rw [messages, passed]; exact inv.opened (opened still)

/-- What `WriteMessage` changes. -/
theorem writeMessage_spec {message : SingleMessage} {taken : Nat} (step : writeMessage pb r message taken = some r') :
    r'.passed = r.passed ++ [(message, taken)] ∧ r'.clock = r.clock ∧ r'.messageTime = r.messageTime ∧
      ((r.writer.isOpened = true ∧ r'.writer.messages = r.writer.messages ++ [message]) ∨
        (r.writer.isOpened = false ∧ r'.writer = r.writer)) := by
  unfold writeMessage at step
  split at step
  · rename_i opened
    obtain ⟨writer, taken, rfl⟩ := Option.map_eq_some_iff.mp step
    simp only [RecordWriter.step] at taken
    split at taken
    · obtain ⟨file, _, rfl⟩ := Option.map_eq_some_iff.mp taken
      exact ⟨rfl, rfl, rfl, Or.inl ⟨opened, rfl⟩⟩
    · cases taken
  · rename_i closed
    cases step
    exact ⟨rfl, rfl, rfl, Or.inr ⟨Bool.eq_false_iff.mpr closed, rfl⟩⟩

/-- A message whose time is the one taken, and that no message passed on is after, keeps the order. -/
theorem Inv.pass (inv : Inv r) {message : SingleMessage} {taken : Nat} (step : writeMessage pb r message taken = some r')
    (own : message.time = taken) (clock : message.time ≤ r.clock)
    (last : ∀ item ∈ r.passed, item.1.time ≤ message.time) : Inv r' := by
  obtain ⟨passed, sameClock, _, writer⟩ := writeMessage_spec step
  have messages : r'.passed.map Prod.fst = r.passed.map Prod.fst ++ [message] := by
    rw [passed, List.map_append]
    rfl
  refine ⟨?_, ?_, ?_, ?_, ?_⟩
  · rw [messages]
    refine List.pairwise_append.mpr ⟨inv.order, List.pairwise_singleton _ _, fun first member later new => ?_⟩
    obtain ⟨item, inside, rfl⟩ := List.mem_map.mp member
    rw [List.mem_singleton.mp new]
    exact last item inside
  · intro item member
    rw [passed] at member
    rcases List.mem_append.mp member with old | new
    · exact inv.own item old
    · rw [List.mem_singleton.mp new]
      exact own
  · intro item member
    rw [passed] at member
    rw [sameClock]
    rcases List.mem_append.mp member with old | new
    · exact inv.past item old
    · rw [List.mem_singleton.mp new]
      exact clock
  · rw [messages]
    rcases writer with ⟨opened, added⟩ | ⟨_, same⟩
    · rw [added, inv.opened opened]
    · rw [same]
      exact inv.writer.trans (List.prefix_append _ _)
  · intro still
    rw [messages]
    rcases writer with ⟨opened, added⟩ | ⟨closed, same⟩
    · rw [added, inv.opened opened]
    · rw [same, closed] at still
      cases still

/-- The thread that moves keeps the order and reaches its next assertion. -/
theorem next_own (inv : Inv r) (here : At r pc) (step : next pb r pc = some (r', pc')) : Inv r' ∧ At r' pc' := by
  have clock := here.clock
  have after := here.after
  cases pc with
  | idle => cases step
  | startedTest channelName message =>
    cases step
    refine ⟨inv, at_outside ?_⟩
    split <;> rfl
  | stoppingTest channelName message =>
    cases message with
    | none =>
      cases step
      exact ⟨inv, at_outside rfl⟩
    | some content =>
      cases step
      refine ⟨inv, at_outside ?_⟩
      split <;> rfl
  | now channelName content =>
    cases step
    refine ⟨inv, ?_, ?_, by simp, by simp⟩
    · intro time taken
      cases taken
      exact le_rfl
    · intro time taken
      cases taken
      exact inv.past
  | store channelName content time =>
    cases step
    refine ⟨inv.mono le_rfl rfl rfl id, clock, after, ?_, by simp⟩
    intro _ _ _ at_read
    cases at_read
    rfl
  | read channelName content time =>
    have stored := here.stored channelName content time rfl
    cases step
    refine ⟨inv, clock, after, by simp, ?_⟩
    intro _ _ _ _ at_write
    cases at_write
    exact stored
  | write channelName content time argument =>
    obtain ⟨r₁, passes, moved⟩ := Option.map_eq_some_iff.mp step
    cases moved
    cases here.argument channelName content time argument rfl
    exact ⟨inv.pass passes rfl (clock _ rfl) (after _ rfl), at_outside rfl⟩
  | written =>
    cases step
    exact ⟨inv, at_outside rfl⟩
  | readCount =>
    cases step
    exact ⟨inv, at_outside rfl⟩
  | storeCount count =>
    cases step
    exact ⟨inv.mono le_rfl rfl rfl id, at_outside rfl⟩

/-- An unhindered step of another thread keeps the assertion of a callback. -/
theorem next_other {m : Pc} (here : At r pc) (there : At r m) (clear : Unhindered pc .next m)
    (step : next pb r pc = some (r', pc')) : At r' m := by
  cases pc with
  | idle => cases step
  | stoppingTest channelName message =>
    cases message with
    | none =>
      cases step
      exact there
    | some content =>
      cases step
      exact there
  | store channelName content time =>
    cases step
    refine ⟨there.clock, there.after, ?_, there.argument⟩
    rintro _ _ other rfl
    exact (clear.1 time rfl other rfl).symm
  | write channelName content time argument =>
    obtain ⟨r₁, passes, moved⟩ := Option.map_eq_some_iff.mp step
    cases moved
    cases here.argument channelName content time argument rfl
    obtain ⟨passed, sameClock, sameTime, _⟩ := writeMessage_spec passes
    refine ⟨?_, ?_, ?_, there.argument⟩
    · rw [sameClock]
      exact there.clock
    · intro other taken item member
      rw [passed] at member
      rcases List.mem_append.mp member with old | new
      · exact there.after other taken item old
      · rw [List.mem_singleton.mp new]
        exact clear.2 _ rfl other taken
    · rw [sameTime]
      exact there.stored
  | startedTest channelName message =>
    cases step
    exact there
  | now channelName content =>
    cases step
    exact there
  | read channelName content time =>
    cases step
    exact there
  | written =>
    cases step
    exact there
  | readCount =>
    cases step
    exact there
  | storeCount count =>
    cases step
    exact there.mono le_rfl rfl rfl

/-- What is done around the callbacks passes no message on. -/
theorem around_spec {c : Choice} (other : c ≠ .next) (step : act pb r pc c = some (r', pc')) :
    pc'.taken = none ∧ r.clock ≤ r'.clock ∧ r'.passed = r.passed ∧ r'.messageTime = r.messageTime ∧
      r'.writer.messages = r.writer.messages ∧ (r'.writer.isOpened = true → r.writer.isOpened = true) := by
  cases c with
  | next => exact absurd rfl other
  | callback channelName message =>
    obtain ⟨-, ⟨⟩⟩ := Option.ite_none_right_eq_some.mp step
    exact ⟨rfl, le_rfl, rfl, rfl, rfl, id⟩
  | fail =>
    obtain ⟨-, ⟨⟩⟩ := Option.ite_none_right_eq_some.mp step
    exact ⟨rfl, le_rfl, rfl, rfl, rfl, id⟩
  | tick time =>
    obtain ⟨rfl, ⟨⟩⟩ := Option.ite_none_right_eq_some.mp step
    exact ⟨rfl, Nat.le_add_right _ _, rfl, rfl, rfl, id⟩
  | stopping =>
    obtain ⟨rfl, ⟨⟩⟩ := Option.ite_none_right_eq_some.mp step
    exact ⟨rfl, le_rfl, rfl, rfl, rfl, id⟩
  | stopped =>
    obtain ⟨rfl, ⟨⟩⟩ := Option.ite_none_right_eq_some.mp step
    exact ⟨rfl, le_rfl, rfl, rfl, rfl, id⟩
  | writer e =>
    have own : ∀ message, e ≠ .writeMessage message := by
      rintro message rfl
      cases step
    have moved : (if pc = .idle then (RecordWriter.step pb r.writer e).map fun writer => ({ r with writer }, pc) else none)
        = some (r', pc') := by
      cases e with
      | writeMessage message => exact absurd rfl (own message)
      | _ => exact step
    obtain ⟨rfl, made⟩ := Option.ite_none_right_eq_some.mp moved
    obtain ⟨writer, stepped, pair⟩ := Option.map_eq_some_iff.mp made
    cases pair
    obtain ⟨messages, opened⟩ := RecordWriter.messages_of_step own stepped
    exact ⟨rfl, le_rfl, rfl, rfl, messages, opened⟩

theorem outline : Config.OutlineWhen (act pb) (fun _ _ _ => True) Unhindered Inv At fun _ _ => True where
  own r pc c r' pc' inv here _ step := by
    by_cases own : c = .next
    · subst own
      exact next_own inv here step
    · obtain ⟨outside, clock, passed, _, messages, opened⟩ := around_spec own step
      exact ⟨inv.mono clock passed messages opened, at_outside outside⟩
  other r pc c r' pc' m inv here there _ _ _ clear step := by
    refine ⟨?_, trivial, trivial⟩
    by_cases own : c = .next
    · subst own
      exact next_other here there clear step
    · obtain ⟨_, clock, passed, messageTime, _⟩ := around_spec own step
      exact there.mono clock passed messageTime

/-- The steps of a run that are not hindered by another callback. -/
def Clear {τ : Type} (s : Config τ Shared Pc) (e : τ × Choice) : Prop :=
  Config.Clear (fun _ _ _ => True) Unhindered s e

instance {τ : Type} [Fintype τ] [DecidableEq τ] (s : Config τ Shared Pc) (e : τ × Choice) : Decidable (Clear s e) :=
  inferInstanceAs (Decidable (True ∧ ∀ u, u ≠ e.1 → Unhindered (s.thread e.1) e.2 (s.thread u)))

/-- When no callback stores its time between the store and the read of another one, and none writes before one that has
taken an earlier time, the messages are passed on in the order of their times, which are those of their callbacks. -/
theorem recorded_in_order {τ : Type} [DecidableEq τ] {header : Header} {clock : Nat} {s : Config τ Shared Pc}
    (reach : (machine pb τ header clock).ReachWhen Clear s) :
    Sorted (s.shared.passed.map Prod.fst) ∧
    (∀ item ∈ s.shared.passed, item.1.time = item.2) ∧
    s.shared.writer.messages <+: s.shared.passed.map Prod.fst ∧
    (s.shared.writer.isOpened = true → s.shared.writer.messages = s.shared.passed.map Prod.fst) := by
  have base : Config.Holds (τ := τ) Inv At (fun _ _ => True) ⟨start pb header clock, fun _ => .idle⟩ :=
    ⟨⟨List.Pairwise.nil, by simp [start], by simp [start], List.prefix_rfl, fun _ => rfl⟩, fun _ => at_outside rfl,
      fun _ _ _ => trivial⟩
  have inv := (outline.reach base reach).shared
  exact ⟨inv.order, inv.own, inv.writer, inv.opened⟩

/-- A callback from the beginning to the write of its message. -/
def writes (thread : Bool) (channelName : String) (content : List UInt8) : List (Bool × Choice) :=
  (thread, .callback channelName (some content)) :: List.replicate 6 (thread, .next)

/-- Two callbacks, one after the other. -/
def oneByOne : List (Bool × Choice) :=
  writes true "a" [1] ++ [(false, .writer .go), (false, .tick 1)] ++ writes false "b" [2]

theorem recorded_in_order_one_by_one :
    let s := (machine (Wire.protobuf .none) Bool .empty 5).stateAt oneByOne 16
    Sorted (s.shared.passed.map Prod.fst) ∧ s.shared.passed = [(⟨"a", 5, [1]⟩, 5), (⟨"b", 6, [2]⟩, 6)] := by
  intro s
  have reach : (machine (Wire.protobuf .none) Bool .empty 5).ReachWhen Clear s :=
    Machine.stateAt_reachWhen oneByOne (by decide) (by decide)
  exact ⟨(recorded_in_order reach).1, by decide⟩

/-- The second callback comes between the time of the first one and its write. -/
def overtaken : List (Bool × Choice) :=
  [(true, .callback "a" (some [1])), (true, .next), (true, .next), (true, .next), (false, .tick 1)] ++
    writes false "b" [2] ++ [(false, .next), (false, .next), (false, .next), (false, .writer .go)] ++
    List.replicate 3 (true, .next)

/-- The second callback comes between the store of the first one and its read. -/
def overwritten : List (Bool × Choice) :=
  [(true, .callback "a" (some [1])), (true, .next), (true, .next), (true, .next), (true, .next), (false, .tick 1)] ++
    [(false, .callback "b" (some [2])), (false, .next), (false, .next), (false, .next), (false, .next)] ++
    List.replicate 2 (true, .next)

theorem recorded_out_of_order :
    (∃ s, (machine (Wire.protobuf .none) Bool .empty 5).Reach s ∧
      s.shared.writer.messages = [⟨"b", 6, [2]⟩, ⟨"a", 5, [1]⟩] ∧ ¬ Sorted (s.shared.passed.map Prod.fst)) ∧
    ∃ s, (machine (Wire.protobuf .none) Bool .empty 5).Reach s ∧ s.shared.passed = [(⟨"a", 6, [1]⟩, 5)] ∧
      ¬ ∀ item ∈ s.shared.passed, item.1.time = item.2 := by
  refine ⟨⟨_, Machine.stateAt_reach overtaken (by decide), by decide, ?_⟩,
    ⟨_, Machine.stateAt_reach overwritten (by decide), by decide, by decide⟩⟩
  have passed : ((machine (Wire.protobuf .none) Bool .empty 5).stateAt overtaken overtaken.length).shared.passed.map
      Prod.fst = [⟨"b", 6, [2]⟩, ⟨"a", 5, [1]⟩] := by decide
  rw [passed]
  intro sorted
  exact absurd ((List.pairwise_cons.mp sorted).1 _ (List.mem_singleton_self _)) (by decide)

end Recorder

end CyberRT.Record
