import CyberRT.Player.PlayOrder
import CyberRT.Record.ViewerRuns

namespace CyberRT.Record
open Concur

/-- What `ThreadFunc` of a producer plays: the times of `play_param_`, the messages that its viewer gives, and the channels
for which it has writers. -/
structure Playback where
  beginTimeNs : Nat
  endTimeNs : Nat
  isLoopPlayback : Bool
  preloadSize : Nat
  messages : List SingleMessage
  writers : List String

/-- The times of the messages are in order, and within the times of the playback, which fit a `uint64_t`. -/
structure Playback.Valid (b : Playback) : Prop where
  sorted : RecordViewer.Sorted b.messages
  within : ∀ m ∈ b.messages, b.beginTimeNs ≤ m.time ∧ m.time ≤ b.endTimeNs
  times : b.beginTimeNs ≤ b.endTimeNs
  bound : b.endTimeNs < 2 ^ 64

/-- Where the thread of the producer stands. -/
inductive ProducerPc
  | idle
  /-- `while (!is_stopped_.load())` -/
  | loopTest
  /-- `while (itr != itr_end && !is_stopped_.load())` -/
  | outerTest
  /-- The loop that sleeps while the buffer is full. -/
  | waitTest
  | innerTest
  | sizeTest
  | push
  /-- The end of a loop over the messages. -/
  | loopEnd
  deriving DecidableEq

/-- A `PlayTaskProducer`, with the local variables of its thread: the messages from `itr` on, and the time that is
added. -/
structure PlayTaskProducer where
  isStopped : Bool
  pc : ProducerPc
  loopNum : Nat
  plusTimeNs : Nat
  rest : List SingleMessage

namespace PlayTaskProducer

def create : PlayTaskProducer :=
  ⟨true, .idle, 0, 0, []⟩

variable (b : Playback)

def loopTimeNs : Nat :=
  b.endTimeNs - b.beginTimeNs

/-- The task for a message, if its channel has a writer. -/
def taskOf (plusTimeNs : Nat) (m : SingleMessage) : Option PlayTask :=
  if m.channelName ∈ b.writers then some ⟨m.content, some m.channelName, m.time, (m.time + plusTimeNs) % 2 ^ 64⟩
  else none

/-- A step of `ThreadFunc`, and the task that it pushes. -/
def step (p : PlayTaskProducer) (buffer : PlayTaskBuffer) : Option (PlayTaskProducer × Option PlayTask) :=
  match p.pc with
  | .idle => none
  | .loopTest =>
    if p.isStopped then some ({ p with pc := .idle }, none)
    else
      some ({ p with
        plusTimeNs := p.loopNum * loopTimeNs b % 2 ^ 64
        rest := b.messages
        pc := .outerTest }, none)
  | .outerTest => some ({ p with pc := if p.rest.isEmpty || p.isStopped then .loopEnd else .waitTest }, none)
  | .waitTest =>
    some ({ p with pc := if !p.isStopped && decide (buffer.size > b.preloadSize) then .waitTest else .innerTest }, none)
  | .innerTest => some ({ p with pc := if p.rest.isEmpty || p.isStopped then .outerTest else .sizeTest }, none)
  | .sizeTest => some ({ p with pc := if buffer.size > b.preloadSize then .outerTest else .push }, none)
  | .push => some ({ p with rest := p.rest.tail, pc := .innerTest }, p.rest.head?.bind (taskOf b p.plusTimeNs))
  | .loopEnd =>
    if b.isLoopPlayback then some ({ p with loopNum := (p.loopNum + 1) % 2 ^ 32, pc := .loopTest }, none)
    else some ({ p with isStopped := true, pc := .idle }, none)

end PlayTaskProducer

namespace Playback

/-- The producer and the consumer with their buffer. -/
structure State where
  producer : PlayTaskProducer
  player : Player

inductive Event
  | start
  | stop
  /-- A step of the thread of the producer. -/
  | produce
  /-- A step of the consumer, or a call of one of its functions. -/
  | player (e : Player.Event)

variable (b : Playback)

def step (s : State) : Event → Option State
  | .start =>
    if s.producer.isStopped then
      if s.producer.pc = .idle then
        some { s with producer := { PlayTaskProducer.create with isStopped := false, pc := .loopTest } }
      else none
    else some s
  | .stop => some { s with producer := { s.producer with isStopped := true } }
  | .produce =>
    (s.producer.step b s.player.buffer).bind fun r =>
      (s.player.step (.push r.2)).map fun player => ⟨r.1, player⟩
  | .player (.push _) => none
  | .player e => (s.player.step e).map fun player => { s with player }

def machine : Machine State Event where
  init := ⟨.create, .create⟩
  step := b.step

/-- The thread is started once, and the times of one more loop fit a `uint64_t`. -/
def Fits (s : State) : Event → Prop
  | .start => s.player.pushed = []
  | .produce =>
    s.producer.loopNum + 1 < 2 ^ 32 ∧
      b.endTimeNs + (s.producer.loopNum + 1) * PlayTaskProducer.loopTimeNs b < 2 ^ 64
  | _ => True

/-- The thread is in a loop over the messages. -/
def Looping : ProducerPc → Prop
  | .idle | .loopTest => False
  | _ => True

/-- The times that were pushed are not above those of the messages of this loop, and of the next one. -/
structure Ahead (s : State) : Prop where
  fits : b.endTimeNs + s.producer.loopNum * PlayTaskProducer.loopTimeNs b < 2 ^ 64
  plus : Looping s.producer.pc → s.producer.plusTimeNs = s.producer.loopNum * PlayTaskProducer.loopTimeNs b
  rest : Looping s.producer.pc → s.producer.rest <:+ b.messages
  ahead : Looping s.producer.pc → ∀ task ∈ s.player.pushed, ∀ m ∈ s.producer.rest,
    task.msgPlayTimeNs ≤ m.time + s.producer.plusTimeNs
  below : Looping s.producer.pc → ∀ task ∈ s.player.pushed,
    task.msgPlayTimeNs ≤ b.endTimeNs + s.producer.plusTimeNs
  next : s.producer.pc = .loopTest → ∀ task ∈ s.player.pushed,
    task.msgPlayTimeNs ≤ b.beginTimeNs + s.producer.loopNum * PlayTaskProducer.loopTimeNs b

variable {b} {s s' : State}

/-- The time of a loop is that from the beginning to the end. -/
theorem Valid.begin_add (valid : b.Valid) (loopNum : Nat) :
    b.beginTimeNs + (loopNum + 1) * PlayTaskProducer.loopTimeNs b =
      b.endTimeNs + loopNum * PlayTaskProducer.loopTimeNs b := by
  have times := valid.times
  rw [Nat.succ_mul, PlayTaskProducer.loopTimeNs]
  omega

/-- The producer moves on within a loop and pushes nothing. -/
theorem Ahead.moves (ahead : Ahead b s) {pc : ProducerPc} (here : Looping s.producer.pc) (there : Looping pc)
    {buffer : PlayTaskBuffer} :
    Ahead b ⟨{ s.producer with pc }, { s.player with buffer, pushed := s.player.pushed ++ [] }⟩ where
  fits := ahead.fits
  plus _ := ahead.plus here
  rest _ := ahead.rest here
  ahead _ := by
    rw [List.append_nil]
    exact ahead.ahead here
  below _ := by
    rw [List.append_nil]
    exact ahead.below here
  next at_test := by
    simp only at at_test
    rw [at_test] at there
    exact absurd there id

/-- Outside of the loops only the bound of the times and the next loop matter. -/
theorem Ahead.outside (outside : ¬ Looping s.producer.pc)
    (fits : b.endTimeNs + s.producer.loopNum * PlayTaskProducer.loopTimeNs b < 2 ^ 64)
    (next : s.producer.pc = .loopTest → ∀ task ∈ s.player.pushed,
      task.msgPlayTimeNs ≤ b.beginTimeNs + s.producer.loopNum * PlayTaskProducer.loopTimeNs b) : Ahead b s where
  fits := fits
  plus looping := absurd looping outside
  rest looping := absurd looping outside
  ahead looping := absurd looping outside
  below looping := absurd looping outside
  next := next

/-- The time of a task does not wrap around. -/
theorem Ahead.time (valid : b.Valid) (ahead : Ahead b s) (looping : Looping s.producer.pc) {m : SingleMessage}
    (inside : m ∈ b.messages) {task : PlayTask}
    (made : PlayTaskProducer.taskOf b s.producer.plusTimeNs m = some task) :
    task.msgPlayTimeNs = m.time + s.producer.plusTimeNs := by
  have inRange := valid.within m inside
  unfold PlayTaskProducer.taskOf at made
  split at made
  · cases made
    have bound := ahead.fits
    rw [← ahead.plus looping] at bound
    exact Nat.mod_eq_of_lt (by omega)
  · cases made

/-- What a step of the producer pushes is not to be played before what it pushed earlier. -/
theorem Ahead.produce (valid : b.Valid) (ahead : Ahead b s) (fits : Fits b s .produce) {producer : PlayTaskProducer}
    {task : Option PlayTask} (step : s.producer.step b s.player.buffer = some (producer, task)) :
    Player.PushesInOrder s.player (.push task) ∧
      Ahead b ⟨producer, { s.player with buffer := s.player.buffer.push task, pushed := s.player.pushed ++ task.toList }⟩ := by
  obtain ⟨small, wide⟩ := fits
  unfold PlayTaskProducer.step at step
  cases here : s.producer.pc with
  | idle => simp [here] at step
  | loopTest =>
    have next := ahead.next here
    simp only [here] at step
    split at step
    · cases step
      exact ⟨trivial, .outside id ahead.fits fun test => by simp at test⟩
    · cases step
      have exact_time : s.producer.loopNum * PlayTaskProducer.loopTimeNs b % 2 ^ 64 =
          s.producer.loopNum * PlayTaskProducer.loopTimeNs b := Nat.mod_eq_of_lt (by have := ahead.fits; omega)
      refine ⟨trivial, ahead.fits, fun _ => exact_time, fun _ => List.suffix_rfl, ?_, ?_, fun test => by simp at test⟩
      · intro _ task member m inside
        have begins := (valid.within m inside).1
        have earlier := next task (by simpa using member)
        simp only [exact_time]
        omega
      · intro _ task member
        have times := valid.times
        have earlier := next task (by simpa using member)
        simp only [exact_time]
        omega
  | outerTest | waitTest | innerTest | sizeTest =>
    simp only [here, Option.some.injEq, Prod.mk.injEq] at step
    obtain ⟨rfl, rfl⟩ := step
    refine ⟨trivial, ahead.moves (by rw [here]; trivial) ?_⟩
    split <;> trivial
  | push =>
    have looping : Looping s.producer.pc := by
      rw [here]
      trivial
    have plus := ahead.plus looping
    have suffix := ahead.rest looping
    have before := ahead.ahead looping
    have below := ahead.below looping
    simp only [here, Option.some.injEq, Prod.mk.injEq] at step
    obtain ⟨rfl, rfl⟩ := step
    have shorter : s.producer.rest.tail <:+ b.messages := (List.tail_suffix _).trans suffix
    cases found : s.producer.rest.head?.bind (PlayTaskProducer.taskOf b s.producer.plusTimeNs) with
    | none =>
      refine ⟨trivial, ahead.fits, fun _ => plus, fun _ => shorter, ?_, ?_, fun test => by simp at test⟩
      · intro _ task member m inside
        exact before task (by simpa using member) m (List.mem_of_mem_tail inside)
      · intro _ task member
        exact below task (by simpa using member)
    | some task =>
      obtain ⟨m, first, made⟩ := Option.bind_eq_some_iff.mp found
      have rest := List.eq_cons_of_mem_head? first
      have inside : m ∈ s.producer.rest := by
        rw [rest]
        exact List.mem_cons_self ..
      have inRange := valid.within m (suffix.subset inside)
      have time := ahead.time valid looping (suffix.subset inside) made
      have sorted : RecordViewer.Sorted s.producer.rest := valid.sorted.sublist suffix.sublist
      rw [rest] at sorted
      refine ⟨fun earlier member => ?_, ahead.fits, fun _ => plus, fun _ => shorter, ?_, ?_, fun test => by simp at test⟩
      · rw [time]
        exact before earlier member m inside
      · intro _ earlier member later inTail
        rcases List.mem_append.mp member with old | new
        · exact before earlier old later (List.mem_of_mem_tail inTail)
        · rw [List.mem_singleton.mp new, time]
          have order := (List.pairwise_cons.mp sorted).1 later inTail
          simp only
          omega
      · intro _ earlier member
        rcases List.mem_append.mp member with old | new
        · exact below earlier old
        · rw [List.mem_singleton.mp new, time]
          simp only
          omega
  | loopEnd =>
    have looping : Looping s.producer.pc := by
      rw [here]
      trivial
    have plus := ahead.plus looping
    have below := ahead.below looping
    simp only [here] at step
    split at step
    · cases step
      have exact_num : (s.producer.loopNum + 1) % 2 ^ 32 = s.producer.loopNum + 1 := Nat.mod_eq_of_lt small
      refine ⟨trivial, .outside id ?_ ?_⟩
      · simp only [exact_num]
        exact wide
      · intro _ task member
        have bound := below task (by simpa using member)
        rw [plus] at bound
        simp only [exact_num, valid.begin_add]
        exact bound
    · cases step
      exact ⟨trivial, .outside id ahead.fits fun test => by simp at test⟩

/-- Only a push changes what was pushed. -/
theorem pushed_of_step {p p' : Player} {e : Player.Event} (other : ∀ task, e ≠ .push task)
    (moved : p.step e = some p') :
    p'.pushed = p.pushed := by
  cases e with
  | push task => exact absurd rfl (other task)
  | start beginTimeNs =>
    simp only [Player.step] at moved
    split at moved
    · split at moved
      · cases moved
        rfl
      · cases moved
    · cases moved
      rfl
  | consume sleeping succeeds => exact (Player.consume_frame moved).2.2.1
  | stop | pause | playOnce | «continue» =>
    cases Option.some.inj moved
    rfl

theorem Ahead.step (valid : b.Valid) (ahead : Ahead b s) {e : Event} (fits : Fits b s e)
    (moved : b.step s e = some s') :
    Ahead b s' ∧ (s'.player = s.player ∨
      ∃ e', Player.PushesInOrder s.player e' ∧ Player.machine.step s.player e' = some s'.player) := by
  cases e with
  | start =>
    have none : s.player.pushed = [] := fits
    simp only [Playback.step] at moved
    split at moved
    · split at moved
      · cases moved
        refine ⟨⟨?_, fun looping => absurd looping id, fun looping => absurd looping id, fun looping => absurd looping id,
          fun looping => absurd looping id, fun _ task member => ?_⟩, Or.inl rfl⟩
        · rw [PlayTaskProducer.create, Nat.zero_mul]
          exact valid.bound
        · rw [none] at member
          exact absurd member List.not_mem_nil
      · cases moved
    · cases moved
      exact ⟨ahead, Or.inl rfl⟩
  | stop =>
    cases Option.some.inj moved
    exact ⟨⟨ahead.fits, ahead.plus, ahead.rest, ahead.ahead, ahead.below, ahead.next⟩, Or.inl rfl⟩
  | produce =>
    obtain ⟨⟨producer, task⟩, step, pushes⟩ := Option.bind_eq_some_iff.mp moved
    cases Option.some.inj pushes
    have order := ahead.produce valid fits step
    exact ⟨order.2, Or.inr ⟨.push task, order.1, rfl⟩⟩
  | player e =>
    have other : ∀ task, e ≠ .push task := by
      rintro task rfl
      cases moved
    have step : (s.player.step e).map (fun player => { s with player }) = some s' := by
      cases e with
      | push task => exact absurd rfl (other task)
      | _ => exact moved
    obtain ⟨player, stepped, rfl⟩ := Option.map_eq_some_iff.mp step
    have same : player.pushed = s.player.pushed := pushed_of_step other stepped
    refine ⟨⟨ahead.fits, ahead.plus, ahead.rest, ?_, ?_, ?_⟩, Or.inr ⟨e, ?_, stepped⟩⟩
    · simp only [same]
      exact ahead.ahead
    · simp only [same]
      exact ahead.below
    · simp only [same]
      exact ahead.next
    · cases e with
      | push task => exact absurd rfl (other task)
      | _ => trivial

/-- A playback pushes its tasks in the order of their play times, also when it goes over the messages again and again. -/
theorem pushes_in_order (valid : b.Valid) (reach : b.machine.ReachWhen (Fits b) s) :
    Player.machine.ReachWhen Player.PushesInOrder s.player := by
  have both : Ahead b s ∧ Player.machine.ReachWhen Player.PushesInOrder s.player := by
    refine reach.invariant (P := fun s => Ahead b s ∧ Player.machine.ReachWhen Player.PushesInOrder s.player) ?_ ?_
    · refine ⟨.outside id ?_ fun test => (by cases test), .start⟩
      have zero : b.endTimeNs + 0 * PlayTaskProducer.loopTimeNs b < 2 ^ 64 := by
        rw [Nat.zero_mul]
        exact valid.bound
      exact zero
    · rintro s e s' ⟨ahead, before⟩ fits moved
      obtain ⟨ahead', same | ⟨e', allowed, step⟩⟩ := ahead.step valid fits moved
      · exact ⟨ahead', same.symm ▸ before⟩
      · exact ⟨ahead', .next before allowed step⟩
  exact both.2

end Playback

end CyberRT.Record
