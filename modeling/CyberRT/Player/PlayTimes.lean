import CyberRT.Player.PlayOrder

namespace CyberRT.Record
open Concur

def kPauseSleepNanoSec : Nat := 100000000

def kWaitProduceSleepNanoSec : Nat := 5000000

def MIN_SLEEP_DURATION_NS : Nat := 200000000

/-- A difference of unsigned numbers of 64 bits. -/
def sub64 (u v : Nat) : Nat :=
  (u + (2 ^ 64 - v % 2 ^ 64)) % 2 ^ 64

theorem sub64_of_le {u v : Nat} (le : v ≤ u) (bound : u < 2 ^ 64) : sub64 u v = u - v := by
  unfold sub64
  omega

/-- What comes next for a task that was taken: to read `base_real_time_ns`, to find out how long to sleep, or to
play. -/
inductive Turn
  | readBase
  | measure
  | play
  deriving DecidableEq

/-- A call of `Play`: when its delay was found out, when the sleep was to end, when it came, and the pauses so far. -/
structure PlayTime where
  task : PlayTask
  measured : Nat
  due : Nat
  time : Nat
  paused : Nat

/-- A player with a clock, and the variables of `ThreadFunc`. The thread sleeps until `wake`. `measured`, `startedAt`
and `times` are histories: of the last delay, of the start of the thread and of `Play`. -/
structure TimedPlayer where
  player : Player
  now : Nat
  wake : Nat
  turn : Turn
  sleepNs : Nat
  baseRealTimeNs : Nat
  accumulatedPauseTimeNs : Nat
  measured : Nat
  startedAt : Nat
  times : List PlayTime

inductive TimedEvent
  | tick (elapsed : Nat)
  | consume (succeeds : Bool)
  | other (e : Player.Event)

namespace TimedPlayer

/-- The thread has looked for a task. `scaled` divides an interval by the play rate. -/
def takeTask (scaled : Nat → Nat) (t : TimedPlayer) (p : Player) : TimedPlayer :=
  match p.pc with
  | .firstSleep task => { t with
    player := p, turn := .readBase, sleepNs := scaled (task.msgPlayTimeNs - p.beginTimeNs) }
  | .ready _ => { t with player := p, turn := if t.player.baseMsgPlayTimeNs = 0 then .readBase else .measure }
  | _ => { t with player := p, wake := t.now + kWaitProduceSleepNanoSec }

/-- A round of the sleep until the first task, or the rest of it. -/
def sleepOn (t : TimedPlayer) (p : Player) : TimedPlayer :=
  match p.pc with
  | .firstSleep _ => { t with
    player := p, wake := t.now + MIN_SLEEP_DURATION_NS, sleepNs := t.sleepNs - MIN_SLEEP_DURATION_NS }
  | _ => { t with player := p, turn := .readBase, wake := t.now + t.sleepNs }

/-- How long to sleep before the task. -/
def delay (scaled : Nat → Nat) (t : TimedPlayer) (task : PlayTask) : Nat :=
  scaled (sub64 task.msgPlayTimeNs t.player.baseMsgPlayTimeNs) -
    sub64 (sub64 t.now t.baseRealTimeNs) t.accumulatedPauseTimeNs

def consume (scaled : Nat → Nat) (t : TimedPlayer) (succeeds : Bool) : Option TimedPlayer :=
  if t.wake ≤ t.now then
    match t.player.pc with
    | .front => (t.player.consume false succeeds).map (t.takeTask scaled)
    | .firstSleep _ => (t.player.consume (decide (MIN_SLEEP_DURATION_NS < t.sleepNs)) succeeds).map t.sleepOn
    | .ready task =>
      match t.turn with
      | .readBase => some { t with baseRealTimeNs := t.now, turn := .measure }
      | .measure => some { t with measured := t.now, wake := t.now + t.delay scaled task, turn := .play }
      | .play => (t.player.consume false succeeds).map fun p => { t with
        player := p, times := t.times ++ [⟨task, t.measured, t.wake, t.now, t.accumulatedPauseTimeNs⟩] }
    | .pauseOnceTest _ => (t.player.consume false succeeds).map fun p =>
      if t.player.isPlayonce then { t with player := p }
      else { t with
        player := p
        wake := t.now + kPauseSleepNanoSec
        accumulatedPauseTimeNs := t.accumulatedPauseTimeNs + kPauseSleepNanoSec }
    | _ => (t.player.consume false succeeds).map fun p => { t with player := p }
  else none

/-- `Start` makes a new thread if there is none. -/
def otherStep (t : TimedPlayer) (e : Player.Event) : Option TimedPlayer :=
  match e with
  | .consume _ _ => none
  | .start _ => (t.player.step e).map fun p =>
    if t.player.isStopped then
      { t with player := p, wake := t.now, baseRealTimeNs := 0, accumulatedPauseTimeNs := 0, startedAt := t.now }
    else { t with player := p }
  | _ => (t.player.step e).map fun p => { t with player := p }

def machine (scaled : Nat → Nat) : Machine TimedPlayer TimedEvent where
  init := ⟨.create, 0, 0, .readBase, 0, 0, 0, 0, 0, []⟩
  step t
    | .tick elapsed => some { t with now := t.now + elapsed }
    | .consume succeeds => t.consume scaled succeeds
    | .other e => t.otherStep e

variable {scaled : Nat → Nat} {t t' : TimedPlayer} {e : TimedEvent} {succeeds : Bool}

/-- The producer pushes tasks in order, with times of 64 bits other than zero; the consumer is not started again once
it has taken a task; the clock has 64 bits. -/
def OnSchedule (t : TimedPlayer) : TimedEvent → Prop
  | .tick elapsed => t.now + elapsed < 2 ^ 64
  | .consume _ => True
  | .other e => Player.PushesInOrder t.player e ∧
    match e with
    | .push (some task) => 0 < task.msgPlayTimeNs ∧ task.msgPlayTimeNs < 2 ^ 64
    | .start _ => t.player.isStopped = true → t.player.baseMsgPlayTimeNs = 0
    | _ => True

/-- The offset of the first message. -/
def lead (scaled : Nat → Nat) (t : TimedPlayer) : Nat :=
  if t.player.beginTimeNs < t.player.baseMsgPlayTimeNs then
    scaled (t.player.baseMsgPlayTimeNs - t.player.beginTimeNs)
  else 0

/-- When a task is to be played after pauses of that length. -/
def schedule (scaled : Nat → Nat) (t : TimedPlayer) (paused : Nat) (task : PlayTask) : Nat :=
  t.baseRealTimeNs + paused + scaled (task.msgPlayTimeNs - t.player.baseMsgPlayTimeNs)

/-- `base_real_time_ns` is not read yet. -/
def Waits (t : TimedPlayer) : Prop :=
  t.player.baseMsgPlayTimeNs = 0 ∨
    match t.player.pc with
    | .firstSleep _ => True
    | .ready _ => t.turn = .readBase
    | _ => False

/-- The thread is not at the start of a task. -/
def Late : ConsumerPc → Prop
  | .idle | .firstSleep _ | .ready _ => False
  | _ => True

theorem not_waits (late : Late t.player.pc) (known : t.player.baseMsgPlayTimeNs ≠ 0) : ¬ t.Waits := by
  rintro (none | waits)
  · exact known none
  · cases here : t.player.pc <;> simp only [here, Late] at late waits

/-- What the clock and the variables of the thread have to do with each other. -/
structure Paced (scaled : Nat → Nat) (t : TimedPlayer) : Prop where
  clock : t.now < 2 ^ 64
  started : t.startedAt ≤ t.now
  range : ∀ task ∈ t.player.pushed, 0 < task.msgPlayTimeNs ∧ task.msgPlayTimeNs < 2 ^ 64
  base : ∀ task ∈ t.player.pushed, t.player.baseMsgPlayTimeNs ≤ task.msgPlayTimeNs
  known : t.player.baseMsgPlayTimeNs ≠ 0 → ∃ task ∈ t.player.pushed, task.msgPlayTimeNs = t.player.baseMsgPlayTimeNs
  taken : ∀ task, t.player.pc.taken = some task → t.player.baseMsgPlayTimeNs ≠ 0
  records : t.times.map PlayTime.task = t.player.played
  waits : t.Waits → t.times = [] ∧ t.accumulatedPauseTimeNs = 0
  sleeping : ∀ task, t.player.pc = .firstSleep task → t.startedAt + t.lead scaled ≤ max t.now t.wake + t.sleepNs
  reads : ∀ task, t.player.pc = .ready task → t.turn = .readBase → t.startedAt + t.lead scaled ≤ max t.now t.wake
  based : t.player.pc ≠ .idle → ¬ t.Waits →
    t.startedAt + t.lead scaled ≤ t.baseRealTimeNs ∧
      t.baseRealTimeNs + t.accumulatedPauseTimeNs ≤ max t.now t.wake
  ready : ∀ task, t.player.pc = .ready task → t.turn = .play →
    t.wake = max t.measured (t.schedule scaled t.accumulatedPauseTimeNs task)
  times : ∀ r ∈ t.times, t.startedAt + t.lead scaled ≤ t.baseRealTimeNs ∧
    r.due = max r.measured (t.schedule scaled r.paused r.task) ∧ r.due ≤ r.time

theorem late_ne {pc : ConsumerPc} (next : Late pc ∨ pc = .idle) (task : PlayTask) :
    pc ≠ .firstSleep task ∧ pc ≠ .ready task := by
  constructor
  · rintro rfl
    exact next.elim id nofun
  · rintro rfl
    exact next.elim id nofun

theorem ready_ne_firstSleep {first second : PlayTask} : ConsumerPc.ready first ≠ .firstSleep second := nofun

theorem firstSleep_ne_ready {first second : PlayTask} : ConsumerPc.firstSleep first ≠ .ready second := nofun

theorem readBase_ne_play : Turn.readBase ≠ .play := nofun

theorem measure_ne_readBase : Turn.measure ≠ .readBase := nofun

theorem untaken {pc : ConsumerPc} (free : pc.taken = none) {P : PlayTask → Prop} (task : PlayTask)
    (here : pc.taken = some task) : P task := by
  rw [free] at here
  cases here

/-- Nothing was played, so that there is nothing to say about it. -/
theorem no_times (never : t.times = []) {P : PlayTime → Prop} : ∀ r ∈ t.times, P r := by
  intro r member
  rw [never] at member
  cases member

theorem not_waits_ready {task : PlayTask} (here : t.player.pc = .ready task) (later : t.turn ≠ .readBase)
    (known : t.player.baseMsgPlayTimeNs ≠ 0) : ¬ t.Waits := by
  rintro (none | early)
  · exact known none
  · rw [here] at early
    exact later early

theorem lead_congr (base : t'.player.baseMsgPlayTimeNs = t.player.baseMsgPlayTimeNs)
    (begins : t'.player.beginTimeNs = t.player.beginTimeNs) : t'.lead scaled = t.lead scaled := by
  rw [lead, lead, base, begins]

theorem schedule_congr (base : t'.player.baseMsgPlayTimeNs = t.player.baseMsgPlayTimeNs)
    (real : t'.baseRealTimeNs = t.baseRealTimeNs) (paused : Nat) (task : PlayTask) :
    t'.schedule scaled paused task = t.schedule scaled paused task := by
  rw [schedule, schedule, base, real]

/-- The player has made a step, after which the thread sleeps until `wake`. -/
def goOn (t : TimedPlayer) (p : Player) (wake pause : Nat) : TimedPlayer :=
  { t with player := p, wake := wake, accumulatedPauseTimeNs := t.accumulatedPauseTimeNs + pause }

/-- A step that takes no task, plays none and does not touch the base. -/
theorem Paced.goOn (paced : t.Paced scaled) (late : Late t.player.pc) {p : Player}
    {wake pause : Nat} (pushed : p.pushed = t.player.pushed) (played : p.played = t.player.played)
    (base : p.baseMsgPlayTimeNs = t.player.baseMsgPlayTimeNs) (begins : p.beginTimeNs = t.player.beginTimeNs)
    (next : Late p.pc ∨ p.pc = .idle) (taken : ∀ task, p.pc.taken = some task → t.player.pc.taken = some task)
    (slept : max t.now t.wake + pause ≤ max t.now wake) (held : t.player.pc.taken = none → pause = 0) :
    Paced scaled (t.goOn p wake pause) := by
  have sameLead : (t.goOn p wake pause).lead scaled = t.lead scaled := lead_congr base begins
  have same : ∀ paused task, (t.goOn p wake pause).schedule scaled paused task = t.schedule scaled paused task :=
    schedule_congr base rfl
  have running : t.player.pc ≠ .idle := fun idle => by rw [idle] at late; exact late
  refine ⟨paced.clock, paced.started, pushed ▸ paced.range, ?_, ?_,
    fun task here => base.symm ▸ paced.taken task (taken task here), paced.records.trans played.symm, ?_,
    fun task here => absurd here (late_ne next task).1, fun task here => absurd here (late_ne next task).2, ?_,
    fun task here => absurd here (late_ne next task).2, ?_⟩
  · rw [TimedPlayer.goOn, pushed, base]
    exact paced.base
  · rw [TimedPlayer.goOn, pushed, base]
    exact paced.known
  · intro waits
    have none : t.player.baseMsgPlayTimeNs = 0 := by
      obtain none | here := waits
      · exact base.symm.trans none
      · unfold TimedPlayer.goOn at here
        cases at' : p.pc <;> simp only [at', Late, reduceCtorEq, or_self] at here next
    obtain ⟨never, unpaused⟩ := paced.waits (.inl none)
    have untaken : t.player.pc.taken = Option.none := by
      cases holds : t.player.pc.taken with
      | none => rfl
      | some task => exact absurd none (paced.taken task holds)
    exact ⟨never, by rw [TimedPlayer.goOn, unpaused, held untaken]⟩
  · intro _ read
    have known : t.player.baseMsgPlayTimeNs ≠ 0 := fun none => read (.inl (base.trans none))
    obtain ⟨leads, runs⟩ := paced.based running (not_waits late known)
    refine ⟨sameLead ▸ leads, ?_⟩
    unfold TimedPlayer.goOn
    dsimp only
    omega
  · intro r member
    rw [sameLead, same]
    exact paced.times r member

theorem taken_pushed (inv : t.player.Inv) {task : PlayTask} (here : t.player.pc.taken = some task) :
    task ∈ t.player.pushed := by
  rw [inv.pushed]
  exact List.mem_append_right _ (List.mem_of_mem_head? (inv.taken task here))

/-- The first task is the first of all that were pushed. -/
theorem first_least (inv : t.player.Inv) (paced : t.Paced scaled) (none : t.player.baseMsgPlayTimeNs = 0)
    {task : PlayTask} (first : t.player.buffer.front = some task) :
    ∀ other ∈ t.player.pushed, task.msgPlayTimeNs ≤ other.msgPlayTimeNs := by
  have unplayed : t.player.popped ++ t.player.pc.justPlayed.toList = [] := by
    rw [← inv.played, ← paced.records, (paced.waits (.inl none)).1, List.map_nil]
  have order := inv.order
  rw [inv.pushed, (List.append_eq_nil_iff.mp unplayed).1, List.nil_append] at order ⊢
  rw [List.eq_cons_of_mem_head? first] at order ⊢
  intro other member
  rcases List.mem_cons.mp member with rfl | later
  · exact Nat.le_refl _
  · exact List.rel_of_pairwise_cons order later

theorem Paced.front_first (paced : t.Paced scaled) (inv : t.player.Inv) {task : PlayTask}
    (none : t.player.baseMsgPlayTimeNs = 0) (first : t.player.buffer.front = some task) :
    Paced scaled (t.takeTask scaled { t.player with
      baseMsgPlayTimeNs := task.msgPlayTimeNs
      baseMsgRealTimeNs := task.msgRealTimeNs
      pc := if task.msgPlayTimeNs > t.player.beginTimeNs then .firstSleep task else .ready task }) := by
  have least := first_least inv paced none first
  have member : task ∈ t.player.pushed := by
    rw [inv.pushed]
    exact List.mem_append_right _ (List.mem_of_mem_head? first)
  have positive := Nat.ne_of_gt (paced.range task member).1
  obtain ⟨never, unpaused⟩ := paced.waits (.inl none)
  have started := paced.started
  unfold takeTask
  by_cases later : task.msgPlayTimeNs > t.player.beginTimeNs
  · simp only [if_pos later]
    refine ⟨paced.clock, started, paced.range, least, fun _ => ⟨task, member, rfl⟩, fun _ _ => positive, paced.records,
      fun _ => ⟨never, unpaused⟩, fun _ _ => ?_, nofun, fun _ read => absurd (.inr trivial) read, nofun,
      no_times never⟩
    simp only [lead]
    rw [if_pos later]
    omega
  · simp only [if_neg later, if_pos none]
    refine ⟨paced.clock, started, paced.range, least, fun _ => ⟨task, member, rfl⟩, fun _ _ => positive, paced.records,
      fun _ => ⟨never, unpaused⟩, nofun, fun _ _ _ => ?_, fun _ read => absurd (.inr rfl) read, nofun,
      no_times never⟩
    simp only [lead]
    rw [if_neg later]
    omega

theorem Paced.front_next (paced : t.Paced scaled) (here : t.player.pc = .front) (task : PlayTask)
    (known : t.player.baseMsgPlayTimeNs ≠ 0) :
    Paced scaled (t.takeTask scaled { t.player with pc := .ready task }) := by
  have late : Late t.player.pc := by
    rw [here]
    trivial
  unfold takeTask
  simp only [if_neg known]
  refine ⟨paced.clock, paced.started, paced.range, paced.base, paced.known, fun _ _ => known, paced.records, ?_, nofun,
    nofun, fun _ _ => ?_, nofun, paced.times⟩
  · rintro (none | early)
    · exact absurd none known
    · cases early
  · exact paced.based (by rw [here]; nofun) (not_waits late known)

theorem Paced.front (paced : t.Paced scaled) (inv : t.player.Inv) (here : t.player.pc = .front) (awake : t.wake ≤ t.now)
    {p : Player} (step : t.player.consume false succeeds = some p) : Paced scaled (t.takeTask scaled p) := by
  simp only [Player.consume, here] at step
  cases first : t.player.buffer.front with
  | none =>
    rw [first] at step
    cases step
    have late : Late t.player.pc := by
      rw [here]
      trivial
    exact paced.goOn (p := { t.player with pc := .test }) late rfl rfl rfl rfl (.inl trivial)
      (untaken rfl) (by omega) fun _ => rfl
  | some task =>
    rw [first] at step
    dsimp only at step
    split at step
    · rename_i none
      cases step
      exact paced.front_first inv none first
    · rename_i known
      cases step
      exact paced.front_next here task known

theorem Paced.firstSleep (paced : t.Paced scaled) {task : PlayTask} (here : t.player.pc = .firstSleep task)
    (awake : t.wake ≤ t.now) {p : Player}
    (step : t.player.consume (decide (MIN_SLEEP_DURATION_NS < t.sleepNs)) succeeds = some p) :
    Paced scaled (t.sleepOn p) := by
  have known : t.player.baseMsgPlayTimeNs ≠ 0 := paced.taken task (by rw [here]; rfl)
  obtain ⟨never, unpaused⟩ := paced.waits (.inr (by rw [here]; trivial))
  have sleeping := paced.sleeping task here
  simp only [Player.consume, here, Option.some.injEq] at step
  subst step
  by_cases halt : t.player.isStopped
  · simp only [if_pos halt, sleepOn]
    exact ⟨paced.clock, paced.started, paced.range, paced.base, paced.known, untaken rfl, paced.records,
      fun _ => ⟨never, unpaused⟩, fun task here => absurd here (late_ne (.inr rfl) task).1,
      fun task here => absurd here (late_ne (.inr rfl) task).2, fun running => absurd rfl running,
      fun task here => absurd here (late_ne (.inr rfl) task).2,
      no_times never⟩
  · by_cases long : MIN_SLEEP_DURATION_NS < t.sleepNs
    · simp only [if_neg halt, decide_eq_true long, if_true, sleepOn]
      refine ⟨paced.clock, paced.started, paced.range, paced.base, paced.known, fun _ _ => known, paced.records,
        fun _ => ⟨never, unpaused⟩, fun _ _ => ?_, fun _ here => absurd here firstSleep_ne_ready,
        fun _ read => absurd (.inr trivial) read, fun _ here => absurd here firstSleep_ne_ready,
        no_times never⟩
      refine Nat.le_trans sleeping ?_
      dsimp only
      omega
    · simp only [if_neg halt, decide_eq_false long, Bool.false_eq_true, if_false, sleepOn]
      refine ⟨paced.clock, paced.started, paced.range, paced.base, paced.known, fun _ _ => known, paced.records,
        fun _ => ⟨never, unpaused⟩, fun _ here => absurd here ready_ne_firstSleep, fun _ _ _ => ?_,
        fun _ read => absurd (.inr rfl) read, fun _ _ turn => absurd turn readBase_ne_play,
        no_times never⟩
      refine Nat.le_trans sleeping ?_
      dsimp only
      omega

theorem Paced.readBase (paced : t.Paced scaled) {task : PlayTask} (here : t.player.pc = .ready task)
    (turn : t.turn = .readBase) (awake : t.wake ≤ t.now) :
    Paced scaled { t with baseRealTimeNs := t.now, turn := .measure } := by
  have known : t.player.baseMsgPlayTimeNs ≠ 0 := paced.taken task (by rw [here]; rfl)
  obtain ⟨never, unpaused⟩ := paced.waits (.inr (by rw [here]; exact turn))
  have reads := paced.reads task here turn
  refine ⟨paced.clock, paced.started, paced.range, paced.base, paced.known, paced.taken, paced.records, ?_,
    paced.sleeping, nofun, fun _ _ => ⟨?_, ?_⟩, nofun, no_times never⟩
  · intro waits
    exact absurd waits (not_waits_ready here measure_ne_readBase known)
  · exact Nat.le_trans reads (by dsimp only; omega)
  · dsimp only
    omega

theorem Paced.measure (paced : t.Paced scaled) (inv : t.player.Inv) {task : PlayTask} (here : t.player.pc = .ready task)
    (turn : t.turn = .measure) (awake : t.wake ≤ t.now) :
    Paced scaled { t with measured := t.now, wake := t.now + t.delay scaled task, turn := .play } := by
  have taken : t.player.pc.taken = some task := by rw [here]; rfl
  have known := paced.taken task taken
  have member := taken_pushed inv taken
  have read : ¬ t.Waits := not_waits_ready here (turn ▸ measure_ne_readBase) known
  obtain ⟨leads, runs⟩ := paced.based (by rw [here]; nofun) read
  have clock := paced.clock
  have delay : t.delay scaled task = scaled (task.msgPlayTimeNs - t.player.baseMsgPlayTimeNs) -
      (t.now - t.baseRealTimeNs - t.accumulatedPauseTimeNs) := by
    rw [delay, sub64_of_le (paced.base task member) (paced.range task member).2, sub64_of_le (by omega) clock,
      sub64_of_le (by omega) (by omega)]
  refine ⟨clock, paced.started, paced.range, paced.base, paced.known, paced.taken, paced.records, ?_,
    fun other at' => absurd (here.symm.trans at') nofun, nofun, fun _ _ => ⟨leads, ?_⟩, fun other at' _ => ?_,
    paced.times⟩
  · intro waits
    exact absurd waits (not_waits_ready here readBase_ne_play.symm known)
  · dsimp only
    omega
  · cases (here.symm.trans at')
    rw [schedule, delay]
    dsimp only
    omega

theorem Paced.play (paced : t.Paced scaled) {task : PlayTask} (here : t.player.pc = .ready task) (turn : t.turn = .play)
    (awake : t.wake ≤ t.now) {p : Player} (step : t.player.consume false succeeds = some p) :
    Paced scaled { t with
      player := p, times := t.times ++ [⟨task, t.measured, t.wake, t.now, t.accumulatedPauseTimeNs⟩] } := by
  have known : t.player.baseMsgPlayTimeNs ≠ 0 := paced.taken task (by rw [here]; rfl)
  have read : ¬ t.Waits := not_waits_ready here (turn ▸ readBase_ne_play.symm) known
  have based := paced.based (by rw [here]; nofun) read
  have ready := paced.ready task here turn
  simp only [Player.consume, here, Option.some.injEq] at step
  subst step
  have late : Late (.played task) := trivial
  refine ⟨paced.clock, paced.started, paced.range, paced.base, paced.known, fun _ _ => known, ?_, ?_,
    fun other here => absurd here (late_ne (.inl late) other).1,
    fun other here => absurd here (late_ne (.inl late) other).2, fun _ _ => based,
    fun other here => absurd here (late_ne (.inl late) other).2, ?_⟩
  · rw [List.map_append, paced.records]
    rfl
  · rintro (none | early)
    · exact absurd none known
    · cases early
  · intro r member
    rcases List.mem_append.mp member with old | new
    · exact paced.times r old
    · rw [List.mem_singleton.mp new]
      exact ⟨based.1, ready, awake⟩

/-- A step after which the thread does not sleep. -/
theorem Paced.stay (paced : t.Paced scaled) (late : Late t.player.pc) {p : Player}
    (pushed : p.pushed = t.player.pushed) (played : p.played = t.player.played)
    (base : p.baseMsgPlayTimeNs = t.player.baseMsgPlayTimeNs) (begins : p.beginTimeNs = t.player.beginTimeNs)
    (next : Late p.pc ∨ p.pc = .idle) (taken : ∀ task, p.pc.taken = some task → t.player.pc.taken = some task) :
    Paced scaled { t with player := p } :=
  paced.goOn late pushed played base begins next taken (Nat.le_refl (max t.now t.wake)) fun _ => rfl

theorem Paced.consume (paced : t.Paced scaled) (inv : t.player.Inv) (moved : t.consume scaled succeeds = some t') :
    t'.Paced scaled := by
  unfold TimedPlayer.consume at moved
  obtain ⟨awake, moved⟩ := Option.ite_none_right_eq_some.mp moved
  cases here : t.player.pc with
  | idle => simp only [here, Player.consume, Option.map_none, reduceCtorEq] at moved
  | front =>
    simp only [here] at moved
    obtain ⟨p, step, rfl⟩ := Option.map_eq_some_iff.mp moved
    exact paced.front inv here awake step
  | firstSleep task =>
    simp only [here] at moved
    obtain ⟨p, step, rfl⟩ := Option.map_eq_some_iff.mp moved
    exact paced.firstSleep here awake step
  | ready task =>
    simp only [here] at moved
    cases turn : t.turn with
    | readBase =>
      rw [turn] at moved
      cases moved
      exact paced.readBase here turn awake
    | measure =>
      rw [turn] at moved
      cases moved
      exact paced.measure inv here turn awake
    | play =>
      rw [turn] at moved
      obtain ⟨p, step, rfl⟩ := Option.map_eq_some_iff.mp moved
      have played := paced.play here turn awake step
      rw [turn] at played
      exact played
  | test =>
    simp only [here, Player.consume, Option.map_some, Option.some.injEq] at moved
    subst moved
    refine paced.stay (by rw [here]; trivial) rfl rfl rfl rfl ?_ ?_
    · split
      · exact .inr rfl
      · exact .inl trivial
    · intro task taken
      split at taken <;> cases taken
  | played task =>
    simp only [here, Player.consume, Option.map_some, Option.some.injEq] at moved
    subst moved
    exact paced.stay (by rw [here]; trivial) rfl rfl rfl rfl (.inl trivial) (by rw [here]; exact fun _ => id)
  | pauseTest task | pauseStopTest task =>
    simp only [here, Player.consume, Option.map_some, Option.some.injEq] at moved
    subst moved
    refine paced.stay (by rw [here]; trivial) rfl rfl rfl rfl (.inl ?_) ?_
    · split <;> trivial
    · rw [here]
      intro other taken
      split at taken <;> exact taken
  | pauseOnceTest task =>
    simp only [here, Player.consume, Option.map_some, Option.some.injEq] at moved
    subst moved
    have late : Late t.player.pc := by
      rw [here]
      trivial
    split
    · refine paced.stay late rfl rfl rfl rfl (.inl trivial) ?_
      rw [here]
      exact fun _ => id
    · have kept : t.player.pc.taken = some task := by
        rw [here]
        rfl
      exact paced.goOn (p := { t.player with pc := .pauseTest task }) late rfl rfl rfl rfl (.inl trivial)
        (fun _ taken => kept.trans taken) (by omega)
        fun none => absurd (none.symm.trans kept) (Option.some_ne_none task).symm
  | popFront task =>
    simp only [here, Player.consume, Option.map_some, Option.some.injEq] at moved
    subst moved
    exact paced.stay (by rw [here]; trivial) rfl rfl rfl rfl (.inl trivial) (untaken rfl)

theorem Paced.push (paced : t.Paced scaled) {task : PlayTask}
    (last : ∀ earlier ∈ t.player.pushed, earlier.msgPlayTimeNs ≤ task.msgPlayTimeNs)
    (range : 0 < task.msgPlayTimeNs ∧ task.msgPlayTimeNs < 2 ^ 64) :
    Paced scaled { t with
      player := { t.player with buffer := t.player.buffer.push (some task), pushed := t.player.pushed ++ [task] } } := by
  refine ⟨paced.clock, paced.started, ?_, ?_, fun known => ?_, paced.taken, paced.records, paced.waits,
    paced.sleeping, paced.reads, paced.based, paced.ready, paced.times⟩
  · intro other member
    rcases List.mem_append.mp member with old | new
    · exact paced.range other old
    · rw [List.mem_singleton.mp new]
      exact range
  · intro other member
    rcases List.mem_append.mp member with old | new
    · exact paced.base other old
    · rw [List.mem_singleton.mp new]
      by_cases none : t.player.baseMsgPlayTimeNs = 0
      · dsimp only
        rw [none]
        exact Nat.zero_le _
      · obtain ⟨first, earlier, same⟩ := paced.known none
        exact same ▸ last first earlier
  · obtain ⟨first, earlier, same⟩ := paced.known known
    exact ⟨first, List.mem_append_left _ earlier, same⟩

theorem Paced.other (paced : t.Paced scaled) {e : Player.Event} (schedule : t.OnSchedule (.other e))
    (moved : t.otherStep e = some t') : t'.Paced scaled := by
  obtain ⟨order, times⟩ := schedule
  cases e with
  | consume => cases moved
  | start beginTimeNs =>
    obtain ⟨p, step, rfl⟩ := Option.map_eq_some_iff.mp moved
    simp only [Player.step] at step
    split at step
    · rename_i stopped
      have none := times stopped
      obtain ⟨never, _⟩ := paced.waits (.inl none)
      obtain ⟨_, step⟩ := Option.ite_none_right_eq_some.mp step
      cases step
      rw [if_pos stopped]
      have late : Late .test := trivial
      refine ⟨paced.clock, Nat.le_refl _, paced.range, paced.base, paced.known, untaken rfl, paced.records,
        fun _ => ⟨never, rfl⟩, fun task here => absurd here (late_ne (.inl late) task).1,
        fun task here => absurd here (late_ne (.inl late) task).2, fun _ read => absurd (.inl none) read,
        fun task here => absurd here (late_ne (.inl late) task).2, no_times never⟩
    · rename_i running
      cases step
      rw [if_neg running]
      exact paced
  | push task =>
    cases moved
    cases task with
    | none =>
      have same : t.player.pushed ++ Option.toList none = t.player.pushed := List.append_nil _
      rw [same]
      exact ⟨paced.clock, paced.started, paced.range, paced.base, paced.known, paced.taken, paced.records, paced.waits,
        paced.sleeping, paced.reads, paced.based, paced.ready, paced.times⟩
    | some task => exact paced.push order times
  | stop | pause | playOnce | «continue» =>
    cases moved
    exact ⟨paced.clock, paced.started, paced.range, paced.base, paced.known, paced.taken, paced.records, paced.waits,
      paced.sleeping, paced.reads, paced.based, paced.ready, paced.times⟩

def firstTask : PlayTask := ⟨[], none, 7, 1000⟩

/-- One message, 600 ns after the begin. -/
def oneMessage : List TimedEvent :=
  [.other (.push (some firstTask)), .other (.start 400), .consume true, .consume true, .consume true, .tick 600,
    .consume true, .consume true, .consume true]

end TimedPlayer

end CyberRT.Record
