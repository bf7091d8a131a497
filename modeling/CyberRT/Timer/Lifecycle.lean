import CyberRT.Timer.TimerTask

namespace CyberRT.Timer
open TimingWheel (timerMaxIntervalMs)
universe u
variable {κ : Type u}

/-- A timer as its owner sees it, with the tasks that it has made and those that it has given to the wheel. -/
structure Lifecycle (κ : Type u) where
  timerId : Nat
  timerOpt : TimerOption κ
  started : Bool
  task : Option Nat
  tasks : List (Task κ)
  wheel : List Nat
  deriving DecidableEq

/-- The calls of the owner. -/
inductive Call (κ : Type u)
  | setTimerOption (opt : TimerOption κ)
  | start
  | stop

namespace Lifecycle
variable {s : Lifecycle κ}

def new (timerId : Nat) (opt : TimerOption κ) : Lifecycle κ where
  timerId
  timerOpt := opt
  started := false
  task := none
  tasks := []
  wheel := []

def setTimerOption (opt : TimerOption κ) (s : Lifecycle κ) : Lifecycle κ :=
  { s with timerOpt := opt }

/-- `InitTimerTask`, which returns false before it touches anything. -/
def initTask (s : Lifecycle κ) : Option (Lifecycle κ) :=
  (initTimerTask s.timerId s.timerOpt).map fun task =>
    { s with task := some s.tasks.length, tasks := s.tasks ++ [task] }

/-- `timing_wheel_->AddTask(task_)` -/
def addTask (s : Lifecycle κ) : Lifecycle κ :=
  { s with wheel := s.task.toList ++ s.wheel }

def start (isRealityMode : Bool) (s : Lifecycle κ) : Lifecycle κ :=
  if isRealityMode = false then s
  else if s.started then s
  else
    -- The flag is up before the task is there, and nothing takes it down again.
    let s := { s with started := true }
    match s.initTask with
    | some s => s.addTask
    | none => s

def stop (s : Lifecycle κ) : Lifecycle κ :=
  if s.started ∧ s.task.isSome then { s with started := false, task := none }
  else { s with started := false }

def step (s : Lifecycle κ) : Call κ → Lifecycle κ
  | .setTimerOption opt => s.setTimerOption opt
  | .start => s.start true
  | .stop => s.stop

/-- The timer after the calls. -/
def after (s : Lifecycle κ) (calls : List (Call κ)) : Lifecycle κ :=
  calls.foldl step s

/-- `task_` is set, and the wheel got it. -/
def Armed (s : Lifecycle κ) : Prop :=
  ∃ k ∈ s.task, k ∈ s.wheel

/-- `InitTimerTask` accepts the option. -/
def Accepts (s : Lifecycle κ) : Prop :=
  1 ≤ s.timerOpt.period ∧ s.timerOpt.period < timerMaxIntervalMs

instance (s : Lifecycle κ) : Decidable s.Accepts :=
  inferInstanceAs (Decidable (_ ∧ _))

theorem initTask_of_accepts (accepts : s.Accepts) :
    ∃ task, s.initTask = some { s with task := some s.tasks.length, tasks := s.tasks ++ [task] } := by
  obtain ⟨task, made⟩ := Option.isSome_iff_exists.mp ((@initTimerTask_isSome _ s.timerId s.timerOpt).mpr accepts)
  exact ⟨task, by rw [initTask, made, Option.map_some]⟩

theorem initTask_of_refused (refused : ¬ s.Accepts) : s.initTask = none := by
  have none_ : initTimerTask s.timerId s.timerOpt = none := by
    rw [← Option.not_isSome_iff_eq_none, initTimerTask_isSome]
    exact refused
  rw [initTask, none_, Option.map_none]

theorem start_of_started (started : s.started = true) : s.start true = s := by
  rw [start, if_neg (by decide), if_pos started]

theorem start_of_accepts (idle : s.started = false) (accepts : s.Accepts) :
    ∃ task, s.start true =
      { s with
        started := true
        task := some s.tasks.length
        tasks := s.tasks ++ [task]
        wheel := s.tasks.length :: s.wheel } := by
  have accepts' : { s with started := true }.Accepts := accepts
  obtain ⟨task, made⟩ := initTask_of_accepts accepts'
  refine ⟨task, ?_⟩
  rw [start, if_neg (by decide), if_neg (by simp [idle])]
  simp only [made]
  rfl

/-- A Start that is refused leaves the flag behind. -/
theorem start_of_refused (idle : s.started = false) (refused : ¬ s.Accepts) :
    s.start true = { s with started := true } := by
  have refused' : ¬ { s with started := true }.Accepts := refused
  rw [start, if_neg (by decide), if_neg (by simp [idle])]
  simp only [initTask_of_refused refused']

theorem stop_eq (known : s.task.isSome → s.started = true) : s.stop = { s with started := false, task := none } := by
  unfold stop
  split
  · rfl
  · rename_i absent
    have none_ : s.task = none := by
      rw [← Option.not_isSome_iff_eq_none]
      exact fun some_ => absent ⟨known some_, some_⟩
    rw [none_]

/-- The task of the timer is in the wheel, and the flag is up as long as there is one. -/
structure Inv (s : Lifecycle κ) : Prop where
  started : s.task.isSome → s.started = true
  wheel : ∀ k ∈ s.task, k ∈ s.wheel

theorem Inv.new (timerId : Nat) (opt : TimerOption κ) : (Lifecycle.new timerId opt).Inv where
  started := nofun
  wheel := nofun

theorem Inv.start (inv : s.Inv) : (s.start true).Inv := by
  cases idle : s.started with
  | true =>
    rw [start_of_started idle]
    exact inv
  | false =>
    by_cases accepts : s.Accepts
    · obtain ⟨task, eq⟩ := start_of_accepts idle accepts
      rw [eq]
      exact ⟨fun _ => rfl, fun k here => List.mem_cons.mpr (.inl (Option.some.inj here).symm)⟩
    · rw [start_of_refused idle accepts]
      exact ⟨fun _ => rfl, inv.wheel⟩

theorem Inv.step (inv : s.Inv) (c : Call κ) : (s.step c).Inv := by
  cases c with
  | setTimerOption opt => exact ⟨inv.started, inv.wheel⟩
  | start => exact inv.start
  | stop =>
    rw [Lifecycle.step, stop_eq inv.started]
    exact ⟨nofun, nofun⟩

theorem Inv.after (inv : s.Inv) (calls : List (Call κ)) : (s.after calls).Inv := by
  induction calls generalizing s with
  | nil => exact inv
  | cons c calls ih => exact ih (inv.step c)

/-- The flag says whether a task is armed. -/
def Agrees (s : Lifecycle κ) : Prop :=
  s.started = true ↔ s.Armed

theorem Inv.agrees_iff (inv : s.Inv) : s.Agrees ↔ (s.started = true → s.task.isSome) := by
  constructor
  · intro agrees up
    obtain ⟨k, here, _⟩ := agrees.mp up
    exact Option.isSome_iff_exists.mpr ⟨k, here⟩
  · intro task
    refine ⟨fun up => ?_, fun ⟨k, here, _⟩ => inv.started (Option.isSome_iff_exists.mpr ⟨k, here⟩)⟩
    obtain ⟨k, here⟩ := Option.isSome_iff_exists.mp (task up)
    exact ⟨k, here, inv.wheel k here⟩

/-- A call keeps the agreement, unless it is a Start that is refused. -/
theorem Agrees.step (inv : s.Inv) (agrees : s.Agrees) {c : Call κ}
    (accepts : c = .start → s.started = false → s.Accepts) : (s.step c).Agrees := by
  rw [(inv.step c).agrees_iff]
  rw [inv.agrees_iff] at agrees
  cases c with
  | setTimerOption opt => exact agrees
  | start =>
    cases idle : s.started with
    | true =>
      rw [Lifecycle.step, start_of_started idle]
      exact agrees
    | false =>
      obtain ⟨task, eq⟩ := start_of_accepts idle (accepts rfl idle)
      rw [Lifecycle.step, eq]
      exact fun _ => rfl
  | stop =>
    rw [Lifecycle.step, stop_eq inv.started]
    exact nofun

/-- Every Start of the calls that finds the timer idle finds an option that is accepted. -/
def StartsAccepted (s : Lifecycle κ) (calls : List (Call κ)) : Prop :=
  ∀ before rest, calls = before ++ .start :: rest → (s.after before).started = false → (s.after before).Accepts

theorem StartsAccepted.of_cons {c : Call κ} {calls : List (Call κ)} (accepted : s.StartsAccepted (c :: calls)) :
    (c = .start → s.started = false → s.Accepts) ∧ (s.step c).StartsAccepted calls := by
  constructor
  · rintro rfl idle
    exact accepted [] calls rfl idle
  · intro before rest split
    exact accepted (c :: before) rest (by rw [split, List.cons_append])

theorem Agrees.after (inv : s.Inv) (agrees : s.Agrees) {calls : List (Call κ)}
    (accepted : s.StartsAccepted calls) : (s.after calls).Agrees := by
  induction calls generalizing s with
  | nil => exact agrees
  | cons c calls ih => exact ih (inv.step c) (agrees.step inv accepted.of_cons.1) accepted.of_cons.2

/-- What the timer promises along the calls. The flag and the task agree at any time; a Start that is refused leaves
the timer as it was, so that a later one with an option that is accepted arms it; and a Start and a Stop take it back
to where it began. -/
structure Follows (s : Lifecycle κ) (calls : List (Call κ)) : Prop where
  agrees : ∀ before rest, calls = before ++ rest → (s.after before).Agrees
  refused : ∀ before rest, calls = before ++ .start :: rest → (s.after before).started = false →
    ¬ (s.after before).Accepts →
      (s.after before).step .start = s.after before ∧
      ∀ opt : TimerOption κ, 1 ≤ opt.period → opt.period < timerMaxIntervalMs →
        (s.after (before ++ [.start, .setTimerOption opt, .start])).Armed
  reset : ∀ before rest, calls = before ++ rest →
    (s.after (before ++ [.start, .stop])).started = false ∧ (s.after (before ++ [.start, .stop])).task = none ∧
      (s.after (before ++ [.start, .stop])).timerOpt = (s.after before).timerOpt

theorem start_timerOpt (s : Lifecycle κ) : (s.start true).timerOpt = s.timerOpt := by
  cases idle : s.started with
  | true => rw [start_of_started idle]
  | false =>
    by_cases accepts : s.Accepts
    · obtain ⟨task, eq⟩ := start_of_accepts idle accepts
      rw [eq]
    · rw [start_of_refused idle accepts]

/-- A timer keeps its promises exactly in the runs in which no Start is refused: a Start that is refused leaves the
flag up, and every later Start returns at once. -/
theorem follows_iff_startsAccepted (timerId : Nat) (opt : TimerOption κ) (calls : List (Call κ)) :
    (new timerId opt).Follows calls ↔ (new timerId opt).StartsAccepted calls := by
  have inv := Inv.new timerId opt
  have agrees : (new timerId opt).Agrees := inv.agrees_iff.mpr nofun
  constructor
  · intro follows before rest split idle
    by_contra refused
    have same := (follows.refused before rest split idle refused).1
    rw [Lifecycle.step, start_of_refused idle refused] at same
    have up : true = (after (new timerId opt) before).started := congrArg Lifecycle.started same
    rw [idle] at up
    cases up
  · intro accepted
    refine ⟨fun before rest split => ?_, fun before rest split idle refused => ?_, fun before rest _ => ?_⟩
    · refine agrees.after inv fun first others same => accepted first (others ++ rest) ?_
      rw [split, same, List.append_assoc, List.cons_append]
    · exact absurd (accepted before rest split idle) refused
    · have kept := (inv.after before).start
      have eq : after (new timerId opt) (before ++ [.start, .stop]) =
          ((after (new timerId opt) before).start true).stop := List.foldl_append ..
      rw [eq, stop_eq kept.started]
      exact ⟨rfl, rfl, start_timerOpt _⟩

/-- A Start with the option of the default constructor is refused, and the Start with a good option that follows it
arms nothing. -/
theorem start_after_refusal : ¬ ∀ calls : List (Call Unit), (new 0 ⟨0, (), false⟩).Follows calls := by
  intro follows
  have armed := ((follows [.start]).refused [] [] rfl rfl (by decide)).2 ⟨10, (), false⟩ (by decide) (by decide)
  obtain ⟨k, here, _⟩ := armed
  cases here

end Lifecycle

end CyberRT.Timer
