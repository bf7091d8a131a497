import CyberRT.Logger.AsyncLogger
import Mathlib.Data.Fintype.Basic
import Mathlib.Data.List.Nodup
import Mathlib.Data.List.Range

namespace CyberRT.AsyncLogger
open Concur
variable {τ : Type} {processGroup : Text}

/-- What is to be written for a message: to the file of its own module, without the brackets. -/
def record (processGroup : Text) (msg : Msg) : Written :=
  let (message, moduleName) := findModuleName processGroup msg.message []
  ⟨moduleName, decide (msg.level > 0), msg.ts, message, msg.ticket⟩

/-- The message has brackets, or the module name of the message before it is no other one. -/
def OwnName (processGroup moduleName : Text) (msg : Msg) : Prop :=
  (brackets msg.message).isSome ∨ moduleName = [] ∨ moduleName = processGroup

instance (moduleName : Text) (msg : Msg) : Decidable (OwnName processGroup moduleName msg) :=
  inferInstanceAs (Decidable (_ ∨ _))

theorem OwnName.find {moduleName : Text} {msg : Msg} (own : OwnName processGroup moduleName msg) :
    findModuleName processGroup msg.message moduleName = findModuleName processGroup msg.message [] := by
  unfold findModuleName
  cases present : brackets msg.message with
  | some pair => rfl
  | none =>
    rcases own with some | rfl | rfl
    · rw [present] at some
      cases some
    · rfl
    · simp

/-- Between the check of `state_` and the append. -/
def WriterPc.between : WriterPc → Option Msg
  | .acquire msg | .append msg => some msg
  | .idle | .clear _ => none

/-- A message that is about to be flushed has a name of its own. -/
def FrontOwn (processGroup moduleName : Text) (buf : List Msg) : Prop :=
  ∀ msg ∈ buf.head?, OwnName processGroup moduleName msg

def ControlClean (processGroup : Text) (s : State τ) : ControlPc → Prop
  | .join => ∀ t, (s.writer t).between = none
  | .flush moduleName => FrontOwn processGroup moduleName s.activeBuf
  | _ => True

def LogClean (processGroup : Text) (s : State τ) : LogPc → Prop
  | .flush moduleName => FrontOwn processGroup moduleName s.flushingBuf
  | _ => True

/-- Nobody is between the check and the append when `Stop` begins the last flush, and the messages have names of their
own when they are flushed. -/
def Clean (processGroup : Text) (s : State τ) : Event τ → Prop
  | .controlStep => ControlClean processGroup s s.control
  | .logStep => LogClean processGroup s s.logThread
  | _ => True

instance (moduleName : Text) (buf : List Msg) : Decidable (FrontOwn processGroup moduleName buf) :=
  inferInstanceAs (Decidable (∀ msg ∈ buf.head?, _))

instance [Fintype τ] (s : State τ) (pc : ControlPc) : Decidable (ControlClean processGroup s pc) :=
  match pc with
  | .join => inferInstanceAs (Decidable (∀ t, (s.writer t).between = none))
  | .flush moduleName => inferInstanceAs (Decidable (FrontOwn processGroup moduleName s.activeBuf))
  | .idle | .spawn | .checkActive | .checkFlushing | .stopped | .aborted => inferInstanceAs (Decidable True)

instance (s : State τ) (pc : LogPc) : Decidable (LogClean processGroup s pc) :=
  match pc with
  | .flush moduleName => inferInstanceAs (Decidable (FrontOwn processGroup moduleName s.flushingBuf))
  | .none | .test | .acquire | .swap | .clear | .ended => inferInstanceAs (Decidable True)

instance [Fintype τ] (s : State τ) (e : Event τ) : Decidable (Clean processGroup s e) :=
  match e with
  | .controlStep => inferInstanceAs (Decidable (ControlClean processGroup s s.control))
  | .logStep => inferInstanceAs (Decidable (LogClean processGroup s s.logThread))
  | .start | .stop | .write .. | .writeStep _ => inferInstanceAs (Decidable True)

/-- Each call that found the logger running has appended its message, or is about to. -/
structure Tickets (observed appended : List Msg) (between : τ → Option Msg) : Prop where
  numbered : observed.map Msg.ticket = List.range observed.length
  awaited : ∀ msg ∈ observed, msg ∈ appended ∨ ∃ t, between t = some msg
  known : ∀ msg ∈ appended, msg ∈ observed
  waiting : ∀ t msg, between t = some msg → msg ∈ observed ∧ msg ∉ appended
  apart : ∀ t u msg, between t = some msg → between u = some msg → t = u
  once : appended.Nodup

namespace Tickets
variable {observed appended : List Msg} {between : τ → Option Msg} {msg msg' : Msg} {t : τ}

/-- A message is recognised by its ticket. -/
theorem ticket_inj (tickets : Tickets observed appended between) (inside : msg ∈ observed) (inside' : msg' ∈ observed)
    (same : msg.ticket = msg'.ticket) : msg = msg' :=
  List.inj_on_of_nodup_map (tickets.numbered ▸ List.nodup_range) inside inside' same

/-- Each ticket is appended once. -/
theorem filter_ticket (tickets : Tickets observed appended between) (inside : msg ∈ appended) :
    (appended.filter fun other => other.ticket = msg.ticket) = [msg] := by
  refine List.perm_singleton.mp ((List.perm_ext_iff_of_nodup (tickets.once.filter _) (List.nodup_singleton _)).mpr ?_)
  intro other
  rw [List.mem_filter, List.mem_singleton, decide_eq_true_iff]
  constructor
  · rintro ⟨member, same⟩
    exact tickets.ticket_inj (tickets.known other member) (tickets.known msg inside) same
  · rintro rfl
    exact ⟨inside, rfl⟩

variable [DecidableEq τ]

theorem observe (tickets : Tickets observed appended between) (free : between t = none)
    (new : msg.ticket = observed.length) :
    Tickets (observed ++ [msg]) appended (Function.update between t (some msg)) := by
  have fresh : msg ∉ observed := by
    intro inside
    have listed := List.mem_map_of_mem (f := Msg.ticket) inside
    rw [tickets.numbered, new] at listed
    exact absurd (List.mem_range.mp listed) (Nat.lt_irrefl _)
  have others : ∀ u other, Function.update between t (some msg) u = some other →
      (u = t ∧ other = msg) ∨ (u ≠ t ∧ between u = some other) := by
    intro u other waits
    by_cases same : u = t
    · subst same
      rw [Function.update_self] at waits
      exact .inl ⟨rfl, (Option.some.inj waits).symm⟩
    · rw [Function.update_of_ne same] at waits
      exact .inr ⟨same, waits⟩
  constructor
  case numbered => simp [tickets.numbered, new, List.range_succ]
  case awaited =>
    intro other inside
    rcases List.mem_append.mp inside with old | last
    · refine (tickets.awaited other old).imp_right fun ⟨u, waits⟩ => ⟨u, ?_⟩
      rw [Function.update_of_ne, waits]
      rintro rfl
      rw [free] at waits
      cases waits
    · rw [List.mem_singleton.mp last]
      exact .inr ⟨t, Function.update_self ..⟩
  case known => exact fun other inside => List.mem_append_left _ (tickets.known other inside)
  case waiting =>
    intro u other waits
    rcases others u other waits with ⟨-, rfl⟩ | ⟨-, waits⟩
    · exact ⟨List.mem_append_right _ (List.mem_singleton_self _), fun inside => fresh (tickets.known _ inside)⟩
    · exact (tickets.waiting u other waits).imp_left (List.mem_append_left _)
  case apart =>
    intro u v other waits waits'
    rcases others u other waits with ⟨rfl, rfl⟩ | ⟨-, first⟩ <;>
      rcases others v _ waits' with ⟨rfl, same⟩ | ⟨-, second⟩
    · rfl
    · exact absurd (tickets.waiting v _ second).1 fresh
    · exact absurd (same ▸ (tickets.waiting u _ first).1) fresh
    · exact tickets.apart u v other first second
  case once => exact tickets.once

theorem append (tickets : Tickets observed appended between) (waits : between t = some msg) :
    Tickets observed (appended ++ [msg]) (Function.update between t none) := by
  obtain ⟨inside, fresh⟩ := tickets.waiting t msg waits
  have others : ∀ u other, Function.update between t none u = some other → u ≠ t ∧ between u = some other := by
    intro u other waits
    by_cases same : u = t
    · subst same
      rw [Function.update_self] at waits
      cases waits
    · rw [Function.update_of_ne same] at waits
      exact ⟨same, waits⟩
  constructor
  case numbered => exact tickets.numbered
  case awaited =>
    intro other inside
    rcases tickets.awaited other inside with done | ⟨u, waits'⟩
    · exact .inl (List.mem_append_left _ done)
    · by_cases same : u = t
      · subst same
        cases Option.some.inj (waits.symm.trans waits')
        exact .inl (List.mem_append_right _ (List.mem_singleton_self _))
      · exact .inr ⟨u, (Function.update_of_ne same ..).trans waits'⟩
  case known =>
    intro other member
    rcases List.mem_append.mp member with old | last
    · exact tickets.known other old
    · rw [List.mem_singleton.mp last]
      exact inside
  case waiting =>
    intro u other waits'
    obtain ⟨different, waits'⟩ := others u other waits'
    obtain ⟨inside', fresh'⟩ := tickets.waiting u other waits'
    refine ⟨inside', fun member => ?_⟩
    rcases List.mem_append.mp member with old | last
    · exact fresh' old
    · rw [List.mem_singleton.mp last] at waits'
      exact different (tickets.apart u t msg waits' waits)
  case apart =>
    intro u v other first second
    exact tickets.apart u v other (others u other first).2 (others v other second).2
  case once =>
    rw [← List.concat_eq_append]
    exact tickets.once.concat fresh

end Tickets

/-- The log thread has ended, and no message is to come any more. -/
structure Quiet (s : State τ) : Prop where
  stopped : s.state = .stopped
  ended : s.logThread = .ended
  between : ∀ t, (s.writer t).between = none

/-- What holds while the logger is started and stopped. -/
def Controlled (s : State τ) : Prop :=
  match s.control with
  | .idle => s.state = .initted → s.logThread = .none
  | .spawn => s.state = .running ∧ s.logThread = .none
  | .aborted => True
  | .join => s.state = .stopped
  | .flush _ => Quiet s
  | .checkActive | .checkFlushing | .stopped => Quiet s ∧ s.activeBuf = []

structure Inv (processGroup : Text) (s : State τ) : Prop where
  tickets : Tickets s.observed s.appended fun t => (s.writer t).between
  written : s.appended.map (record processGroup) =
    s.written ++ (s.flushingBuf ++ s.activeBuf).map (record processGroup)
  flushing : match s.logThread with
    | .clear | .flush _ => True
    | _ => s.flushingBuf = []
  controlled : Controlled s

section Step
variable {s s' : State τ}

theorem inv_init : Inv processGroup (.create : State τ) where
  tickets := ⟨rfl, nofun, nofun, nofun, nofun, .nil⟩
  written := rfl
  flushing := rfl
  controlled _ := rfl

/-- As long as not all is quiet, the logger is not stopped further than up to the join. -/
theorem Controlled.early (controlled : Controlled s) (busy : ¬ Quiet s) (control : s'.control = s.control)
    (state : s'.state = s.state) (logThread : s.logThread = .none → s'.logThread = .none) : Controlled s' := by
  unfold Controlled at controlled ⊢
  rw [control]
  cases at' : s.control with
  | idle =>
    rw [at'] at controlled
    exact fun initted => logThread (controlled (state ▸ initted))
  | spawn =>
    rw [at'] at controlled
    exact ⟨state.trans controlled.1, logThread controlled.2⟩
  | aborted => trivial
  | join =>
    rw [at'] at controlled
    exact state.trans controlled
  | flush moduleName =>
    rw [at'] at controlled
    exact absurd controlled busy
  | checkActive | checkFlushing | stopped =>
    rw [at'] at controlled
    exact absurd controlled.1 busy

theorem Controlled.calm (controlled : Controlled s) (quiet : Quiet s → Quiet s') (control : s'.control = s.control)
    (state : s'.state = s.state) (logThread : s'.logThread = s.logThread) (activeBuf : s'.activeBuf = s.activeBuf) :
    Controlled s' := by
  unfold Controlled at controlled ⊢
  rw [control]
  cases at' : s.control with
  | aborted => trivial
  | idle | spawn | join | flush | checkActive | checkFlushing | stopped =>
    rw [at'] at controlled
    simp only [state, logThread, activeBuf]
    grind

/-- The front of a buffer is written as it should be. -/
theorem writeFront_spec {moduleName : Text} {msg : Msg} (own : OwnName processGroup moduleName msg) :
    s.writeFront processGroup msg moduleName =
      ((record processGroup msg).moduleName, { s with written := s.written ++ [record processGroup msg] }) := by
  rw [State.writeFront, own.find]
  rfl

theorem Inv.logFlush (inv : Inv processGroup s) {moduleName : Text} (here : s.logThread = .flush moduleName)
    (clean : FrontOwn processGroup moduleName s.flushingBuf) :
    Inv processGroup (s.logFlush processGroup moduleName) := by
  have busy : ¬ Quiet s := by
    intro quiet
    cases here.symm.trans quiet.ended
  have moving : s.logThread = .none → ∀ pc : LogPc, pc = .none := by
    intro none
    cases here.symm.trans none
  have written := inv.written
  rw [State.logFlush]
  split
  · rename_i front
    exact ⟨inv.tickets, written, front, inv.controlled.early busy rfl rfl fun none => moving none _⟩
  · rename_i msg rest front
    rw [front] at clean written
    rw [writeFront_spec (clean msg rfl)]
    exact ⟨inv.tickets, by simpa using written, trivial, inv.controlled.early busy rfl rfl fun none => moving none _⟩

theorem Inv.lastFlush (inv : Inv processGroup s) {moduleName : Text} (here : s.control = .flush moduleName)
    (clean : FrontOwn processGroup moduleName s.activeBuf) :
    Inv processGroup (s.lastFlush processGroup moduleName) := by
  have controlled := inv.controlled
  have flushing := inv.flushing
  have written := inv.written
  unfold Controlled at controlled
  rw [here] at controlled
  rw [controlled.ended] at flushing
  rw [State.lastFlush]
  split
  · rename_i front
    exact ⟨inv.tickets, written, inv.flushing, ⟨controlled.stopped, controlled.ended, controlled.between⟩, front⟩
  · rename_i msg rest front
    rw [front] at clean
    rw [flushing, front, List.nil_append] at written
    rw [writeFront_spec (clean msg rfl)]
    exact ⟨inv.tickets, by simpa [flushing] using written, inv.flushing,
      ⟨controlled.stopped, controlled.ended, controlled.between⟩⟩

theorem Inv.logStep (inv : Inv processGroup s) (clean : Clean processGroup s .logStep)
    (step : s.logStep processGroup = some s') : Inv processGroup s' := by
  have flushing := inv.flushing
  unfold State.logStep at step
  unfold Clean at clean
  have moves : s.logThread ≠ .none → s.logThread ≠ .ended → ∀ s'' : State τ, s''.control = s.control →
      s''.state = s.state → Controlled s'' := fun started running s'' control state =>
    inv.controlled.early (fun quiet => running quiet.ended) control state fun none => absurd none started
  cases here : s.logThread with
  | none | ended =>
    rw [here] at step
    cases step
  | test =>
    rw [here] at step flushing moves
    cases step
    refine ⟨inv.tickets, inv.written, ?_, moves nofun nofun _ rfl rfl⟩
    by_cases running : s.state = .running <;> simpa [running] using flushing
  | acquire =>
    rw [here] at step flushing moves
    cases step
    split
    · exact inv
    · exact ⟨inv.tickets, inv.written, flushing, moves nofun nofun _ rfl rfl⟩
  | swap =>
    rw [here] at step flushing moves
    cases step
    exact ⟨inv.tickets, by simpa [flushing] using inv.written, trivial, moves nofun nofun _ rfl rfl⟩
  | clear =>
    rw [here] at step moves
    cases step
    exact ⟨inv.tickets, inv.written, trivial, moves nofun nofun _ rfl rfl⟩
  | flush moduleName =>
    rw [here] at step clean
    cases step
    exact inv.logFlush here clean

theorem Inv.controlStep (inv : Inv processGroup s) (clean : Clean processGroup s .controlStep)
    (step : s.controlStep processGroup = some s') : Inv processGroup s' := by
  have controlled := inv.controlled
  unfold State.controlStep at step
  unfold Clean at clean
  unfold Controlled at controlled
  cases here : s.control with
  | idle | stopped | aborted =>
    rw [here] at step
    cases step
  | spawn =>
    rw [here] at step controlled
    cases step
    have flushing := inv.flushing
    rw [controlled.2] at flushing
    refine ⟨inv.tickets, inv.written, flushing, fun initted => ?_⟩
    cases initted.symm.trans controlled.1
  | join =>
    rw [here] at step controlled clean
    simp only at step
    split at step
    · rename_i ended
      cases step
      exact ⟨inv.tickets, inv.written, inv.flushing, ⟨controlled, ended, clean⟩⟩
    · cases step
  | flush moduleName =>
    rw [here] at step clean
    cases step
    exact inv.lastFlush here clean
  | checkActive =>
    rw [here] at step controlled
    cases step
    obtain ⟨⟨stopped, ended, between⟩, empty⟩ := controlled
    have passed : s.activeBuf.isEmpty = true := List.isEmpty_iff.mpr empty
    refine ⟨inv.tickets, inv.written, inv.flushing, ?_⟩
    rw [if_pos passed]
    exact ⟨⟨stopped, ended, between⟩, empty⟩
  | checkFlushing =>
    rw [here] at step controlled
    cases step
    obtain ⟨⟨stopped, ended, between⟩, empty⟩ := controlled
    have flushing := inv.flushing
    rw [ended] at flushing
    have passed : s.flushingBuf.isEmpty = true := List.isEmpty_iff.mpr flushing
    refine ⟨inv.tickets, inv.written, inv.flushing, ?_⟩
    rw [if_pos passed]
    exact ⟨⟨stopped, ended, between⟩, empty⟩

theorem Inv.start (inv : Inv processGroup s) (idle : s.control = .idle) : Inv processGroup s.start := by
  unfold State.start
  split
  · rename_i initted
    have controlled := inv.controlled
    unfold Controlled at controlled
    rw [idle] at controlled
    exact ⟨inv.tickets, inv.written, inv.flushing, rfl, controlled initted⟩
  · exact ⟨inv.tickets, inv.written, inv.flushing, trivial⟩

theorem Inv.stop (inv : Inv processGroup s) : Inv processGroup s.stop := by
  unfold State.stop
  split
  · exact ⟨inv.tickets, inv.written, inv.flushing, rfl⟩
  · exact ⟨inv.tickets, inv.written, inv.flushing, trivial⟩

section Writers
variable [DecidableEq τ] {t : τ}

theorem between_writerGoto (s : State τ) (t : τ) (pc : WriterPc) :
    (fun u => ((s.writerGoto t pc).writer u).between) =
      Function.update (fun u => (s.writer u).between) t pc.between := by
  funext u
  by_cases same : u = t
  · subst same
    simp [State.writerGoto]
  · simp [State.writerGoto, same]

/-- A thread goes on inside `Write` with the message that it has. -/
theorem tickets_goes (tickets : Tickets s.observed s.appended fun u => (s.writer u).between) {pc : WriterPc}
    (same : pc.between = (s.writer t).between) :
    Tickets s.observed s.appended fun u => ((s.writerGoto t pc).writer u).between := by
  rw [between_writerGoto, same, Function.update_eq_self]
  exact tickets

theorem Inv.write (inv : Inv processGroup s) {ts : Int} {message : Text} (step : s.write t ts message = some s') :
    Inv processGroup s' := by
  unfold State.write at step
  split at step
  · rename_i idle
    split at step
    · cases step
      exact inv
    · rename_i running
      cases step
      have busy : ¬ Quiet s := by
        intro quiet
        rw [quiet.stopped] at running
        exact running nofun
      refine ⟨?_, inv.written, inv.flushing, inv.controlled.early busy rfl rfl id⟩
      rw [between_writerGoto]
      exact inv.tickets.observe (by rw [idle]; rfl) rfl
  · cases step

theorem Inv.writeStep (inv : Inv processGroup s) (step : s.writeStep t = some s') : Inv processGroup s' := by
  unfold State.writeStep at step
  have busy : (s.writer t).between ≠ none → ¬ Quiet s := fun waits quiet => waits (quiet.between t)
  cases here : s.writer t with
  | idle =>
    rw [here] at step
    cases step
  | acquire msg =>
    rw [here] at step busy
    cases step
    split
    · exact inv
    · have same : (WriterPc.append msg).between = (s.writer t).between := by
        rw [here]
        rfl
      exact ⟨tickets_goes inv.tickets same, inv.written, inv.flushing, inv.controlled.early (busy nofun) rfl rfl id⟩
  | append msg =>
    rw [here] at step busy
    cases step
    refine ⟨?_, ?_, inv.flushing, inv.controlled.early (busy nofun) rfl rfl id⟩
    · have waits : (s.writer t).between = some msg := by
        rw [here]
        rfl
      exact (between_writerGoto s t (.clear msg)).symm ▸ inv.tickets.append waits
    · simp [inv.written, List.append_assoc, State.writerGoto]
  | clear msg =>
    rw [here] at step
    cases step
    have same : WriterPc.idle.between = (s.writer t).between := by
      rw [here]
      rfl
    have between : ∀ u, ((s.writerGoto t .idle).writer u).between = (s.writer u).between := by
      intro u
      refine (congrFun (between_writerGoto s t .idle) u).trans ?_
      by_cases own : u = t
      · subst own
        rw [Function.update_self, same]
      · rw [Function.update_of_ne own]
    refine ⟨tickets_goes inv.tickets same, inv.written, inv.flushing, ?_⟩
    exact inv.controlled.calm (fun quiet => ⟨quiet.stopped, quiet.ended, fun u => (between u).trans (quiet.between u)⟩)
      rfl rfl rfl rfl

end Writers

variable [DecidableEq τ]

theorem step_inv (inv : Inv processGroup s) {e : Event τ} (clean : Clean processGroup s e)
    (step : (machine τ processGroup).step s e = some s') : Inv processGroup s' := by
  simp only [machine] at step
  split at step
  · cases step
  · cases e with
    | start =>
      simp only at step
      split at step
      · rename_i idle
        cases step
        exact inv.start idle
      · cases step
    | stop =>
      simp only at step
      split at step
      · cases step
        exact inv.stop
      · cases step
    | controlStep => exact inv.controlStep clean step
    | logStep => exact inv.logStep clean step
    | write t ts message => exact inv.write step
    | writeStep t => exact inv.writeStep step

/-- The messages are written in the order in which they were appended, and when `Stop` has returned, each message whose
call found the logger running is written exactly once, to the file of its module. -/
theorem loses_nothing (reach : (machine τ processGroup).ReachWhen (Clean processGroup) s) :
    s.written <+: s.appended.map (record processGroup) ∧
    (s.control = .stopped → ∀ msg ∈ s.observed,
      (s.written.filter fun w => w.ticket = msg.ticket) = [record processGroup msg]) := by
  have inv : Inv processGroup s := reach.invariant inv_init fun s e s' inv clean step => step_inv inv clean step
  refine ⟨⟨_, inv.written.symm⟩, fun stopped msg inside => ?_⟩
  have controlled := inv.controlled
  have flushing := inv.flushing
  unfold Controlled at controlled
  rw [stopped] at controlled
  obtain ⟨quiet, empty⟩ := controlled
  rw [quiet.ended] at flushing
  have appended : msg ∈ s.appended := by
    rcases inv.tickets.awaited msg inside with done | ⟨t, waits⟩
    · exact done
    · cases (quiet.between t).symm.trans waits
  have written := inv.written
  rw [flushing, empty, List.append_nil, List.map_nil, List.append_nil] at written
  rw [← written, List.filter_map]
  exact congrArg (List.map (record processGroup)) (inv.tickets.filter_ticket appended)

end Step

/-- The message of one thread is written while the logger runs, and that of another by the last flush. -/
def twoMessages : List (Event Bool) :=
  [.start, .controlStep, .write true 1 ['[', 'm', ']', 'x'], .write false 2 ['[', 'n', ']', 'y'],
    .writeStep true, .writeStep true, .writeStep true, .logStep, .logStep, .logStep, .logStep, .logStep, .logStep,
    .writeStep false, .writeStep false, .writeStep false, .stop, .logStep,
    .controlStep, .controlStep, .controlStep, .controlStep, .controlStep]

theorem loses_nothing_twoMessages :
    let s := (machine Bool ['p']).stateAt twoMessages 23
    s.control = .stopped ∧ (s.written.filter fun w => w.ticket = 0) = [⟨['m'], false, 1, ['x'], 0⟩] ∧
      (s.written.filter fun w => w.ticket = 1) = [⟨['n'], false, 2, ['y'], 1⟩] := by
  intro s
  have reach : (machine Bool ['p']).ReachWhen (Clean ['p']) s :=
    Machine.stateAt_reachWhen twoMessages (by decide) (by decide)
  have stopped : s.control = .stopped := by decide
  have once := (loses_nothing reach).2 stopped
  exact ⟨stopped, once ⟨1, ['[', 'm', ']', 'x'], 0, 0⟩ (by decide), once ⟨2, ['[', 'n', ']', 'y'], 0, 1⟩ (by decide)⟩

/-- A thread that has found the logger running appends its message when `Stop` has returned. -/
def lateMessage : List (Event Unit) :=
  [.start, .controlStep, .write () 1 ['[', 'm', ']', 'x'], .stop, .logStep,
    .controlStep, .controlStep, .controlStep, .controlStep, .writeStep (), .writeStep (), .writeStep ()]

/-- A message without brackets comes after one of a module. -/
def noBrackets : List (Event Unit) :=
  [.start, .controlStep, .write () 1 ['[', 'm', ']', 'x'], .writeStep (), .writeStep (), .writeStep (),
    .write () 2 ['y'], .writeStep (), .writeStep (), .writeStep (),
    .stop, .logStep, .controlStep, .controlStep, .controlStep, .controlStep, .controlStep, .controlStep]

/-- The late message is not written, and the one without brackets is written to the file of the other module. -/
theorem messages_lost :
    let M := machine Unit ['p']
    let late := M.stateAt lateMessage 12
    let mixed := M.stateAt noBrackets 18
    (M.Reach late ∧ late.control = .stopped ∧ late.writer () = .idle ∧
      (⟨1, ['[', 'm', ']', 'x'], 0, 0⟩ : Msg) ∈ late.observed ∧ late.written = []) ∧
    (M.Reach mixed ∧ mixed.control = .stopped ∧ mixed.writer () = .idle ∧
      (⟨2, ['y'], 0, 1⟩ : Msg) ∈ mixed.observed ∧ record ['p'] ⟨2, ['y'], 0, 1⟩ = ⟨['p'], false, 2, ['y'], 1⟩ ∧
      (mixed.written.filter fun w => w.ticket = 1) = [⟨['m'], false, 2, ['y'], 1⟩]) := by
  intro M late mixed
  exact ⟨⟨M.stateAt_reach lateMessage (by decide), by decide⟩, M.stateAt_reach noBrackets (by decide), by decide⟩

end CyberRT.AsyncLogger
