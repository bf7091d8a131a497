import CyberRT.Lib.Machine

namespace CyberRT.AsyncLogger
open Concur

/-- Texts are lists of their bytes, as characters. -/
abbrev Text := List Char

def leftBracket : Char := '['

def rightBracket : Char := ']'

/-- The positions of the first left bracket and of the first right bracket after it, counted from there. -/
def brackets (logMessage : Text) : Option (Nat × Nat) := do
  let lpos ← logMessage.findIdx? fun c => c == leftBracket
  let length ← (logMessage.drop lpos).findIdx? fun c => c == rightBracket
  return (lpos, length)

/-- `FindModuleName` takes the text in brackets out of the message. The module name stays as it was if there are no
brackets, and an empty one becomes the process group. -/
def findModuleName (processGroup : Text) (logMessage moduleName : Text) : Text × Text :=
  let (logMessage, moduleName) :=
    match brackets logMessage with
    | some (lpos, length) =>
      (logMessage.take lpos ++ logMessage.drop (lpos + length + 1), (logMessage.drop (lpos + 1)).take (length - 1))
    | none => (logMessage, moduleName)
  (logMessage, if moduleName.isEmpty then processGroup else moduleName)

/-- A buffered message. `ticket` tells the calls of `Write` apart; nobody reads it. -/
structure Msg where
  ts : Int
  message : Text
  level : Nat
  ticket : Nat
  deriving DecidableEq

/-- `log_level_map` -/
def logLevel (message : Text) : Nat :=
  match message.head? with
  | some 'F' => 3
  | some 'E' => 2
  | some 'W' => 1
  | _ => 0

/-- A call of `Write` of the log file object of a module. -/
structure Written where
  moduleName : Text
  forceFlush : Bool
  ts : Int
  message : Text
  ticket : Nat
  deriving DecidableEq

inductive RunState
  | initted
  | running
  | stopped
  deriving DecidableEq

/-- Where a thread stands in `Write`, after it has found the logger running. -/
inductive WriterPc
  | idle
  | acquire (msg : Msg)
  | append (msg : Msg)
  | clear (msg : Msg)
  deriving DecidableEq

/-- Where the log thread stands in `RunThread`. -/
inductive LogPc
  | none
  | test
  | acquire
  | swap
  | clear
  | flush (moduleName : Text)
  | ended
  deriving DecidableEq

/-- Where the thread that starts and stops the logger stands. -/
inductive ControlPc
  | idle
  | spawn
  | join
  | flush (moduleName : Text)
  | checkActive
  | checkFlushing
  | stopped
  | aborted
  deriving DecidableEq

/-- The logger. `observed` are the messages of the calls of `Write` that found it running, `appended` those that were
put into the active buffer; these two and `written` are histories. -/
structure State (τ : Type) where
  state : RunState
  flag : Bool
  activeBuf : List Msg
  flushingBuf : List Msg
  writer : τ → WriterPc
  logThread : LogPc
  control : ControlPc
  observed : List Msg
  appended : List Msg
  written : List Written

namespace State
variable {τ : Type}

def create : State τ :=
  ⟨.initted, false, [], [], fun _ => .idle, .none, .idle, [], [], []⟩

def writerGoto [DecidableEq τ] (s : State τ) (t : τ) (pc : WriterPc) : State τ :=
  { s with writer := Function.update s.writer t pc }

/-- The front of a buffer is written to the file of its module, and popped. -/
def writeFront (processGroup : Text) (s : State τ) (msg : Msg) (moduleName : Text) : Text × State τ :=
  let (message, moduleName) := findModuleName processGroup msg.message moduleName
  (moduleName, { s with written := s.written ++ [⟨moduleName, decide (msg.level > 0), msg.ts, message, msg.ticket⟩] })

/-- One round of the loop of `FlushBuffer` in the log thread. The module name lives as long as the loop. -/
def logFlush (processGroup : Text) (s : State τ) (moduleName : Text) : State τ :=
  match s.flushingBuf with
  | [] => { s with logThread := .test }
  | msg :: rest =>
    let (moduleName, s) := s.writeFront processGroup msg moduleName
    { s with flushingBuf := rest, logThread := .flush moduleName }

/-- One round of the loop of `FlushBuffer` in `Stop`. -/
def lastFlush (processGroup : Text) (s : State τ) (moduleName : Text) : State τ :=
  match s.activeBuf with
  | [] => { s with control := .checkActive }
  | msg :: rest =>
    let (moduleName, s) := s.writeFront processGroup msg moduleName
    { s with activeBuf := rest, control := .flush moduleName }

/-- A step of `RunThread`. -/
def logStep (processGroup : Text) (s : State τ) : Option (State τ) :=
  match s.logThread with
  | .none | .ended => none
  | .test => some { s with logThread := if s.state = .running then .acquire else .ended }
  | .acquire => some (if s.flag then s else { s with flag := true, logThread := .swap })
  | .swap => some { s with activeBuf := s.flushingBuf, flushingBuf := s.activeBuf, logThread := .clear }
  | .clear => some { s with flag := false, logThread := .flush [] }
  | .flush moduleName => some (s.logFlush processGroup moduleName)

/-- A step of a thread inside `Write`. -/
def writeStep [DecidableEq τ] (s : State τ) (t : τ) : Option (State τ) :=
  match s.writer t with
  | .idle => none
  | .acquire msg => some (if s.flag then s else { s.writerGoto t (.append msg) with flag := true })
  | .append msg => some { s.writerGoto t (.clear msg) with
      activeBuf := s.activeBuf ++ [msg], appended := s.appended ++ [msg] }
  | .clear _ => some { s.writerGoto t .idle with flag := false }

/-- `Write` is called. -/
def write [DecidableEq τ] (s : State τ) (t : τ) (ts : Int) (message : Text) : Option (State τ) :=
  match s.writer t with
  | .idle =>
    if s.state ≠ .running then some s
    else
      let msg : Msg := ⟨ts, message, logLevel message, s.observed.length⟩
      some { s.writerGoto t (.acquire msg) with observed := s.observed ++ [msg] }
  | _ => none

/-- A step of `Start` or of `Stop`. A `CHECK` that fails ends the process. -/
def controlStep (processGroup : Text) (s : State τ) : Option (State τ) :=
  match s.control with
  | .idle | .stopped | .aborted => none
  | .spawn => some { s with logThread := .test, control := .idle }
  | .join => if s.logThread = .ended then some { s with control := .flush [] } else none
  | .flush moduleName => some (s.lastFlush processGroup moduleName)
  | .checkActive => some { s with control := if s.activeBuf.isEmpty then .checkFlushing else .aborted }
  | .checkFlushing => some { s with control := if s.flushingBuf.isEmpty then .stopped else .aborted }

/-- `Start` up to the thread, with its `CHECK`. -/
def start (s : State τ) : State τ :=
  if s.state = .initted then { s with state := .running, control := .spawn } else { s with control := .aborted }

/-- `Stop` up to the join, with its first `CHECK`. -/
def stop (s : State τ) : State τ :=
  if s.state = .running then { s with state := .stopped, control := .join } else { s with control := .aborted }

end State

inductive Event (τ : Type)
  | start
  | stop
  | controlStep
  | logStep
  | write (t : τ) (ts : Int) (message : Text)
  | writeStep (t : τ)
  deriving DecidableEq

def machine (τ : Type) [DecidableEq τ] (processGroup : Text) : Machine (State τ) (Event τ) where
  init := .create
  step s e :=
    if s.control = .aborted then none
    else match e with
    | .start => if s.control = .idle then some s.start else none
    | .stop => if s.control = .idle then some s.stop else none
    | .controlStep => s.controlStep processGroup
    | .logStep => s.logStep processGroup
    | .write t ts message => s.write t ts message
    | .writeStep t => s.writeStep t

end CyberRT.AsyncLogger
