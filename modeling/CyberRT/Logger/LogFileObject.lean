import CyberRT.Logger.AsyncLogger
import Mathlib.Data.List.Flatten

namespace CyberRT
open Concur
open AsyncLogger (Text)

/-- The fields of `struct tm` that names and headers use. -/
structure Tm where
  year : Nat
  mon : Nat
  mday : Nat
  hour : Nat
  min : Nat
  sec : Nat
  deriving DecidableEq

/-- A number with `setw(2)` and zeros to fill. -/
def twoDigits (n : Nat) : Text :=
  if n < 10 then '0' :: Nat.toDigits 10 n else Nat.toDigits 10 n

/-- `time_pid_string` -/
def timePid (t : Tm) (pid : Nat) : Text :=
  Nat.toDigits 10 (1900 + t.year) ++ twoDigits (1 + t.mon) ++ twoDigits t.mday ++ ['-'] ++ twoDigits t.hour ++
    twoDigits t.min ++ twoDigits t.sec ++ ['.'] ++ Nat.toDigits 10 pid

/-- `file_header_string` -/
def fileHeader (t : Tm) (hostname : Text) : Text :=
  "Log file created at: ".toList ++ Nat.toDigits 10 (1900 + t.year) ++ ['/'] ++ twoDigits (1 + t.mon) ++ ['/'] ++
    twoDigits t.mday ++ [' '] ++ twoDigits t.hour ++ [':'] ++ twoDigits t.min ++ [':'] ++ twoDigits t.sec ++
    "\nRunning on machine: ".toList ++ (if hostname.isEmpty then "(unknown)".toList else hostname) ++
    "\nLog line format: [IWEF]mmdd hh:mm:ss.uuuuuu threadid file:line] msg\n".toList

structure LogFlags where
  maxLogSize : Int
  stopLoggingIfFullDisk : Bool
  logbufsecs : Int

/-- `MaxLogSize`, in MiB -/
def LogFlags.maxSize (flags : LogFlags) : Nat :=
  if 0 < flags.maxLogSize then flags.maxLogSize.toNat else 1

/-- What no file exceeds if headers have `header` bytes and messages `message`. -/
def LogFlags.lengthLimit (flags : LogFlags) (header message : Nat) : Nat :=
  flags.maxSize * 2 ^ 20 + header + message

theorem LogFlags.maxSize_pos (flags : LogFlags) : 0 < flags.maxSize := by
  unfold maxSize
  split
  · omega
  · exact Nat.one_pos

def kRolloverAttemptFrequency : Nat := 32

/-- A file that was created. At least the first `flushed` bytes are no more in a buffer of the process. -/
structure LogFile where
  name : Text
  header : Text
  messages : List Text
  flushed : Nat
  deriving DecidableEq

def LogFile.bytes (f : LogFile) : Text :=
  f.header ++ f.messages.flatten

/-- `stopWriting` is a global that all objects share. `closed`, `submitted` and `failures` are histories: the earlier
files, all messages, and how often no file was there after an attempt to create one. -/
structure LogFileObject where
  baseFilenameSelected : Bool
  baseFilename : Text
  filenameExtension : Text
  file : Option LogFile
  bytesSinceFlush : Nat
  fileLength : Nat
  rolloverAttempt : Nat
  nextFlushTime : Int
  stopWriting : Bool
  closed : List LogFile
  submitted : List Text
  failures : Nat

/-- A call of `Write` and what it meets: whether `open` and `fdopen` succeed, how much of the header and of the message
there is room for if the disk is full, and the clock at the test and at the flush. -/
structure WriteCall where
  forceFlush : Bool
  timestamp : Tm
  message : Text
  created : Bool
  headerRoom : Option Nat
  messageRoom : Option Nat
  now : Int
  later : Int

inductive LogEvent
  | write (call : WriteCall)
  | setBasename (basename : Text)
  | setExtension (ext : Text)
  | flush (later : Int)
  | elsewhere (stop : Bool)

namespace LogFileObject

/-- `fclose` writes out what is buffered. -/
def close (s : LogFileObject) : LogFileObject :=
  { s with file := none, closed := s.closed ++ (s.file.map fun f => { f with flushed := f.bytes.length }).toList }

def flushUnlocked (flags : LogFlags) (later : Int) (s : LogFileObject) : LogFileObject :=
  { s with
    file := s.file.map fun f => { f with flushed := f.bytes.length }
    bytesSinceFlush := if s.file.isSome then 0 else s.bytesSinceFlush
    nextFlushTime := later + flags.logbufsecs * 1000000 }

/-- Closes the file so that names and limits apply to a new one. -/
def retire (s : LogFileObject) : LogFileObject :=
  if s.file.isSome then { s.close with rolloverAttempt := kRolloverAttemptFrequency - 1 } else s

def setBasename (basename : Text) (s : LogFileObject) : LogFileObject :=
  if s.baseFilename = basename then { s with baseFilenameSelected := true }
  else { s.retire with baseFilenameSelected := true, baseFilename := basename }

def setExtension (ext : Text) (s : LogFileObject) : LogFileObject :=
  if s.filenameExtension = ext then s else { s.retire with filenameExtension := ext }

/-- The first test of `Write`. The process does not fork, so `PidHasChanged` finds its own id in every call. -/
def rollover (flags : LogFlags) (s : LogFileObject) : LogFileObject :=
  if flags.maxSize ≤ s.fileLength / 2 ^ 20 then
    { s.close with
      fileLength := 0
      bytesSinceFlush := 0
      rolloverAttempt := kRolloverAttemptFrequency - 1 }
  else s

/-- The part of `Write` without a file. A file that `CreateLogfile` creates is new, thus empty. -/
def createFile (hostname : Text) (pid : Nat) (call : WriteCall) (s : LogFileObject) : LogFileObject :=
  if s.rolloverAttempt + 1 ≠ kRolloverAttemptFrequency then { s with rolloverAttempt := s.rolloverAttempt + 1 }
  else if s.baseFilenameSelected && call.created then
    let header := fileHeader call.timestamp hostname
    { s with
      rolloverAttempt := 0
      file := some ⟨s.baseFilename ++ s.filenameExtension ++ timePid call.timestamp pid,
        call.headerRoom.elim header fun room => header.take room, [], 0⟩
      fileLength := (s.fileLength + header.length) % 2 ^ 32
      bytesSinceFlush := (s.bytesSinceFlush + header.length) % 2 ^ 32 }
  else { s with rolloverAttempt := 0, failures := s.failures + 1 }

/-- The rest of `Write`, with a file. -/
def output (flags : LogFlags) (call : WriteCall) (s : LogFileObject) (f : LogFile) : LogFileObject :=
  if s.stopWriting then { s with stopWriting := !decide (s.nextFlushTime ≤ call.now) }
  else
    let message := call.messageRoom.elim call.message fun room => call.message.take room
    let f := { f with messages := f.messages ++ [message] }
    if flags.stopLoggingIfFullDisk && call.messageRoom.isSome then { s with file := some f, stopWriting := true }
    else
      let s := { s with
        file := some f
        fileLength := (s.fileLength + call.message.length) % 2 ^ 32
        bytesSinceFlush := (s.bytesSinceFlush + call.message.length) % 2 ^ 32 }
      if call.forceFlush ∨ 1000000 ≤ s.bytesSinceFlush ∨ s.nextFlushTime ≤ call.now then
        s.flushUnlocked flags call.later
      else s

def record (s : LogFileObject) (message : Text) : LogFileObject :=
  { s with submitted := s.submitted ++ [message] }

def write (flags : LogFlags) (hostname : Text) (pid : Nat) (call : WriteCall) (s : LogFileObject) : LogFileObject :=
  let s := s.record call.message
  if s.baseFilenameSelected && s.baseFilename.isEmpty then s
  else
    let s := s.rollover flags
    let s := if s.file.isNone then s.createFile hostname pid call else s
    s.file.elim s (s.output flags call)

end LogFileObject

/-- A log file object of a process that does not fork, from its construction on. -/
def logMachine (flags : LogFlags) (hostname : Text) (baseFilename : Option Text) (pid : Nat) :
    Machine LogFileObject LogEvent where
  init :=
    { baseFilenameSelected := baseFilename.isSome
      baseFilename := match baseFilename.getD [] with
        | [] => "UNKNOWN".toList
        | name => name
      filenameExtension := []
      file := none
      bytesSinceFlush := 0
      fileLength := 0
      rolloverAttempt := kRolloverAttemptFrequency - 1
      nextFlushTime := 0
      stopWriting := false
      closed := []
      submitted := []
      failures := 0 }
  step s
    | .write call => some (s.write flags hostname pid call)
    | .setBasename basename => some (s.setBasename basename)
    | .setExtension ext => some (s.setExtension ext)
    | .flush later => some (s.flushUnlocked flags later)
    | .elsewhere stop => some { s with stopWriting := stop }

namespace LogFileObject

def files (s : LogFileObject) : List LogFile :=
  s.closed ++ s.file.toList

/-- What the files hold, from the first on. -/
def messages (s : LogFileObject) : List Text :=
  s.files.flatMap LogFile.messages

variable {flags : LogFlags} {hostname : Text} {baseFilename : Option Text} {pid : Nat} {call : WriteCall}
variable {s s' : LogFileObject} {e : LogEvent} {f : LogFile}

theorem messages_open (opened : s.file = some f) : s.messages = s.closed.flatMap LogFile.messages ++ f.messages := by
  rw [messages, files, opened, Option.toList_some, List.flatMap_append, List.flatMap_singleton]

theorem messages_closed (missing : s.file = none) : s.messages = s.closed.flatMap LogFile.messages := by
  rw [messages, files, missing, Option.toList_none, List.append_nil]

theorem close_messages (s : LogFileObject) : s.close.messages = s.messages := by
  unfold close messages files
  cases s.file with
  | none => simp only [Option.map_none, Option.toList_none, List.append_nil]
  | some f =>
    simp only [Option.map_some, Option.toList_some, Option.toList_none, List.append_nil, List.flatMap_append,
      List.flatMap_singleton]

theorem flushUnlocked_messages (flags : LogFlags) (later : Int) (s : LogFileObject) :
    (s.flushUnlocked flags later).messages = s.messages := by
  unfold flushUnlocked messages files
  cases s.file with
  | none => rfl
  | some f => simp only [Option.map_some, Option.toList_some, List.flatMap_append, List.flatMap_singleton]

/-- What a call of `Write` comes to. -/
theorem write_cases (flags : LogFlags) (hostname : Text) (pid : Nat) (call : WriteCall) (s : LogFileObject) :
    ((s.baseFilenameSelected = true ∧ s.baseFilename = []) ∧ s.write flags hostname pid call = s.record call.message) ∨
    (∃ f, ((s.record call.message).rollover flags).file = some f ∧
      s.write flags hostname pid call = ((s.record call.message).rollover flags).output flags call f) ∨
    ((s.record call.message).rollover flags).file = none ∧
      ((((s.record call.message).rollover flags).createFile hostname pid call).file = none ∧
        s.write flags hostname pid call = ((s.record call.message).rollover flags).createFile hostname pid call ∨
      ∃ f, (((s.record call.message).rollover flags).createFile hostname pid call).file = some f ∧
        s.write flags hostname pid call =
          (((s.record call.message).rollover flags).createFile hostname pid call).output flags call f) := by
  unfold write
  dsimp only
  split
  · rename_i silent
    rw [Bool.and_eq_true, List.isEmpty_iff] at silent
    exact .inl ⟨silent, rfl⟩
  · generalize (s.record call.message).rollover flags = r
    cases present : r.file with
    | some f =>
      rw [if_neg (by rw [Option.isNone_some]; decide), present]
      exact .inr (.inl ⟨f, rfl, rfl⟩)
    | none =>
      rw [if_pos (by rw [Option.isNone_none])]
      cases opened : (r.createFile hostname pid call).file with
      | none => exact .inr (.inr ⟨rfl, .inl ⟨rfl, rfl⟩⟩)
      | some f => exact .inr (.inr ⟨rfl, .inr ⟨f, rfl, rfl⟩⟩)

theorem retire_submitted (s : LogFileObject) : s.retire.submitted = s.submitted := by
  unfold retire
  split <;> rfl

theorem setBasename_submitted (basename : Text) (s : LogFileObject) :
    (s.setBasename basename).submitted = s.submitted := by
  unfold setBasename
  split
  · rfl
  · exact retire_submitted s

theorem setExtension_submitted (ext : Text) (s : LogFileObject) : (s.setExtension ext).submitted = s.submitted := by
  unfold setExtension
  split
  · rfl
  · exact retire_submitted s

theorem createFile_submitted (hostname : Text) (pid : Nat) (call : WriteCall) (s : LogFileObject) :
    (s.createFile hostname pid call).submitted = s.submitted := by
  unfold createFile
  dsimp only
  split
  · rfl
  · split <;> rfl

theorem output_submitted (flags : LogFlags) (call : WriteCall) (s : LogFileObject) (f : LogFile) :
    (s.output flags call f).submitted = s.submitted := by
  unfold output
  dsimp only
  split
  · rfl
  · split
    · rfl
    · split <;> rfl

/-- The messages until the next attempt to create a file. -/
def waiting (s : LogFileObject) : Nat :=
  if s.file.isSome then 0 else kRolloverAttemptFrequency - 1 - s.rolloverAttempt

theorem waiting_open (opened : s.file.isSome) : s.waiting = 0 :=
  if_pos opened

theorem waiting_closed (missing : s.file = none) : s.waiting = kRolloverAttemptFrequency - 1 - s.rolloverAttempt := by
  rw [waiting, missing, Option.isSome_none, if_neg Bool.false_ne_true]

/-- The files hold the messages `past` in order, but for at most 32 for each failure so far and to come. -/
structure Accounted (past : List Text) (s : LogFileObject) : Prop where
  named : s.baseFilename ≠ []
  writing : s.stopWriting = false
  order : s.messages.Sublist past
  budget : past.length + s.waiting ≤ s.messages.length + kRolloverAttemptFrequency * s.failures
  attempts : s.rolloverAttempt < kRolloverAttemptFrequency

/-- The disk is not full, and no name is empty. -/
def Room (_ : LogFileObject) : LogEvent → Prop
  | .write call => call.messageRoom = none
  | .setBasename basename => basename ≠ []
  | .elsewhere stop => stop = false
  | _ => True

variable {past : List Text}

theorem close_accounted (accounted : s.Accounted past) :
    Accounted past { s.close with rolloverAttempt := kRolloverAttemptFrequency - 1 } where
  named := accounted.named
  writing := accounted.writing
  order := (close_messages s).symm ▸ accounted.order
  budget := by
    have before := accounted.budget
    have same : messages { s.close with rolloverAttempt := kRolloverAttemptFrequency - 1 } = s.messages :=
      close_messages s
    have none : waiting { s.close with rolloverAttempt := kRolloverAttemptFrequency - 1 } = 0 := rfl
    rw [same, none]
    exact Nat.le_trans (Nat.le_add_right _ s.waiting) before
  attempts := Nat.lt_add_one 31

theorem retire_accounted (accounted : s.Accounted past) : s.retire.Accounted past := by
  unfold retire
  split
  · exact close_accounted accounted
  · exact accounted

theorem setBasename_accounted (accounted : s.Accounted past) {basename : Text} (named : basename ≠ []) :
    (s.setBasename basename).Accounted past := by
  unfold setBasename
  split
  · exact ⟨accounted.named, accounted.writing, accounted.order, accounted.budget, accounted.attempts⟩
  · have retired := retire_accounted accounted
    exact ⟨named, retired.writing, retired.order, retired.budget, retired.attempts⟩

theorem setExtension_accounted (accounted : s.Accounted past) (ext : Text) : (s.setExtension ext).Accounted past := by
  unfold setExtension
  split
  · exact accounted
  · have retired := retire_accounted accounted
    exact ⟨retired.named, retired.writing, retired.order, retired.budget, retired.attempts⟩

theorem flushUnlocked_accounted (accounted : s.Accounted past) (flags : LogFlags) (later : Int) :
    (s.flushUnlocked flags later).Accounted past where
  named := accounted.named
  writing := accounted.writing
  order := (flushUnlocked_messages flags later s).symm ▸ accounted.order
  budget := by
    have same : (s.flushUnlocked flags later).waiting = s.waiting := by
      simp only [waiting, flushUnlocked, Option.isSome_map]
    rw [same, flushUnlocked_messages]
    exact accounted.budget
  attempts := accounted.attempts

theorem rollover_accounted (accounted : s.Accounted past) (flags : LogFlags) :
    (s.rollover flags).Accounted past := by
  unfold rollover
  split
  · have closed := close_accounted accounted
    exact ⟨closed.named, closed.writing, closed.order, closed.budget, closed.attempts⟩
  · exact accounted

/-- A call for which there is no file loses its message, and waits for the next attempt or counts as a failure. -/
theorem createFile_accounted (accounted : s.Accounted past) (missing : s.file = none) (hostname : Text)
    (pid : Nat) (call : WriteCall) :
    ((s.createFile hostname pid call).file.isSome → (s.createFile hostname pid call).Accounted past) ∧
      ((s.createFile hostname pid call).file = none → (s.createFile hostname pid call).Accounted (past ++ [call.message])) := by
  have budget := accounted.budget
  have attempts := accounted.attempts
  have next : (past ++ [call.message]).length = past.length + 1 := by rw [List.length_append, List.length_singleton]
  have order : s.messages.Sublist (past ++ [call.message]) := accounted.order.trans (List.sublist_append_left ..)
  rw [waiting_closed missing] at budget
  unfold createFile
  dsimp only
  split
  · rename_i early
    refine ⟨fun opened => absurd opened (by rw [missing]; decide),
      fun _ => ⟨accounted.named, accounted.writing, order, ?_, Nat.lt_of_le_of_ne attempts early⟩⟩
    rw [next, waiting_closed (by exact missing)]
    refine Nat.le_trans ?_ budget
    simp only [kRolloverAttemptFrequency] at early attempts ⊢
    omega
  · rename_i due
    have last : kRolloverAttemptFrequency - 1 - s.rolloverAttempt = 0 := by
      simp only [kRolloverAttemptFrequency] at due ⊢
      omega
    rw [last, Nat.add_zero] at budget
    split
    · refine ⟨fun _ => ⟨accounted.named, accounted.writing, ?_, ?_, Nat.zero_lt_succ 31⟩, nofun⟩
      · rw [messages_open rfl, List.append_nil, ← messages_closed missing]
        exact accounted.order
      · rw [waiting_open rfl, messages_open rfl, List.append_nil, ← messages_closed missing]
        exact budget
    · refine ⟨fun opened => absurd opened (by rw [missing]; decide),
        fun _ => ⟨accounted.named, accounted.writing, order, ?_, Nat.zero_lt_succ 31⟩⟩
      rw [next, waiting_closed (by exact missing)]
      have more := Nat.add_le_add_right budget kRolloverAttemptFrequency
      rw [Nat.add_assoc _ _ kRolloverAttemptFrequency, ← Nat.mul_succ] at more
      exact Nat.le_trans (by simp only [kRolloverAttemptFrequency]; omega) more

theorem append_accounted (accounted : s.Accounted past) (opened : s.file = some f) (message : Text)
    (length bytes : Nat) :
    Accounted (past ++ [message]) { s with
      file := some { f with messages := f.messages ++ [message] }, fileLength := length, bytesSinceFlush := bytes } := by
  have before := messages_open opened
  have budget := accounted.budget
  refine ⟨accounted.named, accounted.writing, ?_, ?_, accounted.attempts⟩
  · rw [messages_open rfl, ← List.append_assoc, ← before]
    exact accounted.order.append (List.Sublist.refl _)
  · rw [waiting_open rfl, messages_open rfl, ← List.append_assoc, ← before]
    rw [waiting_open (by rw [opened, Option.isSome_some])] at budget
    simp only [List.length_append, List.length_singleton]
    omega

theorem output_accounted (accounted : s.Accounted past) (opened : s.file = some f) (flags : LogFlags)
    (room : call.messageRoom = none) : (s.output flags call f).Accounted (past ++ [call.message]) := by
  have idle : ¬ s.stopWriting = true := by rw [accounted.writing]; decide
  have appended := append_accounted accounted opened call.message
  unfold output
  rw [if_neg idle, room]
  dsimp only [Option.elim_none]
  rw [if_neg (by rw [Option.isSome_none, Bool.and_false]; decide)]
  split
  · exact flushUnlocked_accounted (appended _ _) flags call.later
  · exact appended _ _

theorem write_accounted (accounted : s.Accounted s.submitted) (flags : LogFlags) (hostname : Text) (pid : Nat)
    (room : call.messageRoom = none) :
    (s.write flags hostname pid call).Accounted (s.submitted ++ [call.message]) := by
  have recorded : (s.record call.message).Accounted s.submitted :=
    ⟨accounted.named, accounted.writing, accounted.order, accounted.budget, accounted.attempts⟩
  have rolled := rollover_accounted recorded flags
  obtain ⟨⟨_, empty⟩, _⟩ | ⟨f, present, written⟩ | ⟨missing, made⟩ := write_cases flags hostname pid call s
  · exact absurd empty accounted.named
  · rw [written]
    exact output_accounted rolled present flags room
  · obtain ⟨kept, lost⟩ := createFile_accounted rolled missing hostname pid call
    obtain ⟨none, written⟩ | ⟨f, opened, written⟩ := made
    · rw [written]
      exact lost none
    · rw [written]
      exact output_accounted (kept (by rw [opened, Option.isSome_some])) opened flags room

theorem write_submitted (flags : LogFlags) (hostname : Text) (pid : Nat) (call : WriteCall) (s : LogFileObject) :
    (s.write flags hostname pid call).submitted = s.submitted ++ [call.message] := by
  have rolled : ((s.record call.message).rollover flags).submitted = s.submitted ++ [call.message] := by
    unfold rollover
    split <;> rfl
  obtain ⟨_, written⟩ | ⟨f, _, written⟩ | ⟨_, made⟩ := write_cases flags hostname pid call s
  · rw [written]
    rfl
  · rw [written, output_submitted]
    exact rolled
  · obtain ⟨_, written⟩ | ⟨f, _, written⟩ := made
    · rw [written, createFile_submitted]
      exact rolled
    · rw [written, output_submitted, createFile_submitted]
      exact rolled

theorem step_accounted (accounted : s.Accounted s.submitted) (room : s.Room e)
    (enabled : (logMachine flags hostname baseFilename pid).step s e = some s') : s'.Accounted s'.submitted := by
  cases e with
  | write call =>
    cases enabled
    rw [write_submitted]
    exact write_accounted accounted flags hostname pid room
  | setBasename basename =>
    cases enabled
    rw [setBasename_submitted]
    exact setBasename_accounted accounted room
  | setExtension ext =>
    cases enabled
    rw [setExtension_submitted]
    exact setExtension_accounted accounted ext
  | flush later =>
    cases enabled
    exact flushUnlocked_accounted accounted flags later
  | elsewhere stop =>
    cases enabled
    exact ⟨accounted.named, room, accounted.order, accounted.budget, accounted.attempts⟩

theorem init_accounted (flags : LogFlags) (hostname : Text) (baseFilename : Option Text) (pid : Nat) :
    (logMachine flags hostname baseFilename pid).init.Accounted [] := by
  refine ⟨?_, rfl, List.Sublist.refl _, Nat.le_refl 0, Nat.lt_add_one 31⟩
  dsimp only [logMachine]
  split
  · decide
  · assumption

/-- In every run in which the disk is not full and no name is empty, the files hold, in the order of their creation,
the messages in the order of the calls, and each time that no file can be created at most 32 of them are lost. -/
theorem files_hold_messages (reach : (logMachine flags hostname baseFilename pid).ReachWhen Room s) :
    s.messages.Sublist s.submitted ∧
      s.submitted.length ≤ s.messages.length + kRolloverAttemptFrequency * s.failures := by
  have accounted : s.Accounted s.submitted :=
    reach.invariant (P := fun s => s.Accounted s.submitted) (init_accounted flags hostname baseFilename pid)
      fun _ _ _ accounted room enabled => step_accounted accounted room enabled
  exact ⟨accounted.order, Nat.le_trans (Nat.le_add_right _ _) accounted.budget⟩

def oneMebibyte : LogFlags := ⟨1, false, 30⟩

def writeCall (message : Text) : WriteCall :=
  ⟨false, ⟨121, 0, 2, 3, 4, 5⟩, message, true, none, none, 0, 0⟩

/-- A message, a new name, and another message. -/
def twoNames : List LogEvent :=
  [.write (writeCall ['a']), .setBasename ['b'], .write (writeCall ['c'])]

def twoNamesMachine : Machine LogFileObject LogEvent :=
  logMachine oneMebibyte ['h'] (some ['l']) 7

theorem files_hold_messages_twoNames :
    (twoNamesMachine.stateAt twoNames 3).messages.Sublist (twoNamesMachine.stateAt twoNames 3).submitted ∧
      (twoNamesMachine.stateAt twoNames 3).submitted.length ≤ (twoNamesMachine.stateAt twoNames 3).messages.length +
        kRolloverAttemptFrequency * (twoNamesMachine.stateAt twoNames 3).failures :=
  files_hold_messages (Machine.stateAt_reachWhen twoNames ⟨rfl, List.cons_ne_nil _ _, rfl, trivial⟩ rfl)

variable {header message limit room unwritten : Nat}

/-- Messages have at most `message` bytes and headers at most `header`, and the disk is not full. -/
def Short (hostname : Text) (header message : Nat) (_ : LogFileObject) : LogEvent → Prop
  | .write call => call.messageRoom = none ∧ call.message.length ≤ message ∧
    (fileHeader call.timestamp hostname).length ≤ header
  | .elsewhere stop => stop = false
  | _ => True

/-- `file_length_` and `bytes_since_flush_` are upper bounds: they go on counting when a name changes. -/
structure Sized (limit room unwritten : Nat) (s : LogFileObject) : Prop where
  writing : s.stopWriting = false
  counted : s.fileLength < room
  current : ∀ f, s.file = some f → f.bytes.length ≤ s.fileLength
  earlier : ∀ f ∈ s.closed, f.bytes.length < limit ∧ f.flushed = f.bytes.length
  recent : s.bytesSinceFlush < unwritten
  buffered : ∀ f, s.file = some f → f.bytes.length ≤ f.flushed + s.bytesSinceFlush

theorem close_earlier (sized : s.Sized limit room unwritten) (small : room ≤ limit) :
    ∀ f ∈ s.close.closed, f.bytes.length < limit ∧ f.flushed = f.bytes.length := by
  intro f member
  rcases List.mem_append.mp member with old | new
  · exact sized.earlier f old
  · obtain ⟨g, opened, rfl⟩ := Option.map_eq_some_iff.mp (Option.mem_toList.mp new)
    exact ⟨Nat.lt_of_le_of_lt (sized.current g opened) (Nat.lt_of_lt_of_le sized.counted small), rfl⟩

theorem retire_sized (sized : s.Sized limit room unwritten) (small : room ≤ limit) :
    s.retire.Sized limit room unwritten := by
  unfold retire
  split
  · exact ⟨sized.writing, sized.counted, nofun, close_earlier sized small, sized.recent, nofun⟩
  · exact sized

theorem rollover_sized (sized : s.Sized limit limit unwritten) (positive : 0 < unwritten) :
    (s.rollover flags).Sized limit (flags.maxSize * 2 ^ 20) unwritten := by
  unfold rollover
  split
  · exact ⟨sized.writing, Nat.mul_pos flags.maxSize_pos (by decide), nofun,
      close_earlier sized (Nat.le_refl limit), positive, nofun⟩
  · rename_i kept
    have below : s.fileLength / 2 ^ 20 < flags.maxSize := Nat.lt_of_not_le kept
    exact ⟨sized.writing, (Nat.div_lt_iff_lt_mul (by decide)).mp below, sized.current, sized.earlier, sized.recent,
      sized.buffered⟩

theorem createFile_sized (pid : Nat) (sized : s.Sized limit room unwritten)
    (short : (fileHeader call.timestamp hostname).length ≤ header) (fits : room + header ≤ 2 ^ 32)
    (fits' : unwritten + header ≤ 2 ^ 32) :
    (s.createFile hostname pid call).Sized limit (room + header) (unwritten + header) := by
  have counted : s.fileLength < room + header := Nat.lt_add_right header sized.counted
  have recent : s.bytesSinceFlush < unwritten + header := Nat.lt_add_right header sized.recent
  unfold createFile
  dsimp only
  split
  · exact ⟨sized.writing, counted, sized.current, sized.earlier, recent, sized.buffered⟩
  · split
    · have length : s.fileLength + (fileHeader call.timestamp hostname).length < room + header :=
        Nat.add_lt_add_of_lt_of_le sized.counted short
      have bytes : s.bytesSinceFlush + (fileHeader call.timestamp hostname).length < unwritten + header :=
        Nat.add_lt_add_of_lt_of_le sized.recent short
      rw [Nat.mod_eq_of_lt (Nat.lt_of_lt_of_le length fits), Nat.mod_eq_of_lt (Nat.lt_of_lt_of_le bytes fits')]
      have written : ∀ f : LogFile, f.messages = [] →
          f.header = call.headerRoom.elim (fileHeader call.timestamp hostname)
            (fun room => (fileHeader call.timestamp hostname).take room) →
          f.bytes.length ≤ (fileHeader call.timestamp hostname).length := by
        intro f empty top
        rw [LogFile.bytes, empty, top, List.flatten_nil, List.append_nil]
        cases call.headerRoom with
        | none => exact Nat.le_refl _
        | some room => exact List.length_take_le' ..
      refine ⟨sized.writing, length, fun f opened => ?_, sized.earlier, bytes, fun f opened => ?_⟩
      · cases opened
        exact Nat.le_trans (written _ rfl rfl) (Nat.le_add_left ..)
      · cases opened
        exact Nat.le_trans (written _ rfl rfl) (Nat.le_trans (Nat.le_add_left ..) (Nat.le_add_left ..))
    · exact ⟨sized.writing, counted, sized.current, sized.earlier, recent, sized.buffered⟩

theorem createFile_failed (sized : s.Sized limit room unwritten) (failed : (s.createFile hostname pid call).file = none) :
    (s.createFile hostname pid call).Sized limit room unwritten := by
  unfold createFile at failed ⊢
  dsimp only at failed ⊢
  split at failed
  · rename_i early
    rw [if_pos early]
    exact ⟨sized.writing, sized.counted, sized.current, sized.earlier, sized.recent, sized.buffered⟩
  · rename_i due
    rw [if_neg due]
    split at failed
    · cases failed
    · rename_i missing
      rw [if_neg missing]
      exact ⟨sized.writing, sized.counted, sized.current, sized.earlier, sized.recent, sized.buffered⟩

theorem flushUnlocked_sized (sized : s.Sized limit room unwritten) (opened : s.file.isSome) (flags : LogFlags)
    (later : Int) : (s.flushUnlocked flags later).Sized limit room 1000000 := by
  unfold flushUnlocked
  rw [if_pos opened]
  refine ⟨sized.writing, sized.counted, fun f flushed => ?_, sized.earlier, Nat.zero_lt_succ 999999,
    fun f flushed => ?_⟩
  · obtain ⟨g, before, rfl⟩ := Option.map_eq_some_iff.mp flushed
    exact sized.current g before
  · obtain ⟨g, before, rfl⟩ := Option.map_eq_some_iff.mp flushed
    exact Nat.le_refl _

theorem output_sized (sized : s.Sized limit room unwritten) (opened : s.file = some f)
    (full : call.messageRoom = none) (short : call.message.length ≤ message) (fits : room + message ≤ 2 ^ 32)
    (fits' : unwritten + message ≤ 2 ^ 32) :
    (s.output flags call f).Sized limit (room + message) 1000000 := by
  have idle : ¬ s.stopWriting = true := by rw [sized.writing]; decide
  have length : s.fileLength + call.message.length < room + message :=
    Nat.add_lt_add_of_lt_of_le sized.counted short
  have bytes : s.bytesSinceFlush + call.message.length < unwritten + message :=
    Nat.add_lt_add_of_lt_of_le sized.recent short
  have longer : ∀ flushed, LogFile.bytes ⟨f.name, f.header, f.messages ++ [call.message], flushed⟩ =
      f.bytes ++ call.message := by
    intro flushed
    rw [LogFile.bytes, LogFile.bytes, List.flatten_append, List.flatten_singleton, List.append_assoc]
  unfold output
  rw [if_neg idle, full]
  dsimp only [Option.elim_none]
  rw [if_neg (by rw [Option.isSome_none, Bool.and_false]; decide),
    Nat.mod_eq_of_lt (Nat.lt_of_lt_of_le length fits), Nat.mod_eq_of_lt (Nat.lt_of_lt_of_le bytes fits')]
  have appended : Sized limit (room + message) (unwritten + message) { s with
      file := some { f with messages := f.messages ++ [call.message] }
      fileLength := s.fileLength + call.message.length
      bytesSinceFlush := s.bytesSinceFlush + call.message.length } := by
    refine ⟨sized.writing, length, fun g now => ?_, sized.earlier, bytes, fun g now => ?_⟩
    · cases now
      rw [longer, List.length_append]
      exact Nat.add_le_add_right (sized.current f opened) _
    · cases now
      rw [longer, List.length_append, ← Nat.add_assoc]
      exact Nat.add_le_add_right (sized.buffered f opened) _
  split
  · exact flushUnlocked_sized appended rfl flags call.later
  · rename_i calm
    have few : s.bytesSinceFlush + call.message.length < 1000000 :=
      Nat.lt_of_not_le fun many => calm (.inr (.inl many))
    exact ⟨appended.writing, appended.counted, appended.current, appended.earlier, few, appended.buffered⟩

theorem Sized.mono (sized : s.Sized limit room unwritten) {larger : Nat} (grows : room ≤ larger) :
    s.Sized limit larger unwritten :=
  ⟨sized.writing, Nat.lt_of_lt_of_le sized.counted grows, sized.current, sized.earlier, sized.recent, sized.buffered⟩

theorem write_sized (sized : s.Sized (flags.lengthLimit header message) (flags.lengthLimit header message) 1000000)
    (short : s.Short hostname header message (.write call)) (fits : flags.lengthLimit header message ≤ 2 ^ 32) :
    (s.write flags hostname pid call).Sized (flags.lengthLimit header message) (flags.lengthLimit header message)
      1000000 := by
  obtain ⟨full, few, top⟩ := short
  have recorded : (s.record call.message).Sized (flags.lengthLimit header message)
      (flags.lengthLimit header message) 1000000 :=
    ⟨sized.writing, sized.counted, sized.current, sized.earlier, sized.recent, sized.buffered⟩
  have rolled : ((s.record call.message).rollover flags).Sized (flags.lengthLimit header message)
      (flags.maxSize * 2 ^ 20) 1000000 := rollover_sized recorded (Nat.zero_lt_succ 999999)
  have mib : 2 ^ 20 ≤ flags.maxSize * 2 ^ 20 := Nat.le_mul_of_pos_left _ flags.maxSize_pos
  unfold LogFlags.lengthLimit at *
  generalize flags.maxSize * 2 ^ 20 = size at *
  obtain ⟨_, written⟩ | ⟨f, present, written⟩ | ⟨missing, made⟩ := write_cases flags hostname pid call s
  · rw [written]
    exact recorded
  · rw [written]
    exact (output_sized rolled present full few (by omega) (by omega)).mono (by omega)
  · obtain ⟨failed, written⟩ | ⟨f, opened, written⟩ := made
    · rw [written]
      exact (createFile_failed rolled failed).mono (by omega)
    · rw [written]
      have created := createFile_sized pid rolled top (by omega) (by omega)
      exact output_sized created opened full few fits (by omega)

theorem step_sized (sized : s.Sized (flags.lengthLimit header message) (flags.lengthLimit header message) 1000000)
    (short : s.Short hostname header message e) (fits : flags.lengthLimit header message ≤ 2 ^ 32)
    (enabled : (logMachine flags hostname baseFilename pid).step s e = some s') :
    s'.Sized (flags.lengthLimit header message) (flags.lengthLimit header message) 1000000 := by
  have retired := retire_sized sized (Nat.le_refl _)
  cases e with
  | write call =>
    cases enabled
    exact write_sized sized short fits
  | setBasename basename =>
    cases enabled
    unfold setBasename
    split
    · exact ⟨sized.writing, sized.counted, sized.current, sized.earlier, sized.recent, sized.buffered⟩
    · exact ⟨retired.writing, retired.counted, retired.current, retired.earlier, retired.recent, retired.buffered⟩
  | setExtension ext =>
    cases enabled
    unfold setExtension
    split
    · exact sized
    · exact ⟨retired.writing, retired.counted, retired.current, retired.earlier, retired.recent, retired.buffered⟩
  | flush later =>
    cases enabled
    cases present : s.file with
    | none =>
      unfold flushUnlocked
      rw [present]
      exact ⟨sized.writing, sized.counted, nofun, sized.earlier, sized.recent, nofun⟩
    | some f => exact flushUnlocked_sized sized (by rw [present, Option.isSome_some]) flags later
  | elsewhere stop =>
    cases enabled
    exact ⟨short, sized.counted, sized.current, sized.earlier, sized.recent, sized.buffered⟩

theorem reach_sized (fits : flags.lengthLimit header message ≤ 2 ^ 32)
    (reach : (logMachine flags hostname baseFilename pid).ReachWhen (Short hostname header message) s) :
    s.Sized (flags.lengthLimit header message) (flags.lengthLimit header message) 1000000 := by
  have start : 0 < flags.lengthLimit header message :=
    Nat.add_pos_left (Nat.add_pos_left (Nat.mul_pos flags.maxSize_pos (by decide)) _) _
  exact reach.invariant ⟨rfl, start, nofun, nofun, Nat.zero_lt_succ 999999, nofun⟩
    fun _ _ _ sized short enabled => step_sized sized short fits enabled

/-- No file, closed or open, ever grows beyond the size limit by more than a header and a message. -/
theorem files_bounded (fits : flags.lengthLimit header message ≤ 2 ^ 32)
    (reach : (logMachine flags hostname baseFilename pid).ReachWhen (Short hostname header message) s)
    (member : f ∈ s.files) : f.bytes.length < flags.lengthLimit header message := by
  have sized := reach_sized fits reach
  rcases List.mem_append.mp member with old | new
  · exact (sized.earlier f old).1
  · exact Nat.lt_of_le_of_lt (sized.current f (Option.mem_toList.mp new)) sized.counted

/-- Between two calls less than a million bytes of the open file, and none of the closed ones, are only in a buffer of
the process. -/
theorem unflushed_bounded (fits : flags.lengthLimit header message ≤ 2 ^ 32)
    (reach : (logMachine flags hostname baseFilename pid).ReachWhen (Short hostname header message) s) :
    (∀ f, s.file = some f → f.bytes.length < f.flushed + 1000000) ∧ ∀ f ∈ s.closed, f.flushed = f.bytes.length := by
  have sized := reach_sized fits reach
  refine ⟨fun f opened => ?_, fun f member => (sized.earlier f member).2⟩
  exact Nat.lt_of_le_of_lt (sized.buffered f opened) (Nat.add_lt_add_left sized.recent _)

theorem twoNames_fits : LogFlags.lengthLimit oneMebibyte 200 100 ≤ 2 ^ 32 := by decide

theorem twoNames_reach :
    twoNamesMachine.ReachWhen (Short ['h'] 200 100) (twoNamesMachine.stateAt twoNames 3) :=
  Machine.stateAt_reachWhen twoNames
    ⟨⟨rfl, by decide, by decide +kernel⟩, trivial, ⟨rfl, by decide, by decide +kernel⟩, trivial⟩ rfl

theorem twoNames_open : (twoNamesMachine.stateAt twoNames 3).file.isSome := by decide +kernel

/-- The file with the second name. -/
def secondFile : LogFile :=
  (twoNamesMachine.stateAt twoNames 3).file.get twoNames_open

theorem secondFile_open : (twoNamesMachine.stateAt twoNames 3).file = some secondFile :=
  (Option.some_get twoNames_open).symm

theorem files_bounded_twoNames : secondFile.bytes.length < LogFlags.lengthLimit oneMebibyte 200 100 :=
  files_bounded twoNames_fits twoNames_reach (List.mem_append_right _ (Option.mem_toList.mpr secondFile_open))

theorem unflushed_bounded_twoNames : secondFile.bytes.length < secondFile.flushed + 1000000 ∧
    ∀ f ∈ (twoNamesMachine.stateAt twoNames 3).closed, f.flushed = f.bytes.length := by
  have bounded := unflushed_bounded twoNames_fits twoNames_reach
  exact ⟨bounded.1 secondFile secondFile_open, bounded.2⟩

end LogFileObject

end CyberRT
