import CyberRT.Lib.Machine
import Mathlib.Algebra.Order.Ring.Int

namespace CyberRT.Livox
open Concur

def TOTAL_BLOCK_NUM : Int := 12

def BLOCK_LEN_SMALL : Int := 1024 * 1024

/-- A name of 32 bytes, two numbers and a flag. -/
def BLOCK_DESC_OFFSET : Int := 44

def MAX_DATA_SIZE : Nat := 1500

/-- The packets of a frame. -/
def LINES : Nat := 250

/-- The size of a packet with 96 points. -/
def LINE_LEN : Nat := 1362

/-- Addresses are relative to the shared memory. -/
def getWriteableArea (id : Int) : Int :=
  TOTAL_BLOCK_NUM * BLOCK_DESC_OFFSET + id * BLOCK_LEN_SMALL

/-- The area of part A, or else of part B. -/
def areaOf (part : Bool) : Int :=
  if part then getWriteableArea 0 else getWriteableArea 1

theorem one_le_LINES : 1 ≤ LINES := by decide

def write (mem : Int → UInt8) (p : Int) (bytes : List UInt8) : Int → UInt8 :=
  fun a => if p ≤ a then bytes.getD (a - p).toNat (mem a) else mem a

def slice (mem : Int → UInt8) (p : Int) (n : Nat) : List UInt8 :=
  (List.range n).map fun k : Nat => mem (p + (k : Int))

variable {mem : Int → UInt8} {p q : Int} {bytes : List UInt8} {n : Nat}

theorem write_outside {a : Int} (outside : a < p ∨ p + bytes.length ≤ a) : write mem p bytes a = mem a := by
  unfold write
  split
  · rename_i after
    have beyond : bytes.length ≤ (a - p).toNat := by omega
    rw [List.getD_eq_getElem?_getD, List.getElem?_eq_none beyond, Option.getD_none]
  · rfl

theorem slice_write_apart (apart : q + n ≤ p ∨ p + bytes.length ≤ q) : slice (write mem p bytes) q n = slice mem q n := by
  refine List.map_congr_left fun k inside => write_outside ?_
  have bound := List.mem_range.mp inside
  omega

theorem slice_write (mem : Int → UInt8) (p : Int) (bytes : List UInt8) :
    slice (write mem p bytes) p bytes.length = bytes := by
  refine List.ext_getElem (by simp only [slice, List.length_map, List.length_range]) fun k bound bound' => ?_
  have offset : (p + (k : Int) - p).toNat = k := by omega
  simp only [slice, List.getElem_map, List.getElem_range, write]
  rw [if_pos (by omega), offset, List.getD_eq_getElem?_getD, List.getElem?_eq_getElem bound', Option.getD_some]

/-- What `recvfrom` does: it times out, fails otherwise, or takes a packet. -/
inductive Received
  | timeout
  | failed
  | packet (bytes : List UInt8)
  deriving DecidableEq

/-- `reset_count_info` is about to store the flag of A or that of B, or the loop is about to receive. -/
inductive Pc
  | storeA
  | storeB
  | receive
  deriving DecidableEq

/-- `inUse` holds the flags of both blocks. `received` and `completed` are histories: the packets, and how many frames
have been completed. -/
structure FrameState where
  mem : Int → UInt8
  inUse : Bool → Bool
  abPart : Bool
  packageCount : Nat
  pclPtr : Int
  pc : Pc
  received : List (List UInt8)
  completed : Nat

inductive FrameEvent
  | reset
  | receive (result : Received)
  deriving DecidableEq

namespace FrameState

/-- The end of the loop body, after `nbytes` were received. A failed receive moves the pointer back by one. -/
def advance (s : FrameState) (nbytes : Int) : FrameState :=
  if s.packageCount % LINES = 0 then
    { s with abPart := !s.abPart, packageCount := 1, pc := .storeA, completed := s.completed + 1 }
  else { s with pclPtr := s.pclPtr + nbytes, packageCount := s.packageCount + 1 }

/-- The loop body with a packet. -/
def receivePacket (s : FrameState) (bytes : List UInt8) : FrameState :=
  { s with mem := write s.mem s.pclPtr bytes, received := s.received ++ [bytes] }.advance bytes.length

def step (s : FrameState) : FrameEvent → Option FrameState
  | .reset =>
    match s.pc with
    | .storeA => some { s with inUse := Function.update s.inUse true s.abPart, pc := .storeB }
    | .storeB => some { s with
      inUse := Function.update s.inUse false !s.abPart, pclPtr := areaOf s.abPart, pc := .receive }
    | .receive => none
  | .receive result =>
    if s.pc = .receive then
      match result with
      | .timeout => some s
      | .failed => some (s.advance (-1))
      | .packet bytes => some (s.receivePacket (bytes.take MAX_DATA_SIZE))
    else none

end FrameState

/-- The receiver starts with part A. No constructor sets the flags. -/
def frameMachine (mem : Int → UInt8) (inUse : Bool → Bool) : Machine FrameState FrameEvent where
  init := ⟨mem, inUse, true, 1, 0, .storeA, [], 0⟩
  step := FrameState.step

namespace FrameState

/-- What holds in every run in which no receive fails but by a time-out. -/
structure Inside (s : FrameState) : Prop where
  counts : 1 ≤ s.packageCount ∧ s.packageCount ≤ LINES
  flags : s.pc = .receive → s.inUse s.abPart = true ∧ s.inUse (!s.abPart) = false
  ptr : s.pc = .receive → areaOf s.abPart ≤ s.pclPtr ∧
    s.pclPtr ≤ areaOf s.abPart + MAX_DATA_SIZE * (s.packageCount - 1)
  toggles : s.pc = .storeB → s.inUse true = s.abPart

/-- No receive fails but by a time-out. -/
def Receives (_ : FrameState) : FrameEvent → Prop
  | .receive .failed => False
  | _ => True

variable {s s' : FrameState} {e : FrameEvent}

theorem advance_mem (s : FrameState) (nbytes : Int) : (s.advance nbytes).mem = s.mem := by
  unfold advance
  split <;> rfl

theorem step_cases (enabled : s.step e = some s') :
    (e = .reset ∧ s.pc = .storeA ∧ s' = { s with inUse := Function.update s.inUse true s.abPart, pc := .storeB }) ∨
    (e = .reset ∧ s.pc = .storeB ∧ s' = { s with
      inUse := Function.update s.inUse false !s.abPart, pclPtr := areaOf s.abPart, pc := .receive }) ∨
    (e = .receive .timeout ∧ s.pc = .receive ∧ s' = s) ∨
    (e = .receive .failed ∧ s.pc = .receive ∧ s' = s.advance (-1)) ∨
    ∃ bytes, e = .receive (.packet bytes) ∧ s.pc = .receive ∧ s' = s.receivePacket (bytes.take MAX_DATA_SIZE) := by
  cases e with
  | reset =>
    cases pc : s.pc with
    | storeA => exact .inl ⟨rfl, rfl, by simpa only [step, pc, Option.some.injEq] using enabled.symm⟩
    | storeB => exact .inr (.inl ⟨rfl, rfl, by simpa only [step, pc, Option.some.injEq] using enabled.symm⟩)
    | receive => simp only [step, pc, reduceCtorEq] at enabled
  | receive result =>
    obtain ⟨receives, taken⟩ := Option.ite_none_right_eq_some.mp enabled
    cases result with
    | timeout => exact .inr (.inr (.inl ⟨rfl, receives, (Option.some.inj taken).symm⟩))
    | failed => exact .inr (.inr (.inr (.inl ⟨rfl, receives, (Option.some.inj taken).symm⟩)))
    | packet bytes => exact .inr (.inr (.inr (.inr ⟨bytes, rfl, receives, (Option.some.inj taken).symm⟩)))

theorem receivePacket_inside (inside : s.Inside) (receives : s.pc = .receive) {bytes : List UInt8}
    (small : bytes.length ≤ MAX_DATA_SIZE) : (s.receivePacket bytes).Inside := by
  obtain ⟨few, many⟩ := inside.counts
  obtain ⟨after, before⟩ := inside.ptr receives
  unfold receivePacket advance
  split
  · exact ⟨⟨Nat.le_refl 1, one_le_LINES⟩, nofun, nofun, nofun⟩
  · rename_i more
    refine ⟨⟨Nat.le_add_left .., ?_⟩, inside.flags, fun _ => ⟨?_, ?_⟩, inside.toggles⟩
    · have notLast : s.packageCount ≠ LINES := fun last => more (by rw [last, Nat.mod_self])
      exact Nat.lt_of_le_of_ne many notLast
    · exact Int.le_trans after (Int.le_add_of_nonneg_right (Int.natCast_nonneg _))
    · simp only [MAX_DATA_SIZE] at small before ⊢
      omega

/-- The flags once `reset_count_info` is done. -/
theorem reset_flags (first : s.inUse true = s.abPart) :
    Function.update s.inUse false (!s.abPart) s.abPart = true ∧
      Function.update s.inUse false (!s.abPart) (!s.abPart) = false := by
  cases part : s.abPart
  · rw [part] at first
    exact ⟨Function.update_self .., (Function.update_of_ne (by decide) ..).trans first⟩
  · rw [part] at first
    exact ⟨(Function.update_of_ne (by decide) ..).trans first, Function.update_self ..⟩

theorem step_inside (inside : s.Inside) (receives : s.Receives e) (enabled : s.step e = some s') : s'.Inside := by
  obtain ⟨rfl, storing, rfl⟩ | ⟨rfl, storing, rfl⟩ | ⟨rfl, receiving, rfl⟩ | ⟨rfl, receiving, rfl⟩ |
    ⟨bytes, rfl, receiving, rfl⟩ := step_cases enabled
  · exact ⟨inside.counts, nofun, nofun, fun _ => Function.update_self true s.abPart s.inUse⟩
  · have room : 0 ≤ (MAX_DATA_SIZE : Int) * (s.packageCount - 1) := by
      have few := inside.counts.1
      simp only [MAX_DATA_SIZE]
      omega
    exact ⟨inside.counts, fun _ => reset_flags (inside.toggles storing),
      fun _ => ⟨Int.le_refl _, Int.le_add_of_nonneg_right room⟩, nofun⟩
  · exact inside
  · cases receives
  · exact receivePacket_inside inside receiving (List.length_take_le ..)

theorem init_inside (mem : Int → UInt8) (inUse : Bool → Bool) : (frameMachine mem inUse).init.Inside :=
  ⟨⟨Nat.le_refl 1, one_le_LINES⟩, nofun, nofun, nofun⟩

/-- Every byte that a step of the receiver writes lies in the area of the block whose flag says that it is in use; the
descriptors and the other area stay as they are. -/
theorem writes_inside {mem : Int → UInt8} {inUse : Bool → Bool}
    (reach : (frameMachine mem inUse).ReachWhen Receives s) (receives : s.Receives e) (enabled : s.step e = some s')
    {a : Int} (changed : s'.mem a ≠ s.mem a) :
    s.inUse s.abPart = true ∧ s.inUse (!s.abPart) = false ∧ areaOf s.abPart ≤ a ∧
      a < areaOf s.abPart + BLOCK_LEN_SMALL := by
  have inside : s.Inside := reach.invariant (init_inside mem inUse) fun _ _ _ inside receives enabled =>
    step_inside inside receives enabled
  obtain ⟨rfl, _, rfl⟩ | ⟨rfl, _, rfl⟩ | ⟨rfl, _, rfl⟩ | ⟨rfl, _, rfl⟩ | ⟨bytes, rfl, receiving, rfl⟩ :=
    step_cases enabled
  · exact absurd rfl changed
  · exact absurd rfl changed
  · exact absurd rfl changed
  · cases receives
  · rw [receivePacket, advance_mem] at changed
    obtain ⟨flag, other⟩ := inside.flags receiving
    obtain ⟨after, before⟩ := inside.ptr receiving
    obtain ⟨few, many⟩ := inside.counts
    have short : (bytes.take MAX_DATA_SIZE).length ≤ MAX_DATA_SIZE := List.length_take_le ..
    have within : ¬ (a < s.pclPtr ∨ s.pclPtr + (bytes.take MAX_DATA_SIZE).length ≤ a) :=
      fun outside => changed (write_outside outside)
    simp only [MAX_DATA_SIZE, LINES, BLOCK_LEN_SMALL] at *
    exact ⟨flag, other, by omega, by omega⟩

/-- A receiver with cleared memory. -/
def clearMachine : Machine FrameState FrameEvent :=
  frameMachine (fun _ => 0) fun _ => false

def twoStores : List FrameEvent := [.reset, .reset]

theorem writes_inside_twoStores :
    let s := clearMachine.stateAt twoStores 2
    s.inUse s.abPart = true ∧ s.inUse (!s.abPart) = false ∧ areaOf s.abPart ≤ 528 ∧
      528 < areaOf s.abPart + BLOCK_LEN_SMALL :=
  writes_inside (e := .receive (.packet [7])) (a := 528)
    (Machine.stateAt_reachWhen twoStores ⟨trivial, trivial, trivial⟩ rfl) trivial rfl (by decide)

/-- The packets of both areas are a ring of two frames: the place of packet `n`. -/
def lineArea (n : Nat) : Int :=
  areaOf (n / LINES % 2 = 0) + ((LINE_LEN * (n % LINES) : Nat) : Int)

theorem lineArea_line {m l : Nat} {part : Bool} (side : m % 2 = 0 ↔ part = true) (bound : l < LINES) :
    lineArea (LINES * m + l) = areaOf part + ((LINE_LEN * l : Nat) : Int) := by
  have line : (LINES * m + l) % LINES = l := by rw [Nat.mul_add_mod, Nat.mod_eq_of_lt bound]
  have frame : (LINES * m + l) / LINES = m := by
    rw [Nat.mul_add_div one_le_LINES, Nat.div_eq_of_lt bound, Nat.add_zero]
  have same : decide (m % 2 = 0) = part := by rw [Bool.eq_iff_iff, decide_eq_true_iff, side]
  rw [lineArea, line, frame, same]

theorem lineArea_eq (n : Nat) : lineArea n = 528 + 1048576 * (n / 250 % 2 : Nat) + 1362 * (n % 250 : Nat) := by
  by_cases even : n / LINES % 2 = 0
  · have first : n / 250 % 2 = 0 := even
    rw [lineArea, decide_eq_true even, first]
    rfl
  · have second : n / 250 % 2 = 1 := Nat.mod_two_ne_zero.mp even
    rw [lineArea, decide_eq_false even, second]
    rfl

theorem lineArea_apart {n t : Nat} (before : n < t) (room : t < n + 2 * LINES) :
    lineArea n + LINE_LEN ≤ lineArea t ∨ lineArea t + LINE_LEN ≤ lineArea n := by
  simp only [lineArea_eq, LINE_LEN, LINES] at room ⊢
  have frames : t / 250 = n / 250 ∨ t / 250 = n / 250 + 1 ∨ t / 250 = n / 250 + 2 := by omega
  obtain same | next | again := frames
  · rw [same]
    omega
  · rcases Nat.mod_two_eq_zero_or_one (n / 250) with first | second
    · have other : t / 250 % 2 = 1 := by omega
      rw [first, other]
      omega
    · have other : t / 250 % 2 = 0 := by omega
      rw [second, other]
      omega
  · have side : t / 250 % 2 = n / 250 % 2 := by rw [again, Nat.add_mod_right]
    rw [side]
    omega

/-- What holds when every packet has the size that the viewer takes it to have. -/
structure Stored (s : FrameState) : Prop where
  inside : s.Inside
  total : s.received.length = LINES * s.completed + (s.packageCount - 1)
  part : s.abPart = decide (s.completed % 2 = 0)
  restart : s.pc ≠ .receive → s.packageCount = 1
  ptr : s.pc = .receive → s.pclPtr = lineArea s.received.length
  sizes : ∀ bytes ∈ s.received, bytes.length = LINE_LEN
  lines : ∀ n (bound : n < s.received.length), s.received.length ≤ n + 2 * LINES →
    slice s.mem (lineArea n) LINE_LEN = s.received[n]

theorem Stored.side (stored : s.Stored) : s.completed % 2 = 0 ↔ s.abPart = true := by
  rw [stored.part, decide_eq_true_iff]

/-- Receives time out or take packets with 96 points. -/
def Whole (_ : FrameState) : FrameEvent → Prop
  | .receive .failed => False
  | .receive (.packet bytes) => bytes.length = LINE_LEN
  | _ => True

theorem receives_of_whole (whole : s.Whole e) : s.Receives e := by
  cases e with
  | reset => trivial
  | receive result =>
    cases result with
    | failed => exact whole
    | timeout => trivial
    | packet => trivial

theorem receivePacket_lines (stored : s.Stored) (receives : s.pc = .receive) {bytes : List UInt8}
    (size : bytes.length = LINE_LEN) {n : Nat} (bound : n < (s.received ++ [bytes]).length)
    (room : (s.received ++ [bytes]).length ≤ n + 2 * LINES) :
    slice (write s.mem s.pclPtr bytes) (lineArea n) LINE_LEN = (s.received ++ [bytes])[n] := by
  rw [stored.ptr receives]
  rw [List.length_append, List.length_singleton] at bound room
  by_cases old : n < s.received.length
  · have apart := lineArea_apart (t := s.received.length) old (by omega)
    rw [List.getElem_append_left old, slice_write_apart (by rw [size]; exact apart)]
    exact stored.lines n old (by omega)
  · have last : n = s.received.length := by omega
    subst last
    rw [List.getElem_concat_length rfl, ← size]
    exact slice_write s.mem _ bytes

theorem receivePacket_stored (stored : s.Stored) (receives : s.pc = .receive) {bytes : List UInt8}
    (size : bytes.length = LINE_LEN) : (s.receivePacket bytes).Stored := by
  have small : bytes.length ≤ MAX_DATA_SIZE := by rw [size]; decide
  have after := receivePacket_inside stored.inside receives small
  have sizes : ∀ line ∈ s.received ++ [bytes], line.length = LINE_LEN := by
    intro line member
    rcases List.mem_append.mp member with old | new
    · exact stored.sizes line old
    · rw [List.mem_singleton.mp new, size]
  have lines := fun n bound => receivePacket_lines (n := n) stored receives size bound
  have total := stored.total
  have length : (s.received ++ [bytes]).length = s.received.length + 1 := by
    rw [List.length_append, List.length_singleton]
  obtain ⟨few, many⟩ := stored.inside.counts
  unfold receivePacket advance at after ⊢
  dsimp only at after ⊢
  split at after
  · rename_i full
    have last : s.packageCount = LINES := by
      simp only [LINES] at full many ⊢
      omega
    have toggled : (!s.abPart) = decide ((s.completed + 1) % 2 = 0) := by
      rw [stored.part, ← decide_not, decide_eq_decide]
      omega
    rw [if_pos full]
    refine ⟨after, ?_, toggled, fun _ => rfl, nofun, sizes, lines⟩
    dsimp only
    rw [length, total, last]
    simp only [LINES]
    omega
  · rename_i more
    have room : s.packageCount < LINES :=
      Nat.lt_of_le_of_ne many fun last => more (by rw [last, Nat.mod_self])
    have side := stored.side
    have now : s.received.length = LINES * s.completed + (s.packageCount - 1) := total
    have next : s.received.length + 1 = LINES * s.completed + s.packageCount := by omega
    rw [if_neg more]
    refine ⟨after, ?_, stored.part, fun idle => absurd receives idle, fun _ => ?_, sizes, lines⟩
    · dsimp only
      rw [length, next, Nat.add_sub_cancel]
    · dsimp only
      rw [length, stored.ptr receives, next, now, lineArea_line side room, lineArea_line side (by omega), size]
      simp only [LINE_LEN]
      omega

theorem step_stored (stored : s.Stored) (whole : s.Whole e) (enabled : s.step e = some s') : s'.Stored := by
  have after := step_inside stored.inside (receives_of_whole whole) enabled
  obtain ⟨rfl, storing, rfl⟩ | ⟨rfl, storing, rfl⟩ | ⟨rfl, receiving, rfl⟩ | ⟨rfl, receiving, rfl⟩ |
    ⟨bytes, rfl, receiving, rfl⟩ := step_cases enabled
  · have idle : s.pc ≠ .receive := by rw [storing]; decide
    exact ⟨after, stored.total, stored.part, fun _ => stored.restart idle, nofun, stored.sizes, stored.lines⟩
  · have idle : s.pc ≠ .receive := by rw [storing]; decide
    have total := stored.total
    have side := stored.side
    rw [stored.restart idle] at total
    refine ⟨after, stored.total, stored.part, fun _ => stored.restart idle, fun _ => ?_, stored.sizes, stored.lines⟩
    dsimp only
    rw [total, lineArea_line side one_le_LINES, Nat.mul_zero, Int.natCast_zero, Int.add_zero]
  · exact stored
  · cases whole
  · have size : bytes.length = LINE_LEN := whole
    rw [List.take_of_length_le (by rw [size]; decide)]
    exact receivePacket_stored stored receiving size

theorem init_stored (mem : Int → UInt8) (inUse : Bool → Bool) : (frameMachine mem inUse).init.Stored :=
  ⟨init_inside mem inUse, rfl, rfl, fun _ => rfl, nofun, nofun, nofun⟩

/-- The receiver does not yet write over frame `m`. -/
def Keeps (m : Nat) (s : FrameState) : Prop :=
  s.completed ≤ m + 2 ∧ (s.pc = .receive → s.completed ≤ m + 1)

theorem receivePacket_keeps {m : Nat} (keeps : s.Keeps m) (receives : s.pc = .receive) (bytes : List UInt8) :
    (s.receivePacket bytes).Keeps m := by
  unfold receivePacket advance
  split
  · exact ⟨Nat.succ_le_succ (keeps.2 receives), nofun⟩
  · exact ⟨keeps.1, keeps.2⟩

/-- Only the end of a reset lets the receiver write over a frame. -/
theorem step_keeps {m : Nat} (keeps : s.Keeps m) (whole : s.Whole e) (early : ¬ (e = .reset ∧ s.pc = .storeB))
    (enabled : s.step e = some s') : s'.Keeps m := by
  obtain ⟨rfl, _, rfl⟩ | ⟨rfl, storing, rfl⟩ | ⟨rfl, _, rfl⟩ | ⟨rfl, _, rfl⟩ | ⟨bytes, rfl, receiving, rfl⟩ :=
    step_cases enabled
  · exact ⟨keeps.1, nofun⟩
  · exact absurd ⟨rfl, storing⟩ early
  · exact keeps
  · cases whole
  · exact receivePacket_keeps keeps receiving _

theorem Keeps.total {m : Nat} (keeps : s.Keeps m) (stored : s.Stored) : s.received.length ≤ LINES * m + 2 * LINES := by
  have total := stored.total
  have many := stored.inside.counts.2
  by_cases receives : s.pc = .receive
  · have few := keeps.2 receives
    simp only [LINES] at total many ⊢
    omega
  · have few := keeps.1
    rw [stored.restart receives] at total
    simp only [LINES] at total ⊢
    omega

/-- The last whole frame of an area that the receiver does not use. -/
theorem Stored.keeps_last (stored : s.Stored) {part : Bool} (free : s.inUse part = false)
    (written : (if part then 1 else 2) ≤ s.completed) :
    ∃ m, m < s.completed ∧ s.completed ≤ m + 2 ∧ (m % 2 = 0 ↔ part = true) ∧ s.Keeps m := by
  have side := stored.side
  by_cases same : part = s.abPart
  · have idle : s.pc ≠ .receive := fun receives =>
      absurd ((stored.inside.flags receives).1.symm.trans (same ▸ free)) (by decide)
    have two : 2 ≤ s.completed := by
      cases area : part
      · rw [area] at written
        exact written
      · rw [area] at written same
        have even := side.mpr same.symm
        have one : 1 ≤ s.completed := written
        omega
    refine ⟨s.completed - 2, by omega, by omega, ?_, by omega, fun receives => absurd receives idle⟩
    rw [same, ← side]
    omega
  · have one : 1 ≤ s.completed := by
      refine Nat.le_trans ?_ written
      split <;> decide
    have other : part = true ↔ ¬ s.abPart = true := by
      rw [Bool.eq_not_of_ne same, Bool.not_eq_true', Bool.not_eq_true]
    refine ⟨s.completed - 1, by omega, by omega, ?_, by omega, fun _ => by omega⟩
    rw [other, ← side]
    omega

theorem step_received (enabled : s.step e = some s') : s.received <+: s'.received := by
  obtain ⟨_, _, rfl⟩ | ⟨_, _, rfl⟩ | ⟨_, _, rfl⟩ | ⟨_, _, rfl⟩ | ⟨bytes, _, _, rfl⟩ := step_cases enabled
  · exact List.prefix_rfl
  · exact List.prefix_rfl
  · exact List.prefix_rfl
  · unfold advance
    split <;> exact List.prefix_rfl
  · unfold receivePacket advance
    split <;> exact List.prefix_append ..

/-- The viewer reads byte `k` of line `l` in the state at `time l k`. -/
def viewerLines (state : Nat → FrameState) (part : Bool) (time : Nat → Nat → Nat) : List (List UInt8) :=
  (List.range LINES).map fun l => (List.range LINE_LEN).map fun k =>
    (state (time l k)).mem (areaOf part + ((LINE_LEN * l : Nat) : Int) + (k : Int))

/-- From an area that it finds free the viewer collects the last whole frame of that area, in whatever order it reads,
unless the end of a reset comes between its look at the flag and its last read. -/
theorem viewer_whole_frame {mem : Int → UInt8} {inUse : Bool → Bool} {n : Nat} {state : Nat → FrameState}
    {event : Nat → FrameEvent} (run : (frameMachine mem inUse).Run n state event)
    (whole : ∀ t, t < n → (state t).Whole (event t)) {part : Bool} {i j : Nat} (bound : j ≤ n)
    (free : (state i).inUse part = false)
    (written : (if part then 1 else 2) ≤ (state i).completed)
    (early : ∀ t, i ≤ t → t < j → ¬ (event t = .reset ∧ (state t).pc = .storeB)) {time : Nat → Nat → Nat}
    (during : ∀ l k, i ≤ time l k ∧ time l k ≤ j) :
    ∃ m, m < (state i).completed ∧ (state i).completed ≤ m + 2 ∧ (m % 2 = 0 ↔ part = true) ∧
      viewerLines state part time = ((state i).received.drop (LINES * m)).take LINES := by
  have stored : ∀ t, t ≤ n → (state t).Stored := fun t before =>
    (run.reachWhen whole before).invariant (init_stored mem inUse) fun _ _ _ stored whole enabled =>
      step_stored stored whole enabled
  have looks : i ≤ n := Nat.le_trans (Nat.le_trans (during 0 0).1 (during 0 0).2) bound
  obtain ⟨m, complete, last, side, keeps⟩ := (stored i looks).keeps_last free written
  have kept : ∀ t, i ≤ t → t ≤ j → (state t).Keeps m := fun t after before =>
    run.stays keeps after (by omega) fun k first next now enabled =>
      step_keeps now (whole k (by omega)) (early k first (by omega)) enabled
  have total := (stored i looks).total
  have enough : LINES * m + LINES ≤ (state i).received.length := by
    simp only [LINES] at total ⊢
    omega
  have line : ∀ l, l < LINES → ∀ t, i ≤ t → t ≤ j → ∀ inside : LINES * m + l < (state i).received.length,
      slice (state t).mem (areaOf part + ((LINE_LEN * l : Nat) : Int)) LINE_LEN =
        (state i).received[LINES * m + l] := by
    intro l small t after before inside
    have later : (state i).received <+: (state t).received :=
      run.later (R := fun s s' => s.received <+: s'.received) (fun _ => List.prefix_rfl)
        (fun _ _ _ => List.IsPrefix.trans) (fun _ _ _ _ => step_received) after (by omega)
    have room := (kept t after before).total (stored t (by omega))
    have found := (stored t (by omega)).lines (LINES * m + l) (Nat.lt_of_lt_of_le inside later.length_le) (by omega)
    rw [lineArea_line side small] at found
    rw [found, later.getElem inside]
  refine ⟨m, complete, last, side, List.ext_getElem ?_ fun l first second => ?_⟩
  · rw [viewerLines, List.length_map, List.length_range, List.length_take, List.length_drop]
    omega
  · have small : l < LINES := by simpa only [viewerLines, List.length_map, List.length_range] using first
    have inside : LINES * m + l < (state i).received.length := by omega
    have size := (stored i looks).sizes _ (List.getElem_mem inside)
    simp only [viewerLines, List.getElem_map, List.getElem_range, List.getElem_take, List.getElem_drop]
    refine List.ext_getElem (by rw [List.length_map, List.length_range, size]) fun k first second => ?_
    obtain ⟨after, before⟩ := during l k
    have found := line l small (time l k) after before inside
    simp only [List.getElem_map, List.getElem_range, ← found, slice]

/-- One frame of packets, and the receiver turns to part B. -/
def oneFrame : List FrameEvent :=
  [.reset, .reset] ++ List.replicate LINES (.receive (.packet (List.replicate LINE_LEN 7))) ++
    [.reset, .reset, .receive .timeout]

def oneFrameState : Nat → FrameState := clearMachine.stateAt oneFrame

def oneFrameEvent (t : Nat) : FrameEvent := oneFrame.getD t (.receive .timeout)

theorem oneFrame_length : oneFrame.length = 255 := by
  simp only [oneFrame, List.length_append, List.length_replicate, List.length_cons, List.length_nil, LINES]

theorem oneFrame_whole (s : FrameState) (member : e ∈ oneFrame) : s.Whole e := by
  simp only [oneFrame, List.mem_append, List.mem_cons, List.mem_replicate, List.not_mem_nil, or_false] at member
  rcases member with ((rfl | rfl) | ⟨_, rfl⟩) | rfl | rfl | rfl
  · trivial
  · trivial
  · exact List.length_replicate
  · trivial
  · trivial
  · trivial

theorem viewer_whole_frame_oneFrame :
    ∃ m, m < (oneFrameState 254).completed ∧ (oneFrameState 254).completed ≤ m + 2 ∧ (m % 2 = 0 ↔ true = true) ∧
      viewerLines oneFrameState true (fun _ _ => 255) =
        ((oneFrameState 254).received.drop (LINES * m)).take LINES := by
  have executes : (clearMachine.exec clearMachine.init oneFrame).isSome := by decide +kernel
  have run : clearMachine.Run 255 oneFrameState oneFrameEvent := by
    rw [← oneFrame_length]
    exact Machine.exec_run oneFrame executes (.receive .timeout)
  have whole : ∀ t, t < 255 → (oneFrameState t).Whole (oneFrameEvent t) := by
    intro t bound
    have inside : t < oneFrame.length := by
      rw [oneFrame_length]
      exact bound
    rw [oneFrameEvent, List.getD_eq_getElem?_getD, List.getElem?_eq_getElem inside, Option.getD_some]
    exact oneFrame_whole _ (List.getElem_mem inside)
  have free : (oneFrameState 254).inUse true = false := by decide +kernel
  have written : 1 ≤ (oneFrameState 254).completed := by decide +kernel
  have timesOut : oneFrameEvent 254 ≠ .reset := by decide +kernel
  have early : ∀ t, 254 ≤ t → t < 255 → ¬ (oneFrameEvent t = .reset ∧ (oneFrameState t).pc = .storeB) := by
    intro t after before reset
    have now : t = 254 := Nat.le_antisymm (Nat.le_of_lt_succ before) after
    exact timesOut (now ▸ reset.1)
  exact viewer_whole_frame run whole (Nat.le_refl 255) free written early fun _ _ => ⟨Nat.le_succ 254, Nat.le_refl 255⟩

end FrameState

end CyberRT.Livox
