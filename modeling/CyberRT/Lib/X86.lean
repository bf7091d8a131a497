import CyberRT.Lib.Ram
import Mathlib.Logic.Function.Basic

namespace X86
open Ram

inductive Register
  | rax | rbx | rcx | rdx | rsi | rdi | rbp | rsp | r8 | r9 | r10 | r11 | r12 | r13 | r14 | r15
  deriving DecidableEq

/-- The registers of a processor, and the memory. -/
structure Cpu where
  regs : Register → Word
  rip : Word
  mem : Bytes

inductive Instruction
  | pushq (r : Register)
  | popq (r : Register)
  /-- `movq %src, (%dst)` -/
  | movqTo (src dst : Register)
  /-- `movq (%src), %dst` -/
  | movqFrom (src dst : Register)
  | ret

namespace Cpu

def set (c : Cpu) (r : Register) (v : Word) : Cpu :=
  { c with regs := Function.update c.regs r v }

def push (c : Cpu) (v : Word) : Cpu :=
  { c.set .rsp (c.regs .rsp - 8) with mem := store c.mem (c.regs .rsp - 8) v }

/-- The word at the top of the stack, and the processor without it. -/
def pop (c : Cpu) : Word × Cpu :=
  (load c.mem (c.regs .rsp), c.set .rsp (c.regs .rsp + 8))

def exec (c : Cpu) : Instruction → Cpu
  | .pushq r => c.push (c.regs r)
  | .popq r => c.pop.2.set r c.pop.1
  | .movqTo src dst => { c with mem := store c.mem (c.regs dst) (c.regs src) }
  | .movqFrom src dst => c.set dst (load c.mem (c.regs src))
  | .ret => { c.pop.2 with rip := c.pop.1 }

def run (c : Cpu) (code : List Instruction) : Cpu :=
  code.foldl exec c

@[simp] theorem run_append (c : Cpu) (code more : List Instruction) : c.run (code ++ more) = (c.run code).run more :=
  List.foldl_append

theorem set_regs_ne {c : Cpu} {r r' : Register} {v : Word} (other : r' ≠ r) : (c.set r v).regs r' = c.regs r' :=
  Function.update_of_ne other ..

@[simp] theorem set_regs_self (c : Cpu) (r : Register) (v : Word) : (c.set r v).regs r = v :=
  Function.update_self ..

theorem push_regs (c : Cpu) (v : Word) : (c.push v).regs = Function.update c.regs .rsp (c.regs .rsp - 8) := rfl

@[simp] theorem push_rsp (c : Cpu) (v : Word) : (c.push v).regs .rsp = c.regs .rsp - 8 := by
  rw [push_regs, Function.update_self]

theorem popq_regs_ne {c : Cpu} {r r' : Register} (other : r' ≠ r) (notStack : r' ≠ .rsp) :
    (c.exec (.popq r)).regs r' = c.regs r' :=
  (set_regs_ne other).trans (set_regs_ne notStack)

theorem ret_regs (c : Cpu) : (c.exec .ret).regs = Function.update c.regs .rsp (c.regs .rsp + 8) := rfl

theorem ret_regs_ne {c : Cpu} {r : Register} (notStack : r ≠ .rsp) : (c.exec .ret).regs r = c.regs r := by
  rw [ret_regs, Function.update_of_ne notStack]

@[simp] theorem ret_rsp (c : Cpu) : (c.exec .ret).regs .rsp = c.regs .rsp + 8 := by
  rw [ret_regs, Function.update_self]

@[simp] theorem ret_rip (c : Cpu) : (c.exec .ret).rip = load c.mem (c.regs .rsp) := rfl

@[simp] theorem ret_mem (c : Cpu) : (c.exec .ret).mem = c.mem := rfl

@[simp] theorem movqFrom_regs_self (c : Cpu) (src dst : Register) :
    (c.exec (.movqFrom src dst)).regs dst = load c.mem (c.regs src) :=
  set_regs_self ..

@[simp] theorem movqFrom_mem (c : Cpu) (src dst : Register) : (c.exec (.movqFrom src dst)).mem = c.mem := rfl

@[simp] theorem movqTo_regs (c : Cpu) (src dst : Register) : (c.exec (.movqTo src dst)).regs = c.regs := rfl

@[simp] theorem movqTo_mem (c : Cpu) (src dst : Register) :
    (c.exec (.movqTo src dst)).mem = store c.mem (c.regs dst) (c.regs src) := rfl

/-- The words of a frame, from its lowest address on. -/
def Frame (m : Bytes) : Word → List Word → Prop
  | _, [] => True
  | a, v :: vs => load m a = v ∧ Frame m (a + 8) vs

theorem Frame.congr {m m' : Bytes} {a : Word} {vs : List Word}
    (same : ∀ b, Within a (8 * vs.length) b → m b = m' b) (frame : Frame m a vs) : Frame m' a vs := by
  induction vs generalizing a with
  | nil => trivial
  | cons v vs ih =>
    rw [List.length_cons] at same
    refine ⟨?_, ih (fun b inside => same b ?_) frame.2⟩
    · rw [← load_congr fun b inside => same b ?_]
      · exact frame.1
      · unfold Within at inside ⊢
        omega
    · unfold Within at inside ⊢
      bv_omega

theorem Frame.append {m : Bytes} {a : Word} {vs ws : List Word} (frame : Frame m a vs)
    (next : Frame m (a + BitVec.ofNat 64 (8 * vs.length)) ws) : Frame m a (vs ++ ws) := by
  induction vs generalizing a with
  | nil => simpa using next
  | cons v vs ih =>
    have address : a + 8 + BitVec.ofNat 64 (8 * vs.length) = a + BitVec.ofNat 64 (8 * (vs.length + 1)) := by bv_omega
    refine ⟨frame.1, ih frame.2 ?_⟩
    rw [address]
    exact next

theorem Frame.exists_words (m : Bytes) (a : Word) (n : Nat) : ∃ vs, vs.length = n ∧ Frame m a vs := by
  induction n generalizing a with
  | zero => exact ⟨[], rfl, trivial⟩
  | succ n ih =>
    obtain ⟨vs, length, frame⟩ := ih (a + 8)
    exact ⟨load m a :: vs, congrArg Nat.succ length, rfl, frame⟩

/-- Memory that is cleared. -/
theorem Frame.zeros {m : Bytes} {a : Word} {n : Nat} (clear : ∀ b, Within a (8 * n) b → m b = 0) :
    Frame m a (List.replicate n 0) := by
  refine Frame.congr (m := fun _ => 0) (fun b inside => ?_) ?_
  · rw [List.length_replicate] at inside
    exact (clear b inside).symm
  · clear clear
    induction n generalizing a with
    | zero => trivial
    | succ n ih => exact ⟨load_zero a, ih⟩

theorem Frame.push {c : Cpu} {vs : List Word} (frame : Frame c.mem (c.regs .rsp) vs)
    (short : 8 * (vs.length + 1) ≤ 2 ^ 64) (v : Word) : Frame (c.push v).mem ((c.push v).regs .rsp) (v :: vs) := by
  have next : c.regs .rsp - 8 + 8 = c.regs .rsp := BitVec.sub_add_cancel ..
  refine ⟨load_store .., ?_⟩
  change Frame (store c.mem (c.regs .rsp - 8) v) (c.regs .rsp - 8 + 8) vs
  rw [next]
  refine frame.congr fun b inside => (store_outside ?_).symm
  unfold Within at inside ⊢
  bv_omega

theorem push_outside {c : Cpu} {v b : Word} (outside : ¬ Within (c.regs .rsp - 8) 8 b) : (c.push v).mem b = c.mem b :=
  store_outside outside

/-- A sequence of pushes writes one word below the other, and nothing else. -/
theorem run_pushes {rs : List Register} (others : Register.rsp ∉ rs) {c : Cpu} {vs : List Word}
    (frame : Frame c.mem (c.regs .rsp) vs) (short : 8 * (rs.length + vs.length) ≤ 2 ^ 64) :
    Frame (c.run (rs.map .pushq)).mem (c.regs .rsp - BitVec.ofNat 64 (8 * rs.length)) ((rs.map c.regs).reverse ++ vs) ∧
      (c.run (rs.map .pushq)).regs = Function.update c.regs .rsp (c.regs .rsp - BitVec.ofNat 64 (8 * rs.length)) ∧
      ∀ b, ¬ Within (c.regs .rsp - BitVec.ofNat 64 (8 * rs.length)) (8 * rs.length) b →
        (c.run (rs.map .pushq)).mem b = c.mem b := by
  induction rs generalizing c vs with
  | nil =>
    have zero : c.regs .rsp - BitVec.ofNat 64 (8 * [].length (α := Register)) = c.regs .rsp := BitVec.sub_zero _
    rw [zero]
    exact ⟨frame, (Function.update_eq_self ..).symm, fun _ _ => rfl⟩
  | cons r rs ih =>
    obtain ⟨notSelf, others⟩ := not_or.mp (mt List.mem_cons.mpr others)
    rw [List.length_cons] at short ⊢
    have address : c.regs .rsp - 8 - BitVec.ofNat 64 (8 * rs.length) =
        c.regs .rsp - BitVec.ofNat 64 (8 * (rs.length + 1)) := by bv_omega
    have unchanged : rs.map (c.push (c.regs r)).regs = rs.map c.regs :=
      List.map_congr_left fun r' member => set_regs_ne fun same => others (same ▸ member)
    have pushed := ih others (frame.push (by omega) (c.regs r)) (by rw [List.length_cons]; omega)
    rw [push_rsp, address, unchanged] at pushed
    refine ⟨?_, ?_, fun b outside => ?_⟩
    · rw [List.map_cons (f := c.regs), List.reverse_cons, List.append_assoc]
      exact pushed.1
    · exact pushed.2.1.trans (Function.update_idem ..)
    · refine (pushed.2.2 b fun inside => outside ?_).trans (push_outside fun inside => outside ?_)
      · unfold Within at inside ⊢
        omega
      · unfold Within at inside ⊢
        bv_omega

/-- A sequence of pops reads one word above the other. -/
theorem run_pops {rs : List Register} (others : Register.rsp ∉ rs) (distinct : rs.Nodup) {c : Cpu} {vs ws : List Word}
    (length : vs.length = rs.length) (frame : Frame c.mem (c.regs .rsp) (vs ++ ws)) :
    rs.map (c.run (rs.map .popq)).regs = vs ∧
      (∀ r, r ∉ rs → r ≠ .rsp → (c.run (rs.map .popq)).regs r = c.regs r) ∧
      (c.run (rs.map .popq)).regs .rsp = c.regs .rsp + BitVec.ofNat 64 (8 * rs.length) ∧
      (c.run (rs.map .popq)).mem = c.mem ∧ Frame c.mem (c.regs .rsp + BitVec.ofNat 64 (8 * rs.length)) ws := by
  induction rs generalizing c vs with
  | nil =>
    obtain rfl := List.length_eq_zero_iff.mp length
    have zero : c.regs .rsp + BitVec.ofNat 64 (8 * [].length (α := Register)) = c.regs .rsp := BitVec.add_zero _
    rw [zero]
    exact ⟨rfl, fun _ _ _ => rfl, rfl, rfl, frame⟩
  | cons r rs ih =>
    match vs, length with
    | v :: vs, length =>
      obtain ⟨notSelf, others⟩ := not_or.mp (mt List.mem_cons.mpr others)
      obtain ⟨once, distinct⟩ := List.nodup_cons.mp distinct
      obtain ⟨top, frame⟩ := frame
      have above : (c.exec (.popq r)).regs .rsp = c.regs .rsp + 8 :=
        (set_regs_ne notSelf).trans (set_regs_self ..)
      have address : c.regs .rsp + 8 + BitVec.ofNat 64 (8 * rs.length) =
          c.regs .rsp + BitVec.ofNat 64 (8 * (rs.length + 1)) := by bv_omega
      have popped := ih others distinct (c := c.exec (.popq r)) (Nat.succ.inj length) (by rw [above]; exact frame)
      rw [above, address] at popped
      refine ⟨?_, fun r' absent notStack => ?_, popped.2.2.1, popped.2.2.2⟩
      · have first : (c.run ((r :: rs).map .popq)).regs r = v :=
          (popped.2.1 r once fun same => notSelf same.symm).trans ((set_regs_self ..).trans top)
        exact congrArg₂ List.cons first popped.1
      · obtain ⟨other, absent⟩ := not_or.mp (mt List.mem_cons.mpr absent)
        exact (popped.2.1 r' absent notStack).trans (popq_regs_ne other notStack)

end Cpu

end X86
