import CyberRT.Lib.X86

namespace CyberRT
open Ram X86

def stackSize : Nat := 2 * 1024 * 1024

def registersSize : Nat := 56

/-- The text of `ctx_swap`. -/
def ctxSwap : List Instruction := [
  .pushq .rdi,
  .pushq .r12,
  .pushq .r13,
  .pushq .r14,
  .pushq .r15,
  .pushq .rbx,
  .pushq .rbp,
  .movqTo .rsp .rdi,
  .movqFrom .rsi .rsp,
  .popq .rbp,
  .popq .rbx,
  .popq .r15,
  .popq .r14,
  .popq .r13,
  .popq .r12,
  .popq .rdi,
  .ret]

/-- The call of `ctx_swap` with the addresses of two stack pointers, from the instruction before `returnAddress`. -/
def swapContext (c : Cpu) (srcSp destSp returnAddress : Word) : Cpu :=
  (((c.set .rdi srcSp).set .rsi destSp).push returnAddress).run ctxSwap

/-- The context whose stack begins at an address, with its stack pointer at another. -/
def makeContext (mem : Bytes) (stack sp f1 arg : Word) : Bytes :=
  let contextSp := stack + BitVec.ofNat 64 (stackSize - 2 * 8 - registersSize)
  let mem := store mem sp contextSp
  let mem := storeBytes mem contextSp (List.replicate registersSize 0)
  let entry := stack + BitVec.ofNat 64 (stackSize - 2 * 8)
  let mem := store mem entry f1
  store mem (entry - 8) arg

/-- The registers that are kept, as they lie on the stack from its top on. -/
def keptRegisters : List Register :=
  [.rbp, .rbx, .r15, .r14, .r13, .r12, .rdi]

/-- A context that is not running: where its stack pointer is stored, and what its stack has for it. -/
structure Suspended (mem : Bytes) (sp : Word) (kept : List Word) (rsp returnAddress : Word) : Prop where
  stored : load mem sp = rsp - 64
  frame : Cpu.Frame mem (rsp - 64) (kept ++ [returnAddress])

theorem Suspended.congr {mem mem' : Bytes} {sp rsp returnAddress : Word} {kept : List Word} (length : kept.length = 7)
    (slot : ∀ b, Within sp 8 b → mem b = mem' b) (stack : ∀ b, Within (rsp - 64) 64 b → mem b = mem' b)
    (suspended : Suspended mem sp kept rsp returnAddress) : Suspended mem' sp kept rsp returnAddress where
  stored := by rw [← load_congr slot, suspended.stored]
  frame := by
    refine suspended.frame.congr fun b inside => stack b ?_
    rwa [List.length_append, length] at inside

/-- The first half: the caller's registers lie below the address to which it will return. -/
theorem saves (c : Cpu) (srcSp destSp here : Word) {c' : Cpu}
    (ran : c' = (((c.set .rdi srcSp).set .rsi destSp).push here).run (keptRegisters.reverse.map .pushq)) :
    Cpu.Frame c'.mem (c.regs .rsp - 64) (keptRegisters.map (c.set .rdi srcSp).regs ++ [here]) ∧
      c'.regs .rsp = c.regs .rsp - 64 ∧ c'.regs .rdi = srcSp ∧ c'.regs .rsi = destSp ∧
      ∀ b, ¬ Within (c.regs .rsp - 64) 64 b → c'.mem b = c.mem b := by
  let called := ((c.set .rdi srcSp).set .rsi destSp).push here
  have bare : Cpu.Frame ((c.set .rdi srcSp).set .rsi destSp).mem (((c.set .rdi srcSp).set .rsi destSp).regs .rsp) [] :=
    trivial
  have single : Cpu.Frame called.mem (called.regs .rsp) [here] := bare.push (by decide) here
  have short : 8 * (keptRegisters.reverse.length + 1) ≤ 2 ^ 64 := by decide
  obtain ⟨frame, regs, outside⟩ := @Cpu.run_pushes keptRegisters.reverse (by decide) _ _ single short
  have bottom : called.regs .rsp - BitVec.ofNat 64 (8 * keptRegisters.reverse.length) = c.regs .rsp - 64 := by
    change c.regs .rsp - 8 - 56 = _
    bv_omega
  have order : (keptRegisters.reverse.map called.regs).reverse = keptRegisters.map (c.set .rdi srcSp).regs := rfl
  rw [bottom, order] at frame
  rw [bottom] at regs outside
  subst ran
  refine ⟨frame, by rw [regs]; rfl, by rw [regs]; rfl, by rw [regs]; rfl, fun b apart => ?_⟩
  refine (outside b fun inside => apart ?_).trans (Cpu.push_outside fun inside => apart ?_)
  · exact Nat.lt_trans inside (by decide)
  · change Within (c.regs .rsp - 8) 8 b at inside
    unfold Within at inside ⊢
    bv_omega

/-- The second half: the registers come from the stack whose pointer `rsi` points to. -/
theorem restores {c : Cpu} {rsp returnAddress : Word} {kept : List Word} (length : kept.length = 7)
    (suspended : Suspended c.mem (c.regs .rsi) kept rsp returnAddress) {popped : Cpu}
    (ran : popped = (c.exec (.movqFrom .rsi .rsp)).run (keptRegisters.map .popq)) :
    keptRegisters.map (popped.exec .ret).regs = kept ∧ (popped.exec .ret).regs .rsp = rsp ∧
      (popped.exec .ret).rip = returnAddress ∧ (popped.exec .ret).mem = c.mem := by
  obtain ⟨loaded, load⟩ : ∃ loaded, loaded = c.exec (.movqFrom .rsi .rsp) := ⟨_, rfl⟩
  have bottom : loaded.regs .rsp = rsp - 64 := by rw [load, Cpu.movqFrom_regs_self, suspended.stored]
  have frame : Cpu.Frame loaded.mem (loaded.regs .rsp) (kept ++ [returnAddress]) := by
    rw [bottom, load, Cpu.movqFrom_mem]
    exact suspended.frame
  obtain ⟨regs, -, top, mem, last⟩ := @Cpu.run_pops keptRegisters (by decide) (by decide) _ _ _ length frame
  rw [← load] at ran
  rw [← ran] at regs top mem
  have size : BitVec.ofNat 64 (8 * keptRegisters.length) = 56 := rfl
  have others : ∀ r ∈ keptRegisters, (popped.exec .ret).regs r = popped.regs r := by
    intro r member
    refine Cpu.ret_regs_ne fun same => ?_
    rw [same] at member
    exact absurd member (by decide)
  refine ⟨?_, ?_, ?_, ?_⟩
  · rw [List.map_congr_left others, regs]
  · rw [Cpu.ret_rsp, top, bottom, size]
    bv_omega
  · rw [Cpu.ret_rip, mem, top]
    exact last.1
  · rw [Cpu.ret_mem, mem, load, Cpu.movqFrom_mem]

/-- A swap stores the context that calls it below its stack pointer, and takes the other one from where it was stored. -/
theorem swapContext_spec (c : Cpu) {srcSp destSp rsp returnAddress : Word} (here : Word) {kept : List Word}
    (length : kept.length = 7) (suspended : Suspended c.mem destSp kept rsp returnAddress)
    (own : Apart (c.regs .rsp - 64) 64 srcSp 8) (pointers : Apart destSp 8 srcSp 8)
    (pointerStack : Apart destSp 8 (c.regs .rsp - 64) 64) (stackPointer : Apart (rsp - 64) 64 srcSp 8)
    (bothStacks : Apart (rsp - 64) 64 (c.regs .rsp - 64) 64) :
    Suspended (swapContext c srcSp destSp here).mem srcSp (keptRegisters.map (c.set .rdi srcSp).regs)
        (c.regs .rsp) here ∧
      keptRegisters.map (swapContext c srcSp destSp here).regs = kept ∧
      (swapContext c srcSp destSp here).regs .rsp = rsp ∧ (swapContext c srcSp destSp here).rip = returnAddress ∧
      ∀ b, ¬ Within (c.regs .rsp - 64) 64 b → ¬ Within srcSp 8 b →
        (swapContext c srcSp destSp here).mem b = c.mem b := by
  obtain ⟨saved, ran⟩ : ∃ saved, saved = (((c.set .rdi srcSp).set .rsi destSp).push here).run
    (keptRegisters.reverse.map .pushq) := ⟨_, rfl⟩
  obtain ⟨frame, bottom, pointer, other, outside⟩ := saves c srcSp destSp here ran
  obtain ⟨stored, store⟩ : ∃ stored, stored = saved.exec (.movqTo .rsp .rdi) := ⟨_, rfl⟩
  have writes : stored.mem = Ram.store saved.mem srcSp (c.regs .rsp - 64) := by
    rw [store, Cpu.movqTo_mem, bottom, pointer]
  have same : ∀ b, ¬ Within (c.regs .rsp - 64) 64 b → ¬ Within srcSp 8 b → stored.mem b = c.mem b := by
    intro b stack slot
    rw [writes, store_outside slot, outside b stack]
  have there : Suspended stored.mem (stored.regs .rsi) kept rsp returnAddress := by
    rw [store, Cpu.movqTo_regs, other, ← store]
    exact suspended.congr length (fun b inside => (same b (pointerStack b inside) (pointers b inside)).symm)
      fun b inside => (same b (bothStacks b inside) (stackPointer b inside)).symm
  obtain ⟨popped, pops⟩ : ∃ popped, popped = (stored.exec (.movqFrom .rsi .rsp)).run (keptRegisters.map .popq) :=
    ⟨_, rfl⟩
  obtain ⟨regs, stack, rip, mem⟩ := restores length there pops
  have whole : swapContext c srcSp destSp here = popped.exec .ret := by
    rw [pops, store, ran]
    rfl
  rw [whole]
  refine ⟨⟨?_, ?_⟩, regs, stack, rip, fun b stack slot => ?_⟩
  · rw [mem, writes, load_store]
  · rw [mem, writes]
    exact frame.congr fun b inside => (store_outside (own b inside)).symm
  · rw [mem]
    exact same b stack slot

theorem makeContext_eq (mem : Bytes) (stack sp f1 arg : Word) :
    makeContext mem stack sp f1 arg =
      store (store (storeBytes (store mem sp (stack + 2097080)) (stack + 2097080) (List.replicate 56 0))
        (stack + 2097136) f1) (stack + 2097128) arg := by
  have below : stack + 2097136 - 8 = stack + 2097128 := by bv_omega
  rw [← below]
  rfl

theorem makeContext_outside {mem : Bytes} {stack sp f1 arg b : Word} (pointer : ¬ Within sp 8 b)
    (outside : ¬ Within stack stackSize b) : makeContext mem stack sp f1 arg b = mem b := by
  have far : ¬ (b - stack).toNat < 2097152 := outside
  rw [makeContext_eq, store_outside, store_outside, storeBytes_outside, store_outside pointer]
  · rw [List.length_replicate, Within]
    bv_omega
  · rw [Within]
    bv_omega
  · rw [Within]
    bv_omega

/-- A new context lies on its stack as one that called `ctx_swap` right before its function. -/
theorem makeContext_suspended (mem : Bytes) {stack sp : Word} (f1 arg : Word) (own : Apart sp 8 stack stackSize) :
    Suspended (makeContext mem stack sp f1 arg) sp [0, 0, 0, 0, 0, 0, arg] (stack + BitVec.ofNat 64 (stackSize - 8))
      f1 := by
  have bottom : stack + BitVec.ofNat 64 (stackSize - 8) - 64 = stack + 2097080 := by
    change stack + 2097144 - 64 = _
    bv_omega
  have pointer : ∀ b, Within sp 8 b → ¬ (b - stack).toNat < 2097152 := own
  rw [makeContext_eq]
  refine ⟨?_, ?_⟩
  · rw [bottom, load_store_apart, load_store_apart, @load_congr _ (store mem sp (stack + 2097080)), load_store]
    · intro b inside
      have far := pointer b inside
      refine storeBytes_outside ?_
      rw [List.length_replicate, Within]
      bv_omega
    · intro b inside
      have far := pointer b inside
      rw [Within]
      bv_omega
    · intro b inside
      have far := pointer b inside
      rw [Within]
      bv_omega
  · rw [bottom]
    refine @Cpu.Frame.append _ _ (List.replicate 6 0 ++ [arg]) _ (Cpu.Frame.append ?_ ⟨?_, trivial⟩) ⟨?_, trivial⟩
    · refine Cpu.Frame.zeros fun b inside => ?_
      unfold Within at inside
      rw [store_outside, store_outside]
      · have here : (b - (stack + 2097080)).toNat < (List.replicate 56 (0 : UInt8)).length := by
          rw [List.length_replicate]
          omega
        rw [storeBytes, List.getElem?_eq_getElem here, List.getElem_replicate, Option.getD_some]
      · rw [Within]
        bv_omega
      · rw [Within]
        bv_omega
    · have address : stack + 2097080 + BitVec.ofNat 64 (8 * (List.replicate 6 (0 : Word)).length) = stack + 2097128 := by
        change stack + 2097080 + 48 = _
        bv_omega
      rw [address, load_store]
    · have address : stack + 2097080 + BitVec.ofNat 64 (8 * (List.replicate 6 0 ++ [arg]).length) =
          stack + 2097136 := by
        change stack + 2097080 + 56 = _
        bv_omega
      rw [address, load_store_apart, load_store]
      intro b inside
      unfold Within at inside ⊢
      bv_omega

end CyberRT
