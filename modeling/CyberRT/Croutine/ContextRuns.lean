import CyberRT.Croutine.Contexts

namespace CyberRT.Contexts
open Ram X86 Concur
universe u v
variable {τ : Type u} {ρ : Type v} [DecidableEq τ] [DecidableEq ρ] {L : Layout τ ρ} {s s' : State τ ρ} {e : τ × Event ρ}

section Runs
variable {regs : τ → Register → Word} {rip : τ → Word} {mem : Bytes} {n : Nat} {state : Nat → State τ ρ}
  {event : Nat → τ × Event ρ}

theorem init_inv : Inv L (machine L regs rip mem).init where
  runs _ _ runs := by cases runs
  locked _ _ has := by cases has
  once _ _ _ has := by cases has
  made _ _ has := by cases has
  room c parked := by
    cases c with
    | main t => exact absurd rfl parked
    | routine r => cases parked.1

theorem reach_inv (run : (machine L regs rip mem).Run n state event)
    (allowed : ∀ k, k < n → (state k).Allowed L (event k)) {k : Nat} (bound : k ≤ n) : Inv L (state k) :=
  (run.reachWhen allowed bound).invariant init_inv fun _ _ _ inv allowed enabled => step_inv inv allowed enabled

/-- Until it is entered, a context that is suspended stays so, and its stack as it was. -/
theorem stays_suspended (run : (machine L regs rip mem).Run n state event)
    (allowed : ∀ k, k < n → (state k).Allowed L (event k)) {i j : Nat} (before : i < j) (bound : j < n)
    {c : Context τ ρ} (parked : (state (i + 1)).Parked c) {kept : List Word} (length : kept.length = 7)
    {rsp returnAddress : Word} (suspended : Suspended (state (i + 1)).mem (L.sp c) kept rsp returnAddress)
    (room : State.Room L c rsp) (away : ∀ k, i < k → k < j → ¬ Touches (state k) (event k) c) :
    Suspended (state j).mem (L.sp c) kept rsp returnAddress ∧
      ∀ x, Within (rsp - 64) (L.size c - (rsp - 64 - L.stack c).toNat) x →
        (state j).mem x = (state (i + 1)).mem x := by
  have stays : (state j).Parked c ∧ ∀ x, (state (i + 1)).Holds L c x → (state j).mem x = (state (i + 1)).mem x := by
    refine run.stays (P := fun s => s.Parked c ∧ ∀ x, (state (i + 1)).Holds L c x → s.mem x = (state (i + 1)).mem x)
      ⟨parked, fun _ _ => rfl⟩ before (Nat.le_of_lt bound) fun k first last now enabled => ?_
    have within : k < n := Nat.lt_trans last bound
    have inv := reach_inv run allowed (Nat.le_of_lt within)
    have keeps := step_keeps inv (allowed k within) enabled now.1 (away k first last)
    have pointer : load (state k).mem (L.sp c) = load (state (i + 1)).mem (L.sp c) :=
      load_congr fun x inside => now.2 x (.inl inside)
    refine ⟨keeps.1, fun x holds => (keeps.2 x ?_).trans (now.2 x holds)⟩
    rw [State.Holds, pointer]
    exact holds
  have pointer := suspended.stored
  simp only [State.Holds, pointer] at stays
  exact ⟨suspended.congr length (fun x inside => (stays.2 x (.inl inside)).symm)
    fun x inside => (stays.2 x (.inr (room.live_of_within inside))).symm, fun x inside => stays.2 x (.inr inside)⟩

/-- A context that was left goes on where it was: on the stack that it had, with the registers that a call preserves, at
the address to which its call of `SwapContext` returns. This holds of all interleavings of the threads, and whichever
thread enters it. -/
theorem resumes_where_left (run : (machine L regs rip mem).Run n state event)
    (allowed : ∀ k, k < n → (state k).Allowed L (event k)) {i j : Nat} (before : i < j) (bound : j < n)
    {c src dst : Context τ ρ} {t u : τ} {here here' : Word} (leaves : (state i).Switches (event i) t c dst here)
    (enters : (state j).Switches (event j) u src c here')
    (away : ∀ k, i < k → k < j → ¬ Touches (state k) (event k) c) :
    (∀ r ∈ [Register.rbx, .rbp, .r12, .r13, .r14, .r15, .rsp],
        ((state (j + 1)).thread u).regs r = ((state i).thread t).regs r) ∧
      ((state (j + 1)).thread u).rip = here ∧
      ∀ x, Within (((state i).thread t).regs .rsp) (L.size c - (((state i).thread t).regs .rsp - L.stack c).toNat) x →
        (state (j + 1)).mem x = (state i).mem x := by
  have first : i < n := Nat.lt_trans before bound
  have inv := reach_inv run allowed (Nat.le_of_lt first)
  have inv' := reach_inv run allowed (Nat.le_of_lt bound)
  have room := (allowed i first).2.2 t c dst here leaves
  obtain ⟨there, -, different⟩ := inv.enters leaves
  obtain ⟨-, -, different'⟩ := inv'.enters enters
  obtain ⟨kept, returnAddress, length, suspended⟩ := exists_suspended (state i).mem (L.sp dst)
  have left := step_swaps inv (allowed i first) (run.next i first) leaves length suspended
  have parked : (state (i + 1)).Parked c := by
    obtain ⟨s₁, thread, -, made, swapped⟩ := step_switch leaves (run.next i first)
    exact (inv.parked_swap leaves thread made swapped c).mpr (.inl rfl)
  obtain ⟨stored, stack⟩ := stays_suspended run allowed before bound parked (by rw [List.length_map]; rfl) left.1 room away
  have entered := step_swaps inv' (allowed j bound) (run.next j bound) enters (by rw [List.length_map]; rfl) stored
  have room' := (allowed j bound).2.2 u src c here' enters
  refine ⟨fun r member => ?_, entered.2.2.2.1, fun x inside => ?_⟩
  · by_cases top : r = .rsp
    · rw [top, entered.2.2.1]
    · have both : r ∈ keptRegisters ∧ r ≠ .rdi := by
        revert r
        decide
      rw [List.map_inj_left.mp entered.2.1 r both.1, Function.update_of_ne both.2]
  · obtain ⟨live, notPushed⟩ := room.above inside
    have mine := room.live_within live
    have apart := L.apart c src different'.symm
    rw [entered.2.2.2.2 x (fun pushed => apart.2.2 x mine (room'.within pushed)) (L.stack_not_sp c src x mine),
      stack x live, left.2.2.2.2 x notPushed (L.stack_not_sp c c x mine)]

/-- A coroutine that was made is entered at its function, with its argument and no trace of other contexts. -/
theorem starts_at_function (run : (machine L regs rip mem).Run n state event)
    (allowed : ∀ k, k < n → (state k).Allowed L (event k)) {i j : Nat} (before : i < j) (bound : j < n)
    {t u : τ} {r : ρ} {f1 arg here : Word} {now : Nat} {src : Context τ ρ} (makes : event i = (t, .make r f1 arg now))
    (enters : (state j).Switches (event j) u src (.routine r) here)
    (away : ∀ k, i < k → k < j → ¬ Touches (state k) (event k) (.routine r)) :
    ((state (j + 1)).thread u).rip = f1 ∧ ((state (j + 1)).thread u).regs .rdi = arg ∧
      ((state (j + 1)).thread u).regs .rsp = L.stack (.routine r) + BitVec.ofNat 64 (stackSize - 8) ∧
      ∀ reg ∈ [Register.rbx, .rbp, .r12, .r13, .r14, .r15], ((state (j + 1)).thread u).regs reg = 0 := by
  have first : i < n := Nat.lt_trans before bound
  have inv := reach_inv run allowed (Nat.le_of_lt first)
  have inv' := reach_inv run allowed (Nat.le_of_lt bound)
  have enabled := run.next i first
  have free := allowed i first
  rw [makes] at enabled free
  obtain ⟨stored, -⟩ := stays_suspended run allowed before bound (make_parked inv.toLocks free enabled) rfl
    (make_suspended (t := t) enabled) (State.Room.made r) away
  have entered := step_swaps inv' (allowed j bound) (run.next j bound) enters rfl stored
  obtain ⟨kept, rsp, rip, -⟩ := entered.2
  simp only [keptRegisters, List.map_cons, List.cons.injEq] at kept
  refine ⟨rip, kept.2.2.2.2.2.2.1, rsp, fun reg member => ?_⟩
  simp only [List.mem_cons, List.not_mem_nil, or_false] at member
  rcases member with rfl | rfl | rfl | rfl | rfl | rfl
  · exact kept.2.1
  · exact kept.1
  · exact kept.2.2.2.2.2.1
  · exact kept.2.2.2.2.1
  · exact kept.2.2.2.1
  · exact kept.2.2.1

theorem resume_finished {cr : CRoutine} (finished : cr.state = .finished) :
    cr.resume.1 = false ∧ cr.resume.2.state = .finished := by
  unfold CRoutine.resume
  split
  · exact ⟨rfl, rfl⟩
  · rw [if_pos (by rw [finished]; exact nofun)]
    exact ⟨rfl, finished⟩

theorem updateState_finished {cr : CRoutine} (finished : cr.state = .finished) (now : Nat) :
    (cr.updateState now).state = .finished := by
  have notAsleep : ¬ (cr.state = .sleep ∧ now > cr.wakeTime) := by
    rintro ⟨asleep, -⟩
    rw [finished] at asleep
    cases asleep
  unfold CRoutine.updateState
  rw [if_neg notAsleep]
  split
  · simp [CRoutine.Waiting, finished]
  · exact finished

omit [DecidableEq τ] in
theorem state_setRoutine {r r' : ρ} {routine : CRoutine} (finished : (s.routines r).state = .finished)
    (same : r' = r → routine.state = .finished) : ((s.setRoutine r' routine).routines r).state = .finished := by
  simp only [State.setRoutine]
  by_cases own : r = r'
  · rw [own, Function.update_self, same own.symm]
  · rw [Function.update_of_ne own, finished]

/-- No step but a new start takes a coroutine out of its last state. -/
theorem finished_stays {r : ρ} (finished : (s.routines r).state = .finished) (parked : s.Parked (.routine r))
    (notMade : ∀ t f1 arg now, e ≠ (t, .make r f1 arg now)) (enabled : step L s e = some s') :
    (s'.routines r).state = .finished := by
  obtain ⟨t, event⟩ := e
  cases event with
  | compute regs rip mem =>
    cases enabled
    exact finished
  | make r' f1 arg now =>
    cases enabled
    exact state_setRoutine finished fun same => absurd (same ▸ rfl) (notMade t f1 arg now)
  | acquire r' =>
    simp only [step, Option.ite_none_right_eq_some, Option.some.injEq] at enabled
    obtain ⟨-, rfl⟩ := enabled
    have state : ((s.setRoutine r' (s.routines r').acquire.2).routines r).state = .finished :=
      state_setRoutine finished fun same => by
        rw [same]
        exact finished
    split <;> exact state
  | release r' =>
    simp only [step, Option.ite_none_right_eq_some, Option.some.injEq] at enabled
    obtain ⟨-, rfl⟩ := enabled
    exact state_setRoutine finished fun same => by
      rw [same]
      exact finished
  | updateState r' now =>
    simp only [step, Option.ite_none_right_eq_some, Option.some.injEq] at enabled
    obtain ⟨-, rfl⟩ := enabled
    exact state_setRoutine finished fun same => updateState_finished (same ▸ finished) now
  | setUpdateFlag r' =>
    cases enabled
    exact state_setRoutine finished fun same => by
      rw [same]
      exact finished
  | stop r' =>
    cases enabled
    exact state_setRoutine finished fun same => by
      rw [same]
      exact finished
  | setState state =>
    simp only [step] at enabled
    split at enabled
    · rename_i r' running
      cases enabled
      exact state_setRoutine finished fun same => absurd (same ▸ running) (parked.2 t)
    · cases enabled
  | resume r' here =>
    simp only [step, Option.ite_none_right_eq_some, Option.some.injEq] at enabled
    obtain ⟨-, rfl⟩ := enabled
    have state : ((s.setRoutine r' (s.routines r').resume.2).routines r).state = .finished :=
      state_setRoutine finished fun same => by
        rw [same]
        exact (resume_finished finished).2
    split <;> exact state
  | yield state here =>
    simp only [step] at enabled
    split at enabled
    · rename_i r' running
      cases enabled
      exact state_setRoutine finished fun same => absurd (same ▸ running) (parked.2 t)
    · cases enabled

/-- A coroutine that has yielded as finished stays so and is not entered again, so its function never returns. -/
theorem finished_not_entered (run : (machine L regs rip mem).Run n state event)
    (allowed : ∀ k, k < n → (state k).Allowed L (event k)) {i j : Nat} (before : i < j) (bound : j ≤ n)
    {t : τ} {r : ρ} {here : Word} (running : ((state i).thread t).current = some r)
    (yields : event i = (t, .yield (some .finished) here))
    (notMade : ∀ k, i < k → k < j → ∀ v f1 arg now, event k ≠ (v, .make r f1 arg now)) :
    ((state j).routines r).state = .finished ∧
      ∀ u src here', ¬ (state j).Switches (event j) u src (.routine r) here' := by
  have first : i < n := Nat.lt_of_lt_of_le before bound
  have inv := reach_inv run allowed (Nat.le_of_lt first)
  have enabled := run.next i first
  have leaves : (state i).Switches (event i) t (.routine r) (.main t) here := yields ▸ .yield running
  have parked : (state (i + 1)).Parked (.routine r) := by
    obtain ⟨s₁, thread, -, made, swapped⟩ := step_switch leaves enabled
    exact (inv.parked_swap leaves thread made swapped _).mpr (.inl rfl)
  have finished : ((state (i + 1)).routines r).state = .finished := by
    rw [yields] at enabled
    simp only [machine, step, running, Option.some.injEq] at enabled
    rw [← enabled]
    rw [State.swap_routines]
    simp only [State.setRoutine, Function.update_self]
    rfl
  -- it is not entered, as `Resume` refuses to
  have refuses : ∀ {s : State τ ρ} {e v src here}, (s.routines r).state = .finished →
      ¬ s.Switches e v src (.routine r) here := by
    rintro s e v src here last (⟨-, -, ready⟩ | -)
    rw [(resume_finished last).1] at ready
    cases ready
  have stays : ((state j).routines r).state = .finished ∧ (state j).Parked (.routine r) := by
    refine run.stays (P := fun s => (s.routines r).state = .finished ∧ s.Parked (.routine r)) ⟨finished, parked⟩ before
      bound fun k after last now enabled => ?_
    have within : k < n := Nat.lt_of_lt_of_le last bound
    refine ⟨finished_stays now.1 now.2 (notMade k after last) enabled, ?_⟩
    refine (step_keeps (reach_inv run allowed (Nat.le_of_lt within)) (allowed k within) enabled now.2 ?_).1
    rintro (⟨v, src, here, enters⟩ | ⟨r', f1, arg, now', makes, same⟩)
    · exact refuses now.1 enters
    · cases same
      exact notMade k after last (event k).1 f1 arg now' (Prod.ext rfl makes)
  exact ⟨stays.1, fun _ _ _ => refuses stays.1⟩

end Runs

/-- The stack of a thread, and that of a coroutine above it. -/
def oneEach : Layout Unit Unit where
  sp
    | .main _ => 0x100
    | .routine _ => 0x200
  stack
    | .main _ => 0x1000
    | .routine _ => 0x100000
  size
    | .main _ => 0x8000
    | .routine _ => stackSize
  routine_size _ := rfl
  size_lt
    | .main _ => show 0x8000 < 2 ^ 64 by decide
    | .routine _ => show stackSize < 2 ^ 64 by decide
  apart
    | .main _, .main _, different => absurd rfl different
    | .routine _, .routine _, different => absurd rfl different
    | .main _, .routine _, _ => by
      simp only [Apart, Within, stackSize]
      refine ⟨fun x => ?_, fun x => ?_, fun x => ?_⟩ <;> bv_omega
    | .routine _, .main _, _ => by
      simp only [Apart, Within, stackSize]
      refine ⟨fun x => ?_, fun x => ?_, fun x => ?_⟩ <;> bv_omega
  own
    | .main _ => by
      simp only [Apart, Within]
      intro x
      bv_omega
    | .routine _ => by
      simp only [Apart, Within, stackSize]
      intro x
      bv_omega

def oneEachEvents : List (Unit × Event Unit) :=
  [((), .make () 0x400 0x500 0), ((), .acquire ()), ((), .resume () 0x40), ((), .yield (some .finished) 0x440),
    ((), .resume () 0x40)]

def oneEachMachine : Machine (State Unit Unit) (Unit × Event Unit) :=
  machine oneEach (fun _ _ => 0x7000) (fun _ => 0) fun _ => 0

theorem oneEach_enabled : (oneEachMachine.exec oneEachMachine.init oneEachEvents).isSome = true := by
  decide +kernel

theorem oneEach_run : oneEachMachine.Run 5 (oneEachMachine.stateAt oneEachEvents)
    fun i => oneEachEvents.getD i ((), .stop ()) :=
  Machine.exec_run oneEachEvents oneEach_enabled _

theorem oneEach_allowed (k : Nat) (bound : k < 5) : (oneEachMachine.stateAt oneEachEvents k).Allowed oneEach
    (oneEachEvents.getD k ((), .stop ())) := by
  match k, bound with
  | 0, _ =>
    refine ⟨nofun, fun _ _ _ _ _ _ => rfl, fun t src dst here switches => ?_⟩
    have event : State.Switches _ ((), .make () 0x400 0x500 0) t src dst here := switches
    cases event
  | 1, _ =>
    refine ⟨nofun, nofun, fun t src dst here switches => ?_⟩
    have event : State.Switches _ ((), .acquire ()) t src dst here := switches
    cases event
  | 2, _ =>
    refine ⟨nofun, nofun, fun t src dst here switches => ?_⟩
    have event : State.Switches _ ((), .resume () 0x40) t src dst here := switches
    cases event
    decide +kernel
  | 3, _ =>
    refine ⟨nofun, nofun, fun t src dst here switches => ?_⟩
    have event : State.Switches _ ((), .yield (some .finished) 0x440) t src dst here := switches
    cases event
    change State.Room oneEach (.routine ()) _
    decide +kernel
  | 4, _ =>
    refine ⟨nofun, nofun, fun t src dst here switches => ?_⟩
    have event : State.Switches _ ((), .resume () 0x40) t src dst here := switches
    cases event
    decide +kernel

theorem resumes_where_left_main :
    (∀ r ∈ [Register.rbx, .rbp, .r12, .r13, .r14, .r15, .rsp],
        ((oneEachMachine.stateAt oneEachEvents 4).thread ()).regs r =
          ((oneEachMachine.stateAt oneEachEvents 2).thread ()).regs r) ∧
      ((oneEachMachine.stateAt oneEachEvents 4).thread ()).rip = 0x40 ∧
      ∀ x, Within (((oneEachMachine.stateAt oneEachEvents 2).thread ()).regs .rsp) (0x8000 -
          (((oneEachMachine.stateAt oneEachEvents 2).thread ()).regs .rsp - 0x1000).toNat) x →
        (oneEachMachine.stateAt oneEachEvents 4).mem x = (oneEachMachine.stateAt oneEachEvents 2).mem x :=
  resumes_where_left (i := 2) (j := 3) oneEach_run oneEach_allowed (by decide) (by decide) (c := .main ())
    (.resume (by decide +kernel) (by decide +kernel) (by decide +kernel)) (.yield (r := ()) (by decide +kernel))
    fun k after before => absurd before (by omega)

theorem oneEach_acquires (k : Nat) (after : 0 < k) (before : k < 2) :
    ¬ Touches (oneEachMachine.stateAt oneEachEvents k) (oneEachEvents.getD k ((), .stop ())) (.routine ()) := by
  obtain rfl : k = 1 := by omega
  rintro (⟨t, src, here, switches⟩ | ⟨r, f1, arg, now, makes, -⟩)
  · have event : State.Switches _ ((), .acquire ()) t src (.routine ()) here := switches
    cases event
  · cases makes

theorem starts_at_function_once :
    ((oneEachMachine.stateAt oneEachEvents 3).thread ()).rip = 0x400 ∧
      ((oneEachMachine.stateAt oneEachEvents 3).thread ()).regs .rdi = 0x500 ∧
      ((oneEachMachine.stateAt oneEachEvents 3).thread ()).regs .rsp = 0x100000 + BitVec.ofNat 64 (stackSize - 8) ∧
      ∀ reg ∈ [Register.rbx, .rbp, .r12, .r13, .r14, .r15],
        ((oneEachMachine.stateAt oneEachEvents 3).thread ()).regs reg = 0 :=
  starts_at_function (i := 0) (j := 2) oneEach_run oneEach_allowed (by decide) (by decide) rfl
    (.resume (by decide +kernel) (by decide +kernel) (by decide +kernel))
    oneEach_acquires

theorem finished_not_entered_resume :
    ((oneEachMachine.stateAt oneEachEvents 4).routines ()).state = .finished ∧
      ¬ (oneEachMachine.stateAt oneEachEvents 4).Switches ((), .resume () 0x40) () (.main ()) (.routine ()) 0x40 := by
  have kept := finished_not_entered (i := 3) (j := 4) (r := ()) oneEach_run oneEach_allowed (by decide) (by decide)
    (by decide +kernel) rfl fun k after before => absurd before (by omega)
  exact ⟨kept.1, kept.2 () (.main ()) 0x40⟩

end CyberRT.Contexts
