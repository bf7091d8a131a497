import CyberRT.Scheduler.ClassicContext

namespace CyberRT.Scheduler
open ClassicContext

def defaultGroupName : String := "default_grp"

structure ClassicTask where
  prio : Nat
  groupName : String

structure ChoreographyTask where
  prio : Nat
  processor : Option Int

/-- What a scheduler has read of its configuration. -/
inductive Policy
  | classic (crConfs : String → Option ClassicTask) (groups : List String)
  | choreography (crConfs : String → Option ChoreographyTask) (procNum : Nat)

/-- The fields of a coroutine by which a scheduler chooses its run queue. -/
structure Placement where
  groupName : String
  priority : Nat
  processorId : Int
  deriving DecidableEq

/-- The fields of a new coroutine. -/
def Placement.new : Placement :=
  ⟨"", 0, -1⟩

/-- `processor_id` as the unsigned number that is compared with `proc_num_`. -/
def Placement.pid (place : Placement) : Nat :=
  (place.processorId % 4294967296).toNat

/-- A priority that is too high becomes the highest. -/
def Placement.clamp (place : Placement) : Placement :=
  if place.priority ≥ maxPrio then { place with priority := maxPrio - 1 } else place

/-- The run queues of the groups and those of the choreography contexts. -/
inductive RunQueue
  | classic (groupName : String) (prio : Nat)
  | choreography (pid : Nat)
  deriving DecidableEq

/-- What `SchedulerChoreography::DispatchTask` assigns before it looks the coroutine up. -/
def Policy.assign : Policy → String → Placement → Placement
  | .classic .., _, place => place
  | .choreography crConfs _, name, place =>
    match crConfs name with
    | some task => { place with priority := task.prio, processorId := task.processor.getD place.processorId }
    | none => place

/-- What `DispatchTask` assigns to a coroutine that it has registered, and the run queue it chooses. A classic
scheduler whose configuration has no group has none to choose. -/
def Policy.place : Policy → String → Placement → Option (Placement × RunQueue)
  | .classic crConfs groups, name, place =>
    let assigned := match crConfs name with
      | some task => some { place with priority := task.prio, groupName := task.groupName }
      | none => groups.head?.map fun groupName => { place with groupName := groupName }
    assigned.map fun place => (place.clamp, .classic place.clamp.groupName place.clamp.priority)
  | .choreography _ procNum, _, place =>
    if place.pid < procNum then some (place, .choreography place.pid)
    else some ({ place.clamp with groupName := defaultGroupName }, .classic defaultGroupName place.clamp.priority)

/-- The run queue in which `ClassicContext::RemoveCRoutine` searches; `at` throws for a priority that is too high. -/
def Placement.classicQueue (place : Placement) : Option RunQueue :=
  if place.priority < maxPrio then some (.classic place.groupName place.priority) else none

/-- The run queue in which `RemoveCRoutine` searches, which has read the processor before. -/
def Policy.searched : Policy → Nat → Placement → Option RunQueue
  | .classic .., _, place => place.classicQueue
  | .choreography _ procNum, pid, place =>
    if pid < procNum then some (.choreography pid) else place.classicQueue

/-- The fields of a coroutine that has been dispatched under this name. -/
def Policy.Settled (policy : Policy) (name : String) (place : Placement) : Prop :=
  ∃ before q, policy.place name (policy.assign name before) = some (place, q)

/-- Dispatching a coroutine again assigns it a priority that no run queue has, although it is in one. -/
def Policy.Clobbers : Policy → String → Placement → Prop
  | .classic .., _, _ => False
  | .choreography crConfs procNum, name, place =>
    procNum ≤ place.pid ∧ ∃ task ∈ crConfs name, maxPrio ≤ task.prio

instance (policy : Policy) (name : String) (place : Placement) : Decidable (policy.Clobbers name place) :=
  match policy with
  | .classic .. => inferInstanceAs (Decidable False)
  | .choreography .. => inferInstanceAs (Decidable (_ ∧ _))

theorem Placement.clamp_lt (place : Placement) : place.clamp.priority < maxPrio := by
  unfold Placement.clamp
  split
  · exact Nat.sub_lt (by decide) Nat.one_pos
  · omega

@[simp] theorem Placement.clamp_groupName (place : Placement) : place.clamp.groupName = place.groupName := by
  unfold Placement.clamp
  split <;> rfl

@[simp] theorem Placement.clamp_processorId (place : Placement) : place.clamp.processorId = place.processorId := by
  unfold Placement.clamp
  split <;> rfl

theorem Placement.clamp_of_lt {place : Placement} (low : place.priority < maxPrio) : place.clamp = place := by
  unfold Placement.clamp
  rw [if_neg (by omega)]

/-- A coroutine is searched in the run queue that has been chosen for it. -/
theorem Policy.place_searched {policy : Policy} {name : String} {place place' : Placement} {q : RunQueue}
    (placed : policy.place name place = some (place', q)) : policy.searched place'.pid place' = some q := by
  cases policy with
  | classic crConfs groups =>
    simp only [Policy.place, Option.map_eq_some_iff] at placed
    obtain ⟨assigned, -, same⟩ := placed
    cases same
    rw [Policy.searched, Placement.classicQueue, if_pos assigned.clamp_lt]
  | choreography crConfs procNum =>
    simp only [Policy.place] at placed
    split at placed
    · rename_i low
      cases placed
      rw [Policy.searched, if_pos low]
    · rename_i pool
      cases placed
      have pid : ({ place.clamp with groupName := defaultGroupName } : Placement).pid = place.pid := by
        simp [Placement.pid]
      rw [Policy.searched, pid, if_neg pool, Placement.classicQueue, if_pos place.clamp_lt]

/-- Dispatching a coroutine again changes nothing, unless it is clobbered. -/
theorem Policy.Settled.assign {policy : Policy} {name : String} {place : Placement}
    (settled : policy.Settled name place) (kept : ¬ policy.Clobbers name place) : policy.assign name place = place := by
  cases policy with
  | classic crConfs groups => rfl
  | choreography crConfs procNum =>
    obtain ⟨before, q, placed⟩ := settled
    cases conf : crConfs name with
    | none => simp only [Policy.assign, conf]
    | some task =>
      simp only [Policy.assign, conf, Policy.place] at placed ⊢
      split at placed
      · cases placed
        cases processor : task.processor <;> simp
      · rename_i pool
        obtain ⟨rfl, -⟩ := Prod.mk.inj (Option.some.inj placed)
        have low : task.prio < maxPrio := by
          by_contra high
          refine kept ⟨?_, task, conf, Nat.le_of_not_lt high⟩
          simpa [Placement.pid] using pool
        rw [Placement.clamp_of_lt low]
        cases processor : task.processor <;> simp

end CyberRT.Scheduler
