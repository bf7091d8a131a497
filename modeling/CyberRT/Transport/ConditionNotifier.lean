import Mathlib.Data.List.Forall2
import CyberRT.Lib.Machine

namespace CyberRT
open Concur
universe u v

/-- The `Indicator` in shared memory: the counter of the notifications, and a ring of infos each with its number. -/
structure Indicator (ι : Type u) where
  nextSeq : Nat
  infos : Nat → ι
  seqs : Nat → Nat

/-- The `ConditionNotifier` of one process. -/
structure ConditionNotifier where
  nextSeq : Nat
  isShutdown : Bool
  deriving DecidableEq

namespace ConditionNotifier

def kBufLength : Nat := 4096

end ConditionNotifier

namespace Indicator
open ConditionNotifier
variable {ι : Type u}

/-- A freshly created indicator, given what an info holds that was never written. -/
def init (unwritten : ι) : Indicator ι := ⟨0, fun _ => unwritten, fun _ => 0⟩

def fetchAddNextSeq (r : Indicator ι) : Indicator ι :=
  { r with nextSeq := (r.nextSeq + 1) % 2 ^ 64 }

def writeInfo (r : Indicator ι) (idx : Nat) (info : ι) : Indicator ι :=
  { r with infos := Function.update r.infos idx info }

def writeSeq (r : Indicator ι) (idx seq : Nat) : Indicator ι :=
  { r with seqs := Function.update r.seqs idx seq }

end Indicator

namespace ConditionNotifier
variable {ι : Type u}

/-- `Notify` as one step. -/
def notify (n : ConditionNotifier) (r : Indicator ι) (info : ι) : Bool × Indicator ι :=
  if n.isShutdown then (false, r)
  else
    let seq := r.nextSeq
    let idx := seq % kBufLength
    (true, (r.fetchAddNextSeq.writeInfo idx info).writeSeq idx seq)

/-- A round of the loop of `Listen` as one step: the number and the info with which it returns, if it does. -/
def listen (n : ConditionNotifier) (r : Indicator ι) : Option (Nat × ι) × ConditionNotifier :=
  if n.isShutdown then (none, n)
  else if r.nextSeq ≠ n.nextSeq then
    let idx := n.nextSeq % kBufLength
    let actualSeq := r.seqs idx
    if n.nextSeq ≤ actualSeq then (some (actualSeq, r.infos idx), { n with nextSeq := (actualSeq + 1) % 2 ^ 64 })
    else (none, n)
  else (none, n)

/-- The notifiers of the processes on one indicator. The histories are those of the infos notified, of how many these
were when a process attached, and of what its `Listen` returned. -/
structure State (σ : Type v) (ι : Type u) where
  indicator : Indicator ι
  notifiers : σ → Option ConditionNotifier
  notified : List ι
  attached : σ → Nat
  received : σ → List (Nat × ι)

/-- A process whose `Init` fails is shut down from the beginning and takes no part. -/
inductive Event (σ : Type v) (ι : Type u)
  | create (p : σ)
  | notify (p : σ) (info : ι)
  | listen (p : σ)
  | shutdown (p : σ)

section Machine
variable (σ : Type v) [DecidableEq σ] (unwritten : ι)

def machine : Machine (State σ ι) (Event σ ι) where
  init := ⟨.init unwritten, fun _ => none, [], fun _ => 0, fun _ => []⟩
  step s
    | .create p =>
      match s.notifiers p with
      | none =>
        some { s with
          notifiers := Function.update s.notifiers p (some ⟨s.indicator.nextSeq, false⟩)
          attached := Function.update s.attached p s.notified.length }
      | some _ => none
    | .notify p info =>
      (s.notifiers p).map fun n =>
        match n.notify s.indicator info with
        | (true, r) => { s with indicator := r, notified := s.notified ++ [info] }
        | (false, r) => { s with indicator := r }
    | .listen p =>
      (s.notifiers p).map fun n =>
        { s with
          notifiers := Function.update s.notifiers p (some (n.listen s.indicator).2)
          received := Function.update s.received p (s.received p ++ (n.listen s.indicator).1.toList) }
    | .shutdown p =>
      (s.notifiers p).map fun n =>
        { s with notifiers := Function.update s.notifiers p (some { n with isShutdown := true }) }

end Machine

variable {σ : Type v} {unwritten : ι}

/-- What the counters say of how far a listener is behind. -/
def behind (n : ConditionNotifier) (r : Indicator ι) : Nat :=
  (r.nextSeq + 2 ^ 64 - n.nextSeq) % 2 ^ 64

/-- The notifier of `p` is not more than the ring behind, if there is one. -/
def State.Prompt (p : σ) (s : State σ ι) : Prop :=
  ∀ n ∈ s.notifiers p, n.behind s.indicator ≤ kBufLength

instance (p : σ) (s : State σ ι) : Decidable (s.Prompt p) :=
  inferInstanceAs (Decidable (∀ n ∈ s.notifiers p, n.behind s.indicator ≤ kBufLength))

/-- What was returned is the info of notification `number`, under its number as the code has it. -/
def State.Notified (s : State σ ι) (number : Nat) (returned : Nat × ι) : Prop :=
  returned.1 = number % 2 ^ 64 ∧ s.notified[number]? = some returned.2

/-- The slots hold the latest notifications. -/
structure Ring (s : State σ ι) : Prop where
  nextSeq : s.indicator.nextSeq = s.notified.length % 2 ^ 64
  slot : ∀ idx, idx < kBufLength → idx < s.notified.length →
    ∃ number, number < s.notified.length ∧ s.notified.length ≤ number + kBufLength ∧ number % kBufLength = idx ∧
      s.indicator.seqs idx = number % 2 ^ 64 ∧ s.notified[number]? = some (s.indicator.infos idx)

/-- A listener that has returned the notifications `numbers` and goes on from `next`. -/
structure Follows (s : State σ ι) (p : σ) (n : ConditionNotifier) (numbers : List Nat) (next : Nat) : Prop where
  from_attached : s.attached p ≤ next
  to_notified : next ≤ s.notified.length
  nextSeq : n.nextSeq = next % 2 ^ 64
  increasing : numbers.Pairwise (· < ·)
  between : ∀ number ∈ numbers, s.attached p ≤ number ∧ number < next
  received : List.Forall₂ s.Notified numbers (s.received p)

section Listener
variable {s s' : State σ ι} {p : σ} {n n' : ConditionNotifier} {numbers : List Nat} {next : Nat}

/-- A listener keeps its place while others notify and listen. -/
theorem Follows.keep (follows : Follows s p n numbers next) (attached : s'.attached p = s.attached p)
    (received : s'.received p = s.received p) (grows : s.notified <+: s'.notified) (same : n'.nextSeq = n.nextSeq) :
    Follows s' p n' numbers next where
  from_attached := attached ▸ follows.from_attached
  to_notified := follows.to_notified.trans grows.length_le
  nextSeq := same.trans follows.nextSeq
  increasing := follows.increasing
  between := attached ▸ follows.between
  received := by
    rw [received]
    refine follows.received.imp fun number returned here => ⟨here.1, ?_⟩
    obtain ⟨more, rest⟩ := grows
    rw [← rest]
    exact List.getElem?_append_left (List.getElem?_eq_some_iff.mp here.2).1 ▸ here.2

/-- A round returns nothing and leaves the listener as it is, or it returns what is in the slot of the next number. -/
theorem listen_cases (n : ConditionNotifier) (r : Indicator ι) :
    n.listen r = (none, n) ∨
      r.nextSeq ≠ n.nextSeq ∧ n.listen r =
        (some (r.seqs (n.nextSeq % kBufLength), r.infos (n.nextSeq % kBufLength)),
          { n with nextSeq := (r.seqs (n.nextSeq % kBufLength) + 1) % 2 ^ 64 }) := by
  unfold listen
  split
  · exact .inl rfl
  split
  · rename_i different
    dsimp only
    split
    · exact .inr ⟨different, rfl⟩
    · exact .inl rfl
  · exact .inl rfl

theorem Follows.place (follows : Follows s p n numbers next) : n.nextSeq % kBufLength = next % kBufLength := by
  rw [follows.nextSeq]
  unfold kBufLength
  omega

/-- The slot of the next number of a listener holds a notification that is not an earlier one. -/
theorem Follows.slot (follows : Follows s p n numbers next) (ring : Ring s) (unread : next < s.notified.length) :
    ∃ number, next ≤ number ∧ number < s.notified.length ∧
      s.Notified number
        (s.indicator.seqs (n.nextSeq % kBufLength), s.indicator.infos (n.nextSeq % kBufLength)) ∧
      (s.notified.length ≤ next + kBufLength → number = next) := by
  obtain ⟨number, before, recent, slot, seq, info⟩ :=
    ring.slot (next % kBufLength) (Nat.mod_lt _ (by decide)) ((Nat.mod_le _ _).trans_lt unread)
  rw [follows.place]
  unfold kBufLength at recent slot ⊢
  exact ⟨number, by omega, before, ⟨seq, info⟩, by omega⟩

/-- A round of a prompt listener for which there is something returns it. -/
theorem listen_prompt (ring : Ring s) (follows : Follows s p n numbers next) (shut : n.isShutdown = false)
    (unread : next < s.notified.length) (prompt : s.notified.length ≤ next + kBufLength) :
    ∃ info, s.notified[next]? = some info ∧ (n.listen s.indicator).1 = some (next % 2 ^ 64, info) := by
  have different : s.indicator.nextSeq ≠ n.nextSeq := by
    rw [ring.nextSeq, follows.nextSeq]
    unfold kBufLength at prompt
    omega
  obtain ⟨number, _, _, ⟨seq, info⟩, own⟩ := follows.slot ring unread
  obtain rfl := own prompt
  dsimp only at seq info
  have written : n.nextSeq ≤ s.indicator.seqs (n.nextSeq % kBufLength) := by rw [seq, follows.nextSeq]
  refine ⟨_, info, ?_⟩
  simp only [listen, shut, Bool.false_eq_true, if_false, if_pos different, if_pos written]
  rw [seq]

/-- A listener that attaches goes on from the number of notifications. -/
theorem follows_attached (attached : s.attached p = s.notified.length)
    (received : s.received p = []) (nextSeq : n.nextSeq = s.notified.length % 2 ^ 64) :
    Follows s p n [] s.notified.length where
  from_attached := attached.le
  to_notified := le_rfl
  nextSeq := nextSeq
  increasing := .nil
  between := by simp
  received := by rw [received]; exact .nil

/-- Close to the end, the counters say how far behind a listener is. -/
theorem behind_eq (ring : Ring s) (follows : Follows s p n numbers next)
    (near : s.notified.length ≤ next + kBufLength + 1) :
    next + n.behind s.indicator = s.notified.length := by
  have bound := follows.to_notified
  unfold behind
  rw [ring.nextSeq, follows.nextSeq]
  unfold kBufLength at near
  omega

end Listener

section Steps
variable [DecidableEq σ] {s s' : State σ ι} {e : Event σ ι} {p : σ}

/-- What a step can do: a process attaches, an info is notified, a listener takes a round, a process is shut down, or
a process that is shut down calls `Notify` in vain. -/
inductive Moves (s : State σ ι) : State σ ι → Prop
  | attaches (p : σ) : s.notifiers p = none → Moves s
      { s with
        notifiers := Function.update s.notifiers p (some ⟨s.indicator.nextSeq, false⟩)
        attached := Function.update s.attached p s.notified.length }
  | notifies (info : ι) : Moves s
      { s with
        indicator := (s.indicator.fetchAddNextSeq.writeInfo (s.indicator.nextSeq % kBufLength) info).writeSeq
          (s.indicator.nextSeq % kBufLength) s.indicator.nextSeq
        notified := s.notified ++ [info] }
  | listens (p : σ) (n : ConditionNotifier) : s.notifiers p = some n → Moves s
      { s with
        notifiers := Function.update s.notifiers p (some (n.listen s.indicator).2)
        received := Function.update s.received p (s.received p ++ (n.listen s.indicator).1.toList) }
  | shuts (p : σ) (n : ConditionNotifier) : s.notifiers p = some n → Moves s
      { s with notifiers := Function.update s.notifiers p (some { n with isShutdown := true }) }
  | refused : Moves s s

theorem step_moves (step : (machine σ unwritten).step s e = some s') : Moves s s' := by
  cases e with
  | create p =>
    simp only [machine] at step
    split at step
    · rename_i absent
      cases step
      exact .attaches p absent
    · cases step
  | notify p info =>
    obtain ⟨n, -, rfl⟩ := Option.map_eq_some_iff.mp step
    unfold notify
    split
    · rename_i shut
      split at shut
      · cases shut
      · cases shut
        exact .notifies info
    · rename_i shut
      split at shut
      · cases shut
        exact .refused
      · cases shut
  | listen p =>
    obtain ⟨n, here, rfl⟩ := Option.map_eq_some_iff.mp step
    exact .listens p n here
  | shutdown p =>
    obtain ⟨n, here, rfl⟩ := Option.map_eq_some_iff.mp step
    exact .shuts p n here

theorem ring_init : Ring (machine σ unwritten).init := by
  refine ⟨rfl, fun idx _ before => ?_⟩
  cases before

/-- A notification takes the slot of the one that is a whole ring older. -/
theorem ring_step (ring : Ring s) (moves : Moves s s') : Ring s' := by
  cases moves with
  | notifies info =>
    have seq := ring.nextSeq
    have place : s.indicator.nextSeq % kBufLength = s.notified.length % kBufLength := by
      rw [seq]
      unfold kBufLength
      omega
    refine ⟨?_, fun idx inside before => ?_⟩
    · simp only [Indicator.writeSeq, Indicator.writeInfo, Indicator.fetchAddNextSeq, List.length_append,
        List.length_singleton, seq]
      omega
    · simp only [Indicator.writeSeq, Indicator.writeInfo, Indicator.fetchAddNextSeq, List.length_append,
        List.length_singleton, place] at before ⊢
      by_cases here : idx = s.notified.length % kBufLength
      · subst here
        refine ⟨s.notified.length, by omega, by omega, rfl, ?_, ?_⟩
        · rw [Function.update_self, seq]
        · rw [Function.update_self, List.getElem?_concat_length]
      · have earlier : idx < s.notified.length := by
          refine lt_of_le_of_ne (by omega) fun equal => here ?_
          rw [← equal, Nat.mod_eq_of_lt inside]
        obtain ⟨number, least, recent, slot, atSeq, atInfo⟩ := ring.slot idx inside earlier
        rw [Function.update_of_ne here, Function.update_of_ne here]
        refine ⟨number, by omega, ?_, slot, atSeq, ?_⟩
        · unfold kBufLength at recent slot here ⊢
          omega
        · rw [List.getElem?_append_left least, atInfo]
  | attaches _ _ => exact ⟨ring.nextSeq, ring.slot⟩
  | listens _ _ _ => exact ⟨ring.nextSeq, ring.slot⟩
  | shuts _ _ _ => exact ⟨ring.nextSeq, ring.slot⟩
  | refused => exact ring

/-- A step for a listener: it attaches, it keeps its place, or it goes on past a notification it has not returned. -/
theorem follows_step (ring : Ring s) (moves : Moves s s') {n' : ConditionNotifier} (after : s'.notifiers p = some n') :
    (s.notifiers p = none ∧ s'.attached p = s'.notified.length ∧ s'.received p = s.received p ∧
      n'.nextSeq = s'.notified.length % 2 ^ 64) ∨
    ∃ n, s.notifiers p = some n ∧ s'.attached p = s.attached p ∧ ∀ numbers next, Follows s p n numbers next →
      (Follows s' p n' numbers next ∧ s'.received p = s.received p ∧ s'.notified.length ≤ s.notified.length + 1) ∨
      ∃ number, next ≤ number ∧ Follows s' p n' (numbers ++ [number]) (number + 1) ∧
        s'.notified.length = s.notified.length ∧ (s.received p).length + 1 = (s'.received p).length ∧
        (s.notified.length ≤ next + kBufLength → number = next) := by
  cases moves with
  | attaches q absent =>
    by_cases same : p = q
    · subst same
      simp only [Function.update_self, Option.some.injEq] at after
      subst after
      exact .inl ⟨absent, Function.update_self .., rfl, ring.nextSeq⟩
    · simp only [Function.update_of_ne same] at after
      refine .inr ⟨n', after, Function.update_of_ne same .., fun numbers next follows => .inl ⟨?_, rfl, by simp⟩⟩
      exact follows.keep (Function.update_of_ne same ..) rfl List.prefix_rfl rfl
  | notifies info =>
    refine .inr ⟨n', after, rfl, fun numbers next follows => .inl ⟨?_, rfl, by simp⟩⟩
    exact follows.keep rfl rfl (List.prefix_append ..) rfl
  | listens q n here =>
    by_cases same : p = q
    · subst same
      simp only [Function.update_self, Option.some.injEq] at after
      subst after
      refine .inr ⟨n, here, rfl, fun numbers next follows => ?_⟩
      rcases listen_cases n s.indicator with nothing | ⟨different, returns⟩
      · refine .inl ⟨?_, ?_, by simp⟩
        · exact follows.keep rfl (by simp [nothing]) List.prefix_rfl (by rw [nothing])
        · simp [nothing]
      · have unread : next < s.notified.length := by
          refine lt_of_le_of_ne follows.to_notified fun equal => different ?_
          rw [ring.nextSeq, follows.nextSeq, equal]
        obtain ⟨number, later, before, found, own⟩ := follows.slot ring unread
        refine .inr ⟨number, later, ?_, rfl, by simp [returns], own⟩
        have attached := follows.from_attached
        refine ⟨by dsimp only; omega, by dsimp only; omega, ?_, ?_, ?_, ?_⟩
        · have seq : s.indicator.seqs (n.nextSeq % kBufLength) = number % 2 ^ 64 := found.1
          simp only [returns, seq]
          omega
        · refine List.pairwise_append.mpr ⟨follows.increasing, List.pairwise_singleton _ _, fun x old y new => ?_⟩
          obtain rfl := List.mem_singleton.mp new
          have := (follows.between x old).2
          omega
        · intro x member
          rcases List.mem_append.mp member with old | new
          · have := follows.between x old
            dsimp only
            omega
          · obtain rfl := List.mem_singleton.mp new
            dsimp only
            omega
        · simp only [returns, Function.update_self, Option.toList_some]
          exact List.rel_append follows.received (.cons found .nil)
    · simp only [Function.update_of_ne same] at after
      refine .inr ⟨n', after, rfl, fun numbers next follows => .inl ⟨?_, Function.update_of_ne same .., by simp⟩⟩
      exact follows.keep rfl (Function.update_of_ne same ..) List.prefix_rfl rfl
  | shuts q n here =>
    by_cases same : p = q
    · subst same
      simp only [Function.update_self, Option.some.injEq] at after
      subst after
      refine .inr ⟨n, here, rfl, fun numbers next follows => .inl ⟨?_, rfl, by simp⟩⟩
      exact follows.keep rfl rfl List.prefix_rfl rfl
    · simp only [Function.update_of_ne same] at after
      refine .inr ⟨n', after, rfl, fun numbers next follows => .inl ⟨?_, rfl, by simp⟩⟩
      exact follows.keep rfl rfl List.prefix_rfl rfl
  | refused =>
    refine .inr ⟨n', after, rfl, fun numbers next follows => .inl ⟨follows, rfl, by omega⟩⟩

/-- Nothing is received by a process that has not attached. -/
theorem received_step (moves : Moves s s') (none_ : ∀ p, s.notifiers p = none → s.received p = []) (p : σ)
    (absent : s'.notifiers p = none) : s'.received p = [] := by
  cases moves with
  | attaches q _ =>
    refine none_ p ?_
    by_cases same : p = q
    · simp [same] at absent
    · simpa [same] using absent
  | notifies info => exact none_ p absent
  | listens q n here =>
    by_cases same : p = q
    · simp [same] at absent
    · simp only [Function.update_of_ne same] at absent ⊢
      exact none_ p absent
  | shuts q n here =>
    refine none_ p ?_
    by_cases same : p = q
    · simp [same] at absent
    · simpa [same] using absent
  | refused => exact none_ p absent

/-- What holds in every run. -/
structure Inv (s : State σ ι) : Prop where
  ring : Ring s
  absent : ∀ p, s.notifiers p = none → s.received p = []
  follows : ∀ p n, s.notifiers p = some n → ∃ numbers next, Follows s p n numbers next

theorem inv_reach (reach : (machine σ unwritten).Reach s) : Inv s := by
  refine Machine.Reach.invariant (P := Inv) ⟨ring_init, fun _ _ => rfl, by simp [machine]⟩ ?_ reach
  intro s e s' inv step
  have moves := step_moves step
  refine ⟨ring_step inv.ring moves, received_step moves inv.absent, fun p n' after => ?_⟩
  rcases follows_step inv.ring moves after with ⟨absent, attached, received, nextSeq⟩ | ⟨n, before, _, onward⟩
  · exact ⟨[], _, follows_attached attached (received.trans (inv.absent p absent)) nextSeq⟩
  · obtain ⟨numbers, next, follows⟩ := inv.follows p n before
    rcases onward numbers next follows with ⟨kept, _⟩ | ⟨number, _, further, _⟩
    · exact ⟨numbers, next, kept⟩
    · exact ⟨numbers ++ [number], number + 1, further⟩

/-- A listener that was always prompt has returned what was notified since it attached, one after the other. -/
structure Consecutive (s : State σ ι) (p : σ) (n : ConditionNotifier) : Prop where
  follows : Follows s p n (List.range' (s.attached p) (s.received p).length) (s.attached p + (s.received p).length)
  near : s.notified.length ≤ s.attached p + (s.received p).length + kBufLength + 1

theorem consecutive_reach (reach : (machine σ unwritten).ReachWhen (fun s _ => s.Prompt p) s)
    {n : ConditionNotifier} (here : s.notifiers p = some n) : Consecutive s p n := by
  refine reach.invariant_of_reach (P := fun s => ∀ n, s.notifiers p = some n → Consecutive s p n)
    (by simp [machine]) ?_ n here
  intro s e s' reached before prompt step n' after
  have inv := inv_reach reached
  have moves := step_moves step
  rcases follows_step inv.ring moves after with ⟨absent, attached, received, nextSeq⟩ | ⟨n, there, attached, onward⟩
  · have empty := received.trans (inv.absent p absent)
    have follows := follows_attached attached empty nextSeq
    refine ⟨?_, by omega⟩
    rw [attached, empty]
    exact follows
  · obtain ⟨follows, near⟩ := before n there
    have exact_ := behind_eq inv.ring follows near
    have close := prompt n there
    rcases onward _ _ follows with ⟨kept, received, grows⟩ | ⟨number, _, further, length, received, own⟩
    · refine ⟨?_, by rw [attached, received]; omega⟩
      rw [attached, received]
      exact kept
    · obtain rfl := own (by omega)
      refine ⟨?_, by rw [attached]; omega⟩
      rw [attached, ← received, List.range'_1_concat]
      exact further

/-- Whatever a listener returns was notified after it attached, under the number it was notified with, in increasing
order. A listener that was never more than the ring behind has returned everything but what it is behind, and its next
round returns the next notification. -/
theorem listen_in_order (reach : (machine σ unwritten).Reach s) {n : ConditionNotifier}
    (here : s.notifiers p = some n) :
    (∃ numbers : List Nat, numbers.Pairwise (· < ·) ∧ (∀ number ∈ numbers, s.attached p ≤ number) ∧
      List.Forall₂ s.Notified numbers (s.received p)) ∧
    ((machine σ unwritten).ReachWhen (fun s _ => s.Prompt p) s → s.Prompt p →
      List.Forall₂ s.Notified (List.range' (s.attached p) (s.received p).length) (s.received p) ∧
      s.attached p + (s.received p).length + n.behind s.indicator = s.notified.length ∧
      (n.isShutdown = false → n.behind s.indicator ≠ 0 →
        ∃ s' returned, (machine σ unwritten).step s (.listen p) = some s' ∧
          s.Notified (s.attached p + (s.received p).length) returned ∧
          s'.received p = s.received p ++ [returned])) := by
  have inv := inv_reach reach
  refine ⟨?_, fun always prompt => ?_⟩
  · obtain ⟨numbers, next, follows⟩ := inv.follows p n here
    exact ⟨numbers, follows.increasing, fun number member => (follows.between number member).1, follows.received⟩
  · obtain ⟨follows, near⟩ := consecutive_reach always here
    have count := behind_eq inv.ring follows near
    have close := prompt n here
    refine ⟨follows.received, count, fun shut outstanding => ?_⟩
    obtain ⟨info, found, returns⟩ := listen_prompt inv.ring follows shut (by omega) (by omega)
    refine ⟨_, (_, info), by simp only [machine, here, Option.map_some]; rfl, ⟨rfl, found⟩, ?_⟩
    simp [returns]

/-- Process 0 attaches and notifies, process 1 attaches, and what is notified then is what it receives. -/
theorem listen_in_order_run :
    let es : List (Event (Fin 2) Nat) :=
      [.create 0, .notify 0 7, .create 1, .notify 0 8, .notify 1 9, .listen 1]
    let s := (machine (Fin 2) 0).stateAt es es.length
    s.received 1 = [(1, 8)] ∧
      List.Forall₂ s.Notified (List.range' (s.attached 1) (s.received 1).length) (s.received 1) := by
  intro es s
  have reach : (machine (Fin 2) 0).Reach s := Machine.stateAt_reach es (by decide)
  have always : (machine (Fin 2) 0).ReachWhen (fun s _ => s.Prompt 1) s :=
    Machine.stateAt_reachWhen es (by decide) (by decide)
  have here : s.notifiers 1 = some ⟨2, false⟩ := by decide
  exact ⟨by decide, ((listen_in_order reach here).2 always (by decide)).1⟩

end Steps

end ConditionNotifier

end CyberRT
