import CyberRT.Service.Matching

namespace CyberRT.Rpc
open Concur
variable {κ ι γ O ω : Type} {Req Res : γ → Type}

/-- What the callbacks of several services do to an object that they share, each while it holds the mutex of the object,
and what their process does to it besides. -/
structure SharedObject (γ O ω : Type) (Req Res : γ → Type) where
  answers (j : γ) (object : O) (request : Req j) (response : Res j) : Prop
  after (j : γ) (object : O) (request : Req j) : O
  perform (object : O) (op : ω) : O

/-- The object, and for each service its one server with all its clients. -/
structure SharedState (κ ι O : Type) (Req Res : γ → Type) where
  object : O
  rpc (j : γ) : State κ Unit ι (Req j) (Res j)

inductive SharedEvent (κ ω : Type) (Req Res : γ → Type)
  | rpc (j : γ) (e : Event κ Unit (Req j) (Res j))
  | perform (op : ω)

/-- The request whose callback an event runs, and its response. -/
def State.handles {Req Res : Type} (s : State κ Unit ι Req Res) : Event κ Unit Req Res → Option (Message κ ι Req × Res)
  | .handleRequest p response =>
    match (s.service p).handling with
    | .handleRequest request => some (request, response)
    | _ => none
  | _ => none

variable [DecidableEq κ] [DecidableEq ι] [DecidableEq γ] (obj : SharedObject γ O ω Req Res)
  [∀ j object request response, Decidable (obj.answers j object request response)] (setup : γ → Setup κ Unit ι)

def SharedObject.step (s : SharedState κ ι O Req Res) : SharedEvent κ ω Req Res → Option (SharedState κ ι O Req Res)
  | .rpc j e =>
    match (s.rpc j).handles e with
    | none => ((machine (Req j) (Res j) (setup j)).step (s.rpc j) e).map fun after =>
      { s with rpc := Function.update s.rpc j after }
    | some (request, response) =>
      if obj.answers j s.object request.payload response then
        ((machine (Req j) (Res j) (setup j)).step (s.rpc j) e).map fun after =>
          { object := obj.after j s.object request.payload, rpc := Function.update s.rpc j after }
      else none
  | .perform op => some { s with object := obj.perform s.object op }

def SharedObject.machine (object : O) : Machine (SharedState κ ι O Req Res) (SharedEvent κ ω Req Res) where
  init := ⟨object, fun _ => .create⟩
  step := obj.step setup

variable {obj setup} {s s' : SharedState κ ι O Req Res}

theorem SharedObject.step_rpc {j : γ} {e : Event κ Unit (Req j) (Res j)} (enabled : obj.step setup s (.rpc j e) = some s') :
    ∃ after, (Rpc.machine (Req j) (Res j) (setup j)).step (s.rpc j) e = some after ∧
      s'.rpc = Function.update s.rpc j after ∧
      match (s.rpc j).handles e with
      | none => s'.object = s.object
      | some (request, response) => obj.answers j s.object request.payload response ∧
        s'.object = obj.after j s.object request.payload := by
  simp only [SharedObject.step] at enabled
  split at enabled
  · obtain ⟨after, step, rfl⟩ := Option.map_eq_some_iff.mp enabled
    exact ⟨after, step, rfl, rfl⟩
  · split at enabled
    · rename_i answers
      obtain ⟨after, step, rfl⟩ := Option.map_eq_some_iff.mp enabled
      exact ⟨after, step, rfl, answers, rfl⟩
    · cases enabled

/-- One service sees of a step a step of its own, or nothing. -/
theorem SharedObject.step_project {e : SharedEvent κ ω Req Res} (enabled : obj.step setup s e = some s') (j : γ) :
    s'.rpc j = s.rpc j ∨
      ∃ own, e = .rpc j own ∧ (Rpc.machine (Req j) (Res j) (setup j)).step (s.rpc j) own = some (s'.rpc j) := by
  cases e with
  | perform op =>
    cases enabled
    exact .inl rfl
  | rpc i own =>
    obtain ⟨after, step, rpc, -⟩ := SharedObject.step_rpc enabled
    by_cases same : j = i
    · subst same
      rw [rpc, Function.update_self]
      exact .inr ⟨own, rfl, step⟩
    · rw [rpc, Function.update_of_ne same]
      exact .inl rfl

theorem SharedObject.reach_rpc {object : O} (reach : (obj.machine setup object).Reach s) (j : γ) :
    (Rpc.machine (Req j) (Res j) (setup j)).Reach (s.rpc j) := by
  refine Machine.Reach.invariant (M := obj.machine setup object)
    (P := fun s => (Rpc.machine (Req j) (Res j) (setup j)).Reach (s.rpc j)) Machine.ReachWhen.start
    (fun s e s' reach enabled => ?_) reach
  rcases SharedObject.step_project enabled j with same | ⟨own, -, step⟩
  · rwa [same]
  · exact .next reach trivial step

section Rpc
variable {Req Res : Type} {setup : Setup κ Unit ι} {s s' : State κ Unit ι Req Res} {e : Event κ Unit Req Res}

/-- Only a callback adds to what was computed. -/
theorem step_computed (step : (machine Req Res setup).step s e = some s') :
    s'.computed = s.computed ∨ ∃ p request response, e = .handleRequest p response ∧
      (s.service p).handling = .handleRequest request ∧
      s'.computed = s.computed ++ [⟨p, request.call, request.payload, response⟩] := by
  cases e with
  | handleRequest p response =>
    obtain ⟨⟨m, after⟩, handled, rfl⟩ := Option.map_eq_some_iff.mp step
    unfold Service.handleRequest at handled
    split at handled
    · rename_i request _ at'
      cases handled
      exact .inr ⟨p, _, response, rfl, at', rfl⟩
    · cases handled
  | handleResponse c i =>
    obtain ⟨m, sent, rest⟩ := Option.bind_eq_some_iff.mp step
    obtain ⟨after, handled, done⟩ := Option.bind_eq_some_iff.mp rest
    cases done
    exact .inl rfl
  | initClient | initService | stop | clear =>
    cases step
    exact .inl rfl
  | asyncSendRequest | transmit | store | setValue | callback | enqueue | pop | sendResponse =>
    obtain ⟨after, -, rfl⟩ := Option.map_eq_some_iff.mp step
    exact .inl rfl

/-- The calls of a client and the values that its futures have got stay. -/
theorem step_histories (step : (machine Req Res setup).step s e = some s') (c : κ) :
    (s.client c).calls <+: (s'.client c).calls ∧ (s.client c).fulfilled <+: (s'.client c).fulfilled := by
  have same : ∀ {x : Client ι Req Res}, x.calls <+: x.calls ∧ x.fulfilled <+: x.fulfilled :=
    ⟨List.prefix_rfl, List.prefix_rfl⟩
  have changed : ∀ (d : κ) (after : Client ι Req Res),
      (s.client d).calls <+: after.calls ∧ (s.client d).fulfilled <+: after.fulfilled →
      (s.client c).calls <+: ((s.setClient d after).client c).calls ∧
        (s.client c).fulfilled <+: ((s.setClient d after).client c).fulfilled := by
    intro d after more
    simp only [State.setClient]
    by_cases other : c = d
    · subst other
      rwa [Function.update_self]
    · rw [Function.update_of_ne other]
      exact same
  cases e with
  | handleRequest | enqueue | pop | sendResponse =>
    obtain ⟨after, -, rfl⟩ := Option.map_eq_some_iff.mp step
    exact same
  | initService | stop | clear =>
    cases step
    exact same
  | initClient d =>
    cases step
    exact changed d _ same
  | asyncSendRequest d request =>
    obtain ⟨after, sent, rfl⟩ := Option.map_eq_some_iff.mp step
    refine changed d _ ?_
    unfold Client.asyncSendRequest at sent
    split at sent
    · cases sent
      exact same
    · split at sent
      · cases sent
        exact ⟨List.prefix_append .., List.prefix_rfl⟩
      · cases sent
  | transmit d =>
    obtain ⟨⟨m, after⟩, sent, rfl⟩ := Option.map_eq_some_iff.mp step
    refine changed d _ ?_
    unfold Client.transmit at sent
    split at sent
    · cases sent
      exact same
    · cases sent
  | store d =>
    obtain ⟨after, stored, rfl⟩ := Option.map_eq_some_iff.mp step
    refine changed d _ ?_
    unfold Client.store at stored
    split at stored
    · cases stored
      exact same
    · cases stored
  | handleResponse d i =>
    obtain ⟨m, sent, rest⟩ := Option.bind_eq_some_iff.mp step
    obtain ⟨after, handled, done⟩ := Option.bind_eq_some_iff.mp rest
    cases done
    refine changed d _ ?_
    unfold Client.handleResponse at handled
    split at handled
    · split at handled
      · cases handled
        exact same
      · split at handled
        · cases handled
          exact same
        · cases handled
          exact same
    · cases handled
  | setValue d =>
    obtain ⟨after, set, rfl⟩ := Option.map_eq_some_iff.mp step
    refine changed d _ ?_
    unfold Client.setValue at set
    split at set
    · cases set
      exact ⟨List.prefix_rfl, List.prefix_append ..⟩
    · cases set
  | callback d =>
    obtain ⟨after, called, rfl⟩ := Option.map_eq_some_iff.mp step
    refine changed d _ ?_
    unfold Client.callback at called
    split at called
    · cases called
      exact same
    · cases called

/-- The call whose request an event brings to the service. -/
def State.arrival (s : State κ Unit ι Req Res) : Event κ Unit Req Res → Option (κ × Nat)
  | .enqueue _ i => s.requests[i]?.map Message.call
  | _ => none

/-- The calls whose requests a service has, in the order in which it will handle them. -/
def Service.held (p : Service κ ι Req Res) : List (κ × Nat) :=
  (match p.handling with
    | .handleRequest request => [request.call]
    | _ => []) ++ p.tasks.map Message.call

/-- Before them, those whose requests have been handled. -/
def State.seen (s : State κ Unit ι Req Res) : List (κ × Nat) :=
  s.computed.map Computed.call ++ (s.service ()).held

omit [DecidableEq κ] [DecidableEq ι] in
theorem seen_setService (s : State κ Unit ι Req Res) (p : Unit) (after : Service κ ι Req Res) :
    (s.setService p after).seen = s.computed.map Computed.call ++ after.held := by
  simp only [State.seen, State.setService]
  rw [Function.update_self]

/-- Requests are handled in the order in which they arrive, unless the service is cleared. -/
theorem step_seen (step : (machine Req Res setup).step s e = some s') :
    s'.seen.Sublist (s.seen ++ (s.arrival e).toList) := by
  have same : s'.computed = s.computed → s'.service = s.service → s'.seen.Sublist (s.seen ++ (s.arrival e).toList) := by
    intro computed service
    rw [State.seen, computed, service]
    exact List.sublist_append_left ..
  cases e with
  | initClient =>
    cases step
    exact same rfl rfl
  | asyncSendRequest | transmit | store | setValue | callback =>
    obtain ⟨after, -, rfl⟩ := Option.map_eq_some_iff.mp step
    exact same rfl rfl
  | handleResponse c i =>
    obtain ⟨m, sent, rest⟩ := Option.bind_eq_some_iff.mp step
    obtain ⟨after, handled, done⟩ := Option.bind_eq_some_iff.mp rest
    cases done
    exact same rfl rfl
  | initService p =>
    cases step
    have held : (s.service p).init.held = (s.service ()).held := by
      unfold Service.init
      split <;> rfl
    rw [seen_setService, held]
    exact List.sublist_append_left ..
  | enqueue p i =>
    obtain ⟨m, sent, rfl⟩ := Option.map_eq_some_iff.mp step
    have arrives : (s.arrival (.enqueue p i)).toList = [m.call] := by
      simp only [State.arrival, sent, Option.map_some, Option.toList_some]
    have held : ((s.service p).enqueue m).held = (s.service ()).held ++ [m.call] := by
      simp only [Service.held, Service.enqueue, List.map_append, List.map_singleton, List.append_assoc]
    rw [seen_setService, held, arrives, State.seen, List.append_assoc]
  | pop p =>
    obtain ⟨after, popped, rfl⟩ := Option.map_eq_some_iff.mp step
    unfold Service.pop at popped
    split at popped
    · rename_i task tasks _ waiting queue
      cases popped
      have held : (s.service ()).held = task.call :: tasks.map Message.call := by
        simp only [Service.held, waiting, queue, List.map_cons, List.nil_append]
      rw [seen_setService, State.seen, held]
      exact List.sublist_append_left ..
    · cases popped
  | handleRequest p response =>
    obtain ⟨⟨m, after⟩, handled, rfl⟩ := Option.map_eq_some_iff.mp step
    unfold Service.handleRequest at handled
    split at handled
    · rename_i request _ handling
      cases handled
      have held : (s.service ()).held = m.call :: (s.service ()).tasks.map Message.call := by
        simp only [Service.held, handling, List.singleton_append]
      have now : State.seen { s.setService p { s.service p with
          handling := .sendResponse ⟨response, { m.info with senderId := setup.transmitterId p }, m.call⟩ } with
            computed := s.computed ++ [⟨p, m.call, m.payload, response⟩] } =
          s.computed.map Computed.call ++ m.call :: (s.service ()).tasks.map Message.call := by
        simp only [State.seen, State.setService, Function.update_self, Service.held, List.nil_append, List.map_append,
          List.map_singleton, List.append_assoc, List.singleton_append]
      rw [now, State.seen, held]
      exact List.sublist_append_left ..
    · cases handled
  | sendResponse p =>
    obtain ⟨⟨m, after⟩, sent, rfl⟩ := Option.map_eq_some_iff.mp step
    unfold Service.sendResponse at sent
    split at sent
    · rename_i response _ handling
      cases sent
      have held : (s.service ()).held = (s.service ()).tasks.map Message.call := by
        simp only [Service.held, handling, List.nil_append]
      have now : State.seen { s.setService p { s.service p with handling := .waiting } with
          responses := s.responses ++ [m] } = s.computed.map Computed.call ++ (s.service ()).tasks.map Message.call := by
        simp only [State.seen, State.setService, Function.update_self, Service.held, List.nil_append]
      rw [now, State.seen, held]
      exact List.sublist_append_left ..
    · cases sent
  | stop p =>
    cases step
    have held : (s.service p).stop.held = (s.service ()).held := rfl
    rw [seen_setService, held]
    exact List.sublist_append_left ..
  | clear p =>
    cases step
    have fewer : ((s.service p).clear.held).Sublist (s.service ()).held :=
      (List.nil_sublist _).append_left _
    rw [seen_setService]
    exact (fewer.append_left _).trans (List.sublist_append_left ..)

end Rpc

/-- What is not so at first but is so later becomes so in some step. -/
theorem exists_change {P : Nat → Prop} {n : Nat} (start : ¬ P 0) (last : P n) : ∃ k < n, ¬ P k ∧ P (k + 1) := by
  induction n with
  | zero => exact absurd last start
  | succ n ih =>
    by_cases before : P n
    · obtain ⟨k, earlier, change⟩ := ih before
      exact ⟨k, Nat.lt_succ_of_lt earlier, change⟩
    · exact ⟨n, Nat.lt_succ_self n, before, last⟩

section Runs
variable {object : O} {n : Nat} {state : Nat → SharedState κ ι O Req Res} {event : Nat → SharedEvent κ ω Req Res}

/-- What the callbacks have computed was computed in some step of the run. -/
theorem SharedObject.computed_at (run : (obj.machine setup object).Run n state event) {j : γ}
    {entry : Computed κ Unit (Req j) (Res j)} {k : Nat} (bound : k ≤ n) (member : entry ∈ ((state k).rpc j).computed) :
    ∃ i < k, ∃ request, event i = .rpc j (.handleRequest entry.service entry.response) ∧
      (((state i).rpc j).service entry.service).handling = .handleRequest request ∧ request.call = entry.call ∧
      request.payload = entry.request := by
  induction k with
  | zero =>
    rw [run.start] at member
    cases member
  | succ k ih =>
    by_cases before : entry ∈ ((state k).rpc j).computed
    · obtain ⟨i, earlier, found⟩ := ih (Nat.le_of_succ_le bound) before
      exact ⟨i, Nat.lt_succ_of_lt earlier, found⟩
    · rcases SharedObject.step_project (run.next k bound) j with same | ⟨own, at', step⟩
      · exact absurd (same ▸ member) before
      · rcases step_computed step with same | ⟨p, request, response, rfl, handling, more⟩
        · exact absurd (same ▸ member) before
        · rw [more] at member
          obtain rfl := List.mem_singleton.mp ((List.mem_append.mp member).resolve_left before)
          exact ⟨k, Nat.lt_succ_self k, request, at', handling, rfl, rfl⟩

theorem SharedObject.histories_stay (run : (obj.machine setup object).Run n state event) (j : γ) (c : κ) {i k : Nat}
    (before : i ≤ k) (bound : k ≤ n) : (((state i).rpc j).client c).calls <+: (((state k).rpc j).client c).calls ∧
      (((state i).rpc j).client c).fulfilled <+: (((state k).rpc j).client c).fulfilled := by
  refine run.later (R := fun s s' => ((s.rpc j).client c).calls <+: ((s'.rpc j).client c).calls ∧
    ((s.rpc j).client c).fulfilled <+: ((s'.rpc j).client c).fulfilled) (fun _ => ⟨List.prefix_rfl, List.prefix_rfl⟩)
    (fun _ _ _ first second => ⟨first.1.trans second.1, first.2.trans second.2⟩)
    (fun s e s' _ enabled => ?_) before bound
  rcases SharedObject.step_project enabled j with same | ⟨own, -, step⟩
  · rw [same]
    exact ⟨List.prefix_rfl, List.prefix_rfl⟩
  · exact step_histories step c

theorem SharedObject.calls_stay (run : (obj.machine setup object).Run n state event) {j : γ} {c : κ} {call : Nat}
    {request : Req j} {i k : Nat} (before : i ≤ k) (bound : k ≤ n)
    (known : (((state i).rpc j).client c).calls[call]? = some request) :
    (((state k).rpc j).client c).calls[call]? = some request := by
  obtain ⟨rest, more⟩ := (SharedObject.histories_stay run j c before bound).1
  rw [← more, List.getElem?_append_left (List.getElem?_eq_some_iff.mp known).1, known]

/-- A call that has returned took effect on the object in one step between its start and its return, and what it returned
is the answer of that step. -/
theorem SharedObject.takes_effect (distinct : ∀ j, Function.Injective (setup j).writerId)
    (run : (obj.machine setup object).Run n state event) {j : γ} {c : κ} {call : Nat} {response : Res j}
    (returned : (call, response) ∈ (((state n).rpc j).client c).fulfilled) :
    ∃ i < n, ∃ p request, event i = .rpc j (.handleRequest p response) ∧
      (((state i).rpc j).service p).handling = .handleRequest request ∧ request.call = (c, call) ∧
      (((state i).rpc j).client c).calls[call]? = some request.payload ∧
      (∀ other, (call, other) ∉ (((state i).rpc j).client c).fulfilled) ∧
      obj.answers j (state i).object request.payload response ∧
      (state (i + 1)).object = obj.after j (state i).object request.payload := by
  have inv : ∀ k, k ≤ n → Inv (setup j) ((state k).rpc j) := fun k bound =>
    reach_inv (distinct j) (SharedObject.reach_rpc (run.reach bound) j)
  -- the step in which it returned, and the callback before that
  obtain ⟨k, bound, notYet, now⟩ : ∃ k < n, (call, response) ∉ (((state k).rpc j).client c).fulfilled ∧
      (call, response) ∈ (((state (k + 1)).rpc j).client c).fulfilled := by
    refine exists_change (P := fun k => (call, response) ∈ (((state k).rpc j).client c).fulfilled) ?_ returned
    rw [run.start]
    exact nofun
  obtain ⟨-, answered⟩ := ((inv (k + 1) bound).clients c).fulfilled call response now
  obtain ⟨p, request, computed, asked⟩ := answered
  obtain ⟨i, earlier, m, event_i, handling, call_m, payload⟩ := SharedObject.computed_at run bound computed
  have within : i < n := Nat.lt_of_le_of_lt (Nat.le_of_lt_succ earlier) bound
  have asks := ((inv i (Nat.le_of_lt within)).services p).handling
  rw [handling] at asks
  have known := asks.2
  rw [call_m] at known
  refine ⟨i, within, p, m, event_i, handling, call_m, known, fun other member => ?_, ?_⟩
  · have later := (SharedObject.histories_stay run j c (Nat.le_of_lt_succ earlier) (Nat.le_of_lt bound)).2.subset member
    have same := (SharedObject.histories_stay run j c (Nat.le_succ k) bound).2.subset later
    have once := ((inv (k + 1) bound).clients c).once
    obtain rfl := (Prod.mk.inj (List.inj_on_of_nodup_map once same now rfl)).2
    exact notYet later
  · have enabled := run.next i within
    rw [event_i] at enabled
    obtain ⟨after, step, rpc, effect⟩ := SharedObject.step_rpc enabled
    have handles : ((state i).rpc j).handles (.handleRequest p response) = some (m, response) := by
      simp only [State.handles, handling]
    rw [handles] at effect
    exact effect

/-- The calls whose requests have arrived at a service, in that order. -/
def arrived (state : Nat → SharedState κ ι O Req Res) (event : Nat → SharedEvent κ ω Req Res) (j : γ) :
    Nat → List (κ × Nat)
  | 0 => []
  | k + 1 => arrived state event j k ++
    match event k with
    | .rpc i e => if i = j then (((state k).rpc i).arrival e).toList else []
    | .perform _ => []

/-- A step runs the callback of a service for the request of a call. -/
def Handles (s : SharedState κ ι O Req Res) (e : SharedEvent κ ω Req Res) (j : γ) (call : κ × Nat) : Prop :=
  ∃ p response request, e = .rpc j (.handleRequest p response) ∧
    ((s.rpc j).service p).handling = .handleRequest request ∧ request.call = call

theorem SharedObject.seen_arrived (run : (obj.machine setup object).Run n state event) (j : γ) {k : Nat} (bound : k ≤ n) :
    ((state k).rpc j).seen.Sublist (arrived state event j k) := by
  induction k with
  | zero =>
    rw [run.start]
    exact List.Sublist.refl _
  | succ k ih =>
    have before := ih (Nat.le_of_succ_le bound)
    rcases SharedObject.step_project (run.next k bound) j with same | ⟨own, event_k, step⟩
    · rw [same]
      exact before.trans (List.sublist_append_left ..)
    · have arrives : arrived state event j (k + 1) = arrived state event j k ++ (((state k).rpc j).arrival own).toList := by
        simp only [arrived, event_k, if_true]
      rw [arrives]
      exact (step_seen step).trans (before.append_right _)

/-- A service handles requests in the order in which they arrive. -/
theorem SharedObject.handled_in_order (run : (obj.machine setup object).Run n state event) (j : γ) {k : Nat}
    (bound : k ≤ n) : (((state k).rpc j).computed.map Computed.call).Sublist (arrived state event j k) :=
  (List.sublist_append_left ..).trans (SharedObject.seen_arrived run j bound)

theorem Handles.computed (run : (obj.machine setup object).Run n state event) {j : γ} {call : κ × Nat} {i : Nat}
    (bound : i < n) (handles : Handles (state i) (event i) j call) :
    ((state (i + 1)).rpc j).computed.map Computed.call = ((state i).rpc j).computed.map Computed.call ++ [call] := by
  obtain ⟨p, response, request, event_i, handling, rfl⟩ := handles
  have enabled := run.next i bound
  rw [event_i] at enabled
  obtain ⟨after, step, rpc, -⟩ := SharedObject.step_rpc enabled
  rw [rpc, Function.update_self]
  obtain ⟨⟨m, service⟩, handled, rfl⟩ := Option.map_eq_some_iff.mp step
  unfold Service.handleRequest at handled
  split at handled
  · rename_i m' _ handling'
    cases handled
    obtain rfl : request = m := by
      rw [handling] at handling'
      injection handling'
    exact List.map_append
  · cases handled

theorem SharedObject.computed_stays (run : (obj.machine setup object).Run n state event) {j : γ} {call : κ × Nat}
    {i k : Nat} (before : i ≤ k) (bound : k ≤ n) (member : call ∈ ((state i).rpc j).computed.map Computed.call) :
    call ∈ ((state k).rpc j).computed.map Computed.call := by
  refine run.stays (P := fun s => call ∈ (s.rpc j).computed.map Computed.call) member before bound
    fun m _ _ now enabled => ?_
  rcases SharedObject.step_project enabled j with same | ⟨own, -, step⟩
  · rwa [same]
  · rcases step_computed step with same | ⟨p, request, response, -, -, more⟩
    · rwa [same]
    · rw [more, List.map_append]
      exact List.mem_append_left _ now

omit [DecidableEq κ] [DecidableEq ι] in
theorem arrived_grows (j : γ) {i k : Nat} (before : i ≤ k) : arrived state event j i <+: arrived state event j k := by
  induction k, before using Nat.le_induction with
  | base => exact List.prefix_rfl
  | succ k _ ih => exact ih.trans (List.prefix_append ..)

/-- If no request arrives twice, none is handled twice. -/
theorem SharedObject.handled_once (run : (obj.machine setup object).Run n state event) {j : γ}
    (once : (arrived state event j n).Nodup) {call : κ × Nat} {i i' : Nat} (bound : i < n) (bound' : i' < n)
    (handles : Handles (state i) (event i) j call) (handles' : Handles (state i') (event i') j call) : i = i' := by
  have ordered : ∀ {i i'}, i < i' → i' < n → Handles (state i) (event i) j call →
      ¬ Handles (state i') (event i') j call := by
    intro i i' before bound' handles handles'
    have first : call ∈ ((state i').rpc j).computed.map Computed.call := by
      refine SharedObject.computed_stays run before (Nat.le_of_lt bound') ?_
      rw [handles.computed run (Nat.lt_trans before bound')]
      exact List.mem_append_right _ (List.mem_singleton_self call)
    have nodup : (((state (i' + 1)).rpc j).computed.map Computed.call).Nodup :=
      (once.sublist (arrived_grows j bound').sublist).sublist (SharedObject.handled_in_order run j bound')
    rw [handles'.computed run bound'] at nodup
    exact List.disjoint_of_nodup_append nodup first (List.mem_singleton_self call)
  rcases Nat.lt_trichotomy i i' with before | same | after
  · exact absurd handles' (ordered before bound' handles)
  · exact same
  · exact absurd handles (ordered after bound handles')

end Runs

end CyberRT.Rpc
