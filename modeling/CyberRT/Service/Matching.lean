import CyberRT.Service.Client
import Mathlib.Data.List.Nodup

namespace CyberRT.Rpc
open Concur
variable {κ σ ι Req Res : Type}

/-- What holds of a client. `answers call response` is that the response was computed for the request of the call. -/
structure ClientInv (writerId : ι) (answers : Nat → Res → Prop) (c : Client ι Req Res) : Prop where
  numbered : c.sequenceNumber = c.calls.length
  pending : ∀ seq call, c.pendingRequests.lookup seq = some call →
    seq = call + 1 ∧ call < c.calls.length ∧ call ∉ c.fulfilled.map Prod.fst
  inside : match c.inside with
    | .free => True
    | .transmit call info request => call + 1 = c.calls.length ∧ c.calls[call]? = some request ∧
        info = ⟨writerId, call + 1, writerId⟩ ∧ call ∉ c.fulfilled.map Prod.fst ∧
        c.pendingRequests.lookup (call + 1) = none
    | .store call info => call + 1 = c.calls.length ∧ info = ⟨writerId, call + 1, writerId⟩ ∧
        call ∉ c.fulfilled.map Prod.fst ∧ c.pendingRequests.lookup (call + 1) = none
    | .setValue call response => call < c.calls.length ∧ answers call response ∧ call ∉ c.fulfilled.map Prod.fst ∧
        c.pendingRequests.lookup (call + 1) = none
    | .callback call => call ∈ c.fulfilled.map Prod.fst ∧ call ∉ c.callbacks
  fulfilled : ∀ call response, (call, response) ∈ c.fulfilled → call < c.calls.length ∧ answers call response
  once : (c.fulfilled.map Prod.fst).Nodup
  callbacks : ∀ call ∈ c.callbacks, call ∈ c.fulfilled.map Prod.fst
  onceCalled : c.callbacks.Nodup

namespace ClientInv
variable {writerId : ι} {answers answers' : Nat → Res → Prop} {c c' : Client ι Req Res}

theorem create : ClientInv writerId answers (.create : Client ι Req Res) where
  numbered := rfl
  pending := nofun
  inside := trivial
  fulfilled := nofun
  once := .nil
  callbacks := nofun
  onceCalled := .nil

/-- More responses may have been computed. -/
theorem mono (inv : ClientInv writerId answers c)
    (more : ∀ call response, answers call response → answers' call response) :
    ClientInv writerId answers' c where
  numbered := inv.numbered
  pending := inv.pending
  inside := by
    have inside := inv.inside
    cases at' : c.inside with
    | setValue call response =>
      rw [at'] at inside
      exact ⟨inside.1, more _ _ inside.2.1, inside.2.2⟩
    | _ =>
      rw [at'] at inside
      exact inside
  fulfilled call response member := (inv.fulfilled call response member).imp_right (more call response)
  once := inv.once
  callbacks := inv.callbacks
  onceCalled := inv.onceCalled

theorem asyncSendRequest (inv : ClientInv writerId answers c) {request : Req}
    (step : c.asyncSendRequest writerId request = some c') :
    ClientInv writerId answers c' ∧ (c'.calls = c.calls ∨ c'.calls = c.calls ++ [request]) := by
  unfold Client.asyncSendRequest at step
  split at step
  · cases step
    exact ⟨inv, .inl rfl⟩
  · split at step
    · cases step
      have fresh : c.calls.length ∉ c.fulfilled.map Prod.fst := by
        intro member
        obtain ⟨⟨call, response⟩, member, last⟩ := List.mem_map.mp member
        exact absurd (inv.fulfilled call response member).1 (Nat.not_lt.mpr last.ge)
      refine ⟨⟨?_, ?_, ?_, ?_, inv.once, inv.callbacks, inv.onceCalled⟩, .inr rfl⟩
      · simp [inv.numbered]
      · intro seq call found
        obtain ⟨same, bound, waits⟩ := inv.pending seq call found
        exact ⟨same, by simp only [List.length_append, List.length_singleton]; omega, waits⟩
      · refine ⟨by simp, by simp, by simp [inv.numbered], fresh, ?_⟩
        cases found : c.pendingRequests.lookup (c.calls.length + 1) with
        | none => rfl
        | some call =>
          obtain ⟨same, bound, _⟩ := inv.pending _ _ found
          omega
      · intro call response member
        obtain ⟨bound, known⟩ := inv.fulfilled call response member
        exact ⟨by simp only [List.length_append, List.length_singleton]; omega, known⟩
    · cases step

theorem transmit {self : κ} {m : Message κ ι Req} (inv : ClientInv writerId answers c)
    (step : c.transmit self = some (m, c')) :
    ClientInv writerId answers c' ∧ c'.calls = c.calls ∧ m.call.1 = self ∧ c.calls[m.call.2]? = some m.payload ∧
      m.info = ⟨writerId, m.call.2 + 1, writerId⟩ := by
  unfold Client.transmit at step
  have inside := inv.inside
  split at step
  · rename_i call info request at'
    cases step
    rw [at'] at inside
    obtain ⟨last, known, same, waits, free⟩ := inside
    exact ⟨⟨inv.numbered, inv.pending, ⟨last, same, waits, free⟩, inv.fulfilled, inv.once, inv.callbacks,
      inv.onceCalled⟩, rfl, rfl, known, same⟩
  · cases step

theorem store (inv : ClientInv writerId answers c) (step : c.store = some c') :
    ClientInv writerId answers c' ∧ c'.calls = c.calls := by
  unfold Client.store at step
  have inside := inv.inside
  split at step
  · rename_i call info at'
    cases step
    rw [at'] at inside
    obtain ⟨last, rfl, waits, free⟩ := inside
    refine ⟨⟨inv.numbered, ?_, trivial, inv.fulfilled, inv.once, inv.callbacks, inv.onceCalled⟩, rfl⟩
    intro seq other found
    rw [Table.lookup_insert_eq] at found
    split at found
    · rename_i here
      cases found
      exact ⟨here, last ▸ Nat.lt_succ_self _, waits⟩
    · exact inv.pending seq other found
  · cases step

theorem setValue (inv : ClientInv writerId answers c) (step : c.setValue = some c') :
    ClientInv writerId answers c' ∧ c'.calls = c.calls := by
  unfold Client.setValue at step
  have inside := inv.inside
  split at step
  · rename_i call response at'
    cases step
    rw [at'] at inside
    obtain ⟨bound, known, waits, free⟩ := inside
    refine ⟨⟨inv.numbered, ?_, ?_, ?_, ?_, ?_, inv.onceCalled⟩, rfl⟩
    · intro seq other found
      obtain ⟨same, bound', waits'⟩ := inv.pending seq other found
      refine ⟨same, bound', ?_⟩
      simp only [List.map_append, List.map_cons, List.map_nil, List.mem_append, List.mem_singleton, not_or]
      refine ⟨waits', ?_⟩
      rintro rfl
      rw [← same, found] at free
      cases free
    · refine ⟨by simp, fun called => waits (inv.callbacks call called)⟩
    · intro other value member
      rcases List.mem_append.mp member with old | new
      · exact inv.fulfilled other value old
      · cases List.mem_singleton.mp new
        exact ⟨bound, known⟩
    · rw [List.map_append, List.map_singleton, ← List.concat_eq_append]
      exact inv.once.concat waits
    · intro other called
      rw [List.map_append]
      exact List.mem_append_left _ (inv.callbacks other called)
  · cases step

theorem callback (inv : ClientInv writerId answers c) (step : c.callback = some c') :
    ClientInv writerId answers c' ∧ c'.calls = c.calls := by
  unfold Client.callback at step
  have inside := inv.inside
  split at step
  · rename_i call at'
    cases step
    rw [at'] at inside
    obtain ⟨done, fresh⟩ := inside
    refine ⟨⟨inv.numbered, inv.pending, trivial, inv.fulfilled, inv.once, ?_, ?_⟩, rfl⟩
    · intro other called
      rcases List.mem_append.mp called with old | new
      · exact inv.callbacks other old
      · rw [List.mem_singleton.mp new]
        exact done
    · rw [← List.concat_eq_append]
      exact inv.onceCalled.concat fresh
  · cases step

/-- A response that carries the id of the client and the number of a call is one to the request of that call. -/
theorem handleResponse [DecidableEq ι] {m : Message κ ι Res} (inv : ClientInv writerId answers c)
    (genuine : m.info.spareId = writerId → m.info.seqNum = m.call.2 + 1 ∧ answers m.call.2 m.payload)
    (step : c.handleResponse writerId m = some c') : ClientInv writerId answers c' ∧ c'.calls = c.calls := by
  unfold Client.handleResponse at step
  split at step
  · split at step
    · cases step
      exact ⟨inv, rfl⟩
    · rename_i own
      obtain ⟨numbered, known⟩ := genuine (not_not.mp own)
      split at step
      · cases step
        exact ⟨inv, rfl⟩
      · rename_i call found
        cases step
        obtain ⟨same, bound, waits⟩ := inv.pending _ _ found
        have this : call = m.call.2 := by omega
        refine ⟨⟨inv.numbered, ?_, ⟨bound, this ▸ known, waits, ?_⟩, inv.fulfilled, inv.once, inv.callbacks,
          inv.onceCalled⟩, rfl⟩
        · intro seq other still
          rw [Table.lookup_erase_eq] at still
          split at still
          · cases still
          · exact inv.pending seq other still
        · rw [Table.lookup_erase_eq, if_pos same.symm]
  · cases step

/-- The responses for other clients and the ones that come again are ignored. -/
theorem handleResponse_ignored [DecidableEq ι] {m : Message κ ι Res} (inv : ClientInv writerId answers c)
    (ignored : m.info.spareId = writerId → m.info.seqNum = m.call.2 + 1 ∧ m.call.2 ∈ c.fulfilled.map Prod.fst)
    (step : c.handleResponse writerId m = some c') : c' = c := by
  unfold Client.handleResponse at step
  split at step
  · split at step
    · exact (Option.some.inj step).symm
    · rename_i own
      obtain ⟨numbered, done⟩ := ignored (not_not.mp own)
      split at step
      · exact (Option.some.inj step).symm
      · rename_i call found
        obtain ⟨same, _, waits⟩ := inv.pending _ _ found
        have this : call = m.call.2 := by omega
        exact absurd (this ▸ done) waits
  · cases step

end ClientInv

/-- A service has computed the response for the request of the call. -/
def State.Answers (s : State κ σ ι Req Res) (call : κ × Nat) (response : Res) : Prop :=
  ∃ service request, ⟨service, call, request, response⟩ ∈ s.computed ∧ (s.client call.1).calls[call.2]? = some request

/-- The info is that of the request of the call. -/
def Identified (setup : Setup κ σ ι) (call : κ × Nat) (info : RequestInfo ι) : Prop :=
  info.seqNum = call.2 + 1 ∧ info.spareId = setup.writerId call.1

/-- The message carries the request of its call. -/
def State.Asks (setup : Setup κ σ ι) (s : State κ σ ι Req Res) (m : Message κ ι Req) : Prop :=
  Identified setup m.call m.info ∧ (s.client m.call.1).calls[m.call.2]? = some m.payload

/-- The message carries a response that was computed for the request of its call. -/
def State.Replies (setup : Setup κ σ ι) (s : State κ σ ι Req Res) (m : Message κ ι Res) : Prop :=
  Identified setup m.call m.info ∧ s.Answers m.call m.payload

structure ServiceInv (setup : Setup κ σ ι) (s : State κ σ ι Req Res) (p : Service κ ι Req Res) : Prop where
  tasks : ∀ m ∈ p.tasks, s.Asks setup m
  handling : match p.handling with
    | .waiting => True
    | .handleRequest request => s.Asks setup request
    | .sendResponse response => s.Replies setup response

structure Inv (setup : Setup κ σ ι) (s : State κ σ ι Req Res) : Prop where
  clients : ∀ c, ClientInv (setup.writerId c) (fun call response => s.Answers (c, call) response) (s.client c)
  services : ∀ p, ServiceInv setup s (s.service p)
  requests : ∀ m ∈ s.requests, s.Asks setup m
  responses : ∀ m ∈ s.responses, s.Replies setup m

/-- The histories of the requests and of what was computed grow. -/
structure Grows (s s' : State κ σ ι Req Res) : Prop where
  calls : ∀ (c : κ) (i : Nat) (request : Req), (s.client c).calls[i]? = some request →
    (s'.client c).calls[i]? = some request
  computed : ∀ entry ∈ s.computed, entry ∈ s'.computed

section Grows
variable {setup : Setup κ σ ι} {s s' : State κ σ ι Req Res}

theorem Grows.answers (grows : Grows s s') {call : κ × Nat} {response : Res} (answers : s.Answers call response) :
    s'.Answers call response := by
  obtain ⟨service, request, member, known⟩ := answers
  exact ⟨service, request, grows.computed _ member, grows.calls _ _ _ known⟩

theorem Grows.asks (grows : Grows s s') {m : Message κ ι Req} (asks : s.Asks setup m) : s'.Asks setup m :=
  ⟨asks.1, grows.calls _ _ _ asks.2⟩

theorem Grows.replies (grows : Grows s s') {m : Message κ ι Res} (replies : s.Replies setup m) : s'.Replies setup m :=
  ⟨replies.1, grows.answers replies.2⟩

theorem Grows.serviceInv (grows : Grows s s') {p : Service κ ι Req Res} (inv : ServiceInv setup s p) :
    ServiceInv setup s' p where
  tasks m member := grows.asks (inv.tasks m member)
  handling := by
    have handling := inv.handling
    cases at' : p.handling with
    | waiting => trivial
    | handleRequest request =>
      rw [at'] at handling
      exact grows.asks handling
    | sendResponse response =>
      rw [at'] at handling
      exact grows.replies handling

theorem grows_setClient [DecidableEq κ] {c : κ} {after : Client ι Req Res}
    (calls : ∀ (i : Nat) (request : Req), (s.client c).calls[i]? = some request → after.calls[i]? = some request) :
    Grows s (s.setClient c after) where
  calls d i request known := by
    by_cases same : d = c
    · subst same
      simpa [State.setClient] using calls i request known
    · simpa [State.setClient, same] using known
  computed _ member := member

end Grows

section Step
variable {setup : Setup κ σ ι} {s s' : State κ σ ι Req Res}

theorem inv_init : Inv setup (.create : State κ σ ι Req Res) where
  clients _ := .create
  services _ := ⟨nofun, trivial⟩
  requests := nofun
  responses := nofun

/-- New messages, and new entries of the history. -/
theorem Inv.grows (inv : Inv setup s) (client : s'.client = s.client) (service : s'.service = s.service)
    (computed : ∀ entry ∈ s.computed, entry ∈ s'.computed)
    (requests : ∀ m ∈ s'.requests, m ∈ s.requests ∨ s.Asks setup m)
    (responses : ∀ m ∈ s'.responses, m ∈ s.responses ∨ s.Replies setup m) : Inv setup s' := by
  have grows : Grows s s' := ⟨fun c i request known => by rwa [client], computed⟩
  constructor
  case clients =>
    rw [client]
    exact fun c => (inv.clients c).mono fun _ _ => grows.answers
  case services =>
    rw [service]
    exact fun p => grows.serviceInv (inv.services p)
  case requests => exact fun m member => grows.asks ((requests m member).elim (inv.requests m) id)
  case responses => exact fun m member => grows.replies ((responses m member).elim (inv.responses m) id)

theorem Inv.setClient [DecidableEq κ] (inv : Inv setup s) {c : κ} {after : Client ι Req Res}
    (client : ClientInv (setup.writerId c) (fun call response => s.Answers (c, call) response) after)
    (calls : ∀ (i : Nat) (request : Req), (s.client c).calls[i]? = some request → after.calls[i]? = some request) :
    Inv setup (s.setClient c after) where
  clients d := by
    have grows := grows_setClient calls
    by_cases same : d = c
    · subst same
      have mono := client.mono fun call response (answers : s.Answers (d, call) response) => grows.answers answers
      simpa [State.setClient] using mono
    · have mono := (inv.clients d).mono fun call response (answers : s.Answers (d, call) response) =>
        grows.answers answers
      simpa [State.setClient, same] using mono
  services p := (grows_setClient calls).serviceInv (inv.services p)
  requests m member := (grows_setClient calls).asks (inv.requests m member)
  responses m member := (grows_setClient calls).replies (inv.responses m member)

theorem Inv.setService [DecidableEq σ] (inv : Inv setup s) {p : σ} {after : Service κ ι Req Res}
    (service : ServiceInv setup s after) : Inv setup (s.setService p after) where
  clients := inv.clients
  services q := by
    have grows : Grows s (s.setService p after) := ⟨fun _ _ _ known => known, fun _ member => member⟩
    by_cases same : q = p
    · subst same
      simpa [State.setService] using grows.serviceInv service
    · simpa [State.setService, same] using grows.serviceInv (inv.services q)
  requests := inv.requests
  responses := inv.responses

/-- A response with the id of a client is one to that client. -/
theorem Identified.own {call : κ × Nat} {info : RequestInfo ι} {c : κ} (distinct : Function.Injective setup.writerId)
    (identified : Identified setup call info) (own : info.spareId = setup.writerId c) : call.1 = c :=
  distinct (identified.2.symm.trans own)

variable [DecidableEq κ] [DecidableEq ι]

theorem Inv.handleResponse (distinct : Function.Injective setup.writerId) (inv : Inv setup s) {c : κ}
    {m : Message κ ι Res} (sent : m ∈ s.responses) {after : Client ι Req Res}
    (step : (s.client c).handleResponse (setup.writerId c) m = some after) : Inv setup (s.setClient c after) := by
  obtain ⟨identified, answers⟩ := inv.responses m sent
  obtain ⟨client, same⟩ := (inv.clients c).handleResponse (m := m) (fun own => by
    obtain rfl := identified.own distinct own
    exact ⟨identified.1, answers⟩) step
  exact inv.setClient client (fun _ _ known => same ▸ known)

variable [DecidableEq σ]

theorem step_inv (distinct : Function.Injective setup.writerId) (inv : Inv setup s) {e : Event κ σ Req Res}
    (step : (machine Req Res setup).step s e = some s') : Inv setup s' := by
  cases e with
  | initClient c =>
    cases step
    exact inv.setClient ⟨(inv.clients c).numbered, (inv.clients c).pending, (inv.clients c).inside,
      (inv.clients c).fulfilled, (inv.clients c).once, (inv.clients c).callbacks, (inv.clients c).onceCalled⟩
      fun _ _ known => known
  | asyncSendRequest c request =>
    obtain ⟨after, sent, rfl⟩ := Option.map_eq_some_iff.mp step
    obtain ⟨client, calls⟩ := (inv.clients c).asyncSendRequest sent
    refine inv.setClient client fun i request' known => ?_
    rcases calls with same | more
    · rw [same, known]
    · rw [more, List.getElem?_append_left (List.getElem?_eq_some_iff.mp known).1, known]
  | transmit c =>
    obtain ⟨⟨m, after⟩, sent, rfl⟩ := Option.map_eq_some_iff.mp step
    obtain ⟨client, calls, self, payload, info⟩ := (inv.clients c).transmit sent
    have moved := inv.setClient client (fun _ _ known => calls ▸ known)
    refine moved.grows rfl rfl (fun _ member => member) (fun m' member => ?_) fun _ member => .inl member
    refine (List.mem_append.mp member).imp_right fun new => ?_
    rw [List.mem_singleton.mp new]
    refine ⟨⟨by rw [info], by rw [info, self]⟩, ?_⟩
    rw [self]
    simpa [State.setClient, calls] using payload
  | store c =>
    obtain ⟨after, stored, rfl⟩ := Option.map_eq_some_iff.mp step
    obtain ⟨client, calls⟩ := (inv.clients c).store stored
    exact inv.setClient client (fun _ _ known => calls ▸ known)
  | handleResponse c i =>
    obtain ⟨m, sent, rest⟩ := Option.bind_eq_some_iff.mp step
    obtain ⟨after, handled, done⟩ := Option.bind_eq_some_iff.mp rest
    cases done
    exact inv.handleResponse distinct (List.mem_of_getElem? sent) handled
  | setValue c =>
    obtain ⟨after, set, rfl⟩ := Option.map_eq_some_iff.mp step
    obtain ⟨client, calls⟩ := (inv.clients c).setValue set
    exact inv.setClient client (fun _ _ known => calls ▸ known)
  | callback c =>
    obtain ⟨after, called, rfl⟩ := Option.map_eq_some_iff.mp step
    obtain ⟨client, calls⟩ := (inv.clients c).callback called
    exact inv.setClient client (fun _ _ known => calls ▸ known)
  | initService p =>
    cases step
    refine inv.setService ?_
    unfold Service.init
    split
    · exact inv.services p
    · exact ⟨(inv.services p).tasks, (inv.services p).handling⟩
  | enqueue p i =>
    obtain ⟨m, sent, rfl⟩ := Option.map_eq_some_iff.mp step
    refine inv.setService ⟨fun m' member => ?_, (inv.services p).handling⟩
    rcases List.mem_append.mp member with old | new
    · exact (inv.services p).tasks m' old
    · rw [List.mem_singleton.mp new]
      exact inv.requests m (List.mem_of_getElem? sent)
  | pop p =>
    obtain ⟨after, popped, rfl⟩ := Option.map_eq_some_iff.mp step
    refine inv.setService ?_
    unfold Service.pop at popped
    split at popped
    · rename_i task tasks _ _ queue
      cases popped
      have all := (inv.services p).tasks
      rw [queue] at all
      exact ⟨fun m member => all m (List.mem_cons_of_mem _ member), all task (List.mem_cons_self ..)⟩
    · cases popped
  | handleRequest p response =>
    obtain ⟨⟨m, after⟩, handled, rfl⟩ := Option.map_eq_some_iff.mp step
    unfold Service.handleRequest at handled
    have handling := (inv.services p).handling
    split at handled
    · rename_i request _ at'
      cases handled
      rw [at'] at handling
      let record : State κ σ ι Req Res :=
        { s with computed := s.computed ++ [⟨p, m.call, m.payload, response⟩] }
      have grows : Grows s record := ⟨fun _ _ _ known => known, fun _ member => List.mem_append_left _ member⟩
      have recorded : Inv setup record :=
        inv.grows rfl rfl grows.computed (fun _ member => .inl member) fun _ member => .inl member
      refine recorded.setService ?_
      refine ⟨fun m' member => grows.asks ((inv.services p).tasks m' member), ⟨handling.1.1, handling.1.2⟩, ?_⟩
      exact ⟨p, m.payload, List.mem_append_right _ (List.mem_singleton_self _), handling.2⟩
    · cases handled
  | sendResponse p =>
    obtain ⟨⟨m, after⟩, sent, rfl⟩ := Option.map_eq_some_iff.mp step
    unfold Service.sendResponse at sent
    have handling := (inv.services p).handling
    split at sent
    · rename_i response _ at'
      cases sent
      rw [at'] at handling
      have rest : ServiceInv setup s { s.service p with handling := .waiting } := ⟨(inv.services p).tasks, trivial⟩
      have moved := inv.setService (p := p) rest
      refine moved.grows rfl rfl (fun _ member => member) (fun _ member => .inl member) fun m' member => ?_
      refine (List.mem_append.mp member).imp_right fun new => ?_
      rw [List.mem_singleton.mp new]
      exact handling
    · cases sent
  | stop p =>
    cases step
    exact inv.setService ⟨(inv.services p).tasks, (inv.services p).handling⟩
  | clear p =>
    cases step
    exact inv.setService ⟨nofun, (inv.services p).handling⟩

theorem reach_inv (distinct : Function.Injective setup.writerId) (reach : (machine Req Res setup).Reach s) :
    Inv setup s :=
  Machine.Reach.invariant inv_init (fun _ _ _ inv step => step_inv distinct inv step) reach

/-- Every future gets its value at most once, one that a service has computed for the very request; its callback runs at
most once, and then; responses for another client, and for a request that is answered, change nothing. -/
theorem responses_matched (distinct : Function.Injective setup.writerId) (reach : (machine Req Res setup).Reach s) :
    (∀ c, ((s.client c).fulfilled.map Prod.fst).Nodup) ∧
    (∀ c call response, (call, response) ∈ (s.client c).fulfilled → s.Answers (c, call) response) ∧
    (∀ c, (s.client c).callbacks.Nodup ∧
      ∀ call ∈ (s.client c).callbacks, call ∈ (s.client c).fulfilled.map Prod.fst) ∧
    ∀ c i m, s.responses[i]? = some m → m.call.1 ≠ c ∨ m.call.2 ∈ (s.client c).fulfilled.map Prod.fst →
      ∀ s', (machine Req Res setup).step s (.handleResponse c i) = some s' → s' = s := by
  have inv := reach_inv distinct reach
  refine ⟨fun c => (inv.clients c).once,
    fun c call response member => ((inv.clients c).fulfilled call response member).2,
    fun c => ⟨(inv.clients c).onceCalled, (inv.clients c).callbacks⟩, ?_⟩
  intro c i m sent other s' step
  obtain ⟨identified, _⟩ := inv.responses m (List.mem_of_getElem? sent)
  obtain ⟨m', sent', rest⟩ := Option.bind_eq_some_iff.mp step
  cases Option.some.inj (sent.symm.trans sent')
  obtain ⟨after, handled, done⟩ := Option.bind_eq_some_iff.mp rest
  cases done
  have same := (inv.clients c).handleResponse_ignored
    (fun own => ⟨identified.1, other.resolve_left (not_not.mpr (identified.own distinct own))⟩) handled
  rw [same, State.setClient, Function.update_eq_self]

end Step

/-- Two clients and a service. -/
def twoClients : Setup Bool Unit Nat where
  writerId c := if c then 2 else 1
  transmitterId _ := 7

/-- A request, and its response, which comes to both clients, and again. -/
def oneRequest : List (Event Bool Unit Nat Nat) :=
  [.initClient false, .initClient true, .initService (), .asyncSendRequest false 10, .transmit false, .enqueue () 0,
    .pop (), .handleRequest () 99, .sendResponse (), .store false, .handleResponse true 0, .handleResponse false 0,
    .setValue false, .callback false, .handleResponse false 0]

theorem responses_matched_oneRequest :
    let s := (machine Nat Nat twoClients).stateAt oneRequest 15
    (s.client false).fulfilled = [(0, 99)] ∧ (s.client false).callbacks = [0] ∧ s.Answers (false, 0) 99 ∧
      ∀ s', (machine Nat Nat twoClients).step s (.handleResponse true 0) = some s' → s' = s := by
  intro s
  have distinct : Function.Injective twoClients.writerId := by
    unfold Function.Injective
    decide
  have reach : (machine Nat Nat twoClients).Reach s := Machine.stateAt_reach oneRequest (by decide)
  have matched := responses_matched distinct reach
  have fulfilled : (s.client false).fulfilled = [(0, 99)] := by decide
  refine ⟨fulfilled, by decide, matched.2.1 false 0 99 (by rw [fulfilled]; exact List.mem_cons_self ..), fun s' => ?_⟩
  exact matched.2.2.2 true 0 ⟨99, ⟨7, 1, 1⟩, (false, 0)⟩ (by decide) (.inl (by decide)) s'

end CyberRT.Rpc
