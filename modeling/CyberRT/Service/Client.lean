import CyberRT.Lib.Machine
import CyberRT.Lib.Table

namespace CyberRT.Rpc
open Concur
universe u

/-- The parts of a message info that clients and services use. -/
structure RequestInfo (ι : Type u) where
  senderId : ι
  seqNum : Nat
  spareId : ι
  deriving DecidableEq

/-- A request or a response. `call` is the call of a client that it belongs to, which nobody reads. -/
structure Message (κ ι β : Type) where
  payload : β
  info : RequestInfo ι
  call : κ × Nat
  deriving DecidableEq

/-- What the holder of `pending_requests_mutex_` is about to do. -/
inductive Inside (ι Req Res : Type)
  | free
  | transmit (call : Nat) (info : RequestInfo ι) (request : Req)
  | store (call : Nat) (info : RequestInfo ι)
  | setValue (call : Nat) (response : Res)
  | callback (call : Nat)
  deriving DecidableEq

/-- A client. Its calls of `AsyncSendRequest` are numbered; the number stands for the promise, the callback and the
future of the call. `calls`, `fulfilled` and `callbacks` are histories. -/
structure Client (ι Req Res : Type) where
  inited : Bool
  sequenceNumber : Nat
  pendingRequests : Table Nat Nat
  inside : Inside ι Req Res
  calls : List Req
  fulfilled : List (Nat × Res)
  callbacks : List Nat

namespace Client
variable {κ ι Req Res : Type}

def create : Client ι Req Res :=
  ⟨false, 0, ∅, .free, [], [], []⟩

def init (c : Client ι Req Res) : Client ι Req Res :=
  { c with inited := true }

/-- A client that is not initialised returns an invalid future. -/
def asyncSendRequest (writerId : ι) (c : Client ι Req Res) (request : Req) : Option (Client ι Req Res) :=
  if !c.inited then some c
  else
    match c.inside with
    | .free =>
      let sequenceNumber := c.sequenceNumber + 1
      some { c with
        sequenceNumber
        inside := .transmit c.calls.length ⟨writerId, sequenceNumber, writerId⟩ request
        calls := c.calls ++ [request] }
    | _ => none

def transmit (self : κ) (c : Client ι Req Res) : Option (Message κ ι Req × Client ι Req Res) :=
  match c.inside with
  | .transmit call info request => some (⟨request, info, self, call⟩, { c with inside := .store call info })
  | _ => none

def store (c : Client ι Req Res) : Option (Client ι Req Res) :=
  match c.inside with
  | .store call info => some { c with pendingRequests := c.pendingRequests.insert info.seqNum call, inside := .free }
  | _ => none

/-- `HandleResponse` up to the erasure of the pending request. -/
def handleResponse [DecidableEq ι] (writerId : ι) (c : Client ι Req Res) (response : Message κ ι Res) :
    Option (Client ι Req Res) :=
  match c.inside with
  | .free =>
    if response.info.spareId ≠ writerId then some c
    else
      match c.pendingRequests.lookup response.info.seqNum with
      | none => some c
      | some call =>
        some { c with
          pendingRequests := c.pendingRequests.erase response.info.seqNum
          inside := .setValue call response.payload }
  | _ => none

def setValue (c : Client ι Req Res) : Option (Client ι Req Res) :=
  match c.inside with
  | .setValue call response =>
    some { c with inside := .callback call, fulfilled := c.fulfilled ++ [(call, response)] }
  | _ => none

def callback (c : Client ι Req Res) : Option (Client ι Req Res) :=
  match c.inside with
  | .callback call => some { c with inside := .free, callbacks := c.callbacks ++ [call] }
  | _ => none

end Client

/-- What the thread of a service is about to do with the task that it has popped. -/
inductive Handling (κ ι Req Res : Type)
  | waiting
  | handleRequest (request : Message κ ι Req)
  | sendResponse (response : Message κ ι Res)
  deriving DecidableEq

/-- A service. `receiver` is whether it has got its request receiver. -/
structure Service (κ ι Req Res : Type) where
  receiver : Bool
  inited : Bool
  tasks : List (Message κ ι Req)
  handling : Handling κ ι Req Res

namespace Service
variable {κ ι Req Res : Type}

def create : Service κ ι Req Res :=
  ⟨false, false, [], .waiting⟩

def init (s : Service κ ι Req Res) : Service κ ι Req Res :=
  if s.receiver then s else { s with receiver := true, inited := true }

def enqueue (s : Service κ ι Req Res) (request : Message κ ι Req) : Service κ ι Req Res :=
  { s with tasks := s.tasks ++ [request] }

/-- `Process` takes the next task. -/
def pop (s : Service κ ι Req Res) : Option (Service κ ι Req Res) :=
  match s.inited, s.handling, s.tasks with
  | true, .waiting, task :: tasks => some { s with tasks, handling := .handleRequest task }
  | _, _, _ => none

/-- `HandleRequest`, with the response that the callback computes. -/
def handleRequest (transmitterId : ι) (s : Service κ ι Req Res) (response : Res) :
    Option (Message κ ι Req × Service κ ι Req Res) :=
  match s.receiver, s.handling with
  | true, .handleRequest request =>
    some (request, { s with
      handling := .sendResponse ⟨response, { request.info with senderId := transmitterId }, request.call⟩ })
  | _, _ => none

def sendResponse (s : Service κ ι Req Res) : Option (Message κ ι Res × Service κ ι Req Res) :=
  match s.receiver, s.handling with
  | true, .sendResponse response => some (response, { s with handling := .waiting })
  | _, _ => none

/-- The first half of `destroy`. -/
def stop (s : Service κ ι Req Res) : Service κ ι Req Res :=
  { s with inited := false }

/-- The second half of `destroy`. -/
def clear (s : Service κ ι Req Res) : Service κ ι Req Res :=
  { s with tasks := [] }

end Service

/-- The callback of a service has computed a response to the request of a call. -/
structure Computed (κ σ Req Res : Type) where
  service : σ
  call : κ × Nat
  request : Req
  response : Res
  deriving DecidableEq

/-- Any number of clients and services on one service name. `requests` and `responses` are all messages that were ever
sent, each of which may arrive any number of times, anywhere, or not at all. `computed` is a history. -/
structure State (κ σ ι Req Res : Type) where
  client : κ → Client ι Req Res
  service : σ → Service κ ι Req Res
  requests : List (Message κ ι Req)
  responses : List (Message κ ι Res)
  computed : List (Computed κ σ Req Res)

namespace State
variable {κ σ ι Req Res : Type}

def create : State κ σ ι Req Res :=
  ⟨fun _ => .create, fun _ => .create, [], [], []⟩

def setClient [DecidableEq κ] (s : State κ σ ι Req Res) (c : κ) (after : Client ι Req Res) : State κ σ ι Req Res :=
  { s with client := Function.update s.client c after }

def setService [DecidableEq σ] (s : State κ σ ι Req Res) (p : σ) (after : Service κ ι Req Res) : State κ σ ι Req Res :=
  { s with service := Function.update s.service p after }

end State

inductive Event (κ σ Req Res : Type)
  | initClient (c : κ)
  | asyncSendRequest (c : κ) (request : Req)
  | transmit (c : κ)
  | store (c : κ)
  | handleResponse (c : κ) (i : Nat)
  | setValue (c : κ)
  | callback (c : κ)
  | initService (p : σ)
  | enqueue (p : σ) (i : Nat)
  | pop (p : σ)
  | handleRequest (p : σ) (response : Res)
  | sendResponse (p : σ)
  | stop (p : σ)
  | clear (p : σ)

/-- The ids of the transmitters of the clients and of the services. -/
structure Setup (κ σ ι : Type) where
  writerId : κ → ι
  transmitterId : σ → ι

variable {κ σ ι : Type} [DecidableEq κ] [DecidableEq σ] [DecidableEq ι]

def machine (Req Res : Type) (setup : Setup κ σ ι) : Machine (State κ σ ι Req Res) (Event κ σ Req Res) where
  init := .create
  step s
    | .initClient c => some (s.setClient c (s.client c).init)
    | .asyncSendRequest c request =>
      ((s.client c).asyncSendRequest (setup.writerId c) request).map fun after => s.setClient c after
    | .transmit c => ((s.client c).transmit c).map fun r =>
      { s.setClient c r.2 with requests := s.requests ++ [r.1] }
    | .store c => (s.client c).store.map fun after => s.setClient c after
    | .handleResponse c i => do
      let response ← s.responses[i]?
      let after ← (s.client c).handleResponse (setup.writerId c) response
      return s.setClient c after
    | .setValue c => (s.client c).setValue.map fun after => s.setClient c after
    | .callback c => (s.client c).callback.map fun after => s.setClient c after
    | .initService p => some (s.setService p (s.service p).init)
    | .enqueue p i => s.requests[i]?.map fun request => s.setService p ((s.service p).enqueue request)
    | .pop p => (s.service p).pop.map fun after => s.setService p after
    | .handleRequest p response => ((s.service p).handleRequest (setup.transmitterId p) response).map fun r =>
      { s.setService p r.2 with computed := s.computed ++ [⟨p, r.1.call, r.1.payload, response⟩] }
    | .sendResponse p => (s.service p).sendResponse.map fun r =>
      { s.setService p r.2 with responses := s.responses ++ [r.1] }
    | .stop p => some (s.setService p (s.service p).stop)
    | .clear p => some (s.setService p (s.service p).clear)

end CyberRT.Rpc
