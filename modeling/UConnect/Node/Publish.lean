/-
  Node/Publish.lean --- publishing topics over the control connection.

  Source: src/api/node.cpp, `publish`, `unpublish`, `wait_for`, `send_register`,
  `on_control_message`, `join` and `leave`, with `on_message` of
  src/server/control_service.cpp at the other end.

  One node and the server, joined by a connection that is up and delivers in
  order.  The node's half with its bytes, its other requests and its reconnects
  is Node/ControlLoop, and Node/Linked says how the two go together.

  Messages are taken decoded, and only those about registrations.  A call of
  `publish` is a request the loop does not own, from the moment it is made until
  the call returns; its deadline is not modelled, so it may pass at any time.

  Transactions are numbers of 32 bits and come round; whatever else the node
  asks the server takes some of them too.  `asked` counts them and is not in the
  code.
-/
import UConnect.Server.Registry

set_option autoImplicit false

namespace UConnect.Node

open UConnect.Foundation UConnect.Crypto UConnect.Server

/-! ## Data model

The node's topics and requests, what is on its way in both directions, and the
server. -/

/-- `Topic::Impl`, what publishing reads and writes of it.  `self` is the
record's device as the last reply named it; `reregistering` keeps the loop from
asking twice. -/
structure TopicImpl where
  keyed : Bool := false
  self : Option DevId := none
  published : Bool := false
  unlisted : Bool := false
  reregistering : Bool := false
  «meta» : Bytes := []
  deriving DecidableEq

/-- What a request is for: `register_for` or `keepalive_for`, and with it the
reply it expects. -/
inductive Purpose where
  | register (topic : TopicId)
  | keepalive (topic : TopicId)
  deriving DecidableEq

/-- `Request`.  Of a stored reply only the device id is read.  One the loop does
not own belongs to a call that waits, and stays until that call has returned. -/
structure Request where
  purpose : Purpose
  loopOwned : Bool := false
  done : Bool := false
  error : ErrorCode := .none
  reply : Option DevId := none
  deriving DecidableEq

/-- A message to the server. -/
inductive CtlMessage where
  | register (txn : Nat) (m : Register)
  | keepalive (txn : Nat) (dev : DevId)
  | unregister (txn : Nat) (dev : DevId)
  deriving DecidableEq

/-- A message from the server. -/
inductive CtlReply where
  | registerOk (txn : Nat) (dev : DevId)
  | keepaliveOk (txn : Nat)
  | unregisterOk (txn : Nat)
  | error (txn : Nat) (code : ErrorCode)
  deriving DecidableEq

/-- The transaction a message opens. -/
def CtlMessage.txn : CtlMessage → Nat
  | .register txn _ => txn
  | .keepalive txn _ => txn
  | .unregister txn _ => txn

/-- The transaction a reply names. -/
def CtlReply.txn : CtlReply → Nat
  | .registerOk txn _ => txn
  | .keepaliveOk txn => txn
  | .unregisterOk txn => txn
  | .error txn _ => txn

/-- The node, the connection and the server's registry.  The constructor of the
node draws the first transaction at random. -/
structure ControlLink where
  topics : AList (fun _ : TopicId => TopicImpl) := ∅
  requests : AList (fun _ : Nat => Request) := ∅
  nextTxn : Nat
  hostCands : List Candidate := []
  /-- Topics `leave` took out of the table and has not unpublished yet. -/
  leaving : List (TopicId × TopicImpl) := []
  toServer : List CtlMessage := []
  toNode : List CtlReply := []
  registry : Registry
  /-- The transactions given out. -/
  asked : Nat := 0

/-- The connection, as the server knows it. -/
structure ConnView where
  key : ConnKey
  src : Endpoint

namespace ControlLink

variable (P : Primitives) (conn : ConnView)

/-! ## The node's side

Requests, notices and the calls of the application. -/

/-- `alloc_txn`, once its value has been read.  The counter comes round at 2^32,
and a request filed under a number in use replaces the one that was there. -/
def allocTxn (l : ControlLink) : ControlLink :=
  { l with nextTxn := (l.nextTxn + 1) % 2 ^ 32, asked := l.asked + 1 }

/-- `request`: the message goes out under a new transaction, which is
remembered.  A request that is there under the same transaction is written over. -/
def request (l : ControlLink) (message : Nat → CtlMessage) (req : Request) : ControlLink :=
  { l.allocTxn with
    toServer := l.toServer ++ [message l.nextTxn]
    requests := l.requests.insert l.nextTxn req }

/-- `notify`: a message whose reply nobody waits for. -/
def notify (l : ControlLink) (message : Nat → CtlMessage) : ControlLink :=
  { l.allocTxn with toServer := l.toServer ++ [message l.nextTxn] }

/-- `topics[tid]`, written back. -/
def setTopic (l : ControlLink) (tid : TopicId) (ti : TopicImpl) : ControlLink :=
  { l with topics := l.topics.insert tid ti }

/-- The REGISTER of a topic. -/
def registerMessage (l : ControlLink) (tid : TopicId) (ti : TopicImpl) : Register where
  id := tid
  mode := if ti.keyed then .keyed else .open
  unlisted := ti.unlisted
  hostCands := l.hostCands
  «meta» := ti.meta

/-- `send_register`, of the loop itself. -/
def sendRegister (l : ControlLink) (tid : TopicId) (ti : TopicImpl) : ControlLink :=
  l.request (.register · (l.registerMessage tid ti))
    { purpose := .register tid, loopOwned := true }

/-- `join`: a topic, if it is not there already. -/
def join (l : ControlLink) (tid : TopicId) (keyed : Bool) : ControlLink :=
  match l.topics.lookup tid with
  | some _ => l
  | none => l.setTopic tid { keyed := keyed }

/-- `publish` up to its wait.  What was asked for is written down first. -/
def publish (l : ControlLink) (tid : TopicId) («meta» : Bytes) (unlisted : Bool) : ControlLink :=
  match l.topics.lookup tid with
  | none => l
  | some ti =>
      let ti := { ti with «meta» := «meta», unlisted := unlisted }
      (l.setTopic tid ti).request (.register · (l.registerMessage tid ti))
        { purpose := .register tid }

/-- The waiting `publish` of request `txn` looks again; `expired` says that its
deadline has passed.  Before that it returns once the request is done and goes
on waiting otherwise.  After it the reply is not looked at any more: a request
that is not done is left to the loop, one that is done is erased. -/
def wake (l : ControlLink) (txn : Nat) (expired : Bool) : ControlLink :=
  match l.requests.lookup txn with
  | none => l
  | some req =>
      match req.purpose with
      | .keepalive _ => l
      | .register tid =>
          let finished := !expired && req.done
          if req.loopOwned || (!expired && !finished) then l
          else
            let ok := if finished && req.error = .none then req.reply else none
            let l := { l with
              requests :=
                if !finished && !req.done then l.requests.insert txn { req with loopOwned := true }
                else l.requests.erase txn }
            match ok, l.topics.lookup tid with
            | some dev, some ti =>
                l.setTopic tid
                  { ti with self := some dev, published := true, reregistering := false }
            | _, _ => l

/-- `unpublish`, of a topic's record wherever it is.  Without a record nothing
is sent. -/
def unregisterSelf (l : ControlLink) (ti : TopicImpl) : ControlLink :=
  match ti.self with
  | none => l
  | some dev => l.notify (.unregister · dev)

/-- `unpublish`: the record is given up at once, whatever the server answers. -/
def unpublish (l : ControlLink) (tid : TopicId) : ControlLink :=
  match l.topics.lookup tid with
  | none => l
  | some ti => (l.unregisterSelf ti).setTopic tid { ti with published := false, self := none }

/-- Is a call of `publish` active for the topic? -/
def publishActive (l : ControlLink) (tid : TopicId) : Bool :=
  l.requests.entries.any fun e => !e.2.loopOwned && e.2.purpose = .register tid

/-- `leave`, its first half: the topic leaves the table.  A reference to a topic
is good until `leave`, so no call on it is active. -/
def leave (l : ControlLink) (tid : TopicId) : ControlLink :=
  match l.topics.lookup tid with
  | none => l
  | some ti =>
      if l.publishActive tid then l
      else { l with topics := l.topics.erase tid, leaving := l.leaving ++ [(tid, ti)] }

/-- `leave`, its second half, for one of the topics that wait for it. -/
def leaveRest (l : ControlLink) (i : Nat) : ControlLink :=
  match l.leaving[i]? with
  | none => l
  | some (_, ti) => { l with leaving := l.leaving.eraseIdx i }.unregisterSelf ti

/-! ## The loop

What the network thread does with a reply. -/

/-- A topic's keepalive, where one is due; is one pending, none is sent. -/
def sendKeepalive (l : ControlLink) (tid : TopicId) : ControlLink :=
  match l.topics.lookup tid with
  | none => l
  | some ti =>
      match ti.self with
      | none => l
      | some dev =>
          if !ti.published || l.requests.entries.any fun e =>
              !e.2.done && e.2.purpose = .keepalive tid then l
          else
            l.request (.keepalive · dev) { purpose := .keepalive tid, loopOwned := true }

/-- A published topic registers again: on a new connection, or when the server
does not know it any more. -/
def reregister (l : ControlLink) (tid : TopicId) : ControlLink :=
  match l.topics.lookup tid with
  | none => l
  | some ti =>
      if ti.published && !ti.reregistering then
        let ti := { ti with reregistering := true }
        (l.setTopic tid ti).sendRegister tid ti
      else l

/-- `ti->reregistering = false`, where there is a topic. -/
def registered (l : ControlLink) : Purpose → ControlLink
  | .keepalive _ => l
  | .register tid =>
      match l.topics.lookup tid with
      | none => l
      | some ti => l.setTopic tid { ti with reregistering := false }

/-- Is a call of `publish` for the topic in flight whose request has not failed? -/
def publishing (l : ControlLink) (tid : TopicId) : Bool :=
  l.requests.entries.any fun e =>
    !e.2.loopOwned && e.2.purpose = .register tid && e.2.error = .none

/-- A loop-owned registration succeeded. -/
def applyRegister (l : ControlLink) (tid : TopicId) (dev : DevId) : ControlLink :=
  match l.topics.lookup tid with
  | some ti =>
      if ti.published then l.setTopic tid { ti with reregistering := false, self := some dev }
      else
        let l' := l.setTopic tid { ti with reregistering := false }
        if l.publishing tid then l' else l'.notify (.unregister · dev)
  | none => if l.publishing tid then l else l.notify (.unregister · dev)

/-- The `Error` half of `on_control_message`. -/
def onError (l : ControlLink) (txn : Nat) (code : ErrorCode) : ControlLink :=
  match l.requests.lookup txn with
  | none => l
  | some req =>
      let again := match req.purpose with
        | .register _ => none
        | .keepalive tid =>
            if (code = .notFound || code = .badAuth) &&
                (l.topics.lookup tid).any fun ti => ti.published && !ti.reregistering then some tid
            else none
      match again with
      | some tid => { l with requests := l.requests.erase txn }.reregister tid
      | none =>
          let l := l.registered req.purpose
          if req.loopOwned then { l with requests := l.requests.erase txn }
          else
            { l with requests := l.requests.insert txn { req with error := code, done := true } }

/-- `on_control_message`; a reply of another type than expected is ignored. -/
def onControlMessage (l : ControlLink) : CtlReply → ControlLink
  | .error txn code => l.onError txn code
  | .registerOk txn dev =>
      match l.requests.lookup txn with
      | none => l
      | some req =>
          match req.purpose with
          | .keepalive _ => l
          | .register tid =>
              if req.loopOwned then
                let l := l.applyRegister tid dev
                { l with requests := l.requests.erase txn }
              else
                { l with
                  requests := l.requests.insert txn { req with done := true, reply := some dev } }
  | .keepaliveOk txn =>
      match l.requests.lookup txn with
      | none => l
      | some req =>
          match req.purpose with
          | .register _ => l
          | .keepalive _ => { l with requests := l.requests.erase txn }
  | .unregisterOk _ => l

/-- The loop takes the next reply. -/
def hear (l : ControlLink) : ControlLink :=
  match l.toNode with
  | [] => l
  | r :: rest => { l with toNode := rest }.onControlMessage r

/-! ## The server's side

The part of the service that is about records, over the registry itself. -/

/-- The answer to a call that returned `code`. -/
def answer (code : ErrorCode) (txn : Nat) (ok : CtlReply) : CtlReply :=
  if code = .none then ok else .error txn code

/-- `ControlService::on_message`, for the three messages about a record of one's
own. -/
def onMessage (r : Registry) (now : Instant) : CtlMessage → CtlReply × Registry
  | .register txn m =>
      let (res, r) := r.registerEntry P m conn.src conn.key now
      (answer res.code txn (.registerOk txn res.devId), r)
  | .keepalive txn dev =>
      let (code, r) := r.refresh dev conn.key now
      (answer code txn (.keepaliveOk txn), r)
  | .unregister txn dev =>
      let (code, r) := r.unregister dev conn.key
      (answer code txn (.unregisterOk txn), r)

/-- The server takes the next message. -/
def serve (l : ControlLink) (now : Instant) : ControlLink :=
  match l.toServer with
  | [] => l
  | m :: rest =>
      let (reply, r) := onMessage P conn l.registry now m
      { l with toServer := rest, toNode := l.toNode ++ [reply], registry := r }

/-! ## Runs

The node's calls and its loop, the delivery of either side's next message, and
whatever else the server does with its registry. -/

/-- What happens next. -/
inductive Op where
  | join (tid : TopicId) (keyed : Bool)
  | publish (tid : TopicId) («meta» : Bytes) (unlisted : Bool)
  | wake (txn : Nat) (expired : Bool)
  | unpublish (tid : TopicId)
  | leave (tid : TopicId)
  | leaveRest (i : Nat)
  | sendKeepalive (tid : TopicId)
  | reregister (tid : TopicId)
  | hear
  /-- The node sends a message about something else. -/
  | other
  | serve (now : Instant)
  /-- Any call of the server's registry but a registration by this connection. -/
  | registry (op : Registry.Op)

/-- The connection that registers, where an operation registers. -/
def registrar : Registry.Op → Option ConnKey
  | .register _ _ owner _ => some owner
  | _ => none

/-- One step. -/
def step (l : ControlLink) : Op → ControlLink
  | .join tid keyed => l.join tid keyed
  | .publish tid «meta» unlisted => l.publish tid «meta» unlisted
  | .wake txn expired => l.wake txn expired
  | .unpublish tid => l.unpublish tid
  | .leave tid => l.leave tid
  | .leaveRest i => l.leaveRest i
  | .sendKeepalive tid => l.sendKeepalive tid
  | .reregister tid => l.reregister tid
  | .hear => l.hear
  | .other => l.allocTxn
  | .serve now => l.serve P conn now
  | .registry op =>
      if registrar op = some conn.key then l else { l with registry := l.registry.step P op }

end ControlLink

end UConnect.Node
