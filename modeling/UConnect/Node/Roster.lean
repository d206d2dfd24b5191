/-
  Node/Roster.lean --- topics that come and go, and how many peers a node takes.

  Source: src/api/node.cpp, `Node::leave` with `Topic::disconnect_all`, and
  `live_peer_count`, `total_peer_count` and `can_admit`.

  `leave` takes a topic out of the map under the lock, and disconnects the
  topic's peers under the lock, but not under the same one.  In between the
  topic's attempts are in the table and its connections are pending, and the
  topic may be joined again. (Between the two, `unpublish` clears what only the
  topic that is left holds.)

  The limits are given to each step, so `can_admit` is a function of them and
  the tables.  Where they stay the same they are a parameter of the run;
  `set_max_peers` may also change them between two steps (`stepUnder`).
-/
import UConnect.Foundation.Tally
import UConnect.Node.NonceUse

set_option autoImplicit false

namespace UConnect.Node

open UConnect.Foundation UConnect.Crypto UConnect.Wire

/-! ## Counting peers

A peer is counted while it has a session or an attempt. -/

/-- The peer holds a slot: a session or an attempt. -/
def Peer.live (p : Peer) : Bool := p.sess.isSome || p.attempt.isSome

/-- `Topic::Impl::max_peers` of each topic, and `Config::max_total_peers`. -/
structure PeerLimits where
  maxPeers : TopicId → Nat
  maxTotalPeers : Nat

namespace Book

/-- `live_peer_count`: the peers of a topic with a session or an attempt. -/
def livePeerCount (b : Book) (t : TopicId) : Nat :=
  tally b.peers fun k p => p.live && decide (k.1 = t)

/-- `total_peer_count`: of all topics in the map.  A topic that is being left is
not among them. -/
def totalPeerCount (b : Book) : Nat := (b.topics.keys.map b.livePeerCount).sum

/-- The last line of `can_admit`. -/
def hasRoom (b : Book) (l : PeerLimits) (t : TopicId) : Bool :=
  decide (b.livePeerCount t < l.maxPeers t) && decide (b.totalPeerCount < l.maxTotalPeers)

/-- An operation that may ask for room is told what the tables say. -/
def withRoom (b : Book) (l : PeerLimits) : BookOp → BookOp
  | .act k x a => .act k { x with room := b.hasRoom l k.1 } a
  | op => op

/-- The nonces that `adopt_attempt` is called with, each with its peer. -/
def adoptions (P : Primitives) (b : Book) (op : BookOp) : List (AttemptNonce × PeerKey) :=
  match (b.outcome P op).2 with
  | none => []
  | some (k, _, e) => e.effects.filterMap fun
      | .adopt _ n => some (n, k)
      | _ => none

end Book

/-! ## Leaving

The two lock sections of `leave`, with whatever comes between them. -/

/-- The tables, the peers of the topics that are being left, one table for each,
and the nonces adopted so far, which are history only. -/
structure Roster where
  book : Book := {}
  leaving : List (AList fun _ : PeerKey => Peer) := []
  adopted : List (AttemptNonce × PeerKey) := []

/-- An operation on the tables, or one of the two lock sections of `leave`.  A
run may put anything between the two, as another thread may. -/
inductive RosterOp where
  | book (op : BookOp)
  /-- `leave` takes the topic out of the map. -/
  | leave (t : TopicId)
  /-- The `disconnect_all` of a `leave`. -/
  | disconnectAll (i : Nat) (x : Ctx) (reason : UInt16) (sends : PeerKey → List SendResult)

namespace Roster

variable (P : Primitives) (l : PeerLimits)

/-- A node before anything happens. -/
def fresh (cfg : NodeConfig) : Roster where
  book := Book.fresh cfg

/-- `disconnect_peer` of a peer whose topic has been left. -/
def dismiss (x : Ctx) (reason : UInt16) (sends : PeerKey → List SendResult) (b : Book)
    (kp : Σ _ : PeerKey, Peer) : Book :=
  run (Book.effect x kp.1) b
    (({ peer := kp.2 } : Entry).disconnectPeer P reason (sends kp.1)).effects

/-- One step. -/
def step (r : Roster) : RosterOp → Roster
  | .book op =>
      { r with
        book := r.book.step P (r.book.withRoom l op)
        adopted := r.adopted ++ r.book.adoptions P (r.book.withRoom l op) }
  | .leave t =>
      if (r.book.topics.lookup t).isNone then r
      else
        { r with
          book := { r.book with
            topics := r.book.topics.erase t
            peers := part r.book.peers fun k => decide (k.1 ≠ t) }
          leaving := r.leaving ++ [part r.book.peers fun k => decide (k.1 = t)] }
  | .disconnectAll i x reason sends =>
      match r.leaving[i]? with
      | none => r
      | some ps =>
          { r with
            book := ps.entries.foldl (dismiss P x reason sends) r.book
            leaving := r.leaving.eraseIdx i }

/-- A step under the limits that hold at the time. -/
def stepUnder (r : Roster) (o : PeerLimits × RosterOp) : Roster := r.step P o.1 o.2

/-- A peer of a topic that is being left is on the attempt. -/
def LeftUnder (r : Roster) (k : PeerKey) (n : AttemptNonce) : Prop :=
  ∃ ps ∈ r.leaving, (ps.lookup k).bind Peer.attempt = some n

instance LeftUnder.decidable (r : Roster) (k : PeerKey) (n : AttemptNonce) :
    Decidable (r.LeftUnder k n) :=
  inferInstanceAs (Decidable (∃ ps ∈ r.leaving, (ps.lookup k).bind Peer.attempt = some n))

/-- No session is started under an attempt of a topic that is being left. -/
def StartsClear (r : Roster) : RosterOp → Prop
  | .book op => ∀ s ∈ r.book.started op, ¬ r.LeftUnder s.1 s.2
  | _ => True

instance StartsClear.decidable (r : Roster) : (op : RosterOp) → Decidable (r.StartsClear op)
  | .book op => inferInstanceAs (Decidable (∀ s ∈ r.book.started op, ¬ r.LeftUnder s.1 s.2))
  | .leave _ => inferInstanceAs (Decidable True)
  | .disconnectAll _ _ _ _ => inferInstanceAs (Decidable True)

/-- No nonce is two peers'. -/
def NoncesApart (adopted : List (AttemptNonce × PeerKey)) : Prop :=
  ∀ c ∈ adopted, ∀ c' ∈ adopted, c.1 = c'.1 → c.2 = c'.2

end Roster

end UConnect.Node
