/-
  Server/ControlPath.lean --- a node's connection to the server, from end to
  end.

  Source: src/api/node.cpp, `request`, `notify` and `drive_control`, and
  server/rendezvous.cpp, `read_from` and `on_frame`.

  The node queues messages on its connection, the connection carries bytes, and
  the service is told of messages.  Between the two programs only this is
  assumed: what the server's socket has returned is the front of what the node's
  socket has taken.
-/
import UConnect.Server.Messages
import UConnect.Node.ControlRuns

set_option autoImplicit false

namespace UConnect.Server.Rendezvous

open UConnect UConnect.Foundation UConnect.Crypto UConnect.Wire

variable {P : Primitives} {s : Rendezvous} {c : Node.ControlLoop} {d : Conn}
  {heard : List (ConnKey × Bytes)}

/-- What the service has heard of a connection, with what the loop holds of it,
are the first messages of the node whose bytes it carries, and no reader, of a
live connection or a dead one, has been broken by them. -/
theorem Heard.of_written (h : Heard heard s) (hd : d ∈ s.all) (hmode : d.mode = .control)
    (hwhole : c.Whole) (hreceived : d.received <+: c.written) :
    saidBy d.key heard ++ s.doing.keeps d.key <+: c.queued ∧ d.reader.broken = false ∧
      (d.dead = false → c.ctlOut = [] → d.received = c.written → d.reader.next.1 = none →
        saidBy d.key heard ++ s.doing.keeps d.key = c.queued) := by
  have hstream : d.received <+: stream c.queued := hreceived.trans hwhole.written_prefix
  obtain ⟨taken, hread, htaken, hlive⟩ := (h.carries d hd hmode).reads
  -- what the reader took is the front of what the node wrote, even where it did not take all
  obtain ⟨hfront, hgood, hall⟩ := hread.of_front hwhole.carried (htaken.trans hstream)
  refine ⟨hfront, hgood, fun halive hout hsame hdone => hall ?_ hdone⟩
  rw [hlive halive, hsame, hwhole.split, hout, List.append_nil]

/-- Whatever the node does and whatever the server's threads do, the service
hears of the node's connection the messages the node has queued on it, in that
order, from the first one on and each once; whatever else ends the connection,
its reader is never broken by what the node sends; and when everything has been
written and read, and the loop has nothing left to do, the service has heard
them all. -/
theorem service_hears_the_node (keepalive : Duration) (hostCands : List Candidate)
    (firstTxn : UInt32) (ops : List Node.ControlLoop.Op) (cfg : RendezvousConfig) (secret : SymKey)
    (actions : List Action) {d : Conn}
    (hd : d ∈ (run (step P) (start cfg secret) actions).all) (hmode : d.mode = .control)
    (hreceived : d.received <+: (run Node.ControlLoop.step
      (Node.ControlLoop.start keepalive hostCands firstTxn) ops).written) :
    let c := run Node.ControlLoop.step (Node.ControlLoop.start keepalive hostCands firstTxn) ops
    let s := run (step P) (start cfg secret) actions
    let heard := trace given (step P) (start cfg secret) actions
    saidBy d.key heard <+: c.queued ∧ d.reader.broken = false ∧
      (d.dead = false → c.ctlOut = [] → d.received = c.written → d.reader.next.1 = none →
        s.doing = .nothing → saidBy d.key heard = c.queued) := by
  intro c s heard
  have hheard := (listening_run (P := P) cfg secret actions).hears
  obtain ⟨hfront, hgood, hall⟩ := hheard.of_written hd hmode
    (Node.ControlLoop.whole_run keepalive hostCands firstTxn ops) hreceived
  refine ⟨(List.prefix_append _ _).trans hfront, hgood, fun hlive hout hsame hdone hidle => ?_⟩
  have heq := hall hlive hout hsame hdone
  rw [hidle] at heq
  have hkeeps : Doing.nothing.keeps d.key = [] := rfl
  rwa [hkeeps, List.append_nil] at heq

/-- A call for the statistics of a topic, without a body. -/
def sampleQuestion : Node.ControlLoop.Question where
  type := .stats
  asked := by decide
  fits := by decide

/-- The connection comes up, a second message is queued, and both are written. -/
def sampleOps : List Node.ControlLoop.Op :=
  [.driveDown 0 true, .driveConnecting 5 5 .connected, .notify sampleQuestion,
    .send 6 (some 1000)]

/-- The node after that. -/
def sampleNode : Node.ControlLoop :=
  run Node.ControlLoop.step (Node.ControlLoop.start (seconds 15) [] 1) sampleOps

/-- A message that the bucket admits. -/
def sampleVerdict : Verdict := ⟨true, ControlService.sampleDraws⟩

/-- The bytes arrive in two pieces, the first of which ends within a frame. -/
def sampleActions : List Action :=
  [.accept (some (ControlService.sampleAddress 7)) 5,
    .read .loop 1 (some (sampleNode.written.take 9)) 6, .frame 1 6 sampleVerdict,
    .read .loop 1 (some (sampleNode.written.drop 9)) 7, .frame 1 7 sampleVerdict,
    .goOn 7 sampleVerdict, .frame 1 7 sampleVerdict]

/-- The service hears both. -/
theorem service_hears_both :
    ∃ d ∈ (run (step Primitives.checksum) (start {} (Vector.replicate 32 0)) sampleActions).all,
      sampleNode.queued.length = 2 ∧
      saidBy d.key (trace given (step Primitives.checksum) (start {} (Vector.replicate 32 0))
        sampleActions) = sampleNode.queued := by
  have hany : (run (step Primitives.checksum) (start {} (Vector.replicate 32 0))
      sampleActions).all.any (fun d => d.mode = .control && d.received = sampleNode.written &&
        d.dead = false && d.reader.next.1 = none) = true := by decide +kernel
  obtain ⟨d, hd, hall⟩ := List.any_eq_true.mp hany
  simp only [Bool.and_eq_true, decide_eq_true_eq] at hall
  obtain ⟨⟨⟨hmode, hsame⟩, hlive⟩, hdone⟩ := hall
  have hfront : d.received <+: sampleNode.written := hsame ▸ List.prefix_rfl
  obtain ⟨-, -, hheard⟩ := service_hears_the_node (seconds 15) [] 1 sampleOps {}
    (Vector.replicate 32 0) sampleActions hd hmode hfront
  exact ⟨d, hd, by decide +kernel, hheard hlive (by decide +kernel) hsame hdone
    (by decide +kernel)⟩

end UConnect.Server.Rendezvous
