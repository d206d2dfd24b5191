/-
  Server/ServiceRuns.lean --- the service as a user of the registry.

  A message makes at most one call of the registry, always on behalf of the
  connection it came from.  `request` is that call, and `calls` collects the
  calls of any event.  The registry of a service is then the registry after a
  run of calls (`registry_run`), so what holds in every state a run of the
  registry reaches holds under the service.
-/
import UConnect.Server.ControlService
import UConnect.Server.Records
import UConnect.Wire.Decoded

set_option autoImplicit false

namespace UConnect.Server

open UConnect UConnect.Foundation UConnect.Crypto UConnect.Wire

namespace ControlService

/-! ## The call a message makes

One call of the registry at most, which the handler's reply is then about. -/

/-- The call of the registry a message makes, if it gets that far. -/
def request (key : ConnKey) (conn : Conn) (h : Header) (r : Reader) (now : Instant)
    (draws : Draws) : Option Registry.Op :=
  match Request.ofType h.type with
  | .register => ((Register.decode h).run r).map fun x => .register x.1 conn.peer key now
  | .keepalive =>
      if r.remaining = 0 then none
      else (DevRef.decode.run r).map fun x => .refresh x.1.devId key now
  | .update => (Update.decode.run r).map fun x => .update x.1 key now
  | .unregister => (DevRef.decode.run r).map fun x => .unregister x.1.devId key
  | .lookup => ((Lookup.decode h).run r).map fun x =>
      .lookup x.1.id x.1.max x.1.wantMeta now draws.sampler
  | .resolve => (Resolve.decode.run r).map fun x => .resolve x.1.devId now
  | .topics => (Topics.decode.run r).map fun x => .listTopics x.1.cursor x.1.limit now
  | .stats => some (.stats now)
  | .connect => (Connect.decode.run r).map fun x => .connectTarget x.1.fromDev x.1.toDev key
  | .relayAlloc => (RelayAlloc.decode.run r).map fun x =>
      .relayAlloc x.1.fromDev x.1.peerDev x.1.kind key conn.peer now draws.relay
  | .unsupported => none

section Dispatch

variable {P : Primitives} {s s' : ControlService} {key : ConnKey} {conn : Conn} {h : Header}
  {r : Reader} {now : Instant} {draws : Draws} {res : Result}

theorem answer_eq {reg : Registry} {out : List Framed} (ha : s.answer reg out = some (res, s')) :
    res = { out := out } ∧ s' = { s with registry := reg } := by
  obtain ⟨hres, hs⟩ := Prod.mk.inj (Option.some.inj ha)
  exact ⟨hres.symm, hs.symm⟩

theorem malformed_eq {txn : Nat} (hm : s.malformed key txn = some (res, s')) :
    res = { out := [error key txn .badRequest] } ∧ s' = s := answer_eq hm

/-- A message that is answered leaves the registry as its one call leaves it,
and nothing else changes. -/
theorem dispatch_registry (hd : s.dispatch P key conn h r now draws = some (res, s')) :
    s' = { s with registry := ((request key conn h r now draws).map
      (Registry.step P s.registry)).getD s.registry } := by
  have hmal : ∀ {txn : Nat}, s.malformed key txn = some (res, s') → s' = s :=
    fun hm => (malformed_eq hm).2
  unfold dispatch at hd
  unfold request
  cases hq : Request.ofType h.type with
  | register =>
      simp only [hq, onRegister] at hd ⊢
      cases hm : (Register.decode h).run r with
      | none => rw [hm] at hd; exact hmal hd
      | some x =>
          rw [hm] at hd
          dsimp only at hd
          split at hd <;> exact (answer_eq hd).2
  | keepalive =>
      simp only [hq, onKeepalive] at hd ⊢
      split at hd
      · rename_i hrem
        rw [if_pos hrem]
        exact (answer_eq hd).2
      · rename_i hrem
        rw [if_neg hrem]
        cases hm : DevRef.decode.run r with
        | none => rw [hm] at hd; exact hmal hd
        | some x =>
            rw [hm] at hd
            dsimp only at hd
            split at hd <;> exact (answer_eq hd).2
  | update =>
      simp only [hq, onUpdate] at hd ⊢
      cases hm : Update.decode.run r with
      | none => rw [hm] at hd; exact hmal hd
      | some x =>
          rw [hm] at hd
          dsimp only at hd
          split at hd <;> exact (answer_eq hd).2
  | unregister =>
      simp only [hq, onUnregister] at hd ⊢
      cases hm : DevRef.decode.run r with
      | none => rw [hm] at hd; exact hmal hd
      | some x =>
          rw [hm] at hd
          dsimp only at hd
          split at hd <;> exact (answer_eq hd).2
  | lookup =>
      simp only [hq, onLookup] at hd ⊢
      cases hm : (Lookup.decode h).run r with
      | none => rw [hm] at hd; exact hmal hd
      | some x =>
          rw [hm] at hd
          dsimp only at hd
          obtain ⟨_, -, ha⟩ := Option.bind_eq_some_iff.mp hd
          exact (answer_eq ha).2
  | resolve =>
      simp only [hq, onResolve] at hd ⊢
      cases hm : Resolve.decode.run r with
      | none => rw [hm] at hd; exact hmal hd
      | some x => rw [hm] at hd; exact (answer_eq hd).2
  | topics =>
      simp only [hq, onTopics] at hd ⊢
      cases hm : Topics.decode.run r with
      | none => rw [hm] at hd; exact hmal hd
      | some x => rw [hm] at hd; exact (answer_eq hd).2
  | stats =>
      simp only [hq, onStats] at hd ⊢
      exact (answer_eq hd).2
  | connect =>
      simp only [hq, onConnect] at hd ⊢
      cases hm : Connect.decode.run r with
      | none => rw [hm] at hd; exact hmal hd
      | some x =>
          rw [hm] at hd
          dsimp only at hd
          split at hd <;> exact (answer_eq hd).2
  | relayAlloc =>
      simp only [hq, onRelayAlloc] at hd ⊢
      cases hm : RelayAlloc.decode.run r with
      | none => rw [hm] at hd; exact hmal hd
      | some x =>
          rw [hm] at hd
          obtain ⟨⟨g, reg⟩, hg, ha⟩ := Option.bind_eq_some_iff.mp hd
          have hstep : Registry.step P s.registry (.relayAlloc x.1.fromDev x.1.peerDev x.1.kind key
              conn.peer now draws.relay) = reg := by
            rw [Registry.step, hg]
            rfl
          simp only [Option.map_some, Option.getD_some, hstep]
          dsimp only at ha
          split at ha <;> exact (answer_eq ha).2
  | unsupported =>
      simp only [hq] at hd ⊢
      exact (answer_eq hd).2

/-- A message is dropped with its connection, or reaches the `switch`. -/
theorem onMessage_cases {msg : Bytes} {admitted : Bool}
    (hm : s.onMessage P key msg now admitted draws = some (res, s')) :
    (res = { close := true } ∧ s'.registry = s.registry) ∨
      ∃ conn h r, s.conns.lookup key = some conn ∧ admitted = true ∧
        Header.decode { rest := msg } ctlVersion = (some h, r) ∧
        s.dispatch P key conn h r now draws = some (res, s') := by
  unfold onMessage at hm
  cases hconn : s.conns.lookup key with
  | none =>
      rw [hconn] at hm
      cases hm
      exact .inl ⟨rfl, rfl⟩
  | some conn =>
      rw [hconn] at hm
      dsimp only at hm
      cases admitted with
      | false =>
          cases hm
          exact .inl ⟨rfl, rfl⟩
      | true =>
          simp only [Bool.not_true, Bool.false_eq_true, if_false] at hm
          rcases hh : Header.decode { rest := msg } ctlVersion with ⟨- | h, r⟩
          · rw [hh] at hm
            cases hm
            exact .inl ⟨rfl, rfl⟩
          · rw [hh] at hm
            exact .inr ⟨conn, h, r, rfl, rfl, rfl, hm⟩

end Dispatch

/-! ## The calls of an event

An event as a list of calls of the registry, so that a run of the service is a
run of the registry. -/

/-- The call of the registry a datagram makes. -/
def udpRequest (src : Address) (h : Header) (r : Reader) (now : Instant) : Option Registry.Op :=
  if h.type = .whoAmI then none
  else if h.type = .udpRelayBind then
    (UdpRelayBind.decode.run r).map fun x => .udpBind x.1.relayId x.1.token src now
  else if h.type = .relayData then
    (RelayData.decode.run r).map fun x => .udpForward x.1.relayId src x.1.payload.length now
  else none

/-- The calls of the registry an event makes. -/
def calls (P : Primitives) (s : ControlService) : Event → List Registry.Op
  | .opened _ _ => []
  | .closed key => [.dropOwner key]
  | .message key msg now admitted draws =>
      match s.conns.lookup key, Header.decode { rest := msg } ctlVersion with
      | some conn, (some h, r) =>
          if admitted && (s.onMessage P key msg now admitted draws).isSome then
            (request key conn h r now draws).toList
          else []
      | _, _ => []
  | .udp src dgram now admitted =>
      if (src.val.ip.bytes ∉ s.udpBuckets && s.udpBuckets.entries.length ≥ s.maxUdpSources) ||
          !admitted then []
      else
        match Header.decode { rest := dgram } ctlVersion with
        | (some h, r) => (udpRequest src h r now).toList
        | (none, _) => []
  | .tick now => [.sweep now]
  | .charge id bytes now => [.relayCharge id bytes now]
  | .stats now => [.stats now]

section Runs

variable {P : Primitives} {s : ControlService}

theorem run_toList (r : Registry) (op : Option Registry.Op) :
    run (Registry.step P) r op.toList = (op.map (Registry.step P r)).getD r := by
  cases op with
  | none => rfl
  | some op => rfl

theorem onUdp_registry (src : Address) (dgram : Bytes) (now : Instant) (admitted : Bool) :
    (s.onUdp src dgram now admitted).2.registry =
      run (Registry.step P) s.registry (s.calls P (.udp src dgram now admitted)) := by
  unfold onUdp
  simp only [calls]
  split
  · rename_i hfull
    rw [hfull, Bool.true_or, if_pos rfl]
    rfl
  · rename_i hfull
    have hroom := Bool.eq_false_of_not_eq_true hfull
    rw [hroom, Bool.false_or]
    cases admitted with
    | false => rfl
    | true =>
        rcases Header.decode { rest := dgram } ctlVersion with ⟨- | h, r⟩
        · rfl
        · simp only [Bool.not_true, Bool.false_eq_true, if_false, udpRequest]
          split
          · cases WhoAmI.decode.run r with
            | none => rfl
            | some x => rfl
          split
          · cases UdpRelayBind.decode.run r with
            | none => rfl
            | some x =>
                dsimp only
                split <;> rfl
          split
          · cases RelayData.decode.run r with
            | none => rfl
            | some x =>
                dsimp only
                split <;> rfl
          · rfl

/-- The registry after an event is the registry after the calls the event makes. -/
theorem step_registry (e : Event) :
    (step P s e).registry = run (Registry.step P) s.registry (s.calls P e) := by
  cases e with
  | opened key peer => rfl
  | closed key => rfl
  | message key msg now admitted draws =>
      show (((s.onMessage P key msg now admitted draws).map (·.2)).getD s).registry = _
      simp only [calls]
      unfold onMessage
      cases s.conns.lookup key with
      | none => rfl
      | some conn =>
          cases admitted with
          | false => rcases Header.decode { rest := msg } ctlVersion with ⟨- | h, r⟩ <;> rfl
          | true =>
              rcases Header.decode { rest := msg } ctlVersion with ⟨- | h, r⟩
              · rfl
              · simp only [Bool.not_true, Bool.false_eq_true, if_false, Bool.true_and]
                cases hd : s.dispatch P key conn h r now draws with
                | none => rfl
                | some p =>
                    obtain ⟨res, s'⟩ := p
                    rw [Option.isSome_some, if_pos rfl, run_toList, Option.map_some,
                      Option.getD_some, dispatch_registry hd]
  | udp src dgram now admitted => exact onUdp_registry src dgram now admitted
  | tick now => rfl
  | charge id bytes now => rfl
  | stats now => rfl

/-- The calls a run of events makes. -/
def allCalls (P : Primitives) (s : ControlService) (events : List Event) : List Registry.Op :=
  trace (calls P) (step P) s events

/-- The registry of a run of events is the registry of a run of calls. -/
theorem registry_run (s : ControlService) (events : List Event) :
    (run (step P) s events).registry =
      run (Registry.step P) s.registry (s.allCalls P events) := by
  induction events generalizing s with
  | nil => rfl
  | cons e events ih =>
      have hcalls :
          s.allCalls P (e :: events) = s.calls P e ++ (step P s e).allCalls P events := rfl
      rw [run_cons, ih, hcalls, run_append, ← step_registry]

/-! ## What the calls carry

Messages that were decoded have their lists within the caps and their addresses
in normal form. -/

/-- A call that puts into the registry only what a decoder returns and an
address the socket layer reports. -/
def Clean : Registry.Op → Prop
  | .register msg src _ _ =>
      Normal msg.hostCands ∧ msg.«meta».length ≤ kMaxMeta ∧ src.normal = src
  | .update msg _ _ => Normal msg.hostCands ∧ msg.«meta».length ≤ kMaxMeta
  | _ => True

theorem request_clean {key : ConnKey} {conn : Conn} {h : Header} {r : Reader} {now : Instant}
    {draws : Draws} {op : Registry.Op} (hop : request key conn h r now draws = some op) :
    Clean op := by
  unfold request at hop
  split at hop
  · obtain ⟨⟨m, r'⟩, hm, rfl⟩ := Option.map_eq_some_iff.mp hop
    obtain ⟨hcands, hmeta⟩ := Register.decode_spec hm
    exact ⟨hcands, hmeta, conn.peer.property⟩
  · split at hop
    · cases hop
    · obtain ⟨x, -, rfl⟩ := Option.map_eq_some_iff.mp hop
      trivial
  · obtain ⟨⟨m, r'⟩, hm, rfl⟩ := Option.map_eq_some_iff.mp hop
    exact Update.decode_spec hm
  · obtain ⟨x, -, rfl⟩ := Option.map_eq_some_iff.mp hop
    trivial
  · obtain ⟨x, -, rfl⟩ := Option.map_eq_some_iff.mp hop
    trivial
  · obtain ⟨x, -, rfl⟩ := Option.map_eq_some_iff.mp hop
    trivial
  · obtain ⟨x, -, rfl⟩ := Option.map_eq_some_iff.mp hop
    trivial
  · cases hop
    trivial
  · obtain ⟨x, -, rfl⟩ := Option.map_eq_some_iff.mp hop
    trivial
  · obtain ⟨x, -, rfl⟩ := Option.map_eq_some_iff.mp hop
    trivial
  · cases hop

theorem udpRequest_clean {src : Address} {h : Header} {r : Reader} {now : Instant}
    {op : Registry.Op} (hop : udpRequest src h r now = some op) : Clean op := by
  unfold udpRequest at hop
  split at hop
  · cases hop
  split at hop
  · obtain ⟨x, -, rfl⟩ := Option.map_eq_some_iff.mp hop
    trivial
  split at hop
  · obtain ⟨x, -, rfl⟩ := Option.map_eq_some_iff.mp hop
    trivial
  · cases hop

/-- The call of a message, if its event makes one. -/
theorem mem_calls_message {key : ConnKey} {msg : Bytes} {now : Instant} {admitted : Bool}
    {draws : Draws} {op : Registry.Op}
    (hop : op ∈ s.calls P (.message key msg now admitted draws)) :
    ∃ conn h r, s.conns.lookup key = some conn ∧
      Header.decode { rest := msg } ctlVersion = (some h, r) ∧
      request key conn h r now draws = some op := by
  simp only [calls] at hop
  split at hop
  · rename_i conn h r hconn hh
    split at hop
    · exact ⟨conn, h, r, hconn, hh, Option.mem_toList.mp hop⟩
    · exact absurd hop List.not_mem_nil
  · exact absurd hop List.not_mem_nil

theorem calls_clean {e : Event} {op : Registry.Op} (hop : op ∈ s.calls P e) : Clean op := by
  cases e with
  | opened key peer => exact absurd hop List.not_mem_nil
  | closed key =>
      rw [List.mem_singleton.mp hop]
      trivial
  | message key msg now admitted draws =>
      obtain ⟨conn, h, r, -, -, hreq⟩ := mem_calls_message hop
      exact request_clean hreq
  | udp src dgram now admitted =>
      simp only [calls] at hop
      split at hop
      · exact absurd hop List.not_mem_nil
      · split at hop
        · exact udpRequest_clean (Option.mem_toList.mp hop)
        · exact absurd hop List.not_mem_nil
  | tick now =>
      rw [List.mem_singleton.mp hop]
      trivial
  | charge id bytes now =>
      rw [List.mem_singleton.mp hop]
      trivial
  | stats now =>
      rw [List.mem_singleton.mp hop]
      trivial

end Runs

/-! ## What the records hold

And so have the records, which are made of such messages only. -/

/-- A record as decoders and the socket layer fill it. -/
structure Stored (e : Entry) : Prop where
  cands : Normal e.hostCands
  meta_le : e.«meta».length ≤ kMaxMeta
  addr : e.boundAddr.normal = e.boundAddr

/-- Every record is. -/
def AllStored (r : Registry) : Prop := ∀ dev e, r.byDev.lookup dev = some e → Stored e

theorem AllStored.step {P : Primitives} {r : Registry} (h : AllStored r) {op : Registry.Op}
    (hop : Clean op) : AllStored (Registry.step P r op) := by
  intro dev e he
  generalize hx : (Registry.step P r op).byDev.lookup dev = x at he
  have hchange := Registry.step_record P r op dev
  rw [hx] at hchange
  cases hchange with
  | same => exact h dev e he
  | written hdev =>
      cases he
      exact ⟨hop.1, hop.2.1, hop.2.2⟩
  | seen hold =>
      cases he
      obtain ⟨hcands, hmeta, haddr⟩ := h dev _ hold
      exact ⟨hcands, hmeta, haddr⟩
  | updated hold hdev =>
      cases he
      exact ⟨hop.1, hop.2, (h dev _ hold).addr⟩
  | unregistered hold => cases he
  | dropped hold => cases he

theorem allStored_run {P : Primitives} {s : ControlService} (h : AllStored s.registry)
    (events : List Event) : AllStored (run (step P) s events).registry := by
  refine run_invariant (I := fun s : ControlService => AllStored s.registry) ?_ h events
  intro s e hs
  rw [step_registry]
  have hstep : ∀ (r : Registry) (op : Registry.Op), Clean op → AllStored r →
      AllStored (Registry.step P r op) := fun _ _ hop hr => hr.step hop
  exact run_invariant_of_allSteps hstep hs _
    (allSteps_of_forall (fun op hop => calls_clean hop) _)

theorem allStored_init (cfg : RegistryConfig) (secret : SymKey) :
    AllStored { cfg := cfg, secret := secret } :=
  fun _ _ he => nomatch he

/-! ## Sample runs

A service with two connections, for the samples of the modules that follow. -/

/-- An address of the socket layer. -/
def sampleAddress (port : UInt16) : Address :=
  ⟨{ port := port.toNat }, by
    unfold Endpoint.normal
    rw [Nat.mod_eq_of_lt port.toNat_lt]
    congr 1⟩

/-- The random values of the samples. -/
def sampleDraws : Draws where
  sampler := { shuffle := id, draws := [] }
  relay := { ids := [9], token := fun side => Vector.replicate 16 (if side = 0 then 1 else 2) }

/-- A message, as an event. -/
def sampleMessage (key : ConnKey) (msg : Bytes) : Event := .message key msg 3 true sampleDraws

/-- A registration of the one topic. -/
def sampleRegister : Bytes := message .register 5 (Register.encode { id := Vector.replicate 16 1 })

/-- The device the registration makes for `port`. -/
def sampleDevice (port : Nat) : DevId :=
  Registry.deriveDevId Primitives.checksum (Vector.replicate 32 0) (Vector.replicate 16 1)
    { port := port }

/-- The service after a run of the samples. -/
def sampleService (events : List Event) : ControlService :=
  run (step Primitives.checksum) (create {} (Vector.replicate 32 0)) events

end ControlService

end UConnect.Server
