/-
  Server/Accounts.lean --- what counts the connections.

  Source: server/rendezvous.cpp, `accept_all`, `reap` and `release`.

  `per_ip_` counts the connections of an address wherever they are held.
  Accepting and closing change it and nothing else does: `Tally` says so of
  every other step, and that such a step neither makes a connection nor loses
  one.  With the invariant of Server/Connections this is the whole bookkeeping
  (`connections_accounted`): a connection that has been accepted is held in one
  place or has been closed, and it never is both or neither.
-/
import UConnect.Server.Departing

set_option autoImplicit false

namespace UConnect.Server.Rendezvous

open UConnect UConnect.Foundation UConnect.Crypto UConnect.Wire

variable {P : Primitives} {s s' s'' : Rendezvous} {p : Place} {key : ConnKey} {c : Conn}

/-! ## The counts

How many connections of an address are held, and what the map says of it. -/

/-- How many connections from an address are held, wherever they are. -/
def heldFrom (s : Rendezvous) (ip : Vector UInt8 16) : Nat := s.held.countP fun x => x.conn.ip = ip

/-- Keys are given out from 1 on, and none is lost: its connection is held or
was closed. -/
structure Complete (s : Rendezvous) : Prop where
  first : 1 ≤ s.nextKey
  all : ∀ key, key ∈ s.keys ↔ 1 ≤ key ∧ key < s.nextKey

/-- The count of every address is right, and within the limit. -/
structure Counted (s : Rendezvous) : Prop where
  exact : ∀ ip, s.perIp.lookup ip = if s.heldFrom ip = 0 then none else some (s.heldFrom ip)
  limited : ∀ ip, s.heldFrom ip ≤ s.cfg.maxConnectionsPerIp

theorem Kins.heldFrom (h : Kins s s') (ip : Vector UInt8 16) : s'.heldFrom ip = s.heldFrom ip := by
  obtain ⟨g, hg, hkin⟩ := h.held
  rw [Rendezvous.heldFrom, Rendezvous.heldFrom, hg, List.countP_map]
  refine List.countP_congr fun x hx => ?_
  rw [Function.comp_apply, Conn.ip, Conn.ip, (hkin x hx).peer]

theorem Counted.kins (hc : s.Counted) (h : Kins s s') : s'.Counted where
  exact := by
    intro ip
    rw [h.heldFrom, h.perIp]
    exact hc.exact ip
  limited := by
    intro ip
    rw [h.heldFrom, h.cfg]
    exact hc.limited ip

theorem Counted.getD (hc : s.Counted) (ip : Vector UInt8 16) :
    (s.perIp.lookup ip).getD 0 = s.heldFrom ip := by
  rw [hc.exact ip]
  split
  · rename_i hzero
    rw [hzero]
    rfl
  · rfl

/-- One more connection is one more from its address. -/
theorem countFrom_cons (x : Held) (held : List Held) (ip : Vector UInt8 16) :
    ((x :: held).countP fun y => y.conn.ip = ip) =
      (held.countP fun y => y.conn.ip = ip) + if x.conn.ip = ip then 1 else 0 := by
  rw [List.countP_cons]
  by_cases hip : x.conn.ip = ip
  · simp [hip]
  · simp [hip]

/-- An accepted connection is counted where its address is counted. -/
theorem Counted.accept (hc : s.Counted) (peer : Option Address) (now : Instant) :
    (s.accept peer now).Counted := by
  unfold Rendezvous.accept
  cases peer with
  | none => exact hc
  | some peer =>
      dsimp only
      rw [hc.getD]
      split
      · split
        · rename_i hzero
          refine ⟨fun ip => ?_, hc.limited⟩
          by_cases hip : ip = peer.val.ip.bytes
          · rw [hip, AList.lookup_erase]
            exact (if_pos hzero).symm
          · rw [AList.lookup_erase_ne hip]
            exact hc.exact ip
        · exact hc
      · rename_i hroom
        have hfrom : ∀ ip, heldFrom { s with
            perIp := s.perIp.insert peer.val.ip.bytes (s.heldFrom peer.val.ip.bytes + 1)
            nextKey := s.nextKey + 1
            held := { place := .loop
                      conn := { key := s.nextKey, peer := peer, opened := now, lastRx := now } } ::
              s.held } ip = s.heldFrom ip + if peer.val.ip.bytes = ip then 1 else 0 := by
          intro ip
          exact countFrom_cons _ s.held ip
        refine ⟨fun ip => ?_, fun ip => ?_⟩
        · rw [hfrom]
          dsimp only
          by_cases hip : ip = peer.val.ip.bytes
          · rw [hip, AList.lookup_insert, if_pos rfl, if_neg (Nat.succ_ne_zero _)]
          · rw [AList.lookup_insert_ne hip, if_neg (Ne.symm hip), Nat.add_zero]
            exact hc.exact ip
        · rw [hfrom]
          have hlimit := hc.limited ip
          dsimp only
          split
          · rename_i hip
            rw [hip] at hroom
            omega
          · exact hlimit

/-- The keys below the next one are one more. -/
theorem below_succ {n k : Nat} (h : 1 ≤ n) : k = n ∨ 1 ≤ k ∧ k < n ↔ 1 ≤ k ∧ k < n + 1 := by
  omega

/-- Accepting adds the next one. -/
theorem Complete.accept (hc : s.Complete) (peer : Option Address) (now : Instant) :
    (s.accept peer now).Complete := by
  obtain ⟨hfirst, hall⟩ := hc
  unfold Rendezvous.accept
  cases peer with
  | none => exact ⟨hfirst, hall⟩
  | some peer =>
      dsimp only
      split
      · split
        · exact ⟨hfirst, hall⟩
        · exact ⟨hfirst, hall⟩
      · refine ⟨Nat.le_succ_of_le hfirst, fun key => ?_⟩
        show key ∈ s.nextKey :: s.keys ↔ 1 ≤ key ∧ key < s.nextKey + 1
        rw [List.mem_cons, hall key]
        exact below_succ hfirst

/-! ## Counting

A step that tallies leaves the counts, the keys and the order of accepting
alone. -/

/-- The same connections, held anywhere, and as many from every address, counted
as before. -/
structure Tally (s s' : Rendezvous) : Prop where
  heldFrom : ∀ ip, s'.heldFrom ip = s.heldFrom ip
  perIp : s'.perIp = s.perIp
  cfg : s'.cfg = s.cfg
  keys : s'.keys = s.keys
  nextKey : s'.nextKey = s.nextKey

namespace Tally

theorem trans (h : Tally s s') (h' : Tally s' s'') : Tally s s'' where
  heldFrom ip := (h'.heldFrom ip).trans (h.heldFrom ip)
  perIp := h'.perIp.trans h.perIp
  cfg := h'.cfg.trans h.cfg
  keys := h'.keys.trans h.keys
  nextKey := h'.nextKey.trans h.nextKey

theorem of_calms (h : Calms s s') : Tally s s' := by
  exact ⟨h.heldFrom, h.perIp, h.cfg, keys_eq h.toKins.keys h.closed, h.nextKey⟩

/-- Nothing counted depends on anything else. -/
theorem of_held (hheld : s'.held = s.held) (hip : s'.perIp = s.perIp) (hcfg : s'.cfg = s.cfg)
    (hclosed : s'.closed = s.closed) (hnext : s'.nextKey = s.nextKey) : Tally s s' := by
  refine ⟨fun ip => ?_, hip, hcfg, keys_eq ?_ hclosed, hnext⟩
  · rw [Rendezvous.heldFrom, hheld, Rendezvous.heldFrom]
  · rw [hheld]

theorem of_map {g : Held → Held} (hg : s'.held = s.held.map g)
    (hsame : ∀ x, (g x).conn.peer = x.conn.peer ∧ (g x).conn.key = x.conn.key)
    (hip : s'.perIp = s.perIp) (hcfg : s'.cfg = s.cfg) (hclosed : s'.closed = s.closed)
    (hnext : s'.nextKey = s.nextKey) : Tally s s' := by
  refine ⟨fun ip => ?_, hip, hcfg, keys_eq ?_ hclosed, hnext⟩
  · rw [Rendezvous.heldFrom, Rendezvous.heldFrom, hg, List.countP_map]
    refine List.countP_congr fun x _ => ?_
    rw [Function.comp_apply, Conn.ip, Conn.ip, (hsame x).1]
  · rw [hg, List.map_map]
    exact List.map_congr_left fun x _ => (hsame x).2

theorem modify {k : ConnKey} {f : Conn → Conn}
    (hf : ∀ d, (f d).peer = d.peer ∧ (f d).key = d.key) : Tally s (s.modify p k f) := by
  refine of_map rfl (fun x => ?_) rfl rfl rfl rfl
  split
  · exact hf x.conn
  · exact ⟨rfl, rfl⟩

theorem wait (s : Rendezvous) (key : ConnKey) (side : Fin 2) (id : RelayId) :
    Tally s (s.wait key side id) :=
  (modify (f := Conn.toWaiting) fun _ => ⟨rfl, rfl⟩).trans (of_held rfl rfl rfl rfl rfl)

theorem splice (s : Rendezvous) (key other : ConnKey) (id : RelayId) :
    Tally s (s.splice key other id) := by
  have hfirst : Tally s (s.modify .loop key fun c => c.toSplice other) := modify fun _ => ⟨rfl, rfl⟩
  have hsecond : Tally (s.modify .loop key fun c => c.toSplice other)
      ((s.modify .loop key fun c => c.toSplice other).modify .loop other fun p => p.toSplice key) :=
    modify fun _ => ⟨rfl, rfl⟩
  exact (hfirst.trans hsecond).trans (of_held rfl rfl rfl rfl rfl)

theorem unwait (s : Rendezvous) (side : Fin 2) (id : RelayId) : Tally s (s.unwait side id) :=
  of_held rfl rfl rfl rfl rfl

theorem pair (s : Rendezvous) (key : ConnKey) (side : Fin 2) (id : RelayId) :
    Tally s (s.pair key side id) := by
  unfold Rendezvous.pair
  cases (s.waiting (1 - side)).lookup id with
  | none => exact wait s key side id
  | some other =>
      dsimp only
      cases (s.unwait (1 - side) id).find .loop other with
      | none => exact (unwait s _ id).trans (wait _ key side id)
      | some d =>
          dsimp only
          split
          · exact (unwait s _ id).trans (wait _ key side id)
          · exact (unwait s _ id).trans (splice _ key other id)

theorem onRelayJoin (s : Rendezvous) (c : Conn) (msg : Bytes) : Tally s (s.onRelayJoin c msg) := by
  have hkill : ∀ (t : Rendezvous) (key : ConnKey), Tally t (t.killAt .loop key) :=
    fun t key => of_calms (Calms.killAt t .loop key)
  unfold Rendezvous.onRelayJoin
  cases s.joinSide msg with
  | none => exact hkill s _
  | some joined =>
      obtain ⟨id, side⟩ := joined
      dsimp only
      have hraw : Tally s (s.modify .loop c.key fun d => d.toRaw c.reader.takeRest.1 msg) :=
        modify fun _ => ⟨rfl, rfl⟩
      split
      · exact hraw.trans (hkill _ _)
      · have hside : Tally s ((s.modify .loop c.key fun d => d.toRaw c.reader.takeRest.1 msg).modify
            .loop c.key fun d => d.takeSide id side) := hraw.trans (modify fun _ => ⟨rfl, rfl⟩)
        refine (hside.trans ?_).trans (pair _ _ _ _)
        unfold Rendezvous.replaceEarlier
        split
        · exact of_held rfl rfl rfl rfl rfl
        · exact (hkill _ _).trans (unwait _ _ _)

theorem takeFrame (s : Rendezvous) (key : ConnKey) (now : Instant) (v : Verdict) :
    Tally s (s.takeFrame P key now v) := by
  unfold Rendezvous.takeFrame
  cases s.find .loop key with
  | none => exact of_held rfl rfl rfl rfl rfl
  | some c =>
      dsimp only
      split
      · exact of_held rfl rfl rfl rfl rfl
      · have hreader : Tally s (s.modify .loop key fun d => { d with reader := c.reader.next.2 }) :=
          modify fun _ => ⟨rfl, rfl⟩
        cases c.reader.next.1 with
        | none =>
            dsimp only
            split
            · exact hreader.trans (of_calms (Calms.killAt _ _ _))
            · exact hreader
        | some msg =>
            refine hreader.trans ?_
            dsimp only
            unfold onFrame
            cases c.mode with
            | new =>
                dsimp only
                split
                · exact onRelayJoin _ _ msg
                · have hmode : Tally (s.modify .loop key fun d => { d with reader := c.reader.next.2 })
                      ((s.modify .loop key fun d => { d with reader := c.reader.next.2 }).modify .loop
                        c.key fun d => { d with mode := .control }) := modify fun _ => ⟨rfl, rfl⟩
                  exact hmode.trans (of_held rfl rfl rfl rfl rfl)
            | control => exact of_calms (calms_onControl _ _ _ _ _)
            | relayWaiting => exact of_held rfl rfl rfl rfl rfl
            | splice => exact of_held rfl rfl rfl rfl rfl

theorem goOn (s : Rendezvous) (now : Instant) (v : Verdict) : Tally s (s.goOn P now v) := by
  have hpassed : ∀ (t : Rendezvous) (src dst : ConnKey) (id : RelayId) (again : Bool),
      Tally t (t.passed src dst id again) := by
    intro t src dst id again
    unfold passed
    split
    · exact of_held rfl rfl rfl rfl rfl
    · exact of_held rfl rfl rfl rfl rfl
  unfold Rendezvous.goOn
  cases s.doing with
  | nothing => exact of_held rfl rfl rfl rfl rfl
  | opened key msg =>
      have hnothing : Tally s { s with doing := .nothing } := of_held rfl rfl rfl rfl rfl
      exact hnothing.trans (of_calms (calms_onControl _ _ _ _ _))
  | passing src dst id again =>
      dsimp only
      unfold passEarly
      cases s.find .loop src with
      | none => exact of_held rfl rfl rfl rfl rfl
      | some c =>
          dsimp only
          have htaken : Tally s (s.modify .loop src fun d => { d with relayEarly := [] }) :=
            modify fun _ => ⟨rfl, rfl⟩
          split
          · exact htaken.trans (hpassed _ _ _ _ _)
          · have hcharged := htaken.trans (of_calms (Calms.charge _ id c.relayEarly.length now))
            split
            · have hgiven := hcharged.trans (modify (p := .loop) (k := dst)
                (f := fun d => { d with out := d.out ++ c.relayEarly }) fun _ => ⟨rfl, rfl⟩)
              exact hgiven.trans (hpassed _ _ _ _ _)
            · have hkilled := (hcharged.trans (of_calms (Calms.killAt _ .loop src))).trans
                (of_calms (Calms.killAt _ .loop dst))
              exact hkilled.trans (of_held rfl rfl rfl rfl rfl)

theorem relocated (s : Rendezvous) (r : Held → Place) (n : Nat) :
    Tally s { s with held := relocate r s.held, nextWorker := n } := of_map rfl (fun _ => ⟨rfl, rfl⟩) rfl rfl rfl rfl

theorem takeInbox (s : Rendezvous) (i : Nat) : Tally s (s.takeInbox i) := by
  unfold Rendezvous.takeInbox
  rw [relocate_if]
  exact relocated s _ s.nextWorker

theorem handOffPair (s : Rendezvous) (pair : ConnKey × ConnKey) : Tally s (s.handOffPair pair) := by
  unfold Rendezvous.handOffPair
  cases s.find .loop pair.1 with
  | none => exact of_held rfl rfl rfl rfl rfl
  | some a =>
      cases s.find .loop pair.2 with
      | none => exact of_held rfl rfl rfl rfl rfl
      | some b =>
          dsimp only
          split
          · exact of_held rfl rfl rfl rfl rfl
          · rw [relocate_if]
            exact relocated s _ _

theorem handOff (s : Rendezvous) : Tally s s.handOff := by
  have hfold : ∀ (l : List (ConnKey × ConnKey)) (s : Rendezvous),
      Tally s (l.foldl Rendezvous.handOffPair s) := by
    intro l
    induction l with
    | nil => exact fun s => of_held rfl rfl rfl rfl rfl
    | cons pair l ih => exact fun s => (handOffPair s pair).trans (ih _)
  exact (hfold s.spliced s).trans (of_held rfl rfl rfl rfl rfl)

end Tally

/-- A step that tallies keeps the counts. -/
theorem Counted.tally (hc : s.Counted) (h : Tally s s') : s'.Counted where
  exact := by
    intro ip
    rw [h.heldFrom, h.perIp]
    exact hc.exact ip
  limited := by
    intro ip
    rw [h.heldFrom, h.cfg]
    exact hc.limited ip

/-- It keeps the list of all that were accepted as well. -/
theorem Complete.tally (hc : s.Complete) (h : Tally s s') : s'.Complete where
  first := h.nextKey ▸ hc.first
  all := by
    intro key
    rw [h.keys, h.nextKey]
    exact hc.all key

/-- A connection that leaves the held ones is among the closed ones. -/
theorem Complete.leave (hc : s.Complete) (hd : s.Distinct) (hmem : ⟨p, c⟩ ∈ s.held)
    (hleaves : Leaves s s') : Complete { s' with
      held := s'.held.eraseP fun x => x.place = p && x.conn.key = c.key
      closed := c :: s'.closed } := by
  obtain ⟨l₁, l₂, hheld, herase⟩ := hd.eraseP hmem
  refine ⟨hleaves.nextKey ▸ hc.first, fun key => ?_⟩
  have hkeys := hc.all key
  rw [keys_append, hheld] at hkeys
  rw [keys_append]
  dsimp only
  rw [hleaves.held, herase, hleaves.closed, hleaves.nextKey, ← hkeys]
  simp only [List.map_append, List.map_cons, List.mem_append, List.mem_cons]
  tauto

/-- A closed connection leaves the count of its address. -/
theorem Counted.leave (hc : s.Counted) (hd : s.Distinct) (hmem : ⟨p, c⟩ ∈ s.held)
    (closed : List Conn) : Counted { s.release c.ip with
      held := (s.release c.ip).held.eraseP fun x => x.place = p && x.conn.key = c.key
      closed := closed } := by
  obtain ⟨l₁, l₂, hheld, herase⟩ := hd.eraseP hmem
  have hfrom : ∀ ip, s.heldFrom ip =
      (l₁ ++ l₂).countP (fun x => x.conn.ip = ip) + if c.ip = ip then 1 else 0 := by
    intro ip
    rw [heldFrom, hheld, List.countP_append, countFrom_cons, List.countP_append, Nat.add_assoc]
  have hheld' : (s.release c.ip).held = s.held := (leaves_release s c.ip).1.held
  have hmine := hc.exact c.ip
  rw [hfrom, if_pos rfl, if_neg (Nat.succ_ne_zero _)] at hmine
  have hcfg : (s.release c.ip).cfg = s.cfg := by
    rw [release, hmine]
  rw [hheld', herase]
  refine ⟨fun ip => ?_, fun ip => ?_⟩
  · show (s.release c.ip).perIp.lookup ip =
      if (l₁ ++ l₂).countP (fun x => x.conn.ip = ip) = 0 then none
      else some ((l₁ ++ l₂).countP fun x => x.conn.ip = ip)
    rw [release, hmine]
    dsimp only
    by_cases hip : ip = c.ip
    · rw [hip]
      split
      · rename_i hlast
        rw [AList.lookup_erase, if_pos (by omega)]
      · rename_i hmore
        rw [AList.lookup_insert, if_neg (by omega), Nat.add_sub_cancel]
    · have hother := hc.exact ip
      rw [hfrom, if_neg (Ne.symm hip), Nat.add_zero] at hother
      split
      · rw [AList.lookup_erase_ne hip]
        exact hother
      · rw [AList.lookup_insert_ne hip]
        exact hother
  · have hlimit := hc.limited ip
    rw [hfrom] at hlimit
    show (l₁ ++ l₂).countP _ ≤ (s.release c.ip).cfg.maxConnectionsPerIp
    rw [hcfg]
    exact Nat.le_trans (Nat.le_add_right _ _) hlimit

/-- A closed connection leaves the count it was in. -/
theorem Counted.close (hc : s.Counted) (hd : s.Distinct) (t : Thread) (key : ConnKey) :
    (s.close t key).Counted := by
  unfold Rendezvous.close
  cases hfind : s.find t.place key with
  | none => exact hc
  | some c =>
      obtain ⟨hmem, rfl⟩ := mem_of_find hfind
      dsimp only
      split
      · exact hc
      · split
        · have hforget := leaves_forget s c
          have hheld := hforget.held
          have hmem' : ⟨t.place, c⟩ ∈ (s.forget c).held := by
            rw [hheld]
            exact hmem
          have hd' : (s.forget c).Distinct := by
            rw [Distinct, hheld]
            exact hd
          have htally : Tally s (s.forget c) :=
            .of_held hheld (perIp_forget s c) hforget.cfg hforget.closed hforget.nextKey
          exact (hc.tally htally).leave hd' hmem' _
        · exact hc.leave hd hmem _

/-- Closing moves one from the held to the closed. -/
theorem Complete.close (hc : s.Complete) (hd : s.Distinct) (t : Thread) (key : ConnKey) :
    (s.close t key).Complete := by
  unfold Rendezvous.close
  cases hfind : s.find t.place key with
  | none => exact hc
  | some c =>
      obtain ⟨hmem, rfl⟩ := mem_of_find hfind
      dsimp only
      split
      · exact hc
      · split
        · exact hc.leave hd hmem ((leaves_forget s c).trans (leaves_release _ c.ip).1)
        · exact hc.leave hd hmem (leaves_release s c.ip).1

/-! ## Runs

All three parts of the bookkeeping along any actions. -/

/-- The invariant and the counts. -/
structure Books (s : Rendezvous) : Prop where
  inv : s.Inv
  counted : s.Counted
  complete : s.Complete

theorem Books.tally (hb : s.Books) (hi : s'.Inv) (h : Tally s s') : s'.Books :=
  ⟨hi, hb.counted.tally h, hb.complete.tally h⟩

theorem Books.calms (hb : s.Books) (h : Calms s s') : s'.Books :=
  hb.tally (hb.inv.calms h) (.of_calms h)

theorem Books.act (hb : s.Books) (a : Action) : (s.act P a).Books := by
  cases a with
  | accept peer now =>
      exact ⟨hb.inv.accept peer now, hb.counted.accept peer now, hb.complete.accept peer now⟩
  | read t key got now =>
      cases t with
      | loop => exact hb.calms (calms_readFrom s key got now)
      | worker i => exact hb.calms (calms_workerRead s i key got now)
  | frame key now v => exact hb.tally (hb.inv.takeFrame key now v) (.takeFrame s key now v)
  | goOn now v => exact hb.tally (hb.inv.goOn now v) (.goOn s now v)
  | flush t key sends => exact hb.calms (calms_flush t.place key sends s)
  | expire t key now => exact hb.calms (calms_expire s t key now)
  | follow t key => exact hb.calms (calms_follow s t key)
  | close t key =>
      have hd := hb.inv.distinct
      exact ⟨hb.inv.close t key, hb.counted.close hd t key, hb.complete.close hd t key⟩
  | handOff => exact hb.tally hb.inv.handOff (.handOff s)
  | takeInbox i => exact hb.tally (hb.inv.takeInbox i) (.takeInbox s i)
  | publish i => exact hb.calms (.of_held rfl rfl rfl rfl rfl rfl rfl rfl)
  | udp src dgram now admitted => exact hb.calms (.of_held rfl rfl rfl rfl rfl rfl rfl rfl)
  | tick now => exact hb.calms (.of_held rfl rfl rfl rfl rfl rfl rfl rfl)
  | stats now => exact hb.calms (.of_held rfl rfl rfl rfl rfl rfl rfl rfl)

theorem Books.step (hb : s.Books) (a : Action) : (s.step P a).Books := by
  unfold Rendezvous.step
  split
  · exact hb
  · exact hb.act a

theorem Books.init (cfg : RendezvousConfig) (secret : SymKey) : (start cfg secret).Books where
  inv := by
    refine ⟨List.nodup_nil, ?_, ?_, List.nodup_nil, ?_, ?_, ?_, ?_, ?_, ?_⟩
    · exact fun _ h => absurd h List.not_mem_nil
    · exact fun _ h => absurd h List.not_mem_nil
    · exact fun _ h => absurd h List.not_mem_nil
    · intro side id key hname
      cases (AList.lookup_empty id).symm.trans hname
    · exact fun _ h => absurd h List.not_mem_nil
    · exact fun _ h => absurd h List.not_mem_nil
    · exact fun _ h => absurd h List.not_mem_nil
    · intro src dst id again hd
      cases hd
  counted := by
    refine ⟨fun ip => ?_, fun ip => Nat.zero_le _⟩
    exact AList.lookup_empty ip
  complete := by
    refine ⟨Nat.le_refl 1, fun key => ?_⟩
    have hnone : key ∉ (start cfg secret).keys := List.not_mem_nil
    exact iff_of_false hnone fun h => Nat.not_lt.mpr h.1 h.2

/-- The bookkeeping after any actions. -/
theorem books_run (cfg : RendezvousConfig) (secret : SymKey) (actions : List Action) :
    (run (step P) (start cfg secret) actions).Books :=
  run_invariant (fun _ a hb => hb.step a) (Books.init cfg secret) actions

/-- What the maps say of the connections. -/
structure Accounted (s : Rendezvous) : Prop where
  /-- The count of an address is the number of connections from it that are held
  anywhere, is absent when there is none, and is within the limit. -/
  counts : ∀ ip, (s.heldFrom ip = 0 → s.perIp.lookup ip = none) ∧
    (s.heldFrom ip ≠ 0 → s.perIp.lookup ip = some (s.heldFrom ip)) ∧
    s.heldFrom ip ≤ s.cfg.maxConnectionsPerIp
  /-- A connection that has been accepted is held once or closed once, and never
  both. -/
  once : s.keys.Nodup ∧ ∀ key, key ∈ s.keys ↔ 1 ≤ key ∧ key < s.nextKey
  /-- A name is that of a leg that waits for it in the loop. -/
  named : ∀ side id key, (s.waiting side).lookup id = some key → ∃ x ∈ s.held, x.place = .loop ∧
    x.conn.key = key ∧ x.conn.mode = .relayWaiting ∧ x.conn.relaySide = some side ∧
    x.conn.relayId = id
  /-- Every live leg that waits has its name. -/
  waits : ∀ x ∈ s.held, x.conn.mode = .relayWaiting → x.conn.dead = false →
    ∃ side, x.conn.relaySide = some side ∧
      (s.waiting side).lookup x.conn.relayId = some x.conn.key
  /-- The partner of a live leg, if held, is held in the same place, has the leg
  for its partner and the other side of the same relay. -/
  paired : ∀ x ∈ s.held, x.conn.mode = .splice → x.conn.dead = false →
    ∀ y ∈ s.held, y.conn.key = x.conn.partner → Opposite x y

/-- The bookkeeping of the connections is right after every action of the loop
and the workers, in any order. -/
theorem connections_accounted (cfg : RendezvousConfig) (secret : SymKey) (actions : List Action) :
    (run (step P) (start cfg secret) actions).Accounted := by
  obtain ⟨hi, hc, hall⟩ := books_run (P := P) cfg secret actions
  refine ⟨fun ip => ⟨fun hzero => ?_, fun hsome => ?_, hc.limited ip⟩, ⟨?_, hall.all⟩, hi.named,
    hi.waits, fun x hx hmode _ => (hi.paired x hx hmode).2⟩
  · rw [hc.exact, if_pos hzero]
  · rw [hc.exact, if_neg hsome]
  · rw [keys_append]
    refine List.nodup_append.mpr ⟨hi.distinct, hi.once, fun key hkey key' hkey' => ?_⟩
    obtain ⟨x, hx, rfl⟩ := List.mem_map.mp hkey
    obtain ⟨c, hclosed, rfl⟩ := List.mem_map.mp hkey'
    exact (hi.gone c hclosed).2 x hx

end UConnect.Server.Rendezvous
