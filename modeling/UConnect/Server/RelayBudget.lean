/-
  Server/RelayBudget.lean --- one binding for a pair, and one budget for the
  binding.

  The marks of a run keep an account for every relay id: what was made under it,
  what was charged since and whether a charge was refused.  A live binding is
  its account: it still has the two devices and tokens it was made with, it has
  counted what was charged, and it is spent once a charge was refused.  No
  account passes the budget.
-/
import UConnect.Server.RelayMoves

set_option autoImplicit false

namespace UConnect.Server

open UConnect UConnect.Foundation UConnect.Crypto

/-! ## Accounts

What the marks of a run say about one relay id, and that the binding under it
agrees. -/

/-- What became of a binding since it was made. -/
structure Account where
  opened : Relay
  spent : Nat := 0
  refused : Bool := false

namespace Registry

/-- A mark is entered into the account of `id`. -/
def post (id : RelayId) (a : Option Account) : RelayMark → Option Account
  | .made id' b => if id' = id then some { opened := b } else a
  | .bound _ _ _ => a
  | .charged id' n => if id' = id then a.map fun a => { a with spent := a.spent + n } else a
  | .refused id' => if id' = id then a.map fun a => { a with refused := true } else a

/-- The account of `id` after the marks of a run. -/
def account (ms : List RelayMark) (id : RelayId) : Option Account := ms.foldl (post id) none

theorem account_append (ms ns : List RelayMark) (id : RelayId) :
    account (ms ++ ns) id = ns.foldl (post id) (account ms id) :=
  List.foldl_append

/-- The binding is what its account says. -/
structure Agrees (b : Relay) (a : Account) : Prop where
  kind : b.kind = a.opened.kind
  topic : b.topic = a.opened.topic
  dev : b.dev = a.opened.dev
  owner : b.owner = a.opened.owner
  token : b.token = a.opened.token
  spent : b.bytes = a.spent
  refused : b.exhausted = a.refused

/-- The two bindings are for the same two devices, on whichever sides. -/
def SamePair (b b' : Relay) : Prop :=
  (b.dev 0 = b'.dev 0 ∧ b.dev 1 = b'.dev 1) ∨ (b.dev 0 = b'.dev 1 ∧ b.dev 1 = b'.dev 0)

/-- Live bindings are as their accounts say, no account passes the budget, and
no two bindings share their devices and kind. -/
structure Ledger (cfg : RegistryConfig) (ms : List RelayMark) (r : Registry) : Prop where
  config : r.cfg = cfg
  live : ∀ id b, r.relays.lookup id = some b → ∃ a, account ms id = some a ∧ Agrees b a
  within : ∀ id a, account ms id = some a → a.spent ≤ cfg.relayMaxBytes
  unique : ∀ id id' b b', r.relays.lookup id = some b → r.relays.lookup id' = some b' →
    b.kind = b'.kind → SamePair b b' → id = id'

/-- No charge reaches the range of the counter. -/
def SmallCharges (cfg : RegistryConfig) (ms : List RelayMark) : Prop :=
  ∀ id n, RelayMark.charged id n ∈ ms → cfg.relayMaxBytes + n < 2 ^ 64

section Ledger

variable {cfg : RegistryConfig} {ms m : List RelayMark} {r r' : Registry}

theorem Ledger.init (cfg : RegistryConfig) (secret : SymKey) :
    Ledger cfg [] { cfg := cfg, secret := secret } := by
  refine ⟨rfl, ?_, ?_, ?_⟩
  · intro id b hb
    cases hb
  · intro id a ha
    cases ha
  · intro id id' b b' hb
    cases hb

/-- One binding is written over, with a mark about no other. -/
theorem Ledger.rewrite (h : r.Ledger cfg ms) {id : RelayId} {b b' : Relay} {a : Account}
    (hb : r.relays.lookup id = some b)
    (hslots : r'.slots = (r.cfg, r.relays.insert id b', r.relaysPerIp))
    (hother : ∀ id', id' ≠ id → account (ms ++ m) id' = account ms id')
    (ha : account (ms ++ m) id = some a) (hagrees : Agrees b' a)
    (hdev : b'.dev = b.dev) (hkind : b'.kind = b.kind)
    (hwithin : a.spent ≤ cfg.relayMaxBytes) : r'.Ledger cfg (ms ++ m) := by
  obtain ⟨hcfg, hrelays, -⟩ := slots_eq hslots
  have hback : ∀ id₁ b₁, r'.relays.lookup id₁ = some b₁ →
      ∃ b₀, r.relays.lookup id₁ = some b₀ ∧ b₁.dev = b₀.dev ∧ b₁.kind = b₀.kind := by
    intro id₁ b₁ hb₁
    rw [hrelays, lookup_insert_ite] at hb₁
    split at hb₁
    · rename_i heq
      cases hb₁
      exact ⟨b, heq ▸ hb, hdev, hkind⟩
    · exact ⟨b₁, hb₁, rfl, rfl⟩
  refine ⟨hcfg.trans h.config, ?_, ?_, ?_⟩
  · intro id₁ b₁ hb₁
    rw [hrelays, lookup_insert_ite] at hb₁
    split at hb₁
    · rename_i heq
      cases hb₁
      exact ⟨a, heq ▸ ha, hagrees⟩
    · rename_i hne
      rw [hother id₁ hne]
      exact h.live id₁ b₁ hb₁
  · intro id₁ a₁ ha₁
    by_cases heq : id₁ = id
    · rw [heq, ha] at ha₁
      cases ha₁
      exact hwithin
    · rw [hother id₁ heq] at ha₁
      exact h.within id₁ a₁ ha₁
  · intro id₁ id₂ b₁ b₂ hb₁ hb₂ hkinds hpair
    obtain ⟨c₁, hc₁, hd₁, hk₁⟩ := hback id₁ b₁ hb₁
    obtain ⟨c₂, hc₂, hd₂, hk₂⟩ := hback id₂ b₂ hb₂
    refine h.unique id₁ id₂ c₁ c₂ hc₁ hc₂ (hk₁.symm.trans (hkinds.trans hk₂)) ?_
    unfold SamePair at hpair ⊢
    rwa [hd₁, hd₂] at hpair

/-- Fewer bindings. -/
theorem Ledger.fewer (h : r.Ledger cfg ms) (hcfg : r'.cfg = r.cfg)
    (hsub : ∀ id b, r'.relays.lookup id = some b → r.relays.lookup id = some b) :
    r'.Ledger cfg ms where
  config := hcfg.trans h.config
  live id b hb := h.live id b (hsub id b hb)
  within := h.within
  unique id id' b b' hb hb' := h.unique id id' b b' (hsub id b hb) (hsub id' b' hb')

/-- The pair has no binding of the kind. -/
theorem findBinding_none {src peer : DevId} {kind : RelayKind}
    (h : r.findBinding src peer kind = none) {id : RelayId} {b : Relay}
    (hb : r.relays.lookup id = some b) (hkind : b.kind = kind) : pairSide b src peer = none := by
  unfold findBinding at h
  have hone := List.findSome?_eq_none_iff.mp h ⟨id, b⟩ (AList.mem_lookup_iff.mp hb)
  dsimp only at hone
  rw [if_neg (not_not.mpr hkind)] at hone
  exact Option.map_eq_none_iff.mp hone

/-- A binding of the pair has a side for it. -/
theorem pairSide_eq_none {b : Relay} {src peer : DevId} (h : pairSide b src peer = none) :
    ¬ (b.dev 0 = src ∧ b.dev 1 = peer) ∧ ¬ (b.dev 1 = src ∧ b.dev 0 = peer) := by
  unfold pairSide at h
  split at h
  · cases h
  · rename_i hsecond
    split at h
    · cases h
    · rename_i hfirst
      exact ⟨hfirst, hsecond⟩

/-- A pair that has no binding of a kind is the pair of none, whichever way
round. -/
theorem not_samePair {b b' : Relay} {src peer : DevId} (hdev : b.dev = ![src, peer])
    (hnone : pairSide b' src peer = none) : ¬ SamePair b b' ∧ ¬ SamePair b' b := by
  obtain ⟨hfirst, hsecond⟩ := pairSide_eq_none hnone
  have h0 : b.dev 0 = src := congrFun hdev 0
  have h1 : b.dev 1 = peer := congrFun hdev 1
  unfold SamePair
  rw [h0, h1]
  constructor
  · rintro (⟨e₀, e₁⟩ | ⟨e₀, e₁⟩)
    · exact hfirst ⟨e₀.symm, e₁.symm⟩
    · exact hsecond ⟨e₀.symm, e₁.symm⟩
  · rintro (⟨e₀, e₁⟩ | ⟨e₀, e₁⟩)
    · exact hfirst ⟨e₀, e₁⟩
    · exact hsecond ⟨e₁, e₀⟩

/-- A mark is posted to its own account, and to no other. -/
theorem account_post (ms : List RelayMark) (mark : RelayMark) (id : RelayId) :
    account (ms ++ [mark]) id = post id (account ms id) mark := by
  rw [account_append]
  rfl

/-- A charge that there is room for is added to the account of its binding. -/
theorem Ledger.charge {id : RelayId} {b : Relay} {bytes : Nat} {now : Instant}
    (hsmall : SmallCharges cfg (ms ++ [.charged id bytes])) (h : r.Ledger cfg ms)
    (hb : r.relays.lookup id = some b)
    (hroom : (b.bytes + bytes) % 2 ^ 64 ≤ r.cfg.relayMaxBytes)
    (hslots : r'.slots = (r.cfg, r.relays.insert id
      { b with bytes := (b.bytes + bytes) % 2 ^ 64, lastSeen := now }, r.relaysPerIp)) :
    r'.Ledger cfg (ms ++ [.charged id bytes]) := by
  obtain ⟨a, ha, hag⟩ := h.live _ _ hb
  -- the sum is in the range of the counter, so what is checked is the sum
  have hlow := h.within _ a ha
  have hlt := hsmall id bytes (List.mem_append_right _ List.mem_cons_self)
  have hsum : (b.bytes + bytes) % 2 ^ 64 = a.spent + bytes := by
    rw [hag.spent]
    exact Nat.mod_eq_of_lt (by omega)
  have hbudget : a.spent + bytes ≤ cfg.relayMaxBytes := by
    rw [← hsum, ← h.config]
    exact hroom
  refine h.rewrite (a := { a with spent := a.spent + bytes }) hb hslots ?_ ?_ ?_ rfl rfl hbudget
  · intro id' hne
    rw [account_post, post, if_neg (Ne.symm hne)]
  · rw [account_post, post, if_pos rfl, ha]
    rfl
  · exact ⟨hag.kind, hag.topic, hag.dev, hag.owner, hag.token, hsum, hag.refused⟩

/-- A new binding opens its account; there was none for its pair. -/
theorem Ledger.make {id : RelayId} {b : Relay} {src peer : DevId} (h : r.Ledger cfg ms)
    (hnone : r.findBinding src peer b.kind = none) (hdev : b.dev = ![src, peer])
    (hbytes : b.bytes = 0) (hgood : b.exhausted = false)
    (hcfg : r'.cfg = r.cfg) (hrelays : r'.relays = r.relays.insert id b) :
    r'.Ledger cfg (ms ++ [.made id b]) := by
  have hself : account (ms ++ [.made id b]) id = some { opened := b } := by
    rw [account_post, post, if_pos rfl]
  have hother : ∀ id', id' ≠ id → account (ms ++ [.made id b]) id' = account ms id' := by
    intro id' hne
    rw [account_post, post, if_neg (Ne.symm hne)]
  have hfresh : ∀ id' b', r.relays.lookup id' = some b' → b'.kind = b.kind →
      ¬ SamePair b b' ∧ ¬ SamePair b' b :=
    fun id' b' hb' hkind => not_samePair hdev (findBinding_none hnone hb' hkind)
  refine ⟨hcfg.trans h.config, ?_, ?_, ?_⟩
  · intro id₁ b₁ hb₁
    rw [hrelays, lookup_insert_ite] at hb₁
    split at hb₁
    · rename_i heq
      cases hb₁
      rw [heq]
      exact ⟨_, hself, rfl, rfl, rfl, rfl, rfl, hbytes, hgood⟩
    · rename_i hne
      rw [hother id₁ hne]
      exact h.live id₁ b₁ hb₁
  · intro id₁ a₁ ha₁
    by_cases heq : id₁ = id
    · rw [heq, hself] at ha₁
      cases ha₁
      exact Nat.zero_le _
    · rw [hother id₁ heq] at ha₁
      exact h.within id₁ a₁ ha₁
  · intro id₁ id₂ b₁ b₂ hb₁ hb₂ hkinds hpair
    rw [hrelays, lookup_insert_ite] at hb₁ hb₂
    split at hb₁
    · rename_i heq₁
      cases hb₁
      split at hb₂
      · rename_i heq₂
        exact heq₁.trans heq₂.symm
      · exact absurd hpair (hfresh id₂ b₂ hb₂ hkinds.symm).1
    · split at hb₂
      · cases hb₂
        exact absurd hpair (hfresh id₁ b₁ hb₁ hkinds).2
      · exact h.unique id₁ id₂ b₁ b₂ hb₁ hb₂ hkinds hpair

/-- Every move keeps the ledger. -/
theorem Ledger.move (hsmall : SmallCharges cfg (ms ++ m)) (h : r.Ledger cfg ms)
    (hm : RelayMove m r r') : r'.Ledger cfg (ms ++ m) := by
  cases hm with
  | same hslots =>
      obtain ⟨hcfg, hrelays, -⟩ := slots_eq hslots
      rw [List.append_nil]
      refine h.fewer hcfg fun id b hb => ?_
      rwa [hrelays] at hb
  | touch hb hslots =>
      obtain ⟨a, ha, hag⟩ := h.live _ _ hb
      have hsame : ∀ id, account (ms ++ []) id = account ms id := fun id => by rw [List.append_nil]
      exact h.rewrite hb hslots (fun id _ => hsame id) ((hsame _).trans ha)
        ⟨hag.kind, hag.topic, hag.dev, hag.owner, hag.token, hag.spent, hag.refused⟩ rfl rfl
        (h.within _ a ha)
  | bind hb _ hslots =>
      obtain ⟨a, ha, hag⟩ := h.live _ _ hb
      exact h.rewrite hb hslots (fun id _ => account_post _ _ id) ((account_post _ _ _).trans ha)
        ⟨hag.kind, hag.topic, hag.dev, hag.owner, hag.token, hag.spent, hag.refused⟩ rfl rfl
        (h.within _ a ha)
  | charge hb _ hroom hslots => exact h.charge hsmall hb hroom hslots
  | refuse hb hslots =>
      obtain ⟨a, ha, hag⟩ := h.live _ _ hb
      refine h.rewrite (a := { a with refused := true }) hb hslots ?_ ?_ ?_ rfl rfl (h.within _ a ha)
      · intro id' hne
        rw [account_post, post, if_neg (Ne.symm hne)]
      · rw [account_post, post, if_pos rfl, ha]
        rfl
      · exact ⟨hag.kind, hag.topic, hag.dev, hag.owner, hag.token, hag.spent, rfl⟩
  | make _ _ hnone hdev _ hbytes hgood _ _ hslots =>
      obtain ⟨hcfg, hrelays, -⟩ := slots_eq hslots
      exact h.make hnone hdev hbytes hgood hcfg hrelays
  | release hb =>
      rw [List.append_nil]
      refine h.fewer rfl fun id' b' hb' => ?_
      rw [show (r.releaseRelay _).relays = r.relays.erase _ from rfl, lookup_erase_ite] at hb'
      split at hb'
      · cases hb'
      · exact hb'

end Ledger

/-! ## Asking again

An allocation by the same pair comes to the binding that is there, whichever
side asks. -/

section Alloc

variable {cfg : RegistryConfig} {ms : List RelayMark} {r r' : Registry}

theorem findBinding_kind {src peer : DevId} {kind : RelayKind} {id : RelayId} {b : Relay}
    {side : Fin 2} (h : r.findBinding src peer kind = some (⟨id, b⟩, side)) : b.kind = kind := by
  unfold findBinding at h
  obtain ⟨it, -, hsome⟩ := List.exists_of_findSome?_eq_some h
  split at hsome
  · cases hsome
  · rename_i hkind
    obtain ⟨side', -, heq⟩ := Option.map_eq_some_iff.mp hsome
    obtain ⟨rfl, -⟩ := Prod.mk.inj heq
    exact not_not.mp hkind

theorem pairSide_eq_some {b : Relay} {src peer : DevId} {side : Fin 2}
    (h : pairSide b src peer = some side) : b.dev side = src ∧ b.dev (1 - side) = peer := by
  unfold pairSide at h
  split at h
  · rename_i hpair
    cases h
    exact hpair
  · split at h
    · rename_i hpair
      cases h
      exact hpair
    · cases h

/-- Either side of a live binding finds it, and its own side of it. -/
theorem Ledger.findBinding (h : r.Ledger cfg ms) {id : RelayId} {b : Relay}
    (hb : r.relays.lookup id = some b) (hne : b.dev 0 ≠ b.dev 1) (side : Fin 2) :
    r.findBinding (b.dev side) (b.dev (1 - side)) b.kind = some (⟨id, b⟩, side) := by
  cases hfind : r.findBinding (b.dev side) (b.dev (1 - side)) b.kind with
  | none =>
      obtain ⟨hfirst, hsecond⟩ := pairSide_eq_none (findBinding_none hfind hb rfl)
      match side with
      | 0 => exact absurd ⟨rfl, rfl⟩ hfirst
      | 1 => exact absurd ⟨rfl, rfl⟩ hsecond
  | some found =>
      obtain ⟨⟨id', b'⟩, side'⟩ := found
      obtain ⟨hb', hside⟩ := findBinding_some hfind
      obtain ⟨hown, hpeer⟩ := pairSide_eq_some hside
      have hpair : SamePair b' b := by
        unfold SamePair
        match side, side' with
        | 0, 0 => exact Or.inl ⟨hown, hpeer⟩
        | 0, 1 => exact Or.inr ⟨hpeer, hown⟩
        | 1, 0 => exact Or.inr ⟨hown, hpeer⟩
        | 1, 1 => exact Or.inl ⟨hpeer, hown⟩
      obtain rfl := h.unique id' id b' b hb' hb (findBinding_kind hfind) hpair
      cases hb.symm.trans hb'
      have hsame : side' = side := by
        match side, side' with
        | 0, 0 => rfl
        | 0, 1 => exact absurd hown.symm hne
        | 1, 0 => exact absurd hown hne
        | 1, 1 => rfl
      rw [hsame]

/-- An allocation that finds a binding and succeeds hands out that binding,
which is not spent, and changes nothing but its time. -/
theorem relayAlloc_found {src peer : DevId} {kind : RelayKind} {owner : ConnKey} {addr : Endpoint}
    {now : Instant} {draws : RelayDraws} {g : RelayGrant} {id : RelayId} {b : Relay} {side : Fin 2}
    (h : r.relayAlloc src peer kind owner addr now draws = some (g, r')) (hcode : g.code = .none)
    (hfind : r.findBinding src peer kind = some (⟨id, b⟩, side)) :
    b.exhausted = false ∧ g.id = id ∧ g.token = b.token side ∧ g.peerToken = b.token (1 - side) ∧
      r' = { r with relays := r.relays.insert id { b with lastSeen := now } } := by
  cases allocation h with
  | barred hbarred => exact absurd hcode hbarred
  | full => cases hcode
  | found _ _ _ _ hfind' hgood =>
      cases hfind'.symm.trans hfind
      exact ⟨hgood, rfl, rfl, rfl, rfl⟩
  | made _ _ _ _ hnone => cases hnone.symm.trans hfind

/-- An allocation that succeeds leaves a binding of the kind for the pair, and
returns the tokens of the asking side and of the other, in that order. -/
theorem relayAlloc_grants {src peer : DevId} {kind : RelayKind} {owner : ConnKey} {addr : Endpoint}
    {now : Instant} {draws : RelayDraws} {g : RelayGrant}
    (h : r.relayAlloc src peer kind owner addr now draws = some (g, r')) (hcode : g.code = .none) :
    ∃ b side, r'.relays.lookup g.id = some b ∧ b.kind = kind ∧ b.dev side = src ∧
      b.dev (1 - side) = peer ∧ g.token = b.token side ∧ g.peerToken = b.token (1 - side) := by
  cases allocation h with
  | barred hbarred => exact absurd hcode hbarred
  | full => cases hcode
  | found _ _ _ _ hfind =>
      obtain ⟨hown, hother⟩ := pairSide_eq_some (findBinding_some hfind).2
      have hkind := findBinding_kind hfind
      exact ⟨_, _, AList.lookup_insert _, hkind, hown, hother, rfl, rfl⟩
  | made => exact ⟨_, 0, AList.lookup_insert _, rfl, rfl, rfl, rfl, rfl⟩

/-- A spent binding carries nothing, whoever asks. -/
theorem relayCharge_spent {id : RelayId} {b : Relay} (hb : r.relays.lookup id = some b)
    (hspent : b.exhausted = true) (bytes : Nat) (now : Instant) :
    (r.relayCharge id bytes now).1 = false := by
  unfold relayCharge
  rw [hb]
  simp only [hspent, Bool.true_or, if_true]

theorem udpForward_spent {id : RelayId} {b : Relay} (hb : r.relays.lookup id = some b)
    (hspent : b.exhausted = true) (src : Endpoint) (bytes : Nat) (now : Instant) :
    (r.udpForward id src bytes now).1 = none := by
  rw [udpForward_eq]
  split
  · rfl
  · simp only [relayCharge_spent hb hspent, Bool.false_eq_true, if_false]

end Alloc

/-! ## Every reachable state

The accounts along any run, while no charge is near the end of the counter. -/

/-- The number of bytes a call charges. -/
def Op.charge : Op → Option Nat
  | .relayCharge _ bytes _ => some bytes
  | .udpForward _ _ bytes _ => some bytes
  | _ => none

theorem charge_of_mem_chargeMarks {r : Registry} {id id' : RelayId} {bytes n : Nat} {now : Instant}
    (h : RelayMark.charged id' n ∈ r.chargeMarks id bytes now) : n = bytes := by
  unfold chargeMarks at h
  split at h
  · split at h
    · cases List.mem_singleton.mp h
      rfl
    · cases List.mem_singleton.mp h
  · cases h

theorem charge_of_mem_relayMarks {r : Registry} {op : Op} {id : RelayId} {n : Nat}
    (h : RelayMark.charged id n ∈ r.relayMarks op) : op.charge = some n := by
  cases op with
  | relayAlloc src peer kind owner addr now draws =>
      simp only [relayMarks] at h
      split at h
      · split at h
        · cases h
        · obtain ⟨b, -, heq⟩ := Option.map_eq_some_iff.mp (Option.mem_toList.mp h)
          cases heq
      · cases h
  | relayCharge id' bytes now => exact congrArg some (charge_of_mem_chargeMarks h).symm
  | udpBind id' token src now =>
      simp only [relayMarks] at h
      split at h
      · obtain ⟨side, -, heq⟩ := Option.map_eq_some_iff.mp (Option.mem_toList.mp h)
        cases heq
      · cases h
  | udpForward id' src bytes now =>
      simp only [relayMarks] at h
      split at h
      · exact congrArg some (charge_of_mem_chargeMarks h).symm
      · cases h
  | _ => cases h

theorem smallCharges_of_ops {P : Primitives} {cfg : RegistryConfig} {ops : List Op}
    (h : ∀ op ∈ ops, ∀ n ∈ op.charge, cfg.relayMaxBytes + n < 2 ^ 64) (r : Registry) :
    SmallCharges cfg (relayHistory P r ops) := by
  induction ops generalizing r with
  | nil =>
      intro id n hmem
      cases hmem
  | cons op ops ih =>
      intro id n hmem
      rcases List.mem_append.mp hmem with hmem | hmem
      · exact h op List.mem_cons_self n (charge_of_mem_relayMarks hmem)
      · exact ih (fun op' hop' => h op' (List.mem_cons_of_mem _ hop')) _ id n hmem

theorem ledger_reachable (P : Primitives) (cfg : RegistryConfig) (secret : SymKey) (ops : List Op)
    (hsmall : ∀ op ∈ ops, ∀ n ∈ op.charge, cfg.relayMaxBytes + n < 2 ^ 64) :
    (run (step P) { cfg := cfg, secret := secret } ops).Ledger cfg
      (relayHistory P { cfg := cfg, secret := secret } ops) := by
  refine relay_keeps_reachable (I := fun ms r => SmallCharges cfg ms → r.Ledger cfg ms)
    (fun _ => .init cfg secret) ?_ ops (smallCharges_of_ops hsmall _)
  intro ms m r r' h hm hcharges
  exact (h fun id n hmem => hcharges id n (List.mem_append_left _ hmem)).move hcharges hm

/-- In every state a run reaches: two bindings of one kind are not for the same
devices; no account passes the budget; an allocation that succeeds returns the
asking side's token of a binding of the pair, and the other's.  A live binding
has the devices and tokens it was made with and has counted what was charged
since; an allocation for its pair that succeeds, whichever side asks, returns
its id and only touches it; and once a charge was refused it carries nothing and
is not handed out any more.

A charge and the budget together are below 2^64: the configuration keeps the
budget below 2^42, and what is charged is the size of a buffer in memory. -/
theorem relay_budget_kept (P : Primitives) (cfg : RegistryConfig) (secret : SymKey)
    (ops : List Op) (hsmall : ∀ op ∈ ops, ∀ n ∈ op.charge, cfg.relayMaxBytes + n < 2 ^ 64) :
    let r := run (step P) { cfg := cfg, secret := secret } ops
    let ms := relayHistory P { cfg := cfg, secret := secret } ops
    (∀ id id' b b', r.relays.lookup id = some b → r.relays.lookup id' = some b' →
      b.kind = b'.kind → SamePair b b' → id = id') ∧
    (∀ id a, account ms id = some a → a.spent ≤ cfg.relayMaxBytes) ∧
    (∀ src peer kind owner addr now draws g r',
      r.relayAlloc src peer kind owner addr now draws = some (g, r') → g.code = .none →
      ∃ b side, r'.relays.lookup g.id = some b ∧ b.kind = kind ∧ b.dev side = src ∧
        b.dev (1 - side) = peer ∧ g.token = b.token side ∧ g.peerToken = b.token (1 - side)) ∧
    (∀ id b, r.relays.lookup id = some b →
      (∃ a, account ms id = some a ∧ Agrees b a) ∧
      (b.dev 0 ≠ b.dev 1 → ∀ side owner addr now draws g r',
        r.relayAlloc (b.dev side) (b.dev (1 - side)) b.kind owner addr now draws = some (g, r') →
        g.code = .none →
        b.exhausted = false ∧ g.id = id ∧ g.token = b.token side ∧
          g.peerToken = b.token (1 - side) ∧
          r' = { r with relays := r.relays.insert id { b with lastSeen := now } }) ∧
      (b.exhausted = true → (∀ bytes now, (r.relayCharge id bytes now).1 = false) ∧
        ∀ src bytes now, (r.udpForward id src bytes now).1 = none)) := by
  intro r ms
  have hledger : r.Ledger cfg ms := ledger_reachable P cfg secret ops hsmall
  refine ⟨hledger.unique, hledger.within, ?_, fun id b hb => ⟨hledger.live id b hb, ?_, ?_⟩⟩
  · intro src peer kind owner addr now draws g r' halloc hcode
    exact relayAlloc_grants halloc hcode
  · intro hne side owner addr now draws g r' halloc hcode
    exact relayAlloc_found halloc hcode (hledger.findBinding hb hne side)
  · intro hspent
    exact ⟨relayCharge_spent hb hspent, udpForward_spent hb hspent⟩

/-- Two devices of one topic, a binding between them, and charges up to the
budget and past it. -/
def budgetOps : List Op :=
  let dev (port : Nat) := deriveDevId Primitives.checksum (Vector.replicate 32 0)
    (Vector.replicate 16 1) { port := port }
  [.register { id := Vector.replicate 16 1 } { port := 7 } 1 0,
   .register { id := Vector.replicate 16 1 } { port := 8 } 2 0,
   .relayAlloc (dev 7) (dev 8) .tcp 1 { port := 7 } 0 ⟨[5], fun _ => Vector.replicate 16 9⟩,
   .relayCharge 5 600 1,
   .relayCharge 5 600 2]

theorem relay_budget_kept_sample :
    (∀ op ∈ budgetOps, ∀ n ∈ op.charge, 1024 + n < 2 ^ 64) ∧
    (account (relayHistory Primitives.checksum
      { cfg := { relayMaxBytes := 1024 }, secret := Vector.replicate 32 0 } budgetOps) 5).map
        (fun a => (a.spent, a.refused)) = some (600, true) ∧
    ∀ id a, account (relayHistory Primitives.checksum
      { cfg := { relayMaxBytes := 1024 }, secret := Vector.replicate 32 0 } budgetOps) id = some a →
      a.spent ≤ 1024 := by
  have hsmall : ∀ op ∈ budgetOps, ∀ n ∈ op.charge, 1024 + n < 2 ^ 64 := by
    intro op hop n hn
    simp only [budgetOps, List.mem_cons, List.not_mem_nil, or_false] at hop
    rcases hop with rfl | rfl | rfl | rfl | rfl
    all_goals cases hn
    all_goals omega
  refine ⟨hsmall, by decide +kernel, ?_⟩
  exact (relay_budget_kept Primitives.checksum { relayMaxBytes := 1024 } (Vector.replicate 32 0)
    budgetOps hsmall).2.1

end Registry

end UConnect.Server
