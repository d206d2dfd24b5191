/-
  Server/RegistryMoves.lean --- what one call of the registry can do.

  Every call is a sequence of a few kinds of move: something beside the records
  changes, a record is rewritten in place, a new one is added and marked fresh,
  one is marked fresh, a topic is hidden, a record is erased, or the count of
  fresh records loses its oldest entry.  `step_moves` says so once; what every
  move keeps, every run keeps.  A move that makes or hides a topic leaves a
  mark, so that what became of a topic can be told from the marks of a run.
-/
import UConnect.Foundation.Run
import UConnect.Server.RegistryIndex
import UConnect.Server.RelayOwnership
import Mathlib.Data.List.TakeWhile

set_option autoImplicit false

namespace UConnect.Server

open UConnect UConnect.Foundation UConnect.Crypto

namespace Registry

/-! ## Moves

The kinds of change, and sequences of them.  A property that every kind keeps is
kept by every sequence. -/

/-- `r'` differs from `r` in the relay bindings, the owner lists and the
statistics only.  The number of fresh records is no statistic. -/
structure Beside (r r' : Registry) : Prop where
  cfg : r'.cfg = r.cfg
  secret : r'.secret = r.secret
  byDev : r'.byDev = r.byDev
  topics : r'.topics = r.topics
  perIpTotal : r'.perIpTotal = r.perIpTotal
  listing : r'.listing = r.listing
  nextOrder : r'.nextOrder = r.nextOrder
  freshOrder : r'.freshOrder = r.freshOrder
  entriesFresh : r'.stats.entriesFresh = r.stats.entriesFresh

/-- The hiding at the end of `register_entry`. -/
def hideTopic (r : Registry) (t : TopicId) : Registry :=
  { r with
    listing := match r.topics.lookup t with
      | some s => r.listing.erase s.order
      | none => r.listing
    topics := modifyAt r.topics t fun s => { s with listed := false } }

/-- What is remembered of a topic: that it was made, and that it was hidden. -/
inductive Mark where
  | made (t : TopicId) (mode : TopicMode)
  | hidden (t : TopicId)
  deriving DecidableEq

/-- The topic a registration past the quotas makes. -/
def births (r : Registry) (msg : Register) : List Mark :=
  if msg.id ∈ r.topics then [] else [.made msg.id msg.mode]

/-- The topic a registration hides. -/
def hidings (msg : Register) : List Mark := if msg.unlisted then [.hidden msg.id] else []

/-- One move at time `now`, with the mark it leaves.  `known` are the pairs that
are registered. -/
inductive Move (P : Primitives) (known : List (TopicId × Endpoint)) (now : Instant) :
    List Mark → Registry → Registry → Prop where
  | beside {r r' : Registry} (h : r.Beside r') : Move P known now [] r r'
  | rewrite {r : Registry} {dev : DevId} {e e' : Entry} (he : r.byDev.lookup dev = some e)
      (hdev : e'.devId = e.devId) (htopic : e'.topicId = e.topicId)
      (haddr : e'.boundAddr = e.boundAddr) (hseen : e'.lastSeen = e.lastSeen) :
      Move P known now [] r { r with byDev := r.byDev.insert dev e' }
  | add {r : Registry} {msg : Register} {src : Endpoint} {owner : ConnKey} {e : Entry}
      (hnew : r.byDev.lookup e.devId = none)
      (hquota : r.overQuota msg.id (ipKey src) = false) (hknown : (msg.id, src) ∈ known)
      (hdev : e.devId = deriveDevId P r.secret msg.id src) (htopic : e.topicId = msg.id)
      (haddr : e.boundAddr = src) :
      Move P known now (r.births msg) r
        ({ r.addRecord msg e.devId src owner with byDev := r.byDev.insert e.devId e }.markFresh
          e.devId now)
  | mark {r : Registry} {dev : DevId} {e : Entry} (he : r.byDev.lookup dev = some e) :
      Move P known now [] r (r.markFresh dev now)
  | hide {r : Registry} {t : TopicId} : Move P known now [.hidden t] r (r.hideTopic t)
  | erase {r : Registry} {dev : DevId} : Move P known now [] r (r.eraseEntry dev)
  | expire {r : Registry} {e : Σ _ : Instant × DevId, TopicId} (he : e ∈ r.freshOrder.entries)
      (hstale : ¬ now - e.1.1 < r.cfg.staleAfter) : Move P known now [] r (r.expireOne e)

/-- Moves one after the other. -/
inductive Moves (P : Primitives) (known : List (TopicId × Endpoint)) (now : Instant) :
    List Mark → Registry → Registry → Prop where
  | refl (r : Registry) : Moves P known now [] r r
  | tail {bs b : List Mark} {r r' r'' : Registry}
      (h : Moves P known now bs r r') (hmove : Move P known now b r' r'') :
      Moves P known now (bs ++ b) r r''

section Compose

variable {P : Primitives} {known : List (TopicId × Endpoint)} {now : Instant}
  {b bs cs : List Mark} {r r' r'' : Registry}

theorem Moves.single (h : Move P known now b r r') : Moves P known now b r r' := by
  have hone := (Moves.refl (P := P) r).tail h
  rwa [List.nil_append] at hone

/-- A move that leaves no mark. -/
theorem Moves.quiet (h : Moves P known now bs r r') (hmove : Move P known now [] r' r'') :
    Moves P known now bs r r'' := by
  have htail := h.tail hmove
  rwa [List.append_nil] at htail

theorem Moves.trans (h : Moves P known now bs r r') (h' : Moves P known now cs r' r'') :
    Moves P known now (bs ++ cs) r r'' := by
  induction h' with
  | refl => rwa [List.append_nil]
  | tail _ hmove ih =>
      rw [← List.append_assoc]
      exact (ih h).tail hmove

/-- What every move keeps, a sequence of them keeps. -/
theorem Moves.keeps {I : List Mark → Registry → Prop}
    (hmove : ∀ hist b r r', I hist r → Move P known now b r r' → I (hist ++ b) r')
    (hist : List Mark) (h : Moves P known now bs r r') (hr : I hist r) :
    I (hist ++ bs) r' := by
  induction h with
  | refl => rwa [List.append_nil]
  | tail _ hm ih =>
      rw [← List.append_assoc]
      exact hmove _ _ _ _ (ih hr) hm

end Compose

/-! ## Records and topics along the moves

The agreement of the containers holds between the moves of one call too, not
only after it. -/

/-- Records and topics agree, and ids are made with `key`. -/
structure Sound (P : Primitives) (key : SymKey) (known : List (TopicId × Endpoint))
    (r : Registry) : Prop where
  secret : r.secret = key
  topics : r.view.TopicInv (deriveDevId P) known

section Sound

variable {P : Primitives} {key : SymKey} {known : List (TopicId × Endpoint)} {now : Instant}
  {b bs : List Mark} {r r' : Registry}

theorem Sound.of_view (h : r.Sound P key known) (hview : r'.view = r.view) :
    r'.Sound P key known := by
  refine ⟨?_, ?_⟩
  · exact (congrArg View.secret hview).trans h.secret
  · rw [hview]
    exact h.topics

theorem view_withEntry (r : Registry) (dev : DevId) (e : Entry) :
    { r with byDev := r.byDev.insert dev e }.view = r.view.put dev e.stub := by
  simp only [view, owned, View.put, View.mk.injEq, true_and, and_true]
  funext d
  rw [lookup_insert_ite, Function.update_apply]
  split <;> rfl

@[simp] theorem byDev_addRecord (r : Registry) (msg : Register) (dev : DevId) (src : Endpoint)
    (owner : ConnKey) : (r.addRecord msg dev src owner).byDev = r.byDev := by
  unfold addRecord openTopic
  dsimp only
  split <;> rfl

@[simp] theorem view_hideTopic (r : Registry) (t : TopicId) : (r.hideTopic t).view = r.view := by
  refine view_eq (fun _ => rfl) (fun t' => ?_) rfl rfl
  exact map_lookup_modifyAt r.topics t t' fun _ => rfl

theorem record_eq_stub {dev : DevId} {e : Entry} (he : r.byDev.lookup dev = some e) :
    r.view.record dev = some e.stub := by
  simp only [view, he, Option.map_some]

theorem Sound.move (h : r.Sound P key known) (hm : Move P known now b r r') :
    r'.Sound P key known := by
  cases hm with
  | beside hbeside =>
      refine ⟨hbeside.secret.trans h.secret, h.topics.congr hbeside.secret ?_ ?_⟩
      · simp only [view, hbeside.byDev]
      · simp only [view, hbeside.topics]
  | rewrite he hdev htopic haddr hseen =>
      refine ⟨h.secret, ?_⟩
      rw [view_withEntry]
      exact h.topics.put (record_eq_stub he) hdev htopic haddr
  | @add _ msg src owner e hnew hquota hknown hdev htopic haddr =>
      have hview : { r.addRecord msg e.devId src owner with
          byDev := r.byDev.insert e.devId e }.view =
          (r.view.join e.devId e.topicId owner).put e.devId e.stub := by
        rw [htopic, ← view_addRecord r msg e.devId src owner, ← view_withEntry, byDev_addRecord]
      have hnone : r.view.record e.stub.devId = none := by
        show (r.byDev.lookup e.devId).map Entry.stub = none
        rw [hnew, Option.map_none]
      have hadd : Sound P key known { r.addRecord msg e.devId src owner with
          byDev := r.byDev.insert e.devId e } := by
        refine ⟨(congrArg View.secret hview).trans h.secret, ?_⟩
        rw [hview]
        refine h.topics.join (s := e.stub) hnone ?_ ?_
        · show e.devId = deriveDevId P r.secret e.topicId e.boundAddr
          rw [htopic, haddr]
          exact hdev
        · show (e.topicId, e.boundAddr) ∈ known
          rw [htopic, haddr]
          exact hknown
      exact hadd.of_view (view_markFresh _ _ now)
  | mark he => exact h.of_view (view_markFresh r _ now)
  | hide => exact h.of_view (view_hideTopic r _)
  | @erase _ dev =>
      refine ⟨?_, ?_⟩
      · show (r.eraseEntry dev).view.secret = key
        rw [view_eraseEntry]
        exact (View.secret_foldl_remove [dev] r.view).trans h.secret
      · rw [view_eraseEntry]
        exact h.topics.remove dev
  | expire he hstale => exact h.of_view (view_expireOne r _)

end Sound

/-! ## Every call is a sequence of moves

The decomposition, with the marks it leaves, and the rule for runs that comes of
it. -/

/-- The marks a call leaves. -/
def marks (P : Primitives) (r : Registry) : Op → List Mark
  | .register msg src _ _ =>
      if (r.byDev.lookup (deriveDevId P r.secret msg.id src)).isSome then hidings msg
      else if r.overQuota msg.id (ipKey src) then []
      else r.births msg ++ hidings msg
  | _ => []

/-- The time of a call, where it has one. -/
def Op.time : Op → Option Instant
  | .register _ _ _ now => some now
  | .refresh _ _ now => some now
  | .update _ _ now => some now
  | .lookup _ _ _ now _ => some now
  | .resolve _ now => some now
  | .listTopics _ _ now => some now
  | .relayAlloc _ _ _ _ _ now _ => some now
  | .relayCharge _ _ now => some now
  | .udpBind _ _ _ now => some now
  | .udpForward _ _ _ now => some now
  | .sweep now => some now
  | .stats now => some now
  | _ => none

section Steps

variable {P : Primitives} {key : SymKey} {known : List (TopicId × Endpoint)} {now : Instant}
  {r : Registry}

theorem Beside.refl (r : Registry) : r.Beside r := ⟨rfl, rfl, rfl, rfl, rfl, rfl, rfl, rfl, rfl⟩

/-- The record a registration writes. -/
def recordOf (msg : Register) (dev : DevId) (src : Endpoint) (owner : ConnKey) (seen : Instant) :
    Entry where
  devId := dev
  topicId := msg.id
  boundAddr := src
  hostCands := msg.hostCands
  «meta» := msg.meta
  owner := owner
  lastSeen := seen
  keyEpoch := msg.keyEpoch
  mode := msg.mode

theorem writeRecord_eq (r : Registry) (msg : Register) (dev : DevId) (src : Endpoint)
    (owner : ConnKey) (now : Instant) :
    r.writeRecord msg dev src owner now =
      let e := recordOf msg dev src owner (((r.byDev.lookup dev).map (·.lastSeen)).getD 0)
      let r := { r with byDev := r.byDev.insert dev e }.markFresh dev now
      if msg.unlisted then r.hideTopic msg.id else r := rfl

theorem lookup_markFresh (r : Registry) (dev : DevId) (now : Instant) (d : DevId) :
    (r.markFresh dev now).byDev.lookup d =
      if d = dev then (r.byDev.lookup dev).map fun e => { e with lastSeen := now }
      else r.byDev.lookup d := by
  unfold markFresh
  cases he : r.byDev.lookup dev with
  | none =>
      dsimp only
      split
      · rename_i heq
        rw [heq, he]
        rfl
      · rfl
  | some e =>
      dsimp only
      rw [byDev_forgetFresh, lookup_insert_ite]
      rfl

/-- A registration writes the one record. -/
theorem lookup_writeRecord (r : Registry) (msg : Register) (dev : DevId) (src : Endpoint)
    (owner : ConnKey) (now : Instant) (d : DevId) :
    (r.writeRecord msg dev src owner now).byDev.lookup d =
      if d = dev then some (recordOf msg dev src owner now) else r.byDev.lookup d := by
  have hmark : ∀ e : Entry, ({ r with byDev := r.byDev.insert dev e }.markFresh dev now).byDev.lookup d =
      if d = dev then some { e with lastSeen := now } else r.byDev.lookup d := by
    intro e
    rw [lookup_markFresh]
    dsimp only
    rw [AList.lookup_insert, lookup_insert_ite]
    split
    · rfl
    · rfl
  rw [writeRecord_eq]
  dsimp only
  split
  · exact hmark _
  · exact hmark _

/-- The topic is hidden if that was asked for: the end of a registration. -/
theorem Moves.finish {bs : List Mark} {r₀ : Registry} (h : Moves P known now bs r₀ r)
    (msg : Register) :
    Moves P known now (bs ++ hidings msg) r₀ (if msg.unlisted then r.hideTopic msg.id else r) := by
  unfold hidings
  cases msg.unlisted with
  | true => exact h.tail .hide
  | false => simpa using h

theorem registerEntry_moves (h : r.Sound P key known) {msg : Register} {src : Endpoint}
    {owner : ConnKey} (hsep : Separates P key known) (hknown : (msg.id, src) ∈ known) :
    Moves P known now (marks P r (.register msg src owner now)) r
      (r.registerEntry P msg src owner now).2 := by
  unfold registerEntry marks
  dsimp only
  generalize hdev : deriveDevId P r.secret msg.id src = dev
  cases hrec : r.byDev.lookup dev with
  | some e =>
      simp only [Option.isNone_some, Bool.false_and, Bool.false_eq_true, if_false,
        Option.isSome_some, if_true]
      -- the record found is the one of the same topic and address
      obtain ⟨hid, hder, hmem⟩ := h.topics.derived dev e.stub (record_eq_stub hrec)
      have hpair : (msg.id, src) = (e.topicId, e.boundAddr) := by
        refine hsep _ hknown _ hmem ?_
        rw [← h.secret]
        exact hdev.trans hder
      obtain ⟨htopic, haddr⟩ := Prod.mk.inj hpair
      have hput : ∀ (r₁ : Registry) (e₁ : Entry), Moves P known now [] r r₁ →
          r₁.byDev.lookup dev = some e₁ → e₁.devId = dev → e₁.topicId = msg.id →
          e₁.boundAddr = src →
          Moves P known now (hidings msg) r (r₁.writeRecord msg dev src owner now) := by
        intro r₁ e₁ hm he₁ hd ht ha
        have hre : Move P known now [] r₁ { r₁ with
            byDev := r₁.byDev.insert dev (recordOf msg dev src owner e₁.lastSeen) } :=
          .rewrite he₁ hd.symm ht.symm ha.symm rfl
        rw [writeRecord_eq, he₁]
        exact ((hm.quiet hre).quiet (.mark (AList.lookup_insert _))).finish msg
      have hwrite : Moves P known now (hidings msg) r
          ((if e.owner ≠ owner then r.takeOver dev e owner else r).writeRecord msg dev src owner
            now) := by
        split
        · refine hput _ { e with owner := owner } ?_ (AList.lookup_insert _) hid htopic.symm
            haddr.symm
          have hre : Move P known now [] r
              { r with byDev := r.byDev.insert dev { e with owner := owner } } :=
            .rewrite hrec rfl rfl rfl rfl
          exact (Moves.single hre).quiet (.beside ⟨rfl, rfl, rfl, rfl, rfl, rfl, rfl, rfl, rfl⟩)
        · exact hput r e (.refl r) hrec hid htopic.symm haddr.symm
      exact hwrite.quiet (.beside ⟨rfl, rfl, rfl, rfl, rfl, rfl, rfl, rfl, rfl⟩)
  | none =>
      simp only [Option.isNone_none, Bool.true_and, Option.isSome_none, Bool.false_eq_true,
        if_false, if_true]
      split
      · exact Moves.single (.beside ⟨rfl, rfl, rfl, rfl, rfl, rfl, rfl, rfl, rfl⟩)
      · rename_i hquota
        have hadd : Move P known now (r.births msg) r ({ r.addRecord msg dev src owner with
            byDev := r.byDev.insert dev (recordOf msg dev src owner 0) }.markFresh dev now) :=
          .add (e := recordOf msg dev src owner 0) hrec (Bool.not_eq_true _ ▸ hquota) hknown
            hdev.symm rfl rfl
        have hwrite : Moves P known now (r.births msg ++ hidings msg) r
            ((r.addRecord msg dev src owner).writeRecord msg dev src owner now) := by
          rw [writeRecord_eq, byDev_addRecord, hrec]
          exact (Moves.single hadd).finish msg
        exact hwrite.quiet (.beside ⟨rfl, rfl, rfl, rfl, rfl, rfl, rfl, rfl, rfl⟩)

/-- Entries of different keys, all stale, are taken out one by one. -/
theorem foldl_expireOne_moves (l : List (Σ _ : Instant × DevId, TopicId))
    (hnodup : (l.map Sigma.fst).Nodup) (hmem : ∀ e ∈ l, e ∈ r.freshOrder.entries)
    (hstale : ∀ e ∈ l, ¬ now - e.1.1 < r.cfg.staleAfter) :
    Moves P known now [] r (l.foldl expireOne r) := by
  induction l generalizing r with
  | nil => exact .refl r
  | cons e l ih =>
      rw [List.map_cons, List.nodup_cons] at hnodup
      have hfirst : Move P known now [] r (r.expireOne e) :=
        .expire (hmem e List.mem_cons_self) (hstale e List.mem_cons_self)
      have hrest : ∀ e' ∈ l, e' ∈ (r.expireOne e).freshOrder.entries := by
        intro e' he'
        have hne : e'.1 ≠ e.1 := fun heq => hnodup.1 (heq ▸ List.mem_map_of_mem he')
        have hold : r.freshOrder.lookup e'.1 = some e'.2 :=
          AList.mem_lookup_iff.mpr (hmem e' (List.mem_cons_of_mem _ he'))
        exact AList.mem_lookup_iff.mp ((AList.lookup_erase_ne hne).trans hold)
      exact (Moves.single hfirst).trans
        (ih hnodup.2 hrest fun e' he' => hstale e' (List.mem_cons_of_mem _ he'))

/-- The stale entries `expire_fresh` takes out. -/
def staleEntries (r : Registry) (now : Instant) : List (Σ _ : Instant × DevId, TopicId) :=
  (r.freshOrder.entries.mergeSort freshLe).takeWhile fun e => ¬ (now - e.1.1 < r.cfg.staleAfter)

theorem nodup_staleEntries (r : Registry) (now : Instant) :
    ((r.staleEntries now).map Sigma.fst).Nodup := by
  have hsorted : ((r.freshOrder.entries.mergeSort freshLe).map Sigma.fst).Nodup :=
    ((List.mergeSort_perm _ _).map _).nodup_iff.mpr r.freshOrder.nodupKeys
  exact ((List.takeWhile_sublist _).map Sigma.fst).nodup hsorted

theorem mem_staleEntries {e : Σ _ : Instant × DevId, TopicId} (he : e ∈ r.staleEntries now) :
    e ∈ r.freshOrder.entries ∧ ¬ now - e.1.1 < r.cfg.staleAfter := by
  refine ⟨?_, ?_⟩
  · exact (List.mergeSort_perm _ _).mem_iff.mp ((List.takeWhile_sublist _).subset he)
  · have hdec := List.mem_takeWhile_imp he
    exact of_decide_eq_true hdec

theorem expireFresh_moves (r : Registry) (now : Instant) :
    Moves P known now [] r (r.expireFresh now) :=
  foldl_expireOne_moves _ (nodup_staleEntries r now) (fun _ he => (mem_staleEntries he).1)
    fun _ he => (mem_staleEntries he).2

theorem foldl_eraseEntry_moves (l : List DevId) (r : Registry) :
    Moves P known now [] r (l.foldl eraseEntry r) := by
  induction l generalizing r with
  | nil => exact .refl r
  | cons dev l ih => exact (Moves.single .erase).trans (ih _)

theorem foldl_releaseRelay_beside (l : List (Σ _ : RelayId, Relay)) (r : Registry) :
    r.Beside (l.foldl releaseRelay r) := by
  induction l generalizing r with
  | nil => exact .refl r
  | cons it l ih =>
      obtain ⟨h₁, h₂, h₃, h₄, h₅, h₆, h₇, h₈, h₉⟩ := ih (r.releaseRelay it)
      exact ⟨h₁, h₂, h₃, h₄, h₅, h₆, h₇, h₈, h₉⟩

theorem relayCharge_beside (r : Registry) (id : RelayId) (bytes : Nat) (now : Instant) :
    r.Beside (r.relayCharge id bytes now).2 := by
  unfold relayCharge
  split
  · exact .refl r
  split
  · exact ⟨rfl, rfl, rfl, rfl, rfl, rfl, rfl, rfl, rfl⟩
  · exact ⟨rfl, rfl, rfl, rfl, rfl, rfl, rfl, rfl, rfl⟩

theorem relayAlloc_beside {src peer : DevId} {kind : RelayKind} {owner : ConnKey} {addr : Endpoint}
    {draws : RelayDraws} {g : RelayGrant} {r' : Registry}
    (h : r.relayAlloc src peer kind owner addr now draws = some (g, r')) : r.Beside r' := by
  cases allocation h with
  | barred => exact .refl r
  | full => exact ⟨rfl, rfl, rfl, rfl, rfl, rfl, rfl, rfl, rfl⟩
  | found => exact ⟨rfl, rfl, rfl, rfl, rfl, rfl, rfl, rfl, rfl⟩
  | made => exact ⟨rfl, rfl, rfl, rfl, rfl, rfl, rfl, rfl, rfl⟩

theorem udpForward_beside (r : Registry) (id : RelayId) (src : Endpoint) (bytes : Nat)
    (now : Instant) : r.Beside (r.udpForward id src bytes now).2 := by
  unfold udpForward
  split
  · exact .refl r
  · rename_i b _
    split
    · exact .refl r
    · dsimp only
      generalize (if (b.udp 0).any (·.same src) then some (0 : Fin 2)
        else if (b.udp 1).any (·.same src) then some 1 else none) = side
      cases side with
      | none => exact .refl r
      | some side =>
          dsimp only
          split
          · exact .refl r
          · exact relayCharge_beside r id bytes now

/-- `lookup` counts how often it was asked; the sample it draws is no part of
the state. -/
theorem lookup_beside (r : Registry) (t : TopicId) (max : Nat) (wantMeta : Bool) (now : Instant)
    (s : Sampler) : r.Beside (r.lookup t max wantMeta now s).2 := by
  unfold lookup
  dsimp only
  split
  · exact ⟨rfl, rfl, rfl, rfl, rfl, rfl, rfl, rfl, rfl⟩
  · exact ⟨rfl, rfl, rfl, rfl, rfl, rfl, rfl, rfl, rfl⟩

theorem connectTarget_beside (r : Registry) (src dst : DevId) (owner : ConnKey) :
    r.Beside (r.connectTarget src dst owner).2 := by
  unfold connectTarget
  split
  · split
    · exact .refl r
    split
    · exact .refl r
    · exact ⟨rfl, rfl, rfl, rfl, rfl, rfl, rfl, rfl, rfl⟩
  · exact .refl r

theorem udpBind_beside (r : Registry) (id : RelayId) (token : RelayToken) (src : Endpoint)
    (now : Instant) : r.Beside (r.udpBind id token src now).2 := by
  unfold udpBind
  split
  · exact .refl r
  split
  · exact .refl r
  split
  · exact .refl r
  · exact ⟨rfl, rfl, rfl, rfl, rfl, rfl, rfl, rfl, rfl⟩

theorem relayClose_beside (r : Registry) (id : RelayId) : r.Beside (r.relayClose id) := by
  unfold relayClose
  split
  · exact .refl r
  · exact ⟨rfl, rfl, rfl, rfl, rfl, rfl, rfl, rfl, rfl⟩

theorem refresh_moves (r : Registry) (dev : DevId) (owner : ConnKey) (now : Instant) :
    Moves P known now [] r (r.refresh dev owner now).2 := by
  unfold refresh
  split
  · exact .refl r
  · rename_i e he
    split
    · exact .refl r
    · exact Moves.single (.mark he)

/-- An update rewrites the record in place and marks it fresh. -/
theorem update_moves (r : Registry) (msg : Update) (owner : ConnKey) (now : Instant) :
    Moves P known now [] r (r.update msg owner now).2 := by
  unfold update
  split
  · exact .refl r
  · rename_i e he
    split
    · exact .refl r
    · have hre : ∀ e' : Entry, e' = { e with hostCands := msg.hostCands, «meta» := msg.meta } →
          Move P known now [] r { r with byDev := r.byDev.insert msg.devId e' } := by
        rintro e' rfl
        exact .rewrite he rfl rfl rfl rfl
      exact (Moves.single (hre _ rfl)).quiet (.mark (AList.lookup_insert _))

theorem unregister_moves (r : Registry) (dev : DevId) (owner : ConnKey) :
    Moves P known now [] r (r.unregister dev owner).2 := by
  unfold unregister
  split
  · exact .refl r
  · split
    · exact .refl r
    · refine (Moves.single (.beside ?_)).quiet .erase
      exact ⟨rfl, rfl, rfl, rfl, rfl, rfl, rfl, rfl, rfl⟩

/-- Every record of the owner is erased, and then its list and its bindings go. -/
theorem dropOwner_moves (r : Registry) (owner : ConnKey) :
    Moves P known now [] r (r.dropOwner owner).2 := by
  unfold dropOwner
  refine (foldl_eraseEntry_moves (r.owned owner) r).quiet (.beside ?_)
  obtain ⟨h₁, h₂, h₃, h₄, h₅, h₆, h₇, h₈, h₉⟩ := foldl_releaseRelay_beside
    (List.filter (fun it : Σ _ : RelayId, Relay => it.2.owner 0 = owner || it.2.owner 1 = owner)
      { (r.owned owner).foldl eraseEntry r with
        byOwner := ((r.owned owner).foldl eraseEntry r).byOwner.erase owner }.relays.entries)
    { (r.owned owner).foldl eraseEntry r with
      byOwner := ((r.owned owner).foldl eraseEntry r).byOwner.erase owner }
  exact ⟨h₁, h₂, h₃, h₄, h₅, h₆, h₇, h₈, h₉⟩

/-- A call at time `now` is a sequence of moves at that time. -/
theorem step_moves (h : r.Sound P key known) (hsep : Separates P key known) {op : Op}
    (hop : ∀ p ∈ op.registers, p ∈ known) (htime : ∀ n ∈ op.time, n = now) :
    Moves P known now (marks P r op) r (step P r op) := by
  have hquiet : ∀ {r' : Registry}, r.Beside r' → Moves P known now [] r r' :=
    fun hb => Moves.single (.beside hb)
  cases op with
  | register msg src owner n =>
      obtain rfl := htime n rfl
      exact registerEntry_moves h hsep (hop _ rfl)
  | refresh dev owner n =>
      obtain rfl := htime n rfl
      exact refresh_moves r dev owner n
  | update msg owner n =>
      obtain rfl := htime n rfl
      exact update_moves r msg owner n
  | unregister dev owner => exact unregister_moves r dev owner
  | dropOwner owner => exact dropOwner_moves r owner
  | lookup t max wantMeta n s => exact hquiet (lookup_beside r t max wantMeta n s)
  | resolve dev n => exact .refl r
  | listTopics cursor limit n =>
      obtain rfl := htime n rfl
      exact expireFresh_moves r n
  | connectTarget src dst owner => exact hquiet (connectTarget_beside r src dst owner)
  | relayAlloc src peer kind owner addr n draws =>
      show Moves P known now [] r
        (((r.relayAlloc src peer kind owner addr n draws).map (·.2)).getD r)
      cases hr : r.relayAlloc src peer kind owner addr n draws with
      | none => exact .refl r
      | some p => exact hquiet (relayAlloc_beside hr)
  | relayCharge id bytes n => exact hquiet (relayCharge_beside r id bytes n)
  | udpBind id token src n => exact hquiet (udpBind_beside r id token src n)
  | udpForward id src bytes n => exact hquiet (udpForward_beside r id src bytes n)
  | relayClose id => exact hquiet (relayClose_beside r id)
  | sweep n =>
      obtain rfl := htime n rfl
      exact (expireFresh_moves r n).quiet (.beside (foldl_releaseRelay_beside _ _))
  | stats n =>
      obtain rfl := htime n rfl
      exact expireFresh_moves r n

theorem Sound.moves {bs : List Mark} {r' : Registry} (h : r.Sound P key known)
    (hm : Moves P known now bs r r') : r'.Sound P key known := by
  induction hm with
  | refl => exact h
  | tail _ hmove ih => exact (ih h).move hmove

/-- What every move keeps, a call keeps. -/
theorem keeps_step {I : List Mark → Registry → Prop}
    (hmove : ∀ hist b r r', r.Sound P key known → I hist r → Move P known now b r r' →
      I (hist ++ b) r')
    (hsep : Separates P key known) {op : Op} (hop : ∀ p ∈ op.registers, p ∈ known)
    (htime : ∀ n ∈ op.time, n = now) (hist : List Mark)
    (h : r.Sound P key known) (hr : I hist r) :
    (step P r op).Sound P key known ∧ I (hist ++ marks P r op) (step P r op) := by
  have hm := step_moves h hsep hop htime
  refine ⟨h.moves hm, ?_⟩
  refine (Moves.keeps (I := fun hist r => r.Sound P key known ∧ I hist r) ?_ hist hm ⟨h, hr⟩).2
  rintro hist b r r' ⟨hs, hi⟩ hmv
  exact ⟨hs.move hmv, hmove hist b r r' hs hi hmv⟩

/-- The marks of a run. -/
def history (P : Primitives) (r : Registry) (ops : List Op) : List Mark :=
  trace (marks P) (step P) r ops

theorem history_append (P : Primitives) (r : Registry) (xs ys : List Op) :
    history P r (xs ++ ys) = history P r xs ++ history P (run (step P) r xs) ys :=
  trace_append _ _ _ _ _

theorem Separates.mono {secret : SymKey} {all : List (TopicId × Endpoint)}
    (h : Separates P secret all) (hsub : known ⊆ all) : Separates P secret known :=
  fun p hp q hq heq => h p (hsub hp) q (hsub hq) heq

/-- What every move at a time of `C` keeps, every run at such times keeps. -/
theorem keeps_run_at {C : Instant → Prop} (hC : ∃ n, C n)
    {I : List Mark → Registry → Prop}
    (hmove : ∀ now, C now → ∀ hist b r r', r.Sound P key known → I hist r →
      Move P known now b r r' → I (hist ++ b) r')
    (hsep : Separates P key known) {ops : List Op}
    (hops : ∀ op ∈ ops, ∀ p ∈ op.registers, p ∈ known)
    (htimes : ∀ op ∈ ops, ∀ n ∈ op.time, C n) (hist : List Mark)
    (h : r.Sound P key known) (hr : I hist r) :
    (run (step P) r ops).Sound P key known ∧
      I (hist ++ history P r ops) (run (step P) r ops) := by
  obtain ⟨n₀, hn₀⟩ := hC
  induction ops generalizing r hist with
  | nil =>
      refine ⟨h, ?_⟩
      rw [show history P r [] = [] from rfl, List.append_nil]
      exact hr
  | cons op ops ih =>
      have hnow : ∀ n ∈ op.time, n = op.time.getD n₀ := by
        intro n hn
        rw [Option.mem_def.mp hn, Option.getD_some]
      have hgood : C (op.time.getD n₀) := by
        cases ht : op.time with
        | none => exact hn₀
        | some n => exact htimes op List.mem_cons_self n ht
      obtain ⟨hsound, hi⟩ := keeps_step (hmove _ hgood) hsep (hops op List.mem_cons_self) hnow
        hist h hr
      have hrest := ih (fun op' hop' => hops op' (List.mem_cons_of_mem _ hop'))
        (fun op' hop' => htimes op' (List.mem_cons_of_mem _ hop')) _ hsound hi
      rwa [List.append_assoc] at hrest

/-- What every move keeps, at whatever time, every run keeps. -/
theorem keeps_run {I : List Mark → Registry → Prop}
    (hmove : ∀ now hist b r r', r.Sound P key known → I hist r → Move P known now b r r' →
      I (hist ++ b) r')
    (hsep : Separates P key known) {ops : List Op}
    (hops : ∀ op ∈ ops, ∀ p ∈ op.registers, p ∈ known) (hist : List Mark)
    (h : r.Sound P key known) (hr : I hist r) :
    (run (step P) r ops).Sound P key known ∧
      I (hist ++ history P r ops) (run (step P) r ops) :=
  keeps_run_at (C := fun _ => True) ⟨0, trivial⟩ (fun now _ => hmove now) hsep hops
    (fun _ _ _ _ => trivial) hist h hr

theorem Sound.init (P : Primitives) (cfg : RegistryConfig) (secret : SymKey)
    (known : List (TopicId × Endpoint)) :
    Sound P secret known { cfg := cfg, secret := secret } :=
  ⟨rfl, View.inv_empty.topics⟩

/-- What holds of an empty registry and is kept by every move holds in every
state a run reaches, if device ids tell apart the pairs the run registers. -/
theorem keeps_reachable {I : List Mark → Registry → Prop} {cfg : RegistryConfig} {secret : SymKey}
    {ops : List Op} (hsep : Separates P secret (ops.filterMap Op.registers))
    (hinit : I [] { cfg := cfg, secret := secret })
    (hmove : ∀ now hist b r r', r.Sound P secret (ops.filterMap Op.registers) → I hist r →
      Move P (ops.filterMap Op.registers) now b r r' → I (hist ++ b) r') :
    (run (step P) { cfg := cfg, secret := secret } ops).Sound P secret
        (ops.filterMap Op.registers) ∧
      I (history P { cfg := cfg, secret := secret } ops)
        (run (step P) { cfg := cfg, secret := secret } ops) := by
  have hops : ∀ op ∈ ops, ∀ p ∈ op.registers, p ∈ ops.filterMap Op.registers :=
    fun op hop p hp => List.mem_filterMap.mpr ⟨op, hop, hp⟩
  have hkeep := keeps_run hmove hsep hops [] (Sound.init P cfg secret _) hinit
  rwa [List.nil_append] at hkeep

end Steps

end Registry

end UConnect.Server
