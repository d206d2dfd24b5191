/-
  Node/NonceUse.lean --- what a connection is for, and which nonces have been
  used.

  Source: src/api/node.cpp, `on_relayed`, `adopt_attempt`, `drive_pending` and
  `start_session`; README.md and src/session/tcp_session.hpp, which say that the
  node accepts each nonce once.

  The table of attempts forgets a nonce when a session comes up under it, so a
  connection that names it goes nowhere.  But an introduction puts a nonce back,
  whether or not it has been used.  The ledger says what one operation keeps as
  long as none is put back; as in Node/Attempts, `L` stands for the peers whose
  topic is being left.
-/
import UConnect.Node.Attempts

set_option autoImplicit false

namespace UConnect.Node

open UConnect.Foundation UConnect.Crypto UConnect.Wire

/-! ## What `drive_pending` does to a connection

A connection is for the peer it was made for, or for the one its message names. -/

namespace PendingConn

/-- Reading and writing leave alone what the connection is for. -/
structure SameFor (pc pc' : PendingConn) : Prop where
  known : pc'.known = pc.known
  key : pc'.key = pc.key
  attempt : pc'.attempt = pc.attempt

theorem SameFor.refl (pc : PendingConn) : SameFor pc pc := ⟨rfl, rfl, rfl⟩

theorem SameFor.trans {pc pc' pc'' : PendingConn} (h : SameFor pc pc') (h' : SameFor pc' pc'') :
    SameFor pc pc'' :=
  ⟨h'.known.trans h.known, h'.key.trans h.key, h'.attempt.trans h.attempt⟩

theorem sameFor_read {n : Nat} {rs : List RecvResult} {pc pc' : PendingConn}
    (h : read n rs pc = some pc') : SameFor pc pc' := by
  induction n generalizing rs pc with
  | zero =>
      cases h
      exact .refl _
  | succ n ih =>
      cases rs with
      | nil =>
          cases h
          exact .refl _
      | cons r rs =>
          unfold read at h
          split at h
          · cases h
          · cases h
            exact .refl _
          · split at h
            · simp only at h
              split at h
              · cases h
              · refine SameFor.trans ?_ (ih h)
                exact ⟨rfl, rfl, rfl⟩
            · refine SameFor.trans ?_ (ih h)
              exact ⟨rfl, rfl, rfl⟩

theorem sameFor_join {pc pc' : PendingConn} (h : pc.join = some pc') : SameFor pc pc' := by
  unfold join at h
  split at h
  · split at h
    · cases h
      exact ⟨rfl, rfl, rfl⟩
    · split at h
      · cases h
      · cases h
        exact ⟨rfl, rfl, rfl⟩
  · cases h
    exact .refl _

theorem sameFor_write {rs : List SendResult} {pc pc' : PendingConn} (h : write rs pc = some pc') :
    SameFor pc pc' := by
  induction rs generalizing pc with
  | nil =>
      cases h
      exact .refl _
  | cons r rs ih =>
      unfold write at h
      split at h
      · cases h
        exact .refl _
      · split at h
        · cases h
        · split at h
          · cases h
            exact .refl _
          · refine SameFor.trans ?_ (ih h)
            exact ⟨rfl, rfl, rfl⟩

end PendingConn

namespace Book

section Pending

variable {b : Book} {now : Instant} {io io' : PendingIo} {pc pc' : PendingConn}
  {v : PendingVerdict}

/-- The connection is for the same peer and attempt as before, or has just been
found in the table. -/
def Placed (b : Book) (pc pc' : PendingConn) : Prop :=
  PendingConn.SameFor pc pc' ∨ b.attempts.lookup pc'.attempt = some pc'.key

theorem sameFor_offerSession (h : b.offerSession now pc = (v, pc')) :
    PendingConn.SameFor pc pc' := by
  unfold offerSession at h
  split at h
  · split at h
    · cases h
      exact .refl pc
    · split at h
      · cases h
        exact .refl pc
      · split at h
        · cases h
          exact ⟨rfl, rfl, rfl⟩
        · split at h
          · cases h
            exact .refl pc
          · split at h
            · cases h
              exact ⟨rfl, rfl, rfl⟩
            · cases h
              exact .refl pc
  · cases h
    exact .refl pc

theorem identify_placed (h : b.identify now pc = (v, pc')) :
    (v ≠ .start ∧ pc' = pc) ∨
      (pc'.known = true ∧ b.attempts.lookup pc'.attempt = some pc'.key) := by
  unfold identify at h
  split at h
  · cases h
    refine Or.inl ⟨?_, rfl⟩
    split <;> exact PendingVerdict.noConfusion
  · split at h
    · cases h
      refine Or.inl ⟨?_, rfl⟩
      split <;> exact PendingVerdict.noConfusion
    · rename_i hk
      cases h
      exact Or.inr ⟨rfl, hk⟩

/-- What `drive_pending` leaves, and that a session is started under an attempt
in the table only. -/
theorem judge_placed (h : b.judge now io pc = (v, pc')) :
    b.Placed pc pc' ∧ (v = .start → pc'.known = true ∧
      (b.attempts.lookup pc'.attempt).isSome = true) := by
  have hstay : ∀ {v' : PendingVerdict}, v' ≠ .start → (v', pc) = (v, pc') →
      b.Placed pc pc' ∧ (v = .start → pc'.known = true ∧
        (b.attempts.lookup pc'.attempt).isSome = true) := by
    intro v' hv' heq
    cases heq
    exact ⟨Or.inl (.refl pc), fun hv => absurd hv hv'⟩
  unfold judge at h
  split at h
  · exact hstay PendingVerdict.noConfusion h
  · rename_i hlive
    split at h
    · exact hstay PendingVerdict.noConfusion h
    · split at h
      · exact hstay PendingVerdict.noConfusion h
      · split at h
        · exact hstay PendingVerdict.noConfusion h
        · split at h
          · exact hstay PendingVerdict.noConfusion h
          · rename_i pc₁ hio
            obtain ⟨pc₂, hread, hio⟩ := Option.bind_eq_some_iff.mp hio
            obtain ⟨pc₃, hjoin, hwrite⟩ := Option.bind_eq_some_iff.mp hio
            have hsame : PendingConn.SameFor pc pc₁ :=
              ((PendingConn.sameFor_read hread).trans (PendingConn.sameFor_join hjoin)).trans
                (PendingConn.sameFor_write hwrite)
            split at h
            · cases h
              exact ⟨Or.inl hsame, PendingVerdict.noConfusion⟩
            · split at h
              · rename_i hknown
                have hoffer := hsame.trans (sameFor_offerSession h)
                refine ⟨Or.inl hoffer, fun _ => ?_⟩
                rw [hoffer.known, hoffer.attempt]
                have hk : pc.known = true := hsame.known ▸ hknown
                refine ⟨hk, ?_⟩
                simpa [hk, Option.isSome_iff_ne_none] using hlive
              · split at h
                · rename_i pc₄ hident
                  rcases identify_placed hident with ⟨hne, -⟩ | ⟨hknown, hlookup⟩
                  · exact absurd rfl hne
                  · have hoffer := sameFor_offerSession h
                    rw [← hoffer.attempt, ← hoffer.key] at hlookup
                    refine ⟨Or.inr hlookup, fun _ => ⟨hoffer.known.trans hknown, ?_⟩⟩
                    rw [hlookup]
                    rfl
                · rename_i r hr
                  rcases identify_placed h with ⟨-, heq⟩ | ⟨-, hlookup⟩
                  · subst heq
                    refine ⟨Or.inl hsame, fun hv => ?_⟩
                    subst hv
                    exact absurd h (hr pc')
                  · refine ⟨Or.inr hlookup, fun hv => ?_⟩
                    subst hv
                    exact absurd h (hr pc')

theorem Placed.trans {pc'' : PendingConn} (h : b.Placed pc pc') (h' : b.Placed pc' pc'') :
    b.Placed pc pc'' := by
  rcases h' with hsame' | hlookup'
  · rcases h with hsame | hlookup
    · exact Or.inl (hsame.trans hsame')
    · right
      rw [hsame'.attempt, hsame'.key]
      exact hlookup
  · exact Or.inr hlookup'

theorem drivePending_placed (h : b.drivePending now io io' pc = (v, pc')) :
    b.Placed pc pc' ∧ (v = .start → pc'.known = true ∧
      (b.attempts.lookup pc'.attempt).isSome = true) := by
  unfold drivePending at h
  split at h
  · rename_i pc₁ hgreet
    obtain ⟨hplaced, -⟩ := judge_placed hgreet
    obtain ⟨hplaced', hstart⟩ := judge_placed h
    exact ⟨hplaced.trans hplaced', hstart⟩
  · exact judge_placed h

end Pending

/-! ## The ledger

The nonces that were used, the table, and the pending connections. -/

/-- `adopt_attempt` is not called with a nonce that is another peer's, as its
attempt or on a connection that waits, nor with one that the peer was on when
its topic was left (`L`), nor with one under which the peer had a session. -/
def Untried (L : PeerKey → AttemptNonce → Prop) (k : PeerKey) (b : Book) : Effect → Prop
  | .adopt _ n =>
      ((∀ k' ∈ b.attempts.lookup n, k' = k) ∧ ¬ L k n) ∧ (k, n) ∉ b.established ∧
        ∀ pc ∈ b.pending, pc.known = true → pc.dead = false → pc.attempt = n → pc.key = k
  | _ => True

instance Untried.decidable (L : PeerKey → AttemptNonce → Prop) [∀ k n, Decidable (L k n)]
    (k : PeerKey) (b : Book) : (f : Effect) → Decidable (Untried L k b f)
  | .adopt _ n => inferInstanceAs (Decidable
      (((∀ k' ∈ b.attempts.lookup n, k' = k) ∧ ¬ L k n) ∧ (k, n) ∉ b.established ∧
        ∀ pc ∈ b.pending, pc.known = true → pc.dead = false → pc.attempt = n → pc.key = k))
  | .erase _ => inferInstanceAs (Decidable True)
  | .connect _ => inferInstanceAs (Decidable True)
  | .dial _ _ => inferInstanceAs (Decidable True)
  | .relayAlloc => inferInstanceAs (Decidable True)
  | .established _ => inferInstanceAs (Decidable True)

theorem Untried.unclaimed {L : PeerKey → AttemptNonce → Prop} {k : PeerKey} {b : Book} {f : Effect}
    (h : Untried L k b f) : Unclaimed L k b f := by
  cases f with
  | adopt old n => exact h.1
  | _ => trivial

/-- A connection that waits leads to its own peer or nowhere, and a nonce that a
session came up under does not lead to its peer again. -/
structure Ledger (b : Book) : Prop where
  placed : ∀ pc ∈ b.pending, pc.known = true → pc.dead = false →
    ∀ k ∈ b.attempts.lookup pc.attempt, k = pc.key
  spent : ∀ k n, (k, n) ∈ b.established → b.attempts.lookup n ≠ some k
  once : b.established.Nodup

section Ledgers

variable {L : PeerKey → AttemptNonce → Prop} {b : Book} {k : PeerKey} {x : Ctx} {n : AttemptNonce}
  {a a' : Option AttemptNonce}

theorem lookup_erase_some {old m : AttemptNonce} {k' : PeerKey}
    (h : (b.attempts.erase old).lookup m = some k') : b.attempts.lookup m = some k' := by
  rcases Decidable.em (m = old) with hm | hm
  · rw [hm, AList.lookup_erase] at h
    cases h
  · rwa [AList.lookup_erase_ne hm] at h

theorem Ledger.erase (h : Ledger b) : Ledger (b.effect x k (.erase n)) where
  placed pc hpc hknown hlive k' hk' := h.placed pc hpc hknown hlive k' (lookup_erase_some hk')
  spent k' m hm hlookup := h.spent k' m hm (lookup_erase_some hlookup)
  once := h.once

/-- Connections of the peer that are tagged again are still the peer's. -/
theorem retag_cases (old n : AttemptNonce) (pc : PendingConn) :
    retag k old n pc = pc ∨
      (pc.key = k ∧ retag k old n pc = { pc with attempt := n }) := by
  unfold retag
  split
  · rename_i h
    simp only [Bool.and_eq_true, decide_eq_true_eq] at h
    exact Or.inr ⟨h.2, rfl⟩
  · exact Or.inl rfl

/-- A nonce is entered under which only the peer's own connections wait. -/
theorem Ledger.insert {pd : List PendingConn} (h : Ledger b) (hspent : (k, n) ∉ b.established)
    (hpd : ∀ pc ∈ pd, pc.known = true → pc.dead = false →
      pc ∈ b.pending ∨ (pc.key = k ∧ pc.attempt = n))
    (hwait : ∀ pc ∈ b.pending, pc.known = true → pc.dead = false → pc.attempt = n → pc.key = k) :
    Ledger { b with attempts := b.attempts.insert n k, pending := pd } := by
  refine ⟨?_, ?_, h.once⟩
  · intro pc hpc hknown hlive k' hk'
    change (b.attempts.insert n k).lookup pc.attempt = some k' at hk'
    rcases Decidable.em (pc.attempt = n) with hn | hn
    · rw [hn, AList.lookup_insert] at hk'
      cases hk'
      rcases hpd pc hpc hknown hlive with hold | ⟨hkey, -⟩
      · exact (hwait pc hold hknown hlive hn).symm
      · exact hkey.symm
    · rw [AList.lookup_insert_ne hn] at hk'
      rcases hpd pc hpc hknown hlive with hold | ⟨-, hattempt⟩
      · exact h.placed pc hold hknown hlive k' hk'
      · exact absurd hattempt hn
  · intro k' m hm hlookup
    change (b.attempts.insert n k).lookup m = some k' at hlookup
    rcases Decidable.em (m = n) with hmn | hmn
    · rw [hmn, AList.lookup_insert] at hlookup
      cases hlookup
      rw [hmn] at hm
      exact hspent hm
    · rw [AList.lookup_insert_ne hmn] at hlookup
      exact h.spent k' m hm hlookup

theorem Ledger.adopt (h : Ledger b) (hfree : Untried L k b (.adopt a n)) :
    Ledger (b.effect x k (.adopt a n)) := by
  obtain ⟨-, hspent, hwait⟩ := hfree
  cases a with
  | none => exact h.insert hspent (fun pc hpc _ _ => Or.inl hpc) hwait
  | some old =>
      have herased : Ledger (b.effect x k (.erase old)) := h.erase
      refine herased.insert (n := n) hspent ?_ hwait
      intro pc hpc hknown hlive
      obtain ⟨pc₀, hpc₀, rfl⟩ := List.mem_map.mp hpc
      rcases retag_cases (k := k) old n pc₀ with heq | ⟨hkey, heq⟩
      · left
        rw [heq]
        exact hpc₀
      · right
        rw [heq]
        exact ⟨hkey, rfl⟩

/-- Dialing makes connections of the peer, under the attempt. -/
theorem mem_dialOne {c : Candidate} {pc : PendingConn} (h : pc ∈ (b.dialOne x k n c).pending) :
    pc ∈ b.pending ∨ (pc.attempt = n ∧ pc.key = k) := by
  unfold Book.dialOne at h
  split at h
  · exact Or.inl h
  · split at h
    · exact Or.inl h
    · split at h
      · exact Or.inl h
      · split at h
        · exact Or.inl h
        · rcases List.mem_append.mp h with hold | hnew
          · exact Or.inl hold
          · cases List.mem_singleton.mp hnew
            exact Or.inr ⟨rfl, rfl⟩

theorem Ledger.dialOne (h : Ledger b) (hlookup : b.attempts.lookup n = some k) (c : Candidate) :
    Ledger (b.dialOne x k n c) := by
  obtain ⟨hattempts, -, hestablished⟩ := @dialOne_attempts b k x n c
  refine ⟨?_, ?_, ?_⟩
  · intro pc hpc hknown hlive k' hk'
    rw [hattempts] at hk'
    rcases mem_dialOne hpc with hold | ⟨hattempt, hkey⟩
    · exact h.placed pc hold hknown hlive k' hk'
    · rw [hattempt] at hk'
      rw [hkey]
      exact Option.some.inj (hk'.symm.trans hlookup)
  · rw [hattempts, hestablished]
    exact h.spent
  · rw [hestablished]
    exact h.once

theorem Ledger.dial (h : Ledger b) (hlookup : b.attempts.lookup n = some k)
    (cands : List Candidate) : Ledger (b.effect x k (.dial n cands)) := by
  change Ledger (cands.foldl (Book.dialOne x k n) b)
  induction cands generalizing b with
  | nil => exact h
  | cons c cands ih =>
      apply ih (h.dialOne hlookup c)
      rw [(dialOne_attempts c).1]
      exact hlookup

/-- A session comes up under the peer's attempt, which ends. -/
theorem Ledger.established (h : Ledger b) (hlookup : b.attempts.lookup n = some k) :
    Ledger ((b.effect x k (.established n)).effect x k (.erase n)) := by
  have hnew : (k, n) ∉ b.established := fun hold => h.spent k n hold hlookup
  refine ⟨(h.erase (x := x) (k := k) (n := n)).placed, ?_, ?_⟩
  · intro k' m hm hlookup'
    change (b.attempts.erase n).lookup m = some k' at hlookup'
    rcases List.mem_append.mp hm with hold | hone
    · exact h.spent k' m hold (lookup_erase_some hlookup')
    · cases List.mem_singleton.mp hone
      rw [AList.lookup_erase] at hlookup'
      cases hlookup'
  · exact List.nodup_append.mpr ⟨h.once, List.nodup_singleton _, by
      rintro y hy z hz rfl
      cases List.mem_singleton.mp hz
      exact hnew hy⟩

/-- A session comes up under the attempt it was started under. -/
abbrev OwnAttempt (a : Option AttemptNonce) (n : AttemptNonce) : Prop := a = some n

/-- Effects that track the attempt of a peer keep the ledger. -/
theorem Ledger.tracks {fs : List Effect} (ht : Tracks OwnAttempt a fs a') (h : Ledger b)
    (hindex : b.IndexedAt L k a) (hfree : AllSteps (Untried L k) (effect x k) b fs) :
    Ledger (run (effect x k) b fs) := by
  induction ht generalizing b with
  | nil a => exact h
  | erase _ ih => exact ih h.erase hindex.erase hfree.2
  | adopt _ ih => exact ih (h.adopt hfree.1) (hindex.adopt hfree.1.unclaimed) hfree.2
  | connect _ ih => exact ih h hindex hfree.2
  | dial _ ih =>
      obtain ⟨hattempts, hpeers, -⟩ := @dial_frame k x _ _ b
      exact ih (h.dial hindex.lookup _) (hindex.congr hattempts hpeers) hfree.2
  | relayAlloc _ ih => exact ih h hindex hfree.2
  | @established a _ n _ hown _ ih =>
      cases hown
      have hlogged : (b.effect x k (.established n)).IndexedAt L k (some n) :=
        hindex.congr rfl rfl
      exact ih (h.established hindex.lookup) hlogged.erase hfree.2.2

end Ledgers

/-! ## Steps

One operation, given that it puts no used nonce back. -/

section Steps

variable (P : Primitives) {L : PeerKey → AttemptNonce → Prop} {b : Book} {op : BookOp}

/-- A connection that waits is for the peer whose attempt it names, unless that
attempt is one of `L`. -/
theorem startsUnder_of_ledger (hcons : Consistent L OwnAttempt b) (h : Ledger b)
    (hclear : ∀ s ∈ b.started op, ¬ L s.1 s.2) : b.StartsUnder OwnAttempt op := by
  cases op with
  | drivePending i x io io' random padding peerIo =>
      intro pc pc' hpc hlive hstart
      obtain ⟨hplaced, hknown⟩ := drivePending_placed hstart
      obtain ⟨hknown, hsome⟩ := hknown rfl
      obtain ⟨k', hk'⟩ := Option.isSome_iff_exists.mp hsome
      have hkey : k' = pc'.key := by
        rcases hplaced with hsame | hlookup
        · have hmem : pc ∈ b.pending := List.mem_of_getElem? hpc
          rw [hsame.attempt] at hk'
          rw [hsame.key]
          exact h.placed pc hmem (hsame.known ▸ hknown) hlive k' hk'
        · exact Option.some.inj (hk'.symm.trans hlookup)
      rw [hkey] at hk'
      have hstarted : b.started (.drivePending i x io io' random padding peerIo) =
          some (pc'.key, pc'.attempt) := by
        simp only [started, hpc, hlive, Bool.false_eq_true, if_false, hstart]
      rcases (hcons.index.finds _ _).mp hk' with hown | hleft
      · exact hown
      · exact absurd hleft (hclear _ hstarted)
  | _ => trivial

/-- The connections after an operation are the ones before, connections found in
the table, and the peers' relay legs. -/
theorem outcome_pending {pc : PendingConn} (hpc : pc ∈ (b.outcome P op).1.pending)
    (hknown : pc.known = true) :
    (∃ pc₀ ∈ b.pending, PendingConn.SameFor pc₀ pc ∧ (pc.dead = false → pc₀.dead = false)) ∨
      b.attempts.lookup pc.attempt = some pc.key ∨ b.attemptOf pc.key = some pc.attempt := by
  have hold : pc ∈ b.pending → ∃ pc₀ ∈ b.pending, PendingConn.SameFor pc₀ pc ∧
      (pc.dead = false → pc₀.dead = false) := fun h => ⟨pc, h, .refl pc, id⟩
  -- a connection that has been driven, put back in its place
  have hset : ∀ {i : Nat} {pc₀ pc₁ : PendingConn} {d : Bool}, b.pending[i]? = some pc₀ →
      ¬ pc₀.dead = true → b.Placed pc₀ pc₁ → pc ∈ b.pending.set i { pc₁ with dead := d } →
      (∃ pc₀ ∈ b.pending, PendingConn.SameFor pc₀ pc ∧ (pc.dead = false → pc₀.dead = false)) ∨
        b.attempts.lookup pc.attempt = some pc.key ∨
          b.attemptOf pc.key = some pc.attempt := by
    intro i pc₀ pc₁ d hpc₀ hlive hplaced hmem
    rcases List.mem_or_eq_of_mem_set hmem with hmem | rfl
    · exact Or.inl (hold hmem)
    · rcases hplaced with hsame | hlookup
      · exact Or.inl ⟨pc₀, List.mem_of_getElem? hpc₀, ⟨hsame.known, hsame.key, hsame.attempt⟩,
          fun _ => by simpa using hlive⟩
      · exact Or.inr (Or.inl hlookup)
  cases op with
  | join t psk =>
      unfold outcome at hpc
      simp only at hpc
      split at hpc <;> exact Or.inl (hold hpc)
  | setSelf t self =>
      unfold outcome at hpc
      simp only at hpc
      split at hpc <;> exact Or.inl (hold hpc)
  | control up => exact Or.inl (hold hpc)
  | act k x a => exact Or.inl (hold hpc)
  | joinRelay k x reach join =>
      unfold outcome at hpc
      simp only at hpc
      split at hpc
      · exact Or.inl (hold hpc)
      · rename_i p hp
        split at hpc
        · exact Or.inl (hold hpc)
        · rename_i n hn
          split at hpc
          · exact Or.inl (hold hpc)
          · simp only at hpc
            split at hpc
            · rcases List.mem_append.mp hpc with hmem | hnew
              · exact Or.inl (hold hmem)
              · cases List.mem_singleton.mp hnew
                exact Or.inr (Or.inr ((attemptOf_of_lookup hp).trans hn))
            · exact Or.inl (hold hpc)
  | accept target now =>
      rcases List.mem_append.mp hpc with hmem | hnew
      · exact Or.inl (hold hmem)
      · cases List.mem_singleton.mp hnew
        cases hknown
  | drivePending i x io io' random padding peerIo =>
      unfold outcome at hpc
      simp only at hpc
      split at hpc
      · exact Or.inl (hold hpc)
      · rename_i pc₀ hpc₀
        split at hpc
        · exact Or.inl (hold hpc)
        · rename_i hlive
          split at hpc
          · rename_i pc₁ hdrive
            exact hset hpc₀ hlive (drivePending_placed hdrive).1 hpc
          · rename_i pc₁ hdrive
            exact hset hpc₀ hlive (drivePending_placed hdrive).1 hpc
          · rename_i v pc₁ _ _ hdrive
            exact hset hpc₀ hlive (drivePending_placed hdrive).1 hpc
  | reap => exact Or.inl (hold (List.mem_of_mem_filter hpc))
  | disconnect k x reason sends => exact Or.inl (hold hpc)
  | trim k =>
      unfold outcome at hpc
      simp only at hpc
      split at hpc <;> exact Or.inl (hold hpc)

theorem Ledger.outcome (h : Ledger b) (hcons : Consistent L OwnAttempt b) :
    Ledger (b.outcome P op).1 := by
  obtain ⟨hattempts, hestablished⟩ := outcome_attempts P b op
  refine ⟨?_, ?_, ?_⟩
  · intro pc hpc hknown hlive k hk
    rw [hattempts] at hk
    rcases outcome_pending P hpc hknown with ⟨pc₀, hmem, hsame, hdead⟩ | hlookup | hattempt
    · rw [hsame.attempt] at hk
      rw [hsame.key]
      exact h.placed pc₀ hmem (hsame.known.symm.trans hknown) (hdead hlive) k hk
    · exact Option.some.inj (hk.symm.trans hlookup)
    · exact Option.some.inj (hk.symm.trans (hcons.index.find hattempt))
  · rw [hattempts, hestablished]
    exact h.spent
  · rw [hestablished]
    exact h.once

/-- The ledger and the index, through one operation that takes up only nonces
that are untried and starts no session under one of `L`. -/
theorem Ledger.step (h : Ledger b) (hcons : Consistent L OwnAttempt b)
    (hclear : ∀ s ∈ b.started op, ¬ L s.1 s.2) (hfree : b.AllEffects P (Untried L) op) :
    Ledger (b.step P op) ∧ Consistent L OwnAttempt (b.step P op) := by
  have hstart : b.StartsUnder OwnAttempt op := startsUnder_of_ledger hcons h hclear
  have hfree' : b.AllEffects P (Unclaimed L) op := by
    unfold AllEffects at hfree ⊢
    split
    · trivial
    · rename_i hout
      rw [hout] at hfree
      exact AllSteps.mono (fun _ _ => Untried.unclaimed) hfree
  refine ⟨?_, hcons.step P hstart hfree'⟩
  have hbase : Ledger (b.outcome P op).1 := h.outcome P hcons
  rcases step_cases P b op with ⟨-, heq⟩ | ⟨k, x, e, hout, heq⟩
  · rw [heq]
    exact hbase
  · obtain ⟨hattempts, -⟩ := outcome_attempts P b op
    have hof : (b.outcome P op).1.attemptOf = b.attemptOf :=
      funext fun k => (outcome_peers P b op k).1
    obtain ⟨ht, -⟩ := outcome_tracks P hcons.resting hstart hout
    rw [← hof] at ht
    have hindex : (b.outcome P op).1.IndexedAt L k ((b.outcome P op).1.attemptOf k) := by
      rw [indexedAt_self, hattempts, hof]
      exact hcons.index
    have hafter := hbase.tracks ht hindex (allSteps_of_allEffects P hfree hout)
    rw [heq]
    exact ⟨hafter.placed, hafter.spent, hafter.once⟩

theorem ledger_fresh (cfg : NodeConfig) : Ledger (fresh cfg) := by
  refine ⟨?_, ?_, List.nodup_nil⟩
  · intro pc hpc
    cases hpc
  · intro k n hkn
    cases hkn

end Steps

end Book

end UConnect.Node
