/-
  Session/TcpRecords.lean --- one direction of an established session.

  Nonces and rekeying are implicit: a record says nothing of its place in the
  stream, so sender and receiver have to count alike.  What they count is a
  `Half`: a cipher and the number of records that have gone through it.
  `sealRecord` moves the sender's half on by one (`sealRecord_eq`), and the
  frame it writes is read by a receiver at the same half, which moves on by one
  too (`nextFrame_frame`, `onRecord_frame`).  `frames` is what a sender that
  starts at a half writes for a list of records.
-/
import UConnect.Session.TcpHandshake

set_option autoImplicit false

namespace UConnect

open UConnect.Foundation UConnect.Crypto

namespace TcpSession

variable {P : Primitives}

/-! ## Records

What is sealed: a record of the application's, a keepalive, or the close at the
end. -/

/-- A record as its sender seals it. -/
inductive Sealed where
  | keepalive
  | user (kind : UInt8) (body : Bytes)
  | close (reason : UInt16)
  deriving DecidableEq

namespace Sealed

/-- The kind byte. -/
def kind : Sealed → UInt8
  | keepalive => kKeepalive
  | user kind _ => kind
  | close _ => kClose

/-- The bytes behind it. -/
def body : Sealed → Bytes
  | keepalive => []
  | user _ body => body
  | close reason => beBytes 2 reason.toNat

/-- What the receiver's owner is told of it. -/
def told : Sealed → Option (UInt8 × Bytes)
  | user kind body => some (kind, body)
  | _ => none

/-- The checks of `send`. -/
def Fits (maxRecord : Nat) : Sealed → Prop
  | user kind body => kFirstUserKind ≤ kind ∧ body.length ≤ maxRecord
  | _ => True

/-- A record that does not end the stream. -/
def Goes : Sealed → Prop
  | close _ => False
  | _ => True

theorem length_body {maxRecord : Nat} (hmax : 2 ≤ maxRecord) {x : Sealed} (h : x.Fits maxRecord) :
    x.body.length ≤ maxRecord := by
  cases x with
  | keepalive => exact Nat.zero_le _
  | user kind body => exact h.2
  | close reason => exact Nat.le_trans (by simp [body]) hmax

end Sealed

/-! ## Halves

A cipher and a count, and how one record moves both. -/

/-- One direction at one end: a cipher and the records through it. -/
structure Half where
  cs : CipherState
  n : Nat
  deriving DecidableEq

namespace Half

/-- Behind one more record. -/
def next (P : Primitives) (every : Nat) (h : Half) : Half where
  cs :=
    if incr 64 h.n % every = 0 then { h.cs with nonce := incr 64 h.cs.nonce }.rekey P
    else { h.cs with nonce := incr 64 h.cs.nonce }
  n := incr 64 h.n

/-- The ciphertext of a record. -/
def cipher (P : Primitives) (h : Half) (x : Sealed) : Bytes :=
  P.aead.encrypt h.cs.key h.cs.nonce [] (x.kind :: x.body)

/-- Its frame. -/
def frame (P : Primitives) (h : Half) (x : Sealed) : Bytes :=
  beBytes 4 (h.cipher P x).length ++ h.cipher P x

/-- Behind these records. -/
def after (P : Primitives) (every : Nat) : Half → List Sealed → Half
  | h, [] => h
  | h, _ :: xs => after P every (h.next P every) xs

/-- What a sender writes for these records. -/
def frames (P : Primitives) (every : Nat) : Half → List Sealed → Bytes
  | _, [] => []
  | h, x :: xs => h.frame P x ++ frames P every (h.next P every) xs

theorem next_hasKey (every : Nat) {h : Half} (hkey : h.cs.hasKey = true) :
    (h.next P every).cs.hasKey = true := by
  unfold next
  dsimp only
  split
  · exact hkey
  · exact hkey

theorem after_append (every : Nat) (h : Half) (xs ys : List Sealed) :
    h.after P every (xs ++ ys) = (h.after P every xs).after P every ys := by
  induction xs generalizing h with
  | nil => rfl
  | cons x xs ih => exact ih (h.next P every)

theorem frames_append (every : Nat) (h : Half) (xs ys : List Sealed) :
    h.frames P every (xs ++ ys) =
      h.frames P every xs ++ (h.after P every xs).frames P every ys := by
  induction xs generalizing h with
  | nil => rfl
  | cons x xs ih =>
      rw [List.cons_append, frames, frames, ih (h.next P every), List.append_assoc, after]

theorem frames_singleton (every : Nat) (h : Half) (x : Sealed) :
    h.frames P every [x] = h.frame P x := List.append_nil _

theorem length_cipher (hP : P.aead.Lawful) (h : Half) (x : Sealed) :
    (h.cipher P x).length = x.body.length + 1 + kTagLen :=
  hP.length_encrypt _ _ _ _

end Half

/-- The half a session sends on. -/
def sendHalf (s : TcpSession) : Half := ⟨s.sendCs, s.sentRecords⟩

/-- The half a session receives on. -/
def recvHalf (s : TcpSession) : Half := ⟨s.recvCs, s.recvRecords⟩

/-! ## One record

Sealing writes the frame of the sender's half, and a receiver at the same half
reads it. -/

/-- What `seal` does: one frame more in the output, one record more behind it. -/
theorem sealRecord_eq {s : TcpSession} (hkey : s.sendCs.hasKey = true) (x : Sealed) :
    s.sealRecord P x.kind x.body =
      { s with
        out := s.out ++ s.sendHalf.frame P x
        sendCs := (s.sendHalf.next P s.cfg.rekeyEvery).cs
        sentRecords := (s.sendHalf.next P s.cfg.rekeyEvery).n } := by
  have hencrypt : s.sendCs.encryptWithAd P [] (x.kind :: x.body) =
      (s.sendHalf.cipher P x, { s.sendCs with nonce := incr 64 s.sendCs.nonce }) := by
    unfold CipherState.encryptWithAd
    rw [if_neg (by rw [hkey]; decide)]
    rfl
  unfold sealRecord
  rw [hencrypt, Half.frame, ← List.append_assoc]
  rfl

/-- The two ends accept the same records, and a length of four bytes holds them. -/
structure Compatible (x y : TcpSessionConfig) : Prop where
  maxRecord : x.maxRecord = y.maxRecord
  rekeyEvery : x.rekeyEvery = y.rekeyEvery
  rekey : 1 ≤ x.rekeyEvery
  notice : 2 ≤ x.maxRecord
  width : x.maxRecord + 1 + kTagLen < 2 ^ 32

/-- A record's frame is found when it is there. -/
theorem nextFrame_frame (hP : P.aead.Lawful) {s : TcpSession} (hstate : s.state = .established)
    (hmax : 2 ≤ s.cfg.maxRecord) (hwidth : s.cfg.maxRecord + 1 + kTagLen < 2 ^ 32) (h : Half)
    {x : Sealed} (hfits : x.Fits s.cfg.maxRecord) (rest : Bytes) :
    s.nextFrame (h.frame P x ++ rest) = some (.record (h.cipher P x), rest) := by
  have hlen := h.length_cipher hP x
  have hbody := Sealed.length_body hmax hfits
  unfold nextFrame
  rw [hstate]
  refine prefixed_frame .record (Nat.lt_of_le_of_lt (by omega) hwidth) ?_ rest
  rw [Bool.or_eq_false_iff, decide_eq_false_iff_not, decide_eq_false_iff_not]
  omega

/-- A receiver at the sender's half opens the record and moves on. -/
theorem onRecord_frame (hP : P.aead.Lawful) {s : TcpSession} (hkey : s.recvCs.hasKey = true)
    (x : Sealed) (now : Instant) :
    s.onRecord P (s.recvHalf.cipher P x) now =
      { s with
        recvCs := (s.recvHalf.next P s.cfg.rekeyEvery).cs
        recvRecords := (s.recvHalf.next P s.cfg.rekeyEvery).n
        lastRecv := now }.handleRecord (x.kind :: x.body) := by
  have hlen := s.recvHalf.length_cipher hP x
  have hdecrypt : s.recvCs.decryptWithAd P [] (s.recvHalf.cipher P x)
      ((s.recvHalf.cipher P x).length - kTagLen) =
        some (x.kind :: x.body, { s.recvCs with nonce := incr 64 s.recvCs.nonce }) := by
    unfold CipherState.decryptWithAd
    rw [if_neg (by rw [hkey]; decide), if_neg (by omega), if_neg (by omega), Half.cipher,
      recvHalf, hP.decrypt_encrypt, Option.map_some]
  unfold onRecord
  rw [hdecrypt]
  rfl

/-- Kinds are told apart. -/
theorem user_kind {kind : UInt8} (h : kFirstUserKind ≤ kind) :
    kind ≠ kKeepalive ∧ kind ≠ kClose ∧ ¬ kind < kFirstUserKind := by
  refine ⟨?_, ?_, UInt8.not_lt.mpr h⟩
  · rintro rfl
    exact absurd h (by decide)
  · rintro rfl
    exact absurd h (by decide)

theorem handleRecord_keepalive (s : TcpSession) :
    s.handleRecord (Sealed.keepalive.kind :: Sealed.keepalive.body) = s := by
  unfold handleRecord
  exact if_pos rfl

theorem handleRecord_user (s : TcpSession) {kind : UInt8} (h : kFirstUserKind ≤ kind)
    (body : Bytes) :
    s.handleRecord ((Sealed.user kind body).kind :: (Sealed.user kind body).body) =
      { s with events := s.events ++ [.record kind body] } := by
  obtain ⟨hkeep, hclose, huser⟩ := user_kind h
  unfold handleRecord
  dsimp only [Sealed.kind, Sealed.body]
  rw [if_neg hkeep, if_neg hclose, if_neg huser]

theorem handleRecord_close (s : TcpSession) (reason : UInt16) :
    s.handleRecord ((Sealed.close reason).kind :: (Sealed.close reason).body) =
      { s with
        state := .closed
        exported := Vector.replicate 32 0
        sendCs := s.sendCs.clear
        recvCs := s.recvCs.clear
        events := s.events ++ [.closed .peerNotice reason.toNat] } := by
  have hreason : beVal ((beBytes 2 reason.toNat).take 2) = reason.toNat := by
    rw [List.take_of_length_le (by simp)]
    exact beVal_beBytes_of_lt reason.toNat_lt
  unfold handleRecord
  dsimp only [Sealed.kind, Sealed.body]
  rw [if_neg (by decide), if_pos rfl, if_pos (by simp), hreason]

end TcpSession

end UConnect
