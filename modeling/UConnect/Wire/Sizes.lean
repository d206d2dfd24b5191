/-
  Wire/Sizes.lean --- how long messages are.

  Source: src/wire/control.cpp, `message` and `empty_message`, and
  src/wire/messages.cpp, `PeerEntry::encoded_size`.

  A message is its header and its body, or nothing if these do not fit a frame.
  The size the server computes for an entry is the number of bytes the encoder
  writes.
-/
import UConnect.Wire.Framing
import UConnect.Wire.RoundTrip

set_option autoImplicit false

namespace UConnect

open UConnect.Foundation UConnect.Wire UConnect.Wire.Decoder

namespace Wire

/-- One write after another. -/
theorem Wrote.trans {w w' w'' : Writer} {bs cs : Bytes} (h : Wrote w w' bs)
    (h' : Wrote w' w'' cs) : Wrote w w'' (bs ++ cs) where
  good hok := by
    obtain ⟨hok', hwritten', hcap', hroom'⟩ := h'.good hok
    obtain ⟨hw, hwritten, hcap, hroom⟩ := h.good hok'
    refine ⟨hw, ?_, hcap'.trans hcap, fun hle => hroom' (hroom hle)⟩
    rw [hwritten', hwritten, List.append_assoc]
  room hok hroom := by
    rw [List.length_append] at hroom
    have hok' := h.room hok (by omega)
    obtain ⟨-, hwritten, hcap, -⟩ := h.good hok'
    refine h'.room hok' ?_
    rw [hwritten, hcap, List.length_append]
    omega

theorem Header.wrote (h : Header) (w : Writer) : Wrote w (h.encode w) h.image := by
  have hall := (((((Wrote.refl w).u8 h.type).u8 h.version).u8 h.flags).u8 0).u32 h.txnId
  simp only [List.nil_append, List.append_assoc] at hall
  exact hall

@[simp] theorem Header.length_image (h : Header) : h.image.length = Header.kSize := by
  simp [Header.image, Header.kSize]

/-- A message is its header and its body, if they fit a frame. -/
theorem message_eq (type : MsgType) (txn : Nat) {body : Writer → Writer} (flags : UInt8)
    {bs : Bytes} (hbody : ∀ w, Wrote w (body w) bs) :
    message type txn body flags =
      if Header.kSize + bs.length ≤ kMaxFrame then
        Header.image { type := type, version := ctlVersion, flags := flags, txnId := txn } ++ bs
      else [] := by
  have hwrote := (Header.wrote { type := type, version := ctlVersion, flags := flags, txnId := txn }
    { capacity := kMaxFrame }).trans (hbody _)
  unfold message
  dsimp only
  split
  · rename_i hbad
    have hover : ¬ Header.kSize + bs.length ≤ kMaxFrame := by
      intro hfits
      have hok := hwrote.room rfl (by simpa using hfits)
      rw [hok] at hbad
      cases hbad
    rw [if_neg hover]
  · rename_i hgood
    obtain ⟨-, hwritten, hcap, hroom⟩ := hwrote.good (by simpa using hgood)
    have hfits : Header.kSize + bs.length ≤ kMaxFrame := by
      have hle := hroom (Nat.zero_le _)
      rw [hwritten, hcap] at hle
      simpa using hle
    rw [if_pos hfits, hwritten, List.nil_append]

theorem emptyMessage_eq (type : MsgType) (txn : Nat) (flags : UInt8) :
    emptyMessage type txn flags =
      Header.image { type := type, version := ctlVersion, flags := flags, txnId := txn } := by
  have hwrote := Header.wrote
    { type := type, version := ctlVersion, flags := flags, txnId := txn } { capacity := Header.kSize }
  obtain ⟨-, hwritten, -, -⟩ := hwrote.good (hwrote.room rfl (by simp))
  exact hwritten

/-! ## Parts

The lengths of what is written, from the caps. -/

theorem length_endpoint_le (ep : Endpoint) : ep.image.length ≤ 19 := by
  have hle := IpAddr.addrLen_le ep.ip
  rw [Endpoint.image, List.length_cons, List.length_append, IpAddr.length_take, length_beBytes]
  omega

theorem length_candidate (c : Candidate) : c.image.length = 2 + c.ep.ip.addrLen + 2 := by
  rw [Candidate.image, Endpoint.image, List.length_cons, List.length_cons, List.length_append,
    IpAddr.length_take, length_beBytes]
  omega

theorem length_blobImage (cap : Nat) (v : Bytes) :
    (blobImage cap v).length = 2 + (v.take cap).length := by
  rw [blobImage, List.length_append, length_beBytes]

theorem length_blobImage_le (cap : Nat) (v : Bytes) : (blobImage cap v).length ≤ 2 + cap := by
  have hle := List.length_take_le cap v
  rw [length_blobImage]
  omega

end Wire

/-! ## Entries

The size the server computes is the size of the image. -/

/-- The loop of `encoded_size` adds up the candidates. -/
theorem PeerEntry.foldl_size (cs : List Candidate) (n : Nat) :
    cs.foldl (fun n c => n + (2 + c.ep.ip.addrLen + 2)) n =
      n + (cs.flatMap Candidate.image).length := by
  induction cs generalizing n with
  | nil => rfl
  | cons c cs ih =>
      rw [List.foldl_cons, ih, List.flatMap_cons, List.length_append, length_candidate]
      omega

/-- `encoded_size` is the number of bytes `encode` writes. -/
theorem PeerEntry.encodedSize_eq (m : PeerEntry) : m.encodedSize = m.image.length := by
  unfold PeerEntry.encodedSize
  dsimp only
  rw [take_capped, capped_length, PeerEntry.foldl_size]
  simp only [PeerEntry.image, candsImage, length_blobImage, List.length_append, List.length_cons,
    Vector.length_toList, length_beBytes, List.length_nil]
  omega

theorem PeerEntry.length_image_le (m : PeerEntry) : m.image.length ≤ 438 := by
  have hcands := length_flatMap_image (m.cands.take kMaxCandidates)
  have hcount : (m.cands.take kMaxCandidates).length ≤ 8 := List.length_take_le _ _
  have hmeta : (blobImage kMaxMeta m.«meta»).length ≤ 2 + 256 := length_blobImage_le _ _
  simp only [PeerEntry.image, candsImage, List.length_append, List.length_cons,
    Vector.length_toList, length_beBytes, List.length_nil]
  omega

theorem LookupOk.length_image (m : LookupOk) :
    m.image.length = 20 + ((m.entries.take kLookupMax).flatMap PeerEntry.image).length := by
  simp only [LookupOk.image, List.length_append, List.length_cons, Vector.length_toList,
    length_beBytes, List.length_nil]
  omega

end UConnect
