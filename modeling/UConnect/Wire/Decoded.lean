/-
  Wire/Decoded.lean --- what a decode that succeeds tells.

  Source: src/wire/buffer.hpp, src/wire/control.cpp and src/wire/messages.cpp.

  Whatever bytes arrived: candidates come back in normal form, lists and blobs
  within their caps, numbers within the range of their field, and a message
  takes at least the bytes its fields have.
-/
import UConnect.Wire.RoundTrip

set_option autoImplicit false

namespace UConnect

open UConnect.Foundation UConnect.Wire UConnect.Wire.Decoder UConnect.Crypto

/-! ## Reads

What a read leaves: fewer bytes, and a value within the range of its field. -/

namespace Wire

/-- A read that leaves the flag clear took its bytes off the front. -/
theorem Reader.bytes_spends {r : Reader} {n : Nat} (h : (r.bytes n).2.ok = true) :
    r.ok = true ∧ (r.bytes n).1 = r.rest.take n ∧
      n + (r.bytes n).2.rest.length = r.rest.length := by
  unfold Reader.bytes at h ⊢
  split
  · rename_i hroom
    obtain ⟨hok, hlen⟩ := Bool.and_eq_true_iff.mp hroom
    have hle := of_decide_eq_true hlen
    refine ⟨hok, rfl, ?_⟩
    rw [List.length_drop]
    omega
  · rename_i hroom
    rw [if_neg hroom] at h
    cases h

theorem Reader.length_bytes_le (r : Reader) (n : Nat) : (r.bytes n).1.length ≤ n := by
  unfold Reader.bytes
  split
  · exact List.length_take_le n _
  · exact Nat.zero_le n

theorem Reader.uint_lt (r : Reader) (n : Nat) : (r.uint n).1 < 256 ^ n :=
  Nat.lt_of_lt_of_le (beVal_lt _) (Nat.pow_le_pow_right (by decide) (r.length_bytes_le n))

/-- The reads made of one: the flag was clear before, and the bytes are gone. -/
theorem bytes_eq_some {n : Nat} {r r' : Reader} {bs : Bytes}
    (h : (Decoder.bytes n).run r = some (bs, r')) (hok : r'.ok = true) :
    r.ok = true ∧ bs.length = n ∧ n + r'.rest.length = r.rest.length := by
  have hpair : r.bytes n = (bs, r') := Option.some.inj h
  have hspent := Reader.bytes_spends (r := r) (n := n) (by rw [hpair]; exact hok)
  rw [hpair] at hspent
  obtain ⟨hr, hval, hlen⟩ := hspent
  refine ⟨hr, ?_, hlen⟩
  dsimp only at hval hlen
  rw [hval, List.length_take]
  omega

theorem uint_eq_some {n v : Nat} {r r' : Reader}
    {hl : ∀ r : Reader, r.ok = false → (r.uint n).2.ok = false}
    (h : (Decoder.read (Reader.uint · n) hl).run r = some (v, r')) (hok : r'.ok = true) :
    r.ok = true ∧ v < 256 ^ n ∧ n + r'.rest.length = r.rest.length := by
  have hpair : r.uint n = (v, r') := Option.some.inj h
  have hlt := r.uint_lt n
  rw [hpair] at hlt
  have hlast : (r.bytes n).2 = r' := congrArg Prod.snd hpair
  have hread : (Decoder.bytes n).run r = some ((r.bytes n).1, r') := hlast ▸ rfl
  obtain ⟨hr, -, hlen⟩ := bytes_eq_some hread hok
  exact ⟨hr, hlt, hlen⟩

theorem array_eq_some {n : Nat} {a : Vector UInt8 n} {r r' : Reader}
    (h : (Decoder.array n).run r = some (a, r')) (hok : r'.ok = true) :
    r.ok = true ∧ n + r'.rest.length = r.rest.length := by
  have hpair : r.array n = (a, r') := Option.some.inj h
  have hlast : (r.bytes n).2 = r' := congrArg Prod.snd hpair
  have hread : (Decoder.bytes n).run r = some ((r.bytes n).1, r') := hlast ▸ rfl
  obtain ⟨hr, -, hlen⟩ := bytes_eq_some hread hok
  exact ⟨hr, hlen⟩

/-- Copying fewer bytes than the array holds leaves zeros behind them. -/
theorem toList_copyInto_of_le {n : Nat} {bs : Bytes} (h : bs.length ≤ n) :
    (copyInto n bs).toList = bs ++ List.replicate (n - bs.length) 0 := by
  simp only [copyInto, Vector.toList_mk]
  rw [List.take_of_length_le h]

/-- An address filled from no more bytes than it uses is in normal form. -/
theorem normal_copyInto {family : Family} {a : Bytes}
    (h : a.length ≤ IpAddr.addrLen { family := family }) :
    (IpAddr.normal { family := family, bytes := copyInto 16 a }) =
      { family := family, bytes := copyInto 16 a } := by
  have hle := IpAddr.addrLen_le { family := family }
  have haddr : IpAddr.addrLen { family := family, bytes := copyInto 16 a } =
      IpAddr.addrLen { family := family } := rfl
  unfold IpAddr.normal
  rw [haddr]
  congr 1
  generalize IpAddr.addrLen { family := family } = n at h hle
  have hlist := toList_copyInto_of_le (Nat.le_trans h hle)
  have htake : (copyInto 16 a).toList.take n = a ++ List.replicate (n - a.length) 0 := by
    rw [hlist, List.take_append, List.take_of_length_le h, List.take_replicate,
      Nat.min_eq_left (by omega)]
  have hlen : (a ++ List.replicate (n - a.length) 0).length = n := by
    rw [List.length_append, List.length_replicate]
    omega
  apply Vector.toList_inj.mp
  rw [htake, toList_copyInto_of_le (Nat.le_trans (Nat.le_of_eq hlen) hle), hlist, hlen,
    List.append_assoc, List.replicate_append_replicate]
  congr 2
  omega

theorem Reader.endpoint_normal (r : Reader) : r.endpoint.1.normal = r.endpoint.1 := by
  unfold Reader.endpoint
  dsimp only
  split
  · exact (by decide : Endpoint.normal {} = {})
  · rename_i family _
    have hport : ((r.u8.2.bytes (IpAddr.addrLen { family := family })).2.u16).1 < 65536 :=
      Reader.uint_lt _ 2
    unfold Endpoint.normal
    rw [normal_copyInto (Reader.length_bytes_le _ _), Nat.mod_eq_of_lt hport]

theorem Reader.candidate_normal (r : Reader) : r.candidate.1.normal = r.candidate.1 := by
  unfold Reader.candidate
  dsimp only
  split
  · exact (by decide : Candidate.normal {} = {})
  · unfold Candidate.normal
    rw [Reader.endpoint_normal]

/-! ## Parts

The parts of a body, from the parts of the decoder. -/

/-- A sequence that succeeds, step by step. -/
theorem bind_eq_some {α β : Type} {d : Decoder α} {k : α → Decoder β} {r r'' : Reader} {b : β}
    (h : (d >>= k).run r = some (b, r'')) :
    ∃ a r', d.run r = some (a, r') ∧ (k a).run r' = some (b, r'') := by
  obtain ⟨⟨a, r'⟩, hd, hk⟩ := Option.bind_eq_some_iff.mp h
  exact ⟨a, r', hd, hk⟩

theorem timesWhileOk_normal {n : Nat} {r r' : Reader} {cs : List Candidate}
    (h : (timesWhileOk candidate n).run r = some (cs, r')) : Normal cs := by
  induction n generalizing r r' cs with
  | zero =>
      cases h
      exact fun c hc => absurd hc List.not_mem_nil
  | succ n ih =>
      rw [timesWhileOk] at h
      dsimp only at h
      split at h
      · obtain ⟨c, r₁, hc, hrest⟩ := bind_eq_some h
        obtain ⟨cs', r₂, hcs, hend⟩ := bind_eq_some hrest
        cases hend
        have hfirst : c.normal = c := by
          have hpair : r.candidate = (c, r₁) := Option.some.inj hc
          have hnormal := Reader.candidate_normal r
          rwa [hpair] at hnormal
        intro x hx
        rcases List.mem_cons.mp hx with rfl | hx
        · exact hfirst
        · exact ih hcs x hx
      · cases h
        exact fun c hc => absurd hc List.not_mem_nil

theorem readCands_normal {r r' : Reader} {cs : List Candidate}
    (h : readCands.run r = some (cs, r')) : Normal cs := by
  obtain ⟨n, r₁, -, h⟩ := bind_eq_some h
  obtain ⟨_, r₂, -, h⟩ := bind_eq_some h
  obtain ⟨out, r₃, hout, h⟩ := bind_eq_some h
  obtain ⟨_, r₄, -, h⟩ := bind_eq_some h
  cases h
  exact timesWhileOk_normal hout

/-- A test that is passed. -/
theorem require_eq_some {p : Prop} [Decidable p] {r r' : Reader} {u : Unit}
    (h : (require p).run r = some (u, r')) : p ∧ r' = r := by
  unfold require at h
  dsimp only at h
  split at h
  · rename_i hp
    cases h
    exact ⟨hp, rfl⟩
  · cases h

theorem good_eq_some {r r' : Reader} {u : Unit} (h : good.run r = some (u, r')) :
    r.ok = true ∧ r' = r := by
  unfold good at h
  dsimp only at h
  split at h
  · rename_i hok
    cases h
    exact ⟨hok, rfl⟩
  · cases h

/-- A blob within its cap, and the bytes it took. -/
theorem readBlob_spends {cap : Nat} {r r' : Reader} {v : Bytes}
    (h : (readBlob16Capped cap).run r = some (v, r')) :
    v.length ≤ cap ∧ r.ok = true ∧ 2 + v.length ≤ r.rest.length := by
  obtain ⟨n, r₁, hn, h⟩ := bind_eq_some h
  obtain ⟨_, r₂, hcap, h⟩ := bind_eq_some h
  obtain ⟨s, r₃, hs, h⟩ := bind_eq_some h
  obtain ⟨_, r₄, hgood, h⟩ := bind_eq_some h
  cases h
  obtain ⟨hle, rfl⟩ := require_eq_some hcap
  obtain ⟨hok, rfl⟩ := good_eq_some hgood
  obtain ⟨hok₁, hlen, hspent⟩ := bytes_eq_some hs hok
  obtain ⟨hok₀, -, hspent₀⟩ := uint_eq_some (n := 2) hn hok₁
  refine ⟨Nat.le_trans (Nat.le_of_eq hlen) hle, hok₀, ?_⟩
  omega

end Wire

/-! ## Messages

One statement for each message a handler decodes, with what the handler relies
on. -/

/-- What a registration carries is in normal form and within its caps. -/
theorem Register.decode_spec {h : Header} {r r' : Reader} {m : Register}
    (hm : (Register.decode h).run r = some (m, r')) :
    Normal m.hostCands ∧ m.«meta».length ≤ kMaxMeta := by
  obtain ⟨id, r₁, -, hm⟩ := bind_eq_some hm
  obtain ⟨mode, r₂, -, hm⟩ := bind_eq_some hm
  obtain ⟨keyEpoch, r₃, -, hm⟩ := bind_eq_some hm
  obtain ⟨cands, r₄, hcands, hm⟩ := bind_eq_some hm
  obtain ⟨meta', r₅, hmeta, hm⟩ := bind_eq_some hm
  cases hm
  exact ⟨readCands_normal hcands, (readBlob_spends hmeta).1⟩

theorem Update.decode_spec {r r' : Reader} {m : Update} (hm : Update.decode.run r = some (m, r')) :
    Normal m.hostCands ∧ m.«meta».length ≤ kMaxMeta := by
  obtain ⟨dev, r₁, -, hm⟩ := bind_eq_some hm
  obtain ⟨cands, r₂, hcands, hm⟩ := bind_eq_some hm
  obtain ⟨meta', r₃, hmeta, hm⟩ := bind_eq_some hm
  cases hm
  exact ⟨readCands_normal hcands, (readBlob_spends hmeta).1⟩

/-- A lookup asks for one to a hundred entries. -/
theorem Lookup.decode_spec {h : Header} {r r' : Reader} {m : Lookup}
    (hm : (Lookup.decode h).run r = some (m, r')) : 0 < m.max ∧ m.max ≤ kLookupMax := by
  obtain ⟨id, r₁, -, hm⟩ := bind_eq_some hm
  obtain ⟨max, r₂, -, hm⟩ := bind_eq_some hm
  obtain ⟨_, r₃, -, hm⟩ := bind_eq_some hm
  cases hm
  have hdefault : kLookupDefault = 30 := rfl
  have htop : kLookupMax = 100 := rfl
  show 0 < Lookup.clamp max.toNat ∧ Lookup.clamp max.toNat ≤ kLookupMax
  unfold Lookup.clamp
  dsimp only
  split <;> split <;> omega

/-- A page of topics has at most 255 of them. -/
theorem Topics.decode_spec {r r' : Reader} {m : Topics} (hm : Topics.decode.run r = some (m, r')) :
    0 < m.limit ∧ m.limit < 2 ^ 8 := by
  obtain ⟨cursor, r₁, -, hm⟩ := bind_eq_some hm
  obtain ⟨limit, r₂, -, hm⟩ := bind_eq_some hm
  obtain ⟨_, r₃, -, hm⟩ := bind_eq_some hm
  cases hm
  have hlt := limit.toNat_lt
  dsimp only
  split <;> omega

/-- A payload that is passed on is within its cap. -/
theorem Connect.decode_spec {r r' : Reader} {m : Connect}
    (hm : Connect.decode.run r = some (m, r')) : m.payload.length ≤ kMaxRelayPayload := by
  obtain ⟨src, r₁, -, hm⟩ := bind_eq_some hm
  obtain ⟨dst, r₂, -, hm⟩ := bind_eq_some hm
  obtain ⟨n, r₃, -, hm⟩ := bind_eq_some hm
  obtain ⟨_, r₄, -, hm⟩ := bind_eq_some hm
  obtain ⟨_, r₅, hcap, hm⟩ := bind_eq_some hm
  obtain ⟨payload, r₆, hpayload, hm⟩ := bind_eq_some hm
  obtain ⟨_, r₇, hgood, hm⟩ := bind_eq_some hm
  cases hm
  obtain ⟨hle, -⟩ := require_eq_some hcap
  obtain ⟨hok, rfl⟩ := good_eq_some hgood
  obtain ⟨-, hlen, -⟩ := bytes_eq_some hpayload hok
  exact Nat.le_trans (Nat.le_of_eq hlen) hle

/-- A bind has the bytes of its two fields. -/
theorem UdpRelayBind.decode_spends {r r' : Reader} {m : UdpRelayBind}
    (hm : UdpRelayBind.decode.run r = some (m, r')) :
    m.relayId < 2 ^ 64 ∧ 24 ≤ r.rest.length := by
  obtain ⟨id, r₁, hid, hm⟩ := bind_eq_some hm
  obtain ⟨token, r₂, htoken, hm⟩ := bind_eq_some hm
  obtain ⟨_, r₃, hgood, hm⟩ := bind_eq_some hm
  cases hm
  obtain ⟨hok, -⟩ := good_eq_some hgood
  obtain ⟨hok₁, hspent⟩ := array_eq_some htoken hok
  obtain ⟨-, hlt, hspent₁⟩ := uint_eq_some (n := 8) hid hok₁
  refine ⟨hlt, ?_⟩
  omega

/-- A relayed datagram has the bytes of its id, of a length and of its payload. -/
theorem RelayData.decode_spends {r r' : Reader} {m : RelayData}
    (hm : RelayData.decode.run r = some (m, r')) :
    m.relayId < 2 ^ 64 ∧ m.payload.length ≤ kMaxDatagram ∧
      10 + m.payload.length ≤ r.rest.length := by
  obtain ⟨id, r₁, hid, hm⟩ := bind_eq_some hm
  obtain ⟨payload, r₂, hpayload, hm⟩ := bind_eq_some hm
  cases hm
  obtain ⟨hle, hok, hspent⟩ := readBlob_spends hpayload
  obtain ⟨-, hlt, hspent₁⟩ := uint_eq_some (n := 8) hid hok
  refine ⟨hlt, hle, ?_⟩
  dsimp only
  omega

/-- A header that is read took eight bytes. -/
theorem Header.decode_spends {r r' : Reader} {version : UInt8} {h : Header}
    (hh : Header.decode r version = (some h, r')) :
    h.version = version ∧ classify h.type ≠ .unknown ∧ h.txnId < 2 ^ 32 ∧ r'.ok = true ∧
      8 + r'.rest.length = r.rest.length := by
  unfold Header.decode at hh
  dsimp only at hh
  split at hh
  · cases hh
  rename_i hok
  split at hh
  · cases hh
  rename_i hclass
  cases hh
  simp only [ne_eq, Bool.or_eq_true, Bool.not_eq_eq_eq_not, Bool.not_true, decide_eq_true_eq,
    not_or, Bool.not_eq_false, not_not] at hok
  obtain ⟨hgood, hver⟩ := hok
  obtain ⟨h₄, -, e₄⟩ := Reader.bytes_spends (n := 4) hgood
  obtain ⟨h₃, -, e₃⟩ := Reader.bytes_spends (n := 1) h₄
  obtain ⟨h₂, -, e₂⟩ := Reader.bytes_spends (n := 1) h₃
  obtain ⟨h₁, -, e₁⟩ := Reader.bytes_spends (n := 1) h₂
  obtain ⟨-, -, e₀⟩ := Reader.bytes_spends (n := 1) h₁
  refine ⟨hver, hclass, Reader.uint_lt _ 4, hgood, ?_⟩
  have hu : ∀ x : Reader, x.u8.2 = (x.bytes 1).2 := fun _ => rfl
  have hu4 : ∀ x : Reader, x.u32.2 = (x.bytes 4).2 := fun _ => rfl
  simp only [hu, hu4] at e₀ e₁ e₂ e₃ e₄ ⊢
  omega

end UConnect
