/-
  Wire/Codec.lean --- decoders over the cursor, and what it is to undo an
  encoder.

  Source: the conventions of src/wire/buffer.hpp that the codecs of src/wire
  rely on.

  A DECODER reads from the cursor and may refuse.  Reading past the end does not
  refuse: it latches the flag and goes on with zeros, and it is up to the
  decoder to look at the flag in the end.  What every decoder has is that a
  latched flag stays latched, so the type carries it.

  UNDOING AN ENCODER has three parts, and each composes along a sequence of
  reads.  `Reads`: the bytes are read off the front as the value, whatever
  follows, and from less than the bytes the flag is latched.  `Checked`: the
  decoder does not succeed with a latched flag.  `Wrote`: an encoder that still
  had room appended exactly the bytes.
-/
import UConnect.Wire.Candidates
import UConnect.Wire.Frames

set_option autoImplicit false

namespace UConnect.Wire

open UConnect.Foundation UConnect.Crypto

variable {α β : Type}

/-! ## Decoders

A decoder of the source returns an optional and moves the reader it was given.
Here it is a function of the reader, bundled with the one fact every use of it
needs. -/

/-- A decoder: `std::optional` of a value, and the cursor behind it. -/
structure Decoder (α : Type) where
  run : Reader → Option (α × Reader)
  latched : ∀ {r : Reader} {a : α} {r' : Reader},
    run r = some (a, r') → r.ok = false → r'.ok = false

namespace Decoder

instance : Monad Decoder where
  pure a :=
    { run := fun r => some (a, r)
      latched := fun h hr => by cases h; exact hr }
  bind d k :=
    { run := fun r => (d.run r).bind fun x => (k x.1).run x.2
      latched := by
        intro r b r'' h hr
        obtain ⟨⟨a, r'⟩, hd, hk⟩ := Option.bind_eq_some_iff.mp h
        exact (k a).latched hk (d.latched hd hr) }

theorem run_bind (d : Decoder α) (k : α → Decoder β) (r : Reader) :
    (d >>= k).run r = (d.run r).bind fun x => (k x.1).run x.2 := rfl

/-- A read that cannot refuse. -/
def read (f : Reader → α × Reader) (h : ∀ r, r.ok = false → (f r).2.ok = false) : Decoder α where
  run r := some (f r)
  latched {r} {a} {r'} heq hr := by
    have hpair : f r = (a, r') := Option.some.inj heq
    have hlatched := h r hr
    rwa [hpair] at hlatched

/-- `if (!r.ok()) return nullopt`, the look at the flag. -/
def good : Decoder Unit where
  run r := if r.ok then some ((), r) else none
  latched {r} {a} {r'} h hr := by
    rw [hr, if_neg Bool.false_ne_true] at h
    cases h

/-- `if (!(p)) return nullopt`, a check of a value that does not look at the
flag. -/
def require (p : Prop) [Decidable p] : Decoder Unit where
  run r := if p then some ((), r) else none
  latched {r} {a} {r'} h hr := by
    split at h
    · cases h
      exact hr
    · cases h

/-- A loop of `n` decodes, left at the first refusal. -/
def times (d : Decoder α) : Nat → Decoder (List α)
  | 0 => pure []
  | n + 1 => do
      let a ← d
      let as ← times d n
      return a :: as

/-- A loop of `n` reads, left once the flag is latched. -/
def timesWhileOk (d : Decoder α) : Nat → Decoder (List α)
  | 0 => pure []
  | n + 1 =>
      { run := fun r =>
          if r.ok then
            (do let a ← d
                let as ← timesWhileOk d n
                return a :: as : Decoder (List α)).run r
          else some ([], r)
        latched := by
          intro r as r' h hr
          rw [hr, if_neg Bool.false_ne_true] at h
          cases h
          exact hr }

/-! ## The reads of the cursor

Each read of `Reader` as a decoder that never refuses. -/

theorem ok_bytes {r : Reader} (h : r.ok = false) (n : Nat) : (r.bytes n).2.ok = false := by
  rw [Reader.bytes, h, Bool.false_and, if_neg Bool.false_ne_true]

/-- `bytes`, of a given length. -/
def bytes (n : Nat) : Decoder Bytes := read (Reader.bytes · n) fun _ h => ok_bytes h n
/-- `u8`, zero past the end. -/
def u8 : Decoder UInt8 := read Reader.u8 fun _ h => ok_bytes h 1
/-- `u16`, zero past the end. -/
def u16 : Decoder Nat := read Reader.u16 fun _ h => ok_bytes h 2
/-- `u32`, zero past the end. -/
def u32 : Decoder Nat := read Reader.u32 fun _ h => ok_bytes h 4
/-- `u64`, zero past the end. -/
def u64 : Decoder Nat := read Reader.u64 fun _ h => ok_bytes h 8
/-- `array`, all zeros past the end. -/
def array (n : Nat) : Decoder (Vector UInt8 n) := read (Reader.array n) fun _ h => ok_bytes h n

theorem ok_endpoint {r : Reader} (h : r.ok = false) : r.endpoint.2.ok = false := by
  unfold Reader.endpoint
  dsimp only
  split
  · rfl
  · exact ok_bytes (ok_bytes (ok_bytes h 1) _) 2

theorem ok_candidate {r : Reader} (h : r.ok = false) : r.candidate.2.ok = false := by
  unfold Reader.candidate
  dsimp only
  split
  · rfl
  · exact ok_endpoint (ok_bytes h 1)

/-- `endpoint`, whose length depends on its first byte. -/
def endpoint : Decoder Endpoint := read Reader.endpoint fun _ h => ok_endpoint h
/-- `candidate`: a kind and an endpoint. -/
def candidate : Decoder Candidate := read Reader.candidate fun _ h => ok_candidate h

/-! ## Reading exactly these bytes

`Reads` is what composes: two decoders one after the other read two strings one
after the other.  What it says about a string that is too short is about the
flag only; refusing is `Checked`'s business. -/

/-- `d` reads `bs` as `v`, whatever follows, and latches the flag on anything
shorter. -/
structure Reads (d : Decoder α) (bs : Bytes) (v : α) : Prop where
  whole : ∀ rest, d.run { rest := bs ++ rest } = some (v, { rest := rest })
  cut : ∀ {p q : Bytes} {a : α} {r' : Reader}, bs = p ++ q → q ≠ [] →
    d.run { rest := p } = some (a, r') → r'.ok = false

/-- A decoder that needs no bytes is not cut. -/
theorem Reads.nil {d : Decoder α} {v : α} (h : ∀ r : Reader, r.ok = true → d.run r = some (v, r)) :
    d.Reads [] v where
  whole _ := h _ rfl
  cut heq hq := absurd (List.nil_eq_append_iff.mp heq).2 hq

theorem Reads.pure (v : α) : (Pure.pure v : Decoder α).Reads [] v := .nil fun _ _ => rfl

theorem Reads.bind {d : Decoder α} {k : α → Decoder β} {bs cs : Bytes} {v : α} {u : β}
    (hd : d.Reads bs v) (hk : (k v).Reads cs u) : (d >>= k).Reads (bs ++ cs) u where
  whole rest := by
    rw [run_bind, List.append_assoc, hd.whole]
    exact hk.whole rest
  cut {p q b r'} heq hq hrun := by
    -- the input ends within the bytes of `k`, or within those of `d`
    rcases List.append_eq_append_iff.mp heq with ⟨t, hp, hcs⟩ | ⟨t, hbs, hq'⟩
    · rw [run_bind, hp, hd.whole] at hrun
      exact hk.cut hcs hq hrun
    · by_cases ht : t = []
      · have hwhole := hd.whole []
        rw [ht, List.append_nil] at hbs
        rw [ht, List.nil_append] at hq'
        rw [List.append_nil, hbs] at hwhole
        rw [run_bind, hwhole] at hrun
        exact hk.cut (show cs = [] ++ cs from rfl) (hq' ▸ hq) hrun
      · rw [run_bind] at hrun
        obtain ⟨⟨a, r⟩, hd', hk'⟩ := Option.bind_eq_some_iff.mp hrun
        exact (k a).latched hk' (hd.cut hbs ht hd')

theorem Reads.map {d : Decoder α} {bs : Bytes} {v : α} (h : d.Reads bs v) (f : α → β) :
    (d >>= fun a => Pure.pure (f a)).Reads bs (f v) := by
  have hbind : (d >>= fun a => Pure.pure (f a)).Reads (bs ++ []) (f v) := h.bind (Reads.pure (f v))
  rwa [List.append_nil] at hbind

/-- `Reads` looks only at what a decoder does with a good cursor. -/
theorem Reads.congr {d d' : Decoder α} {bs : Bytes} {v : α} (h : d'.Reads bs v)
    (heq : ∀ r : Reader, r.ok = true → d.run r = d'.run r) : d.Reads bs v where
  whole rest := (heq _ rfl).trans (h.whole rest)
  cut hbs hq hrun := h.cut hbs hq ((heq _ rfl).symm.trans hrun)

theorem good_reads : good.Reads [] () := .nil fun _ hr => if_pos hr

theorem require_reads {p : Prop} [Decidable p] (h : p) : (require p).Reads [] () :=
  .nil fun _ _ => if_pos h

/-- A decoder that goes on with a test. -/
theorem Reads.after {d : Decoder Unit} {k : Unit → Decoder β} {bs : Bytes} {u : β}
    (hd : d.Reads [] ()) (hk : (k ()).Reads bs u) : (d >>= k).Reads bs u := hd.bind hk

/-- The bytes of a fixed-length read. -/
theorem bytes_reads (bs : Bytes) : (bytes bs.length).Reads bs bs where
  whole rest := congrArg some (Reader.bytes_append bs rest)
  cut {p q a r'} heq hq hrun := by
    have hlen : bs.length = p.length + q.length := by rw [heq, List.length_append]
    have hpos := List.length_pos_iff.mpr hq
    have hshort : ¬ (true && decide (bs.length ≤ p.length)) = true := by
      simp only [Bool.true_and, decide_eq_true_eq]
      omega
    have hpair : Reader.bytes { rest := p } bs.length = (a, r') := Option.some.inj hrun
    rw [Reader.bytes, if_neg hshort] at hpair
    cases hpair
    rfl

/-- A value made of a fixed-length read. -/
theorem read_reads {f : Reader → α × Reader} {h : ∀ r, r.ok = false → (f r).2.ok = false}
    {g : Bytes → α} {bs : Bytes}
    (hf : ∀ r, f r = (g (r.bytes bs.length).1, (r.bytes bs.length).2)) :
    (read f h).Reads bs (g bs) where
  whole rest := by
    show some (f { rest := bs ++ rest }) = _
    rw [hf, Reader.bytes_append]
  cut {p q a r'} heq hq hrun := by
    have hpair : f { rest := p } = (a, r') := Option.some.inj hrun
    rw [hf] at hpair
    cases hpair
    exact (bytes_reads bs).cut heq hq rfl

theorem u8_reads (v : UInt8) : u8.Reads [v] v := by
  have h : u8.Reads [v] (UInt8.ofNat (beVal [v])) := read_reads (g := fun bs => UInt8.ofNat (beVal bs)) fun _ => rfl
  have hv : UInt8.ofNat (beVal [v]) = v := by simp [beVal]
  rwa [hv] at h

/-- A field of `n` bytes. -/
theorem uint_reads (n v : Nat) {h : ∀ r : Reader, r.ok = false → (r.uint n).2.ok = false} :
    (read (Reader.uint · n) h).Reads (beBytes n v) (v % 256 ^ n) := by
  have hread : (read (Reader.uint · n) h).Reads (beBytes n v) (beVal (beBytes n v)) :=
    read_reads fun r => by rw [length_beBytes]; rfl
  rwa [beVal_beBytes] at hread

theorem u16_reads {v : Nat} (h : v < 2 ^ 16) : u16.Reads (beBytes 2 v) v := by
  have hread : u16.Reads (beBytes 2 v) (v % 2 ^ 16) := uint_reads 2 v
  rwa [Nat.mod_eq_of_lt h] at hread

theorem u32_reads {v : Nat} (h : v < 2 ^ 32) : u32.Reads (beBytes 4 v) v := by
  have hread : u32.Reads (beBytes 4 v) (v % 2 ^ 32) := uint_reads 4 v
  rwa [Nat.mod_eq_of_lt h] at hread

theorem u64_reads {v : Nat} (h : v < 2 ^ 64) : u64.Reads (beBytes 8 v) v := by
  have hread : u64.Reads (beBytes 8 v) (v % 2 ^ 64) := uint_reads 8 v
  rwa [Nat.mod_eq_of_lt h] at hread

theorem array_reads {n : Nat} (a : Vector UInt8 n) : (array n).Reads a.toList a := by
  have h : (array n).Reads a.toList (copyInto n a.toList) :=
    read_reads fun r => by rw [Vector.length_toList]; rfl
  rwa [copyInto_toList] at h

/-- `ok_ = false; return {}`: a value the format does not have reads as a
default, and it is the flag that tells. -/
def latch (a : α) : Decoder α := read (fun r => (a, { r with ok := false })) fun _ _ => rfl

/-- An endpoint, after its family. -/
def endpointRest (fam : UInt8) : Decoder Endpoint :=
  match Family.ofCode fam with
  | none => latch {}
  | some family => bytes (IpAddr.addrLen { family := family }) >>= fun a =>
      u16 >>= fun port => Pure.pure
        ({ ip := { family := family, bytes := copyInto 16 a }, port := port } : Endpoint)

/-- A candidate, after its kind. -/
def candidateRest (k : UInt8) : Decoder Candidate :=
  match CandidateKind.ofCode k with
  | none => latch {}
  | some kind => endpoint >>= fun ep => Pure.pure ({ kind := kind, ep := ep } : Candidate)

/-- An endpoint comes back without the bytes its family does not use. -/
theorem endpoint_reads (ep : Endpoint) : endpoint.Reads ep.image ep.normal := by
  have haddr : (bytes (IpAddr.addrLen { family := ep.ip.family })).Reads
      (ep.ip.bytes.toList.take ep.ip.addrLen) (ep.ip.bytes.toList.take ep.ip.addrLen) := by
    have h := bytes_reads (ep.ip.bytes.toList.take ep.ip.addrLen)
    rw [IpAddr.length_take] at h
    exact h
  have hport : u16.Reads (beBytes 2 ep.port) (ep.port % 65536) := uint_reads 2 ep.port
  have hbody := haddr.bind (k := fun a => u16 >>= fun port => Pure.pure
    ({ ip := { family := ep.ip.family, bytes := copyInto 16 a }, port := port } : Endpoint))
    (hport.map _)
  have hall := (u8_reads ep.ip.family.code).bind (k := endpointRest)
    (by rw [endpointRest, Family.ofCode_code]; exact hbody)
  refine hall.congr fun r _ => ?_
  show some r.endpoint = _
  unfold Reader.endpoint
  rw [run_bind]
  show _ = (some r.u8).bind _
  rw [Option.bind_some]
  dsimp only [endpointRest]
  cases Family.ofCode r.u8.1 with
  | none => rfl
  | some family => rfl

theorem candidate_reads (c : Candidate) : candidate.Reads c.image c.normal := by
  have hbody := (endpoint_reads c.ep).map fun ep => ({ kind := c.kind, ep := ep } : Candidate)
  have hall := (u8_reads c.kind.code).bind (k := candidateRest)
    (by rw [candidateRest, CandidateKind.ofCode_code]; exact hbody)
  refine hall.congr fun r _ => ?_
  show some r.candidate = _
  unfold Reader.candidate
  rw [run_bind]
  show _ = (some r.u8).bind _
  rw [Option.bind_some]
  dsimp only [candidateRest]
  cases CandidateKind.ofCode r.u8.1 with
  | none => rfl
  | some kind => rfl

section Loops

variable {d : Decoder α} {image : α → Bytes} {normal : α → α} {as : List α}

theorem times_reads (h : ∀ a ∈ as, d.Reads (image a) (normal a)) :
    (times d as.length).Reads (as.flatMap image) (as.map normal) := by
  induction as with
  | nil => exact Reads.pure []
  | cons a as ih =>
      have hrest := ih fun x hx => h x (List.mem_cons_of_mem _ hx)
      exact (h a List.mem_cons_self).bind (hrest.map _)

theorem timesWhileOk_reads (h : ∀ a ∈ as, d.Reads (image a) (normal a)) :
    (timesWhileOk d as.length).Reads (as.flatMap image) (as.map normal) := by
  induction as with
  | nil => exact Reads.pure []
  | cons a as ih =>
      have hrest := ih fun x hx => h x (List.mem_cons_of_mem _ hx)
      have hall := (h a List.mem_cons_self).bind
        (k := fun a => timesWhileOk d as.length >>= fun as => Pure.pure (a :: as)) (hrest.map _)
      exact hall.congr fun r hr => if_pos hr

end Loops

/-! ## Looking at the flag

A body is refused when it is cut only because somewhere behind the last read the
flag is looked at.  `Checked` says that this happens, `Keeps` that what stands
behind it does no harm. -/

/-- `d` does not succeed with the flag latched. -/
def Checked (d : Decoder α) : Prop :=
  ∀ {r : Reader} {a : α} {r' : Reader}, d.run r = some (a, r') → r'.ok = true

/-- `d` does not latch the flag and succeed. -/
def Keeps (d : Decoder α) : Prop :=
  ∀ {r : Reader} {a : α} {r' : Reader}, d.run r = some (a, r') → r.ok = true → r'.ok = true

theorem Checked.keeps {d : Decoder α} (h : d.Checked) : d.Keeps := fun hrun _ => h hrun

theorem keeps_pure (a : α) : (Pure.pure a : Decoder α).Keeps := by
  intro r b r' h hr
  cases h
  exact hr

theorem keeps_require (p : Prop) [Decidable p] : (require p).Keeps := by
  intro r b r' h hr
  unfold require at h
  dsimp only at h
  split at h
  · cases h
    exact hr
  · cases h

theorem checked_good : good.Checked := by
  intro r a r' h
  unfold good at h
  dsimp only at h
  split at h
  · rename_i hok
    cases h
    exact hok
  · cases h

theorem Keeps.bind {d : Decoder α} {k : α → Decoder β} (hd : d.Keeps) (hk : ∀ a, (k a).Keeps) :
    (d >>= k).Keeps := by
  intro r b r'' h hr
  obtain ⟨⟨a, r'⟩, hrun, hrun'⟩ := Option.bind_eq_some_iff.mp h
  exact hk a hrun' (hd hrun hr)

/-- Whatever was read before, the flag is looked at later. -/
theorem checked_bind {d : Decoder α} {k : α → Decoder β} (hk : ∀ a, (k a).Checked) :
    (d >>= k).Checked := by
  intro r b r'' h
  obtain ⟨⟨a, r'⟩, -, hrun⟩ := Option.bind_eq_some_iff.mp h
  exact hk a hrun

/-- The flag is looked at, and only harmless steps follow. -/
theorem Checked.bind {d : Decoder α} {k : α → Decoder β} (hd : d.Checked)
    (hk : ∀ a, (k a).Keeps) : (d >>= k).Checked := by
  intro r b r'' h
  obtain ⟨⟨a, r'⟩, hrun, hrun'⟩ := Option.bind_eq_some_iff.mp h
  exact hk a hrun' (hd hrun)

theorem Checked.map {d : Decoder α} (hd : d.Checked) (f : α → β) :
    (d >>= fun a => Pure.pure (f a)).Checked := hd.bind fun _ => keeps_pure _

theorem Checked.times {d : Decoder α} (hd : d.Checked) (n : Nat) : (times d n).Keeps := by
  induction n with
  | zero => exact keeps_pure []
  | succ n ih => exact Keeps.bind hd.keeps fun a => Keeps.bind ih fun as => keeps_pure _

/-- A decoder that looks at the flag refuses anything shorter. -/
theorem Reads.refuses {d : Decoder α} {bs p q : Bytes} {v : α} (h : d.Reads bs v)
    (hd : d.Checked) (heq : bs = p ++ q) (hq : q ≠ []) : d.run { rest := p } = none := by
  cases hrun : d.run { rest := p } with
  | none => rfl
  | some x =>
      have hok : x.2.ok = true := hd (a := x.1) hrun
      have hlost : x.2.ok = false := h.cut (a := x.1) heq hq hrun
      rw [hok] at hlost
      cases hlost

end Decoder

/-! ## Writing exactly these bytes

The writer's side of `Reads`: what an encoder appends, given that it still had
room at the end.  That it had room for each part on the way is then a
consequence. -/

/-- `w'` is `w` with `bs` appended: if it is still good, it had room for them,
and with room for them it is good. -/
structure Wrote (w w' : Writer) (bs : Bytes) : Prop where
  good : w'.ok = true → w.ok = true ∧ w'.written = w.written ++ bs ∧ w'.capacity = w.capacity ∧
    (w.written.length ≤ w.capacity → w'.written.length ≤ w'.capacity)
  room : w.ok = true → w.written.length + bs.length ≤ w.capacity → w'.ok = true

namespace Wrote

variable {w w' : Writer} {bs : Bytes}

theorem refl (w : Writer) : Wrote w w [] where
  good h := ⟨h, (List.append_nil _).symm, rfl, id⟩
  room h _ := h

theorem bytes (h : Wrote w w' bs) (cs : Bytes) : Wrote w (w'.bytes cs) (bs ++ cs) where
  good hok := by
    unfold Writer.bytes at hok ⊢
    split
    · rename_i hroom
      obtain ⟨hok', hfit⟩ := Bool.and_eq_true_iff.mp hroom
      obtain ⟨hw, hwritten, hcap, -⟩ := h.good hok'
      refine ⟨hw, by rw [hwritten, List.append_assoc], hcap, fun _ => ?_⟩
      rw [List.length_append]
      exact of_decide_eq_true hfit
    · rename_i hroom
      rw [if_neg hroom] at hok
      cases hok
  room hok hroom := by
    rw [List.length_append] at hroom
    have hgood := h.room hok (by omega)
    obtain ⟨-, hwritten, hcap, -⟩ := h.good hgood
    rw [Writer.bytes_of_room hgood]
    · exact hgood
    · rw [hwritten, hcap, List.length_append]
      omega

theorem u8 (h : Wrote w w' bs) (v : UInt8) : Wrote w (w'.u8 v) (bs ++ [v]) := h.bytes _

theorem u16 (h : Wrote w w' bs) (v : Nat) : Wrote w (w'.u16 v) (bs ++ beBytes 2 v) := h.bytes _

theorem u32 (h : Wrote w w' bs) (v : Nat) : Wrote w (w'.u32 v) (bs ++ beBytes 4 v) := h.bytes _

theorem u64 (h : Wrote w w' bs) (v : Nat) : Wrote w (w'.u64 v) (bs ++ beBytes 8 v) := h.bytes _

theorem array {n : Nat} (h : Wrote w w' bs) (a : Vector UInt8 n) :
    Wrote w (w'.array a) (bs ++ a.toList) := h.bytes _

theorem endpoint (h : Wrote w w' bs) (ep : Endpoint) :
    Wrote w (w'.endpoint ep) (bs ++ ep.image) := by
  have hall := ((h.u8 ep.ip.family.code).bytes (ep.ip.bytes.toList.take ep.ip.addrLen)).u16 ep.port
  rwa [List.append_assoc, List.append_assoc] at hall

theorem candidate (h : Wrote w w' bs) (c : Candidate) :
    Wrote w (w'.candidate c) (bs ++ c.image) := by
  have hall := (h.u8 c.kind.code).endpoint c.ep
  rwa [List.append_assoc] at hall

/-- A loop of writes. -/
theorem foldl {f : Writer → α → Writer} {image : α → Bytes}
    (hf : ∀ {w w' : Writer} {bs : Bytes} (a : α), Wrote w w' bs → Wrote w (f w' a) (bs ++ image a))
    (h : Wrote w w' bs) (as : List α) : Wrote w (as.foldl f w') (bs ++ as.flatMap image) := by
  induction as generalizing w' bs with
  | nil => simpa using h
  | cons a as ih =>
      have hrest := ih (hf a h)
      rwa [List.append_assoc, ← List.flatMap_cons] at hrest

theorem candidates (h : Wrote w w' bs) (cs : List Candidate) :
    Wrote w (w'.candidates cs) (bs ++ cs.flatMap Candidate.image) :=
  foldl (fun c h => h.candidate c) h cs

end Wrote

/-! ## Undoing an encoder

The two sides put together, for bodies that are written behind a header in a
frame. -/

/-- What `encode` writes into a buffer of at most one frame, `decoder` reads
back as `v` and leaves what follows alone; anything shorter it refuses. -/
def RoundTrips (encode : Writer → Writer) (decoder : Decoder α) (v : α) : Prop :=
  ∀ w : Writer, w.written.length ≤ w.capacity → w.capacity ≤ kMaxFrame → (encode w).ok = true →
    ∃ bs, (encode w).written = w.written ++ bs ∧
      (∀ rest, decoder.run { rest := bs ++ rest } = some (v, { rest := rest })) ∧
      ∀ p q, bs = p ++ q → q ≠ [] → decoder.run { rest := p } = none

theorem roundTrips_of {encode : Writer → Writer} {decoder : Decoder α} {b c : Bytes} {u v : α}
    (hwrote : ∀ w, Wrote w (encode w) b) (hreads : decoder.Reads c u) (hbytes : b = c)
    (hvalue : u = v) (hchecked : decoder.Checked) : RoundTrips encode decoder v := by
  intro w _ _ hok
  obtain ⟨-, hwritten, -, -⟩ := (hwrote w).good hok
  rw [← hbytes, hvalue] at hreads
  exact ⟨b, hwritten, hreads.whole, fun p q heq hq => hreads.refuses hchecked heq hq⟩

end UConnect.Wire
