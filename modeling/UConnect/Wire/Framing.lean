/-
  Wire/Framing.lean --- what a `FrameReader` makes of a stream that arrives in
  pieces.

  Source: src/wire/control.cpp, `frame` and `FrameReader`.

  THE ABSTRACT SIDE is a function of the whole stream: `frames max s` is the
  list of the frames at its front, each within the limit, and what follows the
  last of them.  It knows nothing of chunks.

  THE READER checks a length prefix in three places.  `Reading` says what they
  amount to: the bytes taken so far are the frames returned so far followed by
  the buffer, and the reader is broken exactly when the buffer starts with a
  length over the limit.  Every call keeps this, so nothing depends on where a
  chunk ends or on when `next` is called.

  A broken reader ignores what it is fed, so the bytes a run feeds (`fed`) and
  the bytes the reader takes (`taken`) are told apart here.
-/
import UConnect.Wire.Frames
import UConnect.Foundation.Run

set_option autoImplicit false

namespace UConnect.Wire

open UConnect.Foundation

/-! ## Frames of a whole stream

The abstract side: the stream cut into messages, knowing all of it. -/

/-- A message behind its length. -/
def lengthPrefixed (message : Bytes) : Bytes := beBytes 2 message.length ++ message

/-- The stream that carries these messages. -/
def stream (messages : List Bytes) : Bytes := messages.flatMap lengthPrefixed

@[simp] theorem stream_nil : stream [] = [] := rfl

@[simp] theorem stream_cons (m : Bytes) (ms : List Bytes) :
    stream (m :: ms) = lengthPrefixed m ++ stream ms := rfl

@[simp] theorem stream_append (ms ns : List Bytes) :
    stream (ms ++ ns) = stream ms ++ stream ns := List.flatMap_append

/-- No frame within the limit is complete at the front. -/
def stuck (max : Nat) (s : Bytes) : Bool :=
  decide (s.length < 2) || decide (FrameReader.declared s > max)
    || decide (s.length < 2 + FrameReader.declared s)

/-- The frames at the front of `s` and the rest, at most `fuel` of them. -/
def framesUpTo (max : Nat) : Nat → Bytes → List Bytes × Bytes
  | 0, s => ([], s)
  | fuel + 1, s =>
      if stuck max s then ([], s)
      else
        let len := FrameReader.declared s
        let later := framesUpTo max fuel (s.drop (2 + len))
        ((s.drop 2).take len :: later.1, later.2)

/-- The frames at the front of `s` and what follows the last of them; a frame
has at least two bytes, so there are no more of them than bytes. -/
def frames (max : Nat) (s : Bytes) : List Bytes × Bytes := framesUpTo max s.length s

theorem frame_eq {m : Bytes} (h : m.length ≤ kMaxFrame) : frame m = lengthPrefixed m := by
  have hk : kMaxFrame ≤ 0xFFFF := by decide
  have hlen : ¬ (m.length > kMaxFrame || m.length > 0xFFFF) = true := by
    simp only [Bool.or_eq_true, decide_eq_true_eq]
    omega
  unfold frame
  rw [if_neg hlen, lengthPrefixed]

theorem declared_append {m : Bytes} (h : m.length < 2 ^ 16) (s : Bytes) :
    FrameReader.declared (lengthPrefixed m ++ s) = m.length := by
  have htake : (lengthPrefixed m ++ s).take 2 = beBytes 2 m.length := by
    rw [lengthPrefixed, List.append_assoc, List.take_append_of_le_length (by simp)]
    exact List.take_of_length_le (by simp)
  rw [FrameReader.declared, htake]
  exact beVal_beBytes_of_lt h

theorem declared_lt (s : Bytes) : FrameReader.declared s < 2 ^ 16 := by
  have hlt := beVal_lt (s.take 2)
  have hlen : (s.take 2).length ≤ 2 := List.length_take_le 2 s
  have hpow : 256 ^ (s.take 2).length ≤ 256 ^ 2 := Nat.pow_le_pow_right (by decide) hlen
  exact Nat.lt_of_lt_of_le hlt hpow

/-- Two bytes are enough to see a length. -/
theorem declared_front {s : Bytes} (h : 2 ≤ s.length) (t : Bytes) :
    FrameReader.declared (s ++ t) = FrameReader.declared s := by
  rw [FrameReader.declared, FrameReader.declared, List.take_append_of_le_length h]

@[simp] theorem length_lengthPrefixed (m : Bytes) : (lengthPrefixed m).length = 2 + m.length := by
  simp [lengthPrefixed]

/-- A stream that is not stuck starts with a frame within the limit. -/
theorem eq_of_not_stuck {max : Nat} {s : Bytes} (h : stuck max s = false) :
    s = lengthPrefixed ((s.drop 2).take (FrameReader.declared s)) ++
        s.drop (2 + FrameReader.declared s) ∧
      ((s.drop 2).take (FrameReader.declared s)).length = FrameReader.declared s ∧
      FrameReader.declared s ≤ max := by
  simp only [stuck, Bool.or_eq_false_iff, decide_eq_false_iff_not, Nat.not_lt] at h
  obtain ⟨⟨htwo, hmax⟩, hfull⟩ := h
  have hlen : ((s.drop 2).take (FrameReader.declared s)).length = FrameReader.declared s := by
    rw [List.length_take, List.length_drop]
    omega
  refine ⟨?_, hlen, hmax⟩
  have hfront : beBytes 2 (FrameReader.declared s) = s.take 2 := by
    have htake : (s.take 2).length = 2 := by
      rw [List.length_take]
      omega
    have hback := beBytes_beVal (s.take 2)
    rwa [htake] at hback
  rw [lengthPrefixed, hlen, hfront, List.append_assoc, ← List.drop_drop, List.take_append_drop,
    List.take_append_drop]

theorem not_stuck_append {max : Nat} {m : Bytes} (hm : m.length ≤ max) (h : m.length < 2 ^ 16)
    (s : Bytes) : stuck max (lengthPrefixed m ++ s) = false := by
  simp only [stuck, declared_append h, Bool.or_eq_false_iff, decide_eq_false_iff_not,
    List.length_append, length_lengthPrefixed]
  omega

theorem framesUpTo_of_stuck {max : Nat} {s : Bytes} (h : stuck max s = true) (fuel : Nat) :
    framesUpTo max fuel s = ([], s) := by
  cases fuel with
  | zero => rfl
  | succ fuel => rw [framesUpTo, if_pos h]

/-- One frame, and the frames behind it. -/
theorem framesUpTo_append {max : Nat} {m : Bytes} (hm : m.length ≤ max) (h : m.length < 2 ^ 16)
    (fuel : Nat) (s : Bytes) :
    framesUpTo max (fuel + 1) (lengthPrefixed m ++ s) =
      (m :: (framesUpTo max fuel s).1, (framesUpTo max fuel s).2) := by
  have hns : ¬ stuck max (lengthPrefixed m ++ s) = true := by
    rw [not_stuck_append hm h s]
    exact Bool.false_ne_true
  have hdrop : (lengthPrefixed m ++ s).drop (2 + m.length) = s := by
    rw [← length_lengthPrefixed, List.drop_left]
  have hbody : ((lengthPrefixed m ++ s).drop 2).take m.length = m := by
    rw [lengthPrefixed, List.append_assoc]
    have htwo : (beBytes 2 m.length ++ (m ++ s)).drop 2 = m ++ s :=
      List.drop_left' (length_beBytes 2 m.length)
    rw [htwo, List.take_left]
  rw [framesUpTo, if_neg hns]
  simp only [declared_append h, hdrop, hbody]

/-- More fuel than there are bytes changes nothing. -/
theorem framesUpTo_enough (max : Nat) {fuel : Nat} {s : Bytes} (h : s.length ≤ fuel) :
    framesUpTo max fuel s = frames max s := by
  induction hn : s.length using Nat.strong_induction_on generalizing fuel s with
  | _ n ih =>
      unfold frames
      cases hs : stuck max s with
      | true => rw [framesUpTo_of_stuck hs, framesUpTo_of_stuck hs]
      | false =>
          obtain ⟨heq, hlen, hmax⟩ := eq_of_not_stuck hs
          generalize hm : (s.drop 2).take (FrameReader.declared s) = m at heq hlen
          generalize s.drop (2 + FrameReader.declared s) = t at heq
          have hle : m.length ≤ max := by omega
          have hlt : m.length < 2 ^ 16 := hlen ▸ declared_lt s
          have hsz : s.length = 2 + m.length + t.length := by
            rw [heq, List.length_append, length_lengthPrefixed]
          obtain ⟨fuel, rfl⟩ : ∃ k, fuel = k + 1 := ⟨fuel - 1, by omega⟩
          obtain ⟨len, hl⟩ : ∃ k, s.length = k + 1 := ⟨s.length - 1, by omega⟩
          rw [hl, heq, framesUpTo_append hle hlt, framesUpTo_append hle hlt,
            ih t.length (by omega) (by omega) rfl, ih t.length (by omega) (by omega) rfl]

theorem frames_of_stuck {max : Nat} {s : Bytes} (h : stuck max s = true) :
    frames max s = ([], s) := framesUpTo_of_stuck h _

@[simp] theorem frames_nil (max : Nat) : frames max [] = ([], []) := frames_of_stuck rfl

theorem frames_cons {max : Nat} {m : Bytes} (hm : m.length ≤ max) (h : m.length < 2 ^ 16)
    (s : Bytes) :
    frames max (lengthPrefixed m ++ s) = (m :: (frames max s).1, (frames max s).2) := by
  rw [← framesUpTo_enough max (Nat.le_succ _), framesUpTo_append hm h, framesUpTo_enough]
  rw [List.length_append]
  omega

/-- Messages a stream carries within the limit and within two bytes of length. -/
def Carried (max : Nat) (ms : List Bytes) : Prop := ∀ m ∈ ms, m.length ≤ max ∧ m.length < 2 ^ 16

/-- The frames of a stream are found whatever follows them. -/
theorem frames_stream {max : Nat} {ms : List Bytes} (h : Carried max ms) (s : Bytes) :
    frames max (stream ms ++ s) = (ms ++ (frames max s).1, (frames max s).2) := by
  induction ms with
  | nil => rfl
  | cons m ms ih =>
      obtain ⟨hm, hlt⟩ := h m List.mem_cons_self
      have hrest := ih fun x hx => h x (List.mem_cons_of_mem _ hx)
      rw [stream_cons, List.append_assoc, frames_cons hm hlt, hrest]
      rfl

/-- `frames` splits the stream: nothing is lost, and the rest is stuck. -/
theorem frames_spec (max : Nat) (s : Bytes) :
    s = stream (frames max s).1 ++ (frames max s).2 ∧ Carried max (frames max s).1 ∧
      stuck max (frames max s).2 = true := by
  induction hn : s.length using Nat.strong_induction_on generalizing s with
  | _ n ih =>
      cases hs : stuck max s with
      | true =>
          rw [frames_of_stuck hs]
          exact ⟨rfl, fun m hm => absurd hm List.not_mem_nil, hs⟩
      | false =>
          obtain ⟨heq, hlen, hmax⟩ := eq_of_not_stuck hs
          generalize (s.drop 2).take (FrameReader.declared s) = m at heq hlen
          generalize s.drop (2 + FrameReader.declared s) = t at heq
          have hle : m.length ≤ max := by omega
          have hlt : m.length < 2 ^ 16 := hlen ▸ declared_lt s
          have hsz : s.length = 2 + m.length + t.length := by
            rw [heq, List.length_append, length_lengthPrefixed]
          obtain ⟨hsplit, hcarried, hstuck⟩ := ih t.length (by omega) t rfl
          rw [heq, frames_cons hle hlt]
          refine ⟨?_, ?_, hstuck⟩
          · rw [stream_cons, List.append_assoc, ← hsplit]
          · intro x hx
            rcases List.mem_cons.mp hx with rfl | hx
            · exact ⟨hle, hlt⟩
            · exact hcarried x hx

/-! ## The reader

One call in terms of the abstract side. -/

namespace FrameReader

/-- A call of the reader's user. -/
inductive Call where
  | feed (bytes : Bytes)
  | next
  deriving DecidableEq

/-- The reader after a call. -/
def step (r : FrameReader) : Call → FrameReader
  | .feed bytes => (r.feed bytes).2
  | .next => r.next.2

/-- The message a call returns. -/
def returns (r : FrameReader) : Call → List Bytes
  | .feed _ => []
  | .next => r.next.1.toList

/-- The bytes a call feeds, taken or not. -/
def Call.fed : Call → Bytes
  | .feed bytes => bytes
  | .next => []

/-- The bytes of a call that the reader takes: a broken one takes none. -/
def takes (r : FrameReader) (c : Call) : Bytes := if r.broken then [] else c.fed

/-- The messages a run of calls has returned. -/
def returned (r : FrameReader) (calls : List Call) : List Bytes := trace returns step r calls

/-- The bytes a run of calls has fed. -/
def fed (calls : List Call) : Bytes := calls.flatMap Call.fed

/-- The bytes of a run that the reader took. -/
def taken (r : FrameReader) (calls : List Call) : Bytes := trace takes step r calls

/-- What holds between calls: `got` are the messages returned and `s` the bytes
taken. -/
structure Reading (max : Nat) (got : List Bytes) (s : Bytes) (r : FrameReader) : Prop where
  limit : r.max = max
  carried : Carried max got
  split : s = stream got ++ r.buf
  stops : r.broken = overlong max r.buf

theorem overlong_stuck {max : Nat} {s : Bytes} (h : overlong max s = true) :
    stuck max s = true := by
  have hmax := (Bool.and_eq_true_iff.mp h).2
  rw [stuck, hmax, Bool.or_true, Bool.true_or]

/-- A length that has arrived stays where it is. -/
theorem overlong_append {max : Nat} {s : Bytes} (h : overlong max s = true) (t : Bytes) :
    overlong max (s ++ t) = true := by
  simp only [overlong, Bool.and_eq_true, decide_eq_true_eq] at h ⊢
  obtain ⟨htwo, hmax⟩ := h
  rw [declared_front htwo, List.length_append]
  exact ⟨Nat.le_trans htwo (Nat.le_add_right _ _), hmax⟩

theorem Reading.init (max : Nat) : Reading max [] [] { max := max } where
  limit := rfl
  carried := fun _ hm => absurd hm List.not_mem_nil
  split := rfl
  stops := rfl

theorem step_of_broken {r : FrameReader} (h : r.broken = true) (c : Call) : r.step c = r := by
  cases c with
  | feed bytes => rw [step, feed, if_pos h]
  | next => rw [step, next, h, Bool.true_or, if_pos rfl]

theorem returns_of_broken {r : FrameReader} (h : r.broken = true) (c : Call) :
    r.returns c = [] := by
  cases c with
  | feed bytes => rfl
  | next =>
      rw [returns, next, h, Bool.true_or, if_pos rfl]
      rfl

/-- `next` on a reader that is not broken, seen from the stream. -/
theorem next_eq {max : Nat} {got : List Bytes} {s : Bytes} {r : FrameReader}
    (h : Reading max got s r) :
    (stuck max r.buf = true ∧ r.next = (none, r)) ∨
      ∃ m rest, m.length ≤ max ∧ m.length < 2 ^ 16 ∧ r.buf = lengthPrefixed m ++ rest ∧
        r.next = (some m, { r with buf := rest, broken := overlong max rest }) := by
  unfold next
  cases hb : r.broken with
  | true =>
      have hover := h.stops.symm.trans hb
      exact .inl ⟨overlong_stuck hover, by simp⟩
  | false =>
      have hover := h.stops.symm.trans hb
      cases hs : stuck max r.buf with
      | true =>
          -- with the limit respected, stuck is one of the two waiting branches
          refine .inl ⟨rfl, ?_⟩
          simp only [overlong, Bool.and_eq_false_iff, decide_eq_false_iff_not] at hover
          simp only [stuck, Bool.or_eq_true, decide_eq_true_eq] at hs
          rw [h.limit]
          by_cases htwo : r.buf.length < 2
          · simp [htwo]
          · have hmax : ¬ declared r.buf > max := by omega
            have hpart : r.buf.length < 2 + declared r.buf := by omega
            simp [htwo, hmax, hpart]
      | false =>
          obtain ⟨heq, hlen, hmax⟩ := eq_of_not_stuck hs
          simp only [stuck, Bool.or_eq_false_iff, decide_eq_false_iff_not] at hs
          refine .inr ⟨_, _, by omega, by rw [hlen]; exact declared_lt r.buf, heq, ?_⟩
          rw [h.limit]
          simp [hs]

/-- One call keeps the picture. -/
theorem Reading.step {max : Nat} {got : List Bytes} {s : Bytes} {r : FrameReader}
    (h : Reading max got s r) (c : Call) :
    Reading max (got ++ r.returns c) (s ++ r.takes c) (r.step c) := by
  cases hb : r.broken with
  | true =>
      rw [step_of_broken hb, returns_of_broken hb, takes, if_pos hb, List.append_nil,
        List.append_nil]
      exact h
  | false =>
      have htakes : r.takes c = c.fed := if_neg (by rw [hb]; exact Bool.false_ne_true)
      rw [htakes]
      cases c with
      | feed bytes =>
          have hstep : r.step (.feed bytes) =
              { r with buf := r.buf ++ bytes, broken := overlong max (r.buf ++ bytes) } := by
            rw [FrameReader.step, feed, hb, h.limit]
            rfl
          rw [hstep, returns, List.append_nil]
          refine ⟨h.limit, h.carried, ?_, rfl⟩
          rw [h.split, List.append_assoc]
          rfl
      | next =>
          rw [Call.fed, List.append_nil]
          rcases next_eq h with ⟨-, hnext⟩ | ⟨m, rest, hm, hlt, hbuf, hnext⟩
          · rw [FrameReader.step, returns, hnext]
            simpa using h
          · rw [FrameReader.step, returns, hnext]
            refine ⟨h.limit, ?_, ?_, rfl⟩
            · intro x hx
              rcases List.mem_append.mp hx with hx | hx
              · exact h.carried x hx
              · rw [List.mem_singleton.mp hx]
                exact ⟨hm, hlt⟩
            · rw [h.split, hbuf, stream_append, List.append_assoc]
              simp

/-- Every run keeps the picture. -/
theorem Reading.run {max : Nat} {got : List Bytes} {s : Bytes} {r : FrameReader}
    (h : Reading max got s r) (calls : List Call) :
    Reading max (got ++ r.returned calls) (s ++ r.taken calls)
      (Foundation.run FrameReader.step r calls) := by
  induction calls generalizing got s r with
  | nil => simpa [returned, taken, trace] using h
  | cons c calls ih =>
      have hnext := ih (h.step c)
      simpa [returned, taken, trace, List.append_assoc] using hnext

/-- A fresh reader after any run of calls. -/
theorem reading (max : Nat) (calls : List Call) :
    Reading max (returned { max := max } calls) (taken { max := max } calls)
      (Foundation.run step { max := max } calls) :=
  (Reading.init max).run calls

/-! ## What was fed and what was taken

They differ only behind the point where the reader broke. -/

theorem run_of_broken {r : FrameReader} (h : r.broken = true) (calls : List Call) :
    Foundation.run step r calls = r := by
  induction calls with
  | nil => rfl
  | cons c calls ih => rw [run_cons, step_of_broken h, ih]

theorem taken_of_broken {r : FrameReader} (h : r.broken = true) (calls : List Call) :
    r.taken calls = [] := by
  induction calls with
  | nil => rfl
  | cons c calls ih =>
      have hrest : trace takes step (r.step c) calls = [] := by
        rw [step_of_broken h]
        exact ih
      rw [taken, trace, hrest, takes, if_pos h]
      rfl

/-- A reader takes everything up to the call that breaks it. -/
theorem fed_eq (r : FrameReader) (calls : List Call) :
    (∃ lost, fed calls = r.taken calls ++ lost) ∧
      ((Foundation.run step r calls).broken = false → fed calls = r.taken calls) := by
  induction calls generalizing r with
  | nil => exact ⟨⟨[], rfl⟩, fun _ => rfl⟩
  | cons c calls ih =>
      cases hb : r.broken with
      | true =>
          rw [run_of_broken hb, taken_of_broken hb, hb]
          exact ⟨⟨_, rfl⟩, fun h => absurd h (by decide)⟩
      | false =>
          obtain ⟨⟨lost, hlost⟩, hall⟩ := ih (r.step c)
          have htakes : r.takes c = c.fed := if_neg (by rw [hb]; exact Bool.false_ne_true)
          have hfed : fed (c :: calls) = c.fed ++ fed calls := rfl
          have htaken : r.taken (c :: calls) = c.fed ++ (r.step c).taken calls := by
            rw [taken, trace, htakes]
            rfl
          rw [hfed, htaken]
          refine ⟨⟨lost, by rw [hlost, List.append_assoc]⟩, fun h => ?_⟩
          rw [hall h]

/-! ## Any chunking

Two runs that take the same bytes return the same messages, and a stream of
framed messages returns these. -/

/-- The reader is broken once it has returned every frame of what it was fed and
a length over the limit follows them. -/
theorem broken_iff (max : Nat) (calls : List Call) :
    (Foundation.run step { max := max } calls).broken = true ↔
      returned { max := max } calls = (frames max (fed calls)).1 ∧
        overlong max (frames max (fed calls)).2 = true := by
  have h := reading max calls
  obtain ⟨⟨lost, hlost⟩, hall⟩ := fed_eq { max := max } calls
  constructor
  · intro hb
    have hover := overlong_append (h.stops.symm.trans hb) lost
    rw [hlost, h.split, List.append_assoc, frames_stream h.carried,
      frames_of_stuck (overlong_stuck hover), List.append_nil]
    exact ⟨rfl, hover⟩
  · rintro ⟨hgot, hover⟩
    cases hb : (Foundation.run step { max := max } calls).broken with
    | true => rfl
    | false =>
        -- nothing was lost, so the buffer is what follows the frames
        rw [hall hb, h.split, frames_stream h.carried] at hgot hover
        have hnone := List.self_eq_append_right.mp hgot
        have hbuf := (frames_spec max (Foundation.run step { max := max } calls).buf).1
        rw [hnone, stream_nil, List.nil_append] at hbuf
        rw [← hb, h.stops, hbuf]
        exact hover

/-- A reader that has nothing to return has returned every frame of what it was
fed. -/
theorem returned_of_drained {max : Nat} {calls : List Call}
    (h : (Foundation.run step { max := max } calls).next.1 = none) :
    returned { max := max } calls = (frames max (fed calls)).1 := by
  have hread := reading max calls
  cases hb : (Foundation.run step { max := max } calls).broken with
  | true => exact ((broken_iff max calls).mp hb).1
  | false =>
      rcases next_eq hread with ⟨hstuck, -⟩ | ⟨m, rest, -, -, -, hnext⟩
      · rw [(fed_eq _ calls).2 hb, hread.split, frames_stream hread.carried,
          frames_of_stuck hstuck, List.append_nil]
      · rw [hnext] at h
        cases h

/-- A reader that has taken the front of a stream has returned the front of its
messages and is not broken; one that has taken all of it, and has nothing more
to return, has returned all. -/
theorem Reading.of_front {max : Nat} {got ms : List Bytes} {s : Bytes} {r : FrameReader}
    (h : Reading max got s r) (hms : Carried max ms) (hs : s <+: stream ms) :
    got <+: ms ∧ r.broken = false ∧ (s = stream ms → r.next.1 = none → got = ms) := by
  obtain ⟨later, hlater⟩ := hs
  have hframes := frames_stream hms []
  rw [List.append_nil, frames_nil, List.append_nil, ← hlater, h.split, List.append_assoc,
    frames_stream h.carried, Prod.mk.injEq] at hframes
  obtain ⟨hall, hnone⟩ := hframes
  refine ⟨⟨_, hall⟩, ?_, fun htaken hdone => ?_⟩
  · rw [h.stops]
    by_contra hover
    have hlong := overlong_append (eq_true_of_ne_false hover) later
    have hrest : r.buf ++ later = [] := by
      rwa [frames_of_stuck (overlong_stuck hlong)] at hnone
    rw [hrest] at hlong
    cases hlong
  · rcases next_eq h with ⟨hstuck, -⟩ | ⟨m, rest, -, -, -, hnext⟩
    · have hlast : later = [] := List.append_right_eq_self.mp (hlater.trans htaken.symm)
      rwa [hlast, List.append_nil, frames_of_stuck hstuck, List.append_nil] at hall
    · rw [hnext] at hdone
      cases hdone

/-- A reader that is fed the front of a stream returns the front of its
messages, and never breaks. -/
theorem returned_prefix {max : Nat} {ms : List Bytes} (hms : Carried max ms) {calls : List Call}
    (hfed : fed calls <+: stream ms) :
    returned { max := max } calls <+: ms ∧
      (Foundation.run step { max := max } calls).broken = false := by
  obtain ⟨⟨lost, hlost⟩, -⟩ := fed_eq { max := max } calls
  have htaken : taken { max := max } calls <+: stream ms := ⟨lost ++ _, by
    rw [← List.append_assoc, ← hlost]
    exact hfed.choose_spec⟩
  obtain ⟨hgot, hgood, -⟩ := (reading max calls).of_front hms htaken
  exact ⟨hgot, hgood⟩

/-- Calling `next` again and again comes to an end. -/
theorem drains {max : Nat} {got : List Bytes} {s : Bytes} {r : FrameReader}
    (h : Reading max got s r) :
    ∃ n, (Foundation.run step r (List.replicate n .next)).next.1 = none := by
  induction hn : r.buf.length using Nat.strong_induction_on generalizing got s r with
  | _ n ih =>
      rcases next_eq h with ⟨-, hnext⟩ | ⟨m, rest, -, -, hbuf, hnext⟩
      · exact ⟨0, by rw [List.replicate_zero, run_nil, hnext]⟩
      · have hstep : r.step .next = { r with buf := rest, broken := overlong max rest } := by
          rw [step, hnext]
        have hlt : rest.length < n := by
          rw [← hn, hbuf, List.length_append, length_lengthPrefixed]
          omega
        obtain ⟨k, hk⟩ := ih rest.length hlt (hstep ▸ h.step .next) rfl
        refine ⟨k + 1, ?_⟩
        rw [List.replicate_succ, run_cons, hstep]
        exact hk

theorem feed_refuses (r : FrameReader) (bytes : Bytes) :
    (r.feed bytes).1 = false ↔ (r.step (.feed bytes)).broken = true := by
  unfold step feed
  cases hb : r.broken with
  | true => simp [hb]
  | false => simp

theorem stream_eq_frame {ms : List Bytes} (h : ∀ m ∈ ms, m.length ≤ kMaxFrame) :
    ms.flatMap frame = stream ms := by
  induction ms with
  | nil => rfl
  | cons m ms ih =>
      rw [List.flatMap_cons, frame_eq (h m List.mem_cons_self),
        ih fun x hx => h x (List.mem_cons_of_mem _ hx), stream_cons]

/-- Framing undoes itself, whatever the chunks and whenever `next` is called.
The frames come out in order and the calls of `next` end; the reader is broken,
and refuses, exactly once it has returned all frames and stands before a length
over the limit, and stays so; what it holds beyond the frames it returned is
what it took after them, which is all it was fed if it was not yet broken when
`next` was last called. -/
theorem framing_undone (max : Nat) {ms : List Bytes}
    (hms : ∀ m ∈ ms, m.length ≤ max ∧ m.length ≤ kMaxFrame) (tail : Bytes) :
    (∀ calls, fed calls = ms.flatMap frame ++ tail →
      ((Foundation.run step { max := max } calls).next.1 = none →
        returned { max := max } calls = ms ++ (frames max tail).1) ∧
      ∃ n, (Foundation.run step { max := max } (calls ++ List.replicate n .next)).next.1 = none) ∧
    (∀ calls bytes, ((Foundation.run step { max := max } calls).feed bytes).1 = false ↔
      (Foundation.run step { max := max } (calls ++ [.feed bytes])).broken = true) ∧
    (∀ calls, (Foundation.run step { max := max } calls).broken = true ↔
      returned { max := max } calls = (frames max (fed calls)).1 ∧
        overlong max (frames max (fed calls)).2 = true) ∧
    (∀ calls, (Foundation.run step { max := max } calls).broken = true → ∀ more,
      (Foundation.run step { max := max } (calls ++ more)).broken = true ∧
        (Foundation.run step { max := max } (calls ++ more)).next.1 = none ∧
        ∀ bytes, ((Foundation.run step { max := max } (calls ++ more)).feed bytes).1 = false) ∧
    (∀ calls, stream (returned { max := max } calls) ++
      (Foundation.run step { max := max } calls).takeRest.1 = taken { max := max } calls) ∧
    ∀ calls, (Foundation.run step { max := max } calls).broken = false →
      taken { max := max } (calls ++ [.next]) = fed (calls ++ [.next]) := by
  have hcarried : Carried max ms := fun m hm =>
    ⟨(hms m hm).1, Nat.lt_of_le_of_lt (hms m hm).2 (by decide)⟩
  refine ⟨?_, ?_, fun calls => broken_iff max calls, ?_, ?_, ?_⟩
  · intro calls hfed
    rw [stream_eq_frame fun m hm => (hms m hm).2] at hfed
    refine ⟨fun hdone => ?_, ?_⟩
    · rw [returned_of_drained hdone, hfed, frames_stream hcarried]
    · obtain ⟨n, hn⟩ := drains (reading max calls)
      exact ⟨n, by rw [run_append]; exact hn⟩
  · intro calls bytes
    rw [feed_refuses, run_append]
    rfl
  · intro calls hb more
    rw [run_append, run_of_broken hb]
    refine ⟨hb, ?_, fun bytes => ?_⟩
    · rw [next, hb, Bool.true_or, if_pos rfl]
    · rw [feed_refuses, step_of_broken hb, hb]
  · intro calls
    exact (reading max calls).split.symm
  · intro calls hb
    have hcalls := (fed_eq { max := max } calls).2 hb
    rw [taken, trace_append, fed, List.flatMap_append]
    simp only [taken] at hcalls
    rw [← hcalls]
    simp [fed, trace, takes, Call.fed]

/-- Two messages and an incomplete third in three chunks. -/
theorem framing_undone_sample :
    (∀ m ∈ ([[7], [8, 9]] : List Bytes), m.length ≤ 16 ∧ m.length ≤ kMaxFrame) ∧
      returned { max := 16 }
        [.feed [0, 1, 7, 0], .next, .next, .feed [2, 8], .feed [9, 0, 5, 1], .next, .next] =
        [[7], [8, 9]] ++ (frames 16 [0, 5, 1]).1 :=
  have hms : ∀ m ∈ ([[7], [8, 9]] : List Bytes), m.length ≤ 16 ∧ m.length ≤ kMaxFrame := by decide
  ⟨hms, ((framing_undone 16 hms [0, 5, 1]).1 _ (by decide)).1 (by decide)⟩

/-- Bytes fed to a broken reader are not handed back, even behind a `next`. -/
theorem refused_bytes_lost :
    stream (returned { max := 1000 } [.feed [0x10, 0], .feed [0xAA], .next]) ++
        (Foundation.run step { max := 1000 } [.feed [0x10, 0], .feed [0xAA], .next]).takeRest.1 ≠
      fed [.feed [0x10, 0], .feed [0xAA], .next] := by
  decide

end FrameReader

end UConnect.Wire
