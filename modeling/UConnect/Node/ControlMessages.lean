/-
  Node/ControlMessages.lean --- the messages of the control connection.

  Source: src/api/node.cpp, `request`, `request_empty`, `notify` and
  `on_control_message`, with `message` and `empty_message` of
  src/wire/control.cpp.

  Node/ControlLoop queues messages as bytes, Node/Publish takes them decoded and
  knows only those about registrations.  Here is what the two say of one
  message: `CtlMessage.bytes` is what the loop queues for a message of
  Node/Publish, `about` tells such bytes from all others, and `replyOf` is what
  a message of the server is to Node/Publish.
-/
import UConnect.Node.ControlLoop
import UConnect.Wire.Sizes

set_option autoImplicit false

namespace UConnect.Node

open UConnect.Foundation UConnect.Server UConnect.Wire

namespace ControlLoop

variable {m : Bytes} {txn : Nat} {tid : TopicId}

/-! ## Any message

What is true of whatever the loop queues: it has its transaction in its header,
and it is plain, which is to say that it fits a frame. -/

/-- A REGISTER of the topic. -/
def IsRegister (tid : TopicId) (m : Bytes) : Prop :=
  ∃ txn reg flags, m = message .register txn (Register.encode reg) flags ∧ reg.id = tid

/-- The message names this transaction: its header decodes, with this number in
it. -/
def Names (txn : Nat) (m : Bytes) : Prop :=
  (Header.decode { rest := m } ctlVersion).1.map Header.txnId = some txn

instance (txn : Nat) (m : Bytes) : Decidable (Names txn m) :=
  inferInstanceAs
    (Decidable ((Header.decode { rest := m } ctlVersion).1.map Header.txnId = some txn))

/-- What the server never sends: a RegisterOk that does not decode, an Error
without an error. -/
def faulty (m : Bytes) : Bool :=
  let (h, r) := Header.decode { rest := m } ctlVersion
  h.any fun h =>
    h.type = .registerOk && (RegisterOk.decode.run r).isNone ||
      h.type = .error && (Error.decode.run r).any fun e => e.1.code = ErrorCode.none.code

theorem faulty_registerOk {h : Header} {rd : Reader}
    (hdecode : Header.decode { rest := m } ctlVersion = (some h, rd)) (htype : h.type = .registerOk)
    (hnone : RegisterOk.decode.run rd = none) : faulty m = true := by
  unfold faulty
  rw [hdecode]
  simp [htype, hnone]

theorem faulty_error {h : Header} {rd : Reader} {e : Error × Reader}
    (hdecode : Header.decode { rest := m } ctlVersion = (some h, rd)) (htype : h.type = .error)
    (hrun : Error.decode.run rd = some e) (hcode : e.1.code = ErrorCode.none.code) :
    faulty m = true := by
  unfold faulty
  rw [hdecode]
  simp [htype, hrun, hcode]

/-- A body that writes the same bytes whatever it writes them behind, and few
enough for a frame. -/
def Plain (body : Writer → Writer) : Prop :=
  ∃ bs, (∀ w, Wrote w (body w) bs) ∧ Header.kSize + bs.length ≤ kMaxFrame

theorem plain_question (q : Question) : Plain (·.bytes q.body) :=
  ⟨q.body, fun w => by simpa using (Wrote.refl w).bytes q.body, q.fits⟩

theorem plain_register (reg : Register) : Plain (Register.encode reg) := by
  refine ⟨_, fun w => (((((Wrote.refl w).array reg.id).u8 reg.mode.code).u8
    (UInt8.ofNat reg.keyEpoch)).cands reg.hostCands).blob reg.«meta» kMaxMeta, ?_⟩
  have hcands := length_flatMap_image (reg.hostCands.take kMaxCandidates)
  have hcount : (reg.hostCands.take kMaxCandidates).length ≤ 8 := List.length_take_le _ _
  have hmeta : (blobImage kMaxMeta reg.«meta»).length ≤ 2 + 256 := length_blobImage_le _ _
  have hhead : Header.kSize = 8 := rfl
  have hframe : kMaxFrame = 32768 := rfl
  simp only [candsImage, List.length_append, List.length_cons, Vector.length_toList,
    List.length_nil]
  omega

theorem plain_devRef (ref : DevRef) : Plain (DevRef.encode ref) :=
  ⟨_, fun w => (Wrote.refl w).array ref.devId, by simp [Header.kSize, kMaxFrame]⟩

theorem plain_lookup (l : Lookup) : Plain (Lookup.encode l) :=
  ⟨_, fun w => ((Wrote.refl w).array l.id).u8 (UInt8.ofNat l.max), by
    simp [Header.kSize, kMaxFrame]⟩

theorem plain_relayAlloc (a : RelayAlloc) : Plain (RelayAlloc.encode a) :=
  ⟨_, fun w => (((Wrote.refl w).array a.fromDev).array a.peerDev).u8 a.kind.code, by
    simp [Header.kSize, kMaxFrame]⟩

/-- A message with such a body is a header and the body. -/
theorem message_plain {body : Writer → Writer} (hbody : Plain body) (type : MsgType) (txn : Nat)
    (flags : UInt8) : ∃ bs, message type txn body flags =
      Header.image { type := type, version := ctlVersion, flags := flags, txnId := txn } ++ bs ∧
        Header.kSize + bs.length ≤ kMaxFrame := by
  obtain ⟨bs, hbs, hfits⟩ := hbody
  refine ⟨bs, ?_, hfits⟩
  rw [message_eq type txn flags hbs, if_pos hfits]

theorem length_message {body : Writer → Writer} (hbody : Plain body) (type : MsgType) (txn : Nat)
    (flags : UInt8) : (message type txn body flags).length ≤ kMaxFrame := by
  obtain ⟨bs, hbs, hfits⟩ := message_plain hbody type txn flags
  rw [hbs, List.length_append, Header.length_image]
  exact hfits

theorem names_message {body : Writer → Writer} (hbody : Plain body) {type : MsgType}
    (htype : classify type ≠ .unknown) (htxn : txn < 2 ^ 32) (flags : UInt8) :
    Names txn (message type txn body flags) := by
  obtain ⟨bs, hbs, -⟩ := message_plain hbody type txn flags
  unfold Names
  rw [hbs, Header.decode_image rfl htype htxn]
  rfl

theorem length_emptyMessage (type : MsgType) (txn : Nat) :
    (emptyMessage type txn).length ≤ kMaxFrame := by
  rw [emptyMessage_eq, Header.length_image]
  decide

theorem names_emptyMessage {type : MsgType} (htype : classify type ≠ .unknown)
    (htxn : txn < 2 ^ 32) : Names txn (emptyMessage type txn) := by
  have hversion : ({ type := type, version := ctlVersion, flags := 0, txnId := txn } :
      Header).version = ctlVersion := rfl
  have hdecode := Header.decode_image hversion htype htxn []
  unfold Names
  rw [emptyMessage_eq]
  rw [List.append_nil] at hdecode
  rw [hdecode]
  rfl

/-! ## Messages about registrations

The bytes of a decoded message, and how to tell them. -/

end ControlLoop

/-- What `request` and `notify` queue for the message. -/
def CtlMessage.bytes : CtlMessage → Bytes
  | .register txn m =>
      message .register txn (Register.encode m) (if m.unlisted then kUnlisted else 0)
  | .keepalive txn dev => message .keepalive txn (DevRef.encode { devId := dev })
  | .unregister txn dev => message .unregister txn (DevRef.encode { devId := dev })

namespace ControlLoop

variable {m : Bytes}

/-- The message is about a registration.  A KEEPALIVE without a body is the
connection's own and speaks of no record. -/
def about (m : Bytes) : Bool :=
  let (h, r) := Header.decode { rest := m } ctlVersion
  h.any fun h => h.type = .register || h.type = .unregister ||
    (h.type = .keepalive && !r.rest.isEmpty)

/-- If it is about a registration, it is a message that Node/Publish knows. -/
def Worded (m : Bytes) : Prop := about m = true → ∃ said : CtlMessage, m = said.bytes

/-- What is about no registration is well worded. -/
theorem worded_of_not_about (h : about m = false) : Worded m :=
  fun habout => absurd habout (by rw [h]; exact Bool.false_ne_true)

theorem worded_bytes (said : CtlMessage) : Worded said.bytes := fun _ => ⟨said, rfl⟩

/-- The header of a message is read back, and the body is left. -/
theorem decode_message {body : Writer → Writer} {bs : Bytes} (hbs : ∀ w, Wrote w (body w) bs)
    (hfits : Header.kSize + bs.length ≤ kMaxFrame) (type : MsgType)
    (htype : classify type ≠ .unknown) {txn : Nat} (htxn : txn < 2 ^ 32) (flags : UInt8) :
    Header.decode { rest := message type txn body flags } ctlVersion =
      (some { type := type, version := ctlVersion, flags := flags, txnId := txn },
        { rest := bs }) := by
  rw [message_eq type txn flags hbs, if_pos hfits]
  exact Header.decode_image rfl htype htxn bs

theorem about_message {body : Writer → Writer} (hbody : Plain body) {type : MsgType}
    (htype : classify type ≠ .unknown) (hregister : type ≠ .register)
    (hunregister : type ≠ .unregister) (hkeepalive : type ≠ .keepalive) {txn : Nat}
    (htxn : txn < 2 ^ 32) (flags : UInt8) : about (message type txn body flags) = false := by
  obtain ⟨bs, hbs, hfits⟩ := hbody
  unfold about
  rw [decode_message hbs hfits type htype htxn flags]
  simp [hregister, hunregister, hkeepalive]

theorem about_emptyMessage {type : MsgType} (htype : classify type ≠ .unknown)
    (hregister : type ≠ .register) (hunregister : type ≠ .unregister) {txn : Nat}
    (htxn : txn < 2 ^ 32) : about (emptyMessage type txn) = false := by
  have hversion : ({ type := type, version := ctlVersion, flags := 0, txnId := txn } :
      Header).version = ctlVersion := rfl
  have hdecode := Header.decode_image hversion htype htxn []
  unfold about
  rw [emptyMessage_eq]
  rw [List.append_nil] at hdecode
  rw [hdecode]
  simp [hregister, hunregister]

theorem about_question (q : Question) {txn : Nat} (htxn : txn < 2 ^ 32) (flags : UInt8) :
    about (message q.type txn (·.bytes q.body) flags) = false :=
  about_message (plain_question q) q.asked.1 q.asked.2.1 q.asked.2.2.2 q.asked.2.2.1 htxn flags

theorem about_bytes {said : CtlMessage} (htxn : said.txn < 2 ^ 32) : about said.bytes = true := by
  unfold about
  cases said with
  | register txn reg =>
      obtain ⟨bs, hbs, hfits⟩ := plain_register reg
      have hdecode := decode_message hbs hfits .register (by decide) htxn
        (if reg.unlisted then kUnlisted else 0)
      dsimp only [CtlMessage.bytes]
      rw [CtlMessage.txn] at hdecode
      rw [hdecode]
      rfl
  | keepalive txn dev =>
      have hdecode := decode_message (fun w => (Wrote.refl w).array dev)
        (by simp [Header.kSize, kMaxFrame]) .keepalive (by decide) htxn 0
      have hbody : dev.toList.isEmpty = false := by
        rw [List.isEmpty_eq_false_iff]
        exact List.ne_nil_of_length_pos (by rw [Vector.length_toList]; decide)
      dsimp only [CtlMessage.bytes]
      rw [CtlMessage.txn] at hdecode
      rw [show DevRef.encode { devId := dev } = fun w : Writer => w.array dev from rfl, hdecode]
      simp [hbody]
  | unregister txn dev =>
      have hdecode := decode_message (fun w => (Wrote.refl w).array dev)
        (by simp [Header.kSize, kMaxFrame]) .unregister (by decide) htxn 0
      dsimp only [CtlMessage.bytes]
      rw [CtlMessage.txn] at hdecode
      rw [show DevRef.encode { devId := dev } = fun w : Writer => w.array dev from rfl, hdecode]
      rfl

/-! ## Replies

A message of the server, as the link would have it. -/

/-- The error a number stands for, if it stands for one. -/
def errorOf (code : Nat) : Option ErrorCode :=
  [.none, .badRequest, .badAuth, .notFound, .rateLimited, .quotaExceeded, .needCookie,
    .unsupported].find? (·.code = code)

theorem code_of_errorOf {code : Nat} {e : ErrorCode} (h : errorOf code = some e) :
    e.code = code :=
  of_decide_eq_true (List.find?_some (p := fun e : ErrorCode => decide (e.code = code)) h)

theorem errorCode_injective : Function.Injective ErrorCode.code := by
  intro e e' h
  cases e <;> cases e' <;> first | rfl | exact absurd h (by decide)

/-- What `on_control_message` was told, as Node/Publish has it.  An Error
without a body that decodes is a BadRequest, as in the loop. -/
def replyOf (m : Bytes) : Option CtlReply :=
  match Header.decode { rest := m } ctlVersion with
  | (none, _) => none
  | (some h, r) =>
      if h.type = .registerOk then
        (RegisterOk.decode.run r).map fun ok => .registerOk h.txnId ok.1.devId
      else if h.type = .keepaliveOk then some (.keepaliveOk h.txnId)
      else if h.type = .unregisterOk then some (.unregisterOk h.txnId)
      else if h.type = .error then
        (errorOf (((Error.decode.run r).map (·.1.code)).getD ErrorCode.badRequest.code)).map
          (.error h.txnId)
      else none

end ControlLoop

end UConnect.Node
