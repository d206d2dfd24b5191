/-
  Server/Records.lean --- what one call of the registry does to one record.

  A record is written by a registration of its own topic and address, marked or
  rewritten by its owner, or erased; no other call touches it.  `step_record`
  says so once.

  The registry has many calls and most look at several records, but little can
  become of any one of them; what is said of owners and of signs of life needs
  no more than that.
-/
import UConnect.Server.RegistryMoves

set_option autoImplicit false

namespace UConnect.Server

open UConnect UConnect.Foundation UConnect.Crypto

namespace Registry

/-- What a call leaves under a device id. -/
inductive RecordChange (P : Primitives) (r : Registry) (dev : DevId) : Op → Option Entry → Prop
    where
  | same {op : Op} : RecordChange P r dev op (r.byDev.lookup dev)
  /-- A registration of the topic and address the id is made of. -/
  | written {msg : Register} {src : Endpoint} {owner : ConnKey} {now : Instant}
      (hdev : deriveDevId P r.secret msg.id src = dev) :
      RecordChange P r dev (.register msg src owner now) (some (recordOf msg dev src owner now))
  | seen {e : Entry} {now : Instant} (he : r.byDev.lookup dev = some e) :
      RecordChange P r dev (.refresh dev e.owner now) (some { e with lastSeen := now })
  | updated {e : Entry} {msg : Update} {now : Instant} (he : r.byDev.lookup dev = some e)
      (hdev : msg.devId = dev) :
      RecordChange P r dev (.update msg e.owner now)
        (some { e with hostCands := msg.hostCands, «meta» := msg.meta, lastSeen := now })
  | unregistered {e : Entry} (he : r.byDev.lookup dev = some e) :
      RecordChange P r dev (.unregister dev e.owner) none
  | dropped {e : Entry} {owner : ConnKey} (he : r.byDev.lookup dev = some e) :
      RecordChange P r dev (.dropOwner owner) none

section Changes

variable {P : Primitives} {r : Registry}

@[simp] theorem byDev_expireFresh (r : Registry) (now : Instant) :
    (r.expireFresh now).byDev = r.byDev := by
  unfold expireFresh
  generalize (r.freshOrder.entries.mergeSort freshLe).takeWhile _ = l
  induction l generalizing r with
  | nil => rfl
  | cons e l ih => exact ih (r.expireOne e)

/-- A registration writes its own record, or is refused. -/
theorem lookup_registerEntry (P : Primitives) (r : Registry) (msg : Register) (src : Endpoint)
    (owner : ConnKey) (now : Instant) (dev : DevId) :
    RecordChange P r dev (.register msg src owner now)
      ((r.registerEntry P msg src owner now).2.byDev.lookup dev) := by
  have hwritten : ∀ r₁ : Registry, (∀ d, d ≠ deriveDevId P r.secret msg.id src →
      r₁.byDev.lookup d = r.byDev.lookup d) →
      RecordChange P r dev (.register msg src owner now)
        ((r₁.writeRecord msg (deriveDevId P r.secret msg.id src) src owner now).byDev.lookup dev) := by
    intro r₁ hrest
    rw [lookup_writeRecord]
    split
    · rename_i heq
      rw [← heq]
      exact .written heq.symm
    · rename_i hne
      rw [hrest dev hne]
      exact .same
  unfold registerEntry
  dsimp only
  cases hrec : r.byDev.lookup (deriveDevId P r.secret msg.id src) with
  | some e =>
      simp only [Option.isNone_some, Bool.false_and, Bool.false_eq_true, if_false]
      apply hwritten
      intro d hd
      split
      · exact AList.lookup_insert_ne hd
      · rfl
  | none =>
      simp only [Option.isNone_none, Bool.true_and, if_true]
      split
      · exact .same
      · apply hwritten
        intro d _
        rw [byDev_addRecord]

/-- A sign of life stamps its own record. -/
theorem change_refresh (P : Primitives) (r : Registry) (d : DevId) (owner : ConnKey) (now : Instant)
    (dev : DevId) :
    RecordChange P r dev (.refresh d owner now) ((r.refresh d owner now).2.byDev.lookup dev) := by
  unfold refresh
  cases he : r.byDev.lookup d with
  | none => exact .same
  | some e =>
      dsimp only
      split
      · exact .same
      · rename_i howner
        obtain rfl := not_not.mp howner
        rw [lookup_markFresh, he]
        split
        · rename_i heq
          subst heq
          exact .seen he
        · exact .same

/-- An update rewrites its own record, or is refused. -/
theorem change_update (P : Primitives) (r : Registry) (msg : Update) (owner : ConnKey)
    (now : Instant) (dev : DevId) :
    RecordChange P r dev (.update msg owner now) ((r.update msg owner now).2.byDev.lookup dev) := by
  unfold update
  cases he : r.byDev.lookup msg.devId with
  | none => exact .same
  | some e =>
      dsimp only
      split
      · exact .same
      · rename_i howner
        obtain rfl := not_not.mp howner
        rw [lookup_markFresh]
        dsimp only
        rw [AList.lookup_insert]
        split
        · rename_i heq
          exact .updated (heq ▸ he) heq.symm
        · rename_i hne
          rw [AList.lookup_insert_ne hne]
          exact .same

theorem change_unregister (P : Primitives) (r : Registry) (d : DevId) (owner : ConnKey)
    (dev : DevId) :
    RecordChange P r dev (.unregister d owner) ((r.unregister d owner).2.byDev.lookup dev) := by
  unfold unregister
  cases he : r.byDev.lookup d with
  | none => exact .same
  | some e =>
      dsimp only
      split
      · exact .same
      · rename_i howner
        obtain rfl := not_not.mp howner
        rw [lookup_eraseEntry]
        split
        · rename_i heq
          subst heq
          exact .unregistered he
        · exact .same

theorem change_dropOwner (P : Primitives) (r : Registry) (owner : ConnKey) (dev : DevId) :
    RecordChange P r dev (.dropOwner owner) ((r.dropOwner owner).2.byDev.lookup dev) := by
  unfold dropOwner
  dsimp only
  rw [byDev_releaseWhere]
  dsimp only
  rw [lookup_foldl_eraseEntry]
  split
  · cases he : r.byDev.lookup dev with
    | none => exact he ▸ .same
    | some e => exact .dropped he
  · exact .same

/-- What one call does to one record. -/
theorem step_record (P : Primitives) (r : Registry) (op : Op) (dev : DevId) :
    RecordChange P r dev op ((step P r op).byDev.lookup dev) := by
  have hsame : ∀ {r' : Registry}, r'.byDev = r.byDev →
      RecordChange P r dev op (r'.byDev.lookup dev) := by
    intro r' heq
    rw [heq]
    exact .same
  cases op with
  | register msg src owner now => exact lookup_registerEntry P r msg src owner now dev
  | refresh d owner now => exact change_refresh P r d owner now dev
  | update msg owner now => exact change_update P r msg owner now dev
  | unregister d owner => exact change_unregister P r d owner dev
  | dropOwner owner => exact change_dropOwner P r owner dev
  | lookup t max wantMeta now s => exact hsame (lookup_beside r t max wantMeta now s).byDev
  | resolve d now => exact .same
  | listTopics cursor limit now => exact hsame (byDev_expireFresh r now)
  | connectTarget src dst owner => exact hsame (connectTarget_beside r src dst owner).byDev
  | relayAlloc src peer kind owner addr now draws =>
      refine hsame ?_
      show (((r.relayAlloc src peer kind owner addr now draws).map (·.2)).getD r).byDev = r.byDev
      cases hr : r.relayAlloc src peer kind owner addr now draws with
      | none => rfl
      | some p => exact (relayAlloc_beside hr).byDev
  | relayCharge id bytes now => exact hsame (relayCharge_beside r id bytes now).byDev
  | udpBind id token src now => exact hsame (udpBind_beside r id token src now).byDev
  | udpForward id src bytes now => exact hsame (udpForward_beside r id src bytes now).byDev
  | relayClose id => exact hsame (relayClose_beside r id).byDev
  | sweep now =>
      refine hsame ?_
      show ((r.expireFresh now).releaseWhere _).byDev = r.byDev
      rw [byDev_releaseWhere, byDev_expireFresh]
  | stats now => exact hsame (byDev_expireFresh r now)

end Changes

end Registry

end UConnect.Server
