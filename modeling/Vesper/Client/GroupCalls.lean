import Vesper.Lib.SharedCell
import Vesper.Client.Authentication
import Vesper.Group.Channel

/-!
# Calls on a stored receiver

`decryptFromGroup`, `decryptBinaryFromGroup` and what `prefetchGroupSenderKeys` does with an entry
each load the receiver of a sender, and save what comes back. None of them runs under `withLock`, so
two of them can load the same receiver, and the second save undoes the first.
-/

namespace Vesper.Client
open SenderKey
open DoubleRatchet (messageKey)
variable {P : Primitives}

/-! ## The calls -/

def NO_SENDER_KEY : String := "[🔒 Немає ключа відправника]"

def NOT_DECRYPTED : String := "[🔒 Не вдалося розшифрувати]"

/-- What becomes of an entry. -/
inductive EntryResult where
  | hasKey
  | failedSender
  | rejected
  | ignored
  deriving DecidableEq

/-- `groupReceiverDecrypt`, the message parsed; it is nothing when too short. -/
def groupReceiverDecrypt (receiver : ReceiverState P) :
    Option (SenderKeyMessage P) → Except Thrown (Bytes × ReceiverState P)
  | none => .error (.js "group message too short")
  | some msg =>
    match SenderKey.decrypt receiver msg with
    | (newReceiver, .ok plaintext) => .ok (plaintext, newReceiver)
    | (_, .error e) => .error (.wasm e)

/-- `decryptFromGroup` of a `v2g` text, which is nothing when it is not Base64: the plaintext, or the
text that stands for it. -/
def decryptFromGroup (data : Option (Option (SenderKeyMessage P))) :
    CellCall (Option (ReceiverState P)) (Except String Bytes) := fun receiver? =>
  match data with
  | none => (none, .error NOT_DECRYPTED)
  | some data =>
    match receiver? with
    | none => (none, .error NO_SENDER_KEY)
    | some receiver =>
      match groupReceiverDecrypt receiver data with
      | .ok (plaintext, newReceiver) => (some (some newReceiver), .ok plaintext)
      | .error _ => (none, .error NOT_DECRYPTED)

/-- What `prefetchGroupSenderKeys` does with an entry. -/
def prefetchGroupSenderKeys (identity : IdentityKeys P) (entry : SenderKeyEntry P) :
    CellCall (Option (ReceiverState P)) EntryResult := fun receiver? =>
  match entry.version, entry.encryptedKey with
  | some 2, some envelope =>
    match receiver? with
    | some _ => (none, .hasKey)
    | none =>
      match openDistMsg identity envelope with
      | none => (none, .failedSender)
      | some distMsg =>
        match receiverFromDist distMsg with
        | none => (none, .rejected)
        | some receiver => (some (some receiver), .hasKey)
  | _, _ => (none, .ignored)

inductive GroupCall (P : Primitives) where
  | decryptFromGroup (data : Option (Option (SenderKeyMessage P)))
  /-- Returns the bytes of the text that `decryptFromGroup` returns. -/
  | decryptBinaryFromGroup (data : Option (Option (SenderKeyMessage P)))
  | prefetchGroupSenderKeys (entry : SenderKeyEntry P)

abbrev GroupResult := Except String Bytes ⊕ EntryResult

def GroupCall.run (identity : IdentityKeys P) :
    GroupCall P → CellCall (Option (ReceiverState P)) GroupResult
  | .decryptFromGroup data | .decryptBinaryFromGroup data =>
    (Client.decryptFromGroup data).map .inl
  | .prefetchGroupSenderKeys entry => (Client.prefetchGroupSenderKeys identity entry).map .inr

/-- On its own, the call for an entry is `prefetchEntry`. -/
theorem prefetchEntry_eq {identity : IdentityKeys P} {store : GroupReceiverStore P}
    {conversationId : Nat} {entry : SenderKeyEntry P} :
    prefetchEntry identity store conversationId entry =
      let key := receiverKey conversationId entry.senderId
      match (prefetchGroupSenderKeys identity entry (store key)).1 with
      | some receiver? => Function.update store key receiver?
      | none => store := by
  obtain ⟨senderId, version, encryptedKey⟩ := entry
  match version, encryptedKey with
  | some 2, some envelope =>
    dsimp only [prefetchEntry, prefetchGroupSenderKeys]
    cases store (receiverKey conversationId senderId) with
    | some r => rfl
    | none =>
      simp only [Option.isSome_none, Bool.false_eq_true, if_false]
      rcases openDistMsg identity envelope with _ | distMsg
      · rfl
      · dsimp only
        cases receiverFromDist (P := P) distMsg <;> rfl
  -- what comes without an envelope of the second version is ignored
  | none, _ | some 0, _ | some 1, _ | some (_ + 3), _ | some 2, none => rfl

/-- Once the receiver of an entry is stored, the entry is good for nothing more. -/
theorem prefetch_again {identity : IdentityKeys P} {entry : SenderKeyEntry P}
    {v v' : Option (ReceiverState P)} {result : EntryResult}
    (h : prefetchGroupSenderKeys identity entry v = (some v', result)) :
    prefetchGroupSenderKeys identity entry v' = (none, result) := by
  obtain ⟨senderId, version, encryptedKey⟩ := entry
  dsimp only [prefetchGroupSenderKeys] at h ⊢
  split at h
  · cases v with
    | some r => cases h
    | none =>
      rcases hopen : openDistMsg identity _ with _ | distMsg
      · simp [hopen] at h
      · rcases hdist : receiverFromDist (P := P) distMsg with _ | receiver
        · simp [hopen, hdist] at h
        · simp only [hopen, hdist, Prod.mk.injEq, Option.some.injEq] at h
          obtain ⟨rfl, rfl⟩ := h
          rfl
  · cases h

/-! ## Interleavings -/

/-- A call that is about to save finds the receiver that it loaded. An entry may also find the
receiver that it brings. -/
def Unchanged {ι : Type} (calls : ι → GroupCall P)
    (m : CellCall.Memory ι (Option (ReceiverState P)) GroupResult) (i : ι) : Prop :=
  ∀ v v' result, m.phase i = .computed v (some v') result →
    m.cell = v ∨ (∃ entry, calls i = .prefetchGroupSenderKeys entry) ∧ m.cell = v'

theorem current_of_unchanged {ι : Type} [DecidableEq ι] {identity : IdentityKeys P}
    {calls : ι → GroupCall P} {receiver? : Option (ReceiverState P)}
    {m : CellCall.Memory ι (Option (ReceiverState P)) GroupResult} {i : ι}
    (hm : (CellCall.interleaving (fun i => (calls i).run identity) receiver?).Reachable m)
    (h : Unchanged calls m i) : CellCall.Current (fun i => (calls i).run identity) m i := by
  intro v v' result hp
  have hrun : (some v', result) = (calls i).run identity v := CellCall.computed_eq hm hp
  dsimp only
  rcases h v v' result hp with hcell | ⟨⟨entry, hentry⟩, hcell⟩
  · rw [hcell, ← hrun]
    exact ⟨rfl, rfl⟩
  · rw [hentry] at hrun ⊢
    obtain ⟨hsaves, rfl⟩ := Prod.mk.inj hrun
    have hagain := prefetch_again (Prod.ext hsaves.symm rfl)
    rw [hcell, GroupCall.run, CellCall.map, hagain]
    exact ⟨rfl, rfl⟩

/-- **Group decryption is linearizable** in every run in which each call that saves still finds what
it loaded: it returns and leaves what the calls return and leave one after the other. -/
theorem group_linearizable {ι : Type} [DecidableEq ι] (identity : IdentityKeys P)
    (calls : ι → GroupCall P) (receiver? : Option (ReceiverState P))
    {m : CellCall.Memory ι (Option (ReceiverState P)) GroupResult}
    (hm : ((CellCall.interleaving (fun i => (calls i).run identity) receiver?).restrict
      (Unchanged calls)).Reachable m) (hquiet : m.Quiet) :
    CellCall.Linearizable (fun i => (calls i).run identity) receiver? m :=
  CellCall.linearizable_of_current (fun _ _ => current_of_unchanged) hm hquiet

/-! ## Two messages -/

/-- The first message of the sample sender; `sampleMessage` is the second. -/
def firstMessage : SenderKeyMessage symbolic :=
  let ciphertext := .box (messageKey sampleSeed.chainKey 0) (iterationNonce 0) [7] (messageAad 1 0)
  { keyId := 1, iteration := 0, ciphertext,
    signature := symbolic.sign sampleSeed.signingKey (signedPayload 1 0 ciphertext) }

/-- A receiver in front of both. -/
def freshReceiver : ReceiverState symbolic :=
  processDistributionMessage (createDistributionMessage sampleSeed.sender)

def twoCalls : Bool → GroupCall symbolic
  | false => .decryptFromGroup (some (some firstMessage))
  | true => .decryptFromGroup (some (some SenderKey.sampleMessage))

def twoRuns : Bool → CellCall (Option (ReceiverState symbolic)) GroupResult :=
  fun i => (twoCalls i).run (sampleIdentity 20)

/-- The key of the first message is in the cache of the stored receiver. -/
def holdsFirstKey (receiver? : Option (ReceiverState symbolic)) : Bool :=
  (receiver?.bind fun r => r.skipped[(0 : UInt32)]?).isSome

/-- Both calls load before either saves. -/
def overlapping : List Bool := [false, true, false, true, false, true]

/-- One call after the other. -/
def separate : List Bool := [false, false, false, true, true, true]

theorem group_linearizable_sample :
    CellCall.Linearizable twoRuns (some freshReceiver)
      ((CellCall.interleaving twoRuns (some freshReceiver)).exec
        (CellCall.interleaving twoRuns (some freshReceiver)).init separate) := by
  refine group_linearizable (sampleIdentity 20) twoCalls (some freshReceiver)
    (Machine.reachable_iff.mpr ⟨separate, ?_, rfl⟩) fun i => ?_
  · refine ⟨⟨by decide +kernel, ?_⟩, ⟨by decide +kernel, ?_⟩, ⟨by decide +kernel, ?_⟩,
      ⟨by decide +kernel, ?_⟩, ⟨by decide +kernel, ?_⟩, ⟨by decide +kernel, ?_⟩, trivial⟩
    · intro v v' result h
      cases h
    · intro v v' result h
      cases h
    · intro v v' result h
      exact .inl (CellCall.Phase.computed.inj h).1
    · intro v v' result h
      cases h
    · intro v v' result h
      cases h
    · intro v v' result h
      exact .inl (CellCall.Phase.computed.inj h).1
  · cases i <;> exact .inr ⟨_, rfl⟩

/-- Both calls return their plaintext, and the used key of the first message is back. -/
theorem overlap_resurrects : ∃ m, (CellCall.interleaving twoRuns (some freshReceiver)).Reachable m ∧
    m.Quiet ∧ ¬CellCall.Linearizable twoRuns (some freshReceiver) m := by
  refine ⟨_, Machine.reachable_iff.mpr ⟨overlapping, by decide +kernel, rfl⟩, fun i => ?_, ?_⟩
  · cases i <;> exact .inr ⟨_, rfl⟩
  rintro ⟨order, hnodup, hmem, hcell, -⟩
  have hall : ∀ i, i ∈ order := by
    intro i
    refine (hmem i).mpr ?_
    cases i <;> exact ⟨_, rfl⟩
  have hperm : order.Perm [false, true] :=
    (List.perm_ext_iff_of_nodup hnodup (by decide)).mpr fun i => by simp [hall i]
  have horder : order = [false, true] ∨ order = [true, false] := by
    obtain ⟨i, j, rfl⟩ := List.length_eq_two.mp hperm.length_eq
    cases i <;> cases j <;> simp at hnodup ⊢
  have hheld : holdsFirstKey (CellCall.sequential twoRuns (some freshReceiver) order).1 = true := by
    rw [hcell]
    decide +kernel
  rcases horder with rfl | rfl <;> revert hheld <;> decide +kernel

end Vesper.Client
