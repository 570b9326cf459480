import Vesper.Group.Caches
import Vesper.Group.Channel

/-!
# Who holds a sender's key

A receiver that was made from a sender's distribution stays on the sender's chain, not in front of it, while
the sender encrypts and the receiver decrypts what the network brings.
-/

namespace Vesper.SenderKey
open DoubleRatchet (messageKey chainKey_chainKey messageKey_chainKey toNat_ofNat_of_lt)
open TreeMaps
variable {P : Primitives}

/-- The receiver is on the chain of the sender and not in front of it; the keys that it has put aside are of
messages before. -/
structure HoldsKey (s : SenderState P) (r : ReceiverState P) : Prop where
  signingPub : r.signingPub = P.verifyingKey s.signingKey
  behind : r.iteration.toNat ≤ s.iteration.toNat
  chainKey : s.chainKey = DoubleRatchet.chainKey r.chainKey (s.iteration.toNat - r.iteration.toNat)
  skipped : ∀ t ∈ r.skipped, t.toNat < s.iteration.toNat

variable {s : SenderState P} {r : ReceiverState P}

theorem holdsKey_distribution (s : SenderState P) :
    HoldsKey s (processDistributionMessage (createDistributionMessage s)) where
  signingPub := rfl
  behind := Nat.le_refl _
  chainKey := by
    show s.chainKey = DoubleRatchet.chainKey s.chainKey (s.iteration.toNat - s.iteration.toNat)
    rw [Nat.sub_self]
    rfl
  skipped _ ht := absurd ht Std.ExtTreeMap.not_mem_empty

/-- With its next message the sender is one step further. -/
theorem HoldsKey.encrypt (h : HoldsKey s r) (plaintext : Bytes) (hlast : s.iteration.toNat < 2 ^ 32 - 1) :
    HoldsKey (SenderKey.encrypt s plaintext).1 r := by
  have hnext : (s.iteration + 1).toNat = s.iteration.toNat + 1 := by
    rw [UInt32.toNat_add]
    exact Nat.mod_eq_of_lt (by simp; omega)
  have hbehind := h.behind
  rw [encrypt_fst]
  refine ⟨h.signingPub, ?_, ?_, fun t ht => ?_⟩
  · dsimp only
    omega
  · dsimp only
    rw [hnext, h.chainKey, chainKey_chainKey]
    congr 1
    omega
  · have := h.skipped t ht
    dsimp only
    omega

/-- A key of a message that was sent takes the receiver no further than the sender. -/
theorem HoldsKey.messageKeyFor (h : HoldsKey s r) {t : UInt32} (ht : t.toNat < s.iteration.toNat) :
    HoldsKey s (r.messageKeyFor t).1 := by
  cases hmiss : r.skipped[t]? with
  | some mk =>
    rw [messageKeyFor_cached hmiss]
    exact ⟨h.signingPub, h.behind, h.chainKey, fun q hq => h.skipped q (Std.ExtTreeMap.mem_of_mem_erase hq)⟩
  | none =>
    by_cases hbehind : t.toNat < r.iteration.toNat
    · rw [messageKeyFor_behind hmiss hbehind]
      exact h
    by_cases hlimit : r.iteration.toNat + MAX_SKIP.toNat < t.toNat
    · rw [messageKeyFor_limit hmiss hlimit]
      exact h
    have hlt := s.iteration.toNat_lt
    have hnext : (t + 1).toNat = t.toNat + 1 := by
      rw [UInt32.toNat_add]
      exact Nat.mod_eq_of_lt (by simp; omega)
    rw [messageKeyFor_ahead hmiss (by omega) (by omega), fill_eq_insertAll]
    refine ⟨h.signingPub, ?_, ?_, fun q hq => ?_⟩
    · dsimp only
      omega
    · dsimp only
      rw [h.chainKey, chainKey_chainKey]
      congr 1
      omega
    · rcases mem_insertAll hq with hmem | ⟨mk, hmem⟩
      · exact h.skipped q hmem
      · obtain ⟨i, hi, heq⟩ := List.mem_map.mp hmem
        obtain rfl : r.iteration + .ofNat i = q := congrArg Prod.fst heq
        have hi := List.mem_range.mp hi
        rw [UInt32.toNat_add, toNat_ofNat_of_lt (by omega), Nat.mod_eq_of_lt (by omega)]
        omega

/-- **A member holds the sender's key** from the time it has it, whatever the two have done since. -/
theorem holdsKey_of_reachable {G : Seed P} (haead : AeadInverts P) {c : Channel P}
    (hc : (G.channel.restrict Ideal).Reachable c) : ∀ r, c.receiver = some r → HoldsKey c.sender r := by
  refine hc.invariant (I := fun c => ∀ r, c.receiver = some r → HoldsKey c.sender r)
    (fun r hr => by cases hr) ?_
  intro c e hreach h henabled r hr
  cases e with
  | encrypt plaintext => exact (h r hr).encrypt plaintext henabled.2
  | join =>
    obtain rfl := Option.some.inj hr
    exact holdsKey_distribution c.sender
  | deliver msg =>
    cases hreceiver : c.receiver with
    | none =>
      have hnone : (c.deliver msg).receiver = none := by simp only [Channel.deliver, hreceiver]
      cases hnone.symm.trans hr
    | some receiver =>
      have hold := h receiver hreceiver
      have hnext : (c.deliver msg).sender = c.sender ∧ (c.deliver msg).receiver = some (decrypt receiver msg).1 := by
        simp only [Channel.deliver, hreceiver, and_self]
      obtain rfl := Option.some.inj (hnext.2.symm.trans hr)
      show HoldsKey (c.deliver msg).sender _
      rw [hnext.1]
      cases hverify : receiver.signingPub.verify P msg.payload msg.signature with
      | error e =>
        rw [decrypt_unverified hverify]
        exact hold
      | ok =>
        rw [decrypt_verified hverify]
        -- what verifies was sent
        obtain ⟨m, hm, hpayload⟩ := henabled.2 receiver hreceiver hverify
        have hsent := ((inStep_of_reachable haead hreach).1.sent m hm).1
        rw [(payload_inj.mp hpayload).2.1] at hsent
        exact hold.messageKeyFor hsent

end Vesper.SenderKey
