import Vesper.Lib.Machine
import Vesper.Lib.TreeMaps
import Vesper.Ratchet.KeySchedule

/-!
# Runs of one state

Any sequence of `encrypt` and `decrypt` on one state, successful or not, with whatever header and
ciphertext. `Kept` lists the moves that such calls are made of; what each of them keeps, every run keeps.
-/

namespace Vesper.DoubleRatchet
open TreeMaps
variable {P : Primitives}

inductive SessionCall (P : Primitives) where
  | encrypt (plaintext aad : Bytes)
  | decrypt (header : MessageHeader) (ciphertext : P.Cipher) (aad : Bytes) (fresh : P.Secret)

/-- What a call returns. -/
inductive Returned (P : Primitives) where
  | encrypted (result : Except Fault (MessageHeader × P.Cipher))
  | decrypted (result : Except Fault Bytes)

def SessionCall.run (s : RatchetState P) : SessionCall P → RatchetState P × Returned P
  | .encrypt plaintext aad =>
    let (s, result) := DoubleRatchet.encrypt s plaintext aad
    (s, .encrypted result)
  | .decrypt header ciphertext aad fresh =>
    let (s, result) := DoubleRatchet.decrypt s header ciphertext aad fresh
    (s, .decrypted result)

/-- A state that a session starts in. -/
inductive Started : RatchetState P → Prop
  | sender : initSender P sk bobDhPub fresh = .ok s → Started s
  | receiver : Started (initReceiver P sk ourDhPair)

/-- The runs that begin in `start`. -/
def calls (start : RatchetState P) : Machine (RatchetState P) (SessionCall P) where
  init := start
  enabled _ _ := True
  next s call := (call.run s).1

/-- A predicate that no move of `encrypt` and `decrypt` breaks. -/
structure Kept (I : RatchetState P → Prop) : Prop where
  send : ∀ s ck, s.cks = some ck → I s → I { s with cks := some (chainKey ck 1), ns := s.ns + 1 }
  erase : ∀ s q, I s → I { s with mkskipped := s.mkskipped.erase q }
  skip : ∀ s n, I s → I (skipMessageKeys s n).1
  ratchet : ∀ s dhrNew fresh, I s → I (ratcheted s dhrNew fresh)
  step : ∀ s ck, s.ckr = some ck → I s → I { s with ckr := some (chainKey ck 1), nr := s.nr + 1 }

section
variable {I : RatchetState P → Prop} {s start : RatchetState P}

theorem Kept.stepChain (h : Kept I) (hs : I s) : I (stepChain s).1 := by
  unfold DoubleRatchet.stepChain
  cases hckr : s.ckr with
  | none => exact hs
  | some ck => exact h.step s ck hckr hs

theorem Kept.advanceTo (h : Kept I) (hs : I s) (n : UInt32) : I (advanceTo s n).1 := by
  have hskip := h.skip s n hs
  unfold DoubleRatchet.advanceTo
  rcases heq : skipMessageKeys s n with ⟨s1, _ | _⟩ <;> rw [heq] at hskip
  · exact hskip
  · exact h.stepChain hskip

theorem Kept.advance (h : Kept I) (hs : I s) (header : MessageHeader) (fresh : P.Secret) :
    I (advance s header fresh).1 := by
  cases hmiss : s.mkskipped[(header.dh.bytes.toList, header.n)]? with
  | some mk =>
    rw [advance_cached hmiss]
    exact h.erase s _ hs
  | none =>
    by_cases hdhr : s.dhr = some header.dh
    · rw [advance_same hmiss hdhr]
      exact h.advanceTo hs header.n
    · have hskip := h.skip s header.pn hs
      rw [advance_changed hmiss hdhr]
      rcases heq : skipMessageKeys s header.pn with ⟨s1, _ | _⟩ <;> rw [heq] at hskip
      · exact hskip
      · exact h.advanceTo (h.ratchet s1 header.dh fresh hskip) header.n

theorem Kept.run (h : Kept I) (hs : I s) (call : SessionCall P) : I (call.run s).1 := by
  cases call with
  | encrypt plaintext aad =>
    change I (DoubleRatchet.encrypt s plaintext aad).1
    cases hcks : s.cks with
    | none => rwa [encrypt_of_no_chain hcks]
    | some ck =>
      rw [encrypt_of_chain hcks]
      exact h.send s ck hcks hs
  | decrypt header ciphertext aad fresh =>
    change I (DoubleRatchet.decrypt s header ciphertext aad fresh).1
    rw [decrypt_eq]
    exact h.advance hs header fresh

/-- **The rule of calls**: what the moves keep holds in every state of a run. -/
theorem Kept.reachable (h : Kept I) (hstart : I start) (hs : (calls start).Reachable s) : I s :=
  Machine.Reachable.invariant (I := I) hstart (fun _ call _ ih _ => h.run ih call) hs

end

/-! ## The cache -/

/-- The keys that `k` rounds of the skip loop insert. -/
def skippedKeys (dhrKey : Bytes) (nr : UInt32) (k : Nat) : List SkippedKey :=
  (List.range k).map fun i => (dhrKey, nr + .ofNat i)

/-- Their entries. -/
def skippedEntries (dhrKey : Bytes) (ck : P.Block) (nr : UInt32) (k : Nat) :
    List (SkippedKey × P.Block) :=
  (List.range k).map fun i => ((dhrKey, nr + .ofNat i), messageKey ck i)

theorem map_fst_skippedEntries (dhrKey : Bytes) (ck : P.Block) (nr : UInt32) (k : Nat) :
    (skippedEntries dhrKey ck nr k).map Prod.fst = skippedKeys dhrKey nr k := List.map_map ..

/-- The rounds of a skip loop: the first is for the counter, the others go on from the next one. -/
theorem map_rounds_succ {β : Type} (ck : P.Block) (nr : UInt32) (k : Nat) (f : UInt32 → P.Block → β) :
    (List.range (k + 1)).map (fun i => f (nr + .ofNat i) (messageKey ck i)) =
      f nr (messageKey ck 0) ::
        (List.range k).map fun i => f (nr + 1 + .ofNat i) (messageKey (chainKey ck 1) i) := by
  rw [List.range_succ_eq_map, List.map_cons, List.map_map]
  congr 1
  · rw [show UInt32.ofNat 0 = 0 from rfl, UInt32.add_zero]
  · refine List.map_congr_left fun i _ => ?_
    rw [Function.comp_apply, messageKey_chainKey, Nat.succ_eq_add_one, Nat.add_comm i 1,
      UInt32.ofNat_add, ← UInt32.add_assoc]
    rfl

theorem fill_eq_insertAll (dhrKey : Bytes) (ck : P.Block) (nr : UInt32) (k : Nat) (skipped : Skipped P) :
    fill dhrKey ck nr k skipped = insertAll skipped (skippedEntries dhrKey ck nr k) := by
  induction k generalizing ck nr skipped with
  | zero => rfl
  | succ k ih =>
    have hentries : skippedEntries dhrKey ck nr (k + 1) =
        ((dhrKey, nr), messageKey ck 0) :: skippedEntries dhrKey (chainKey ck 1) (nr + 1) k :=
      map_rounds_succ ck nr k fun n mk => ((dhrKey, n), mk)
    rw [hentries, insertAll_cons]
    exact ih (chainKey ck 1) (nr + 1) (skipped.insert (dhrKey, nr) (messageKey ck 0))

theorem mem_fill {dhrKey : Bytes} {ck : P.Block} {nr : UInt32} {k : Nat} {skipped : Skipped P}
    {q : SkippedKey} (h : q ∈ fill dhrKey ck nr k skipped) : q ∈ skipped ∨ q.1 = dhrKey := by
  rw [fill_eq_insertAll] at h
  refine (mem_insertAll h).imp_right fun ⟨mk, hmem⟩ => ?_
  obtain ⟨i, -, heq⟩ := List.mem_map.mp hmem
  exact congrArg (·.1.1) heq.symm

/-- The outcomes of skipping: nothing is done, or the chain is moved and the cache filled. -/
theorem skipMessageKeys_cases (s : RatchetState P) (n : UInt32) :
    (skipMessageKeys s n).1 = s ∨
      ∃ ck d, s.ckr = some ck ∧ s.dhr = some d ∧ s.nr < n ∧ n.toNat ≤ s.nr.toNat + 1000 ∧
        skipMessageKeys s n =
          ({ s with ckr := some (chainKey ck (n.toNat - s.nr.toNat)),
                    nr := s.nr + .ofNat (n.toNat - s.nr.toNat),
                    mkskipped := fill d.bytes.toList ck s.nr (n.toNat - s.nr.toNat) s.mkskipped },
            .ok ()) := by
  by_cases hle : n ≤ s.nr
  · exact .inl (by rw [skipMessageKeys_of_le hle])
  by_cases hlimit : s.nr.toNat + 1000 < n.toNat
  · exact .inl (by rw [skipMessageKeys_of_limit hlimit])
  rw [Nat.not_lt] at hlimit
  rcases Option.eq_none_or_eq_some s.ckr with hckr | ⟨ck, hckr⟩
  · exact .inl (by rw [skipMessageKeys_of_no_chain hckr hlimit])
  rcases Option.eq_none_or_eq_some s.dhr with hdhr | ⟨d, hdhr⟩
  · left
    unfold skipMessageKeys
    rw [if_neg hle, if_neg (by rw [saturatingAdd_lt_iff]; omega), hckr, hdhr]
  · refine .inr ⟨ck, d, hckr, hdhr, ?_, hlimit, skipMessageKeys_of_chain hckr hdhr hlimit⟩
    rw [UInt32.le_iff_toNat_le] at hle
    rw [UInt32.lt_iff_toNat_lt]
    omega

/-- Every cached key stands under a public key. -/
def CachesPublicKeys (s : RatchetState P) : Prop := ∀ q : SkippedKey, q ∈ s.mkskipped → q.1.length = 32

theorem kept_cachesPublicKeys : Kept (CachesPublicKeys (P := P)) where
  send _ _ _ h := h
  erase _ _ h q hq := h q (Std.ExtTreeMap.mem_of_mem_erase hq)
  skip s n h := by
    rcases skipMessageKeys_cases s n with heq | ⟨ck, d, -, -, -, -, heq⟩ <;> rw [heq]
    · exact h
    · intro q hq
      rcases mem_fill hq with hq | hq
      · exact h q hq
      · rw [hq, Vector.length_toList]
  ratchet _ _ _ h := h
  step _ _ _ h := h

/-- Who has a receiving chain knows the key that it belongs to. -/
def ChainHasKey (s : RatchetState P) : Prop := s.ckr ≠ none → s.dhr ≠ none

theorem kept_chainHasKey : Kept (ChainHasKey (P := P)) where
  send _ _ _ h := h
  erase _ _ h := h
  skip s n h := by
    rcases skipMessageKeys_cases s n with heq | ⟨ck, d, -, hdhr, -, -, heq⟩ <;> rw [heq]
    · exact h
    · exact fun _ => by simp [hdhr]
  ratchet _ _ _ _ := fun _ => Option.some_ne_none _
  step s ck hckr h := fun _ => h (by simp [hckr])

theorem Started.mkskipped {s : RatchetState P} (h : Started s) : s.mkskipped = ∅ := by
  cases h with
  | sender hinit =>
    rw [initSender_eq] at hinit
    cases hinit
    rfl
  | receiver => rfl

theorem Started.cachesPublicKeys {s start : RatchetState P} (h : Started start)
    (hs : (calls start).Reachable s) : CachesPublicKeys s := by
  refine kept_cachesPublicKeys.reachable (fun q hq => ?_) hs
  rw [h.mkskipped] at hq
  exact absurd hq Std.ExtTreeMap.not_mem_empty

theorem Started.chainHasKey {s start : RatchetState P} (h : Started start)
    (hs : (calls start).Reachable s) : ChainHasKey s := by
  refine kept_chainHasKey.reachable ?_ hs
  cases h with
  | sender hinit =>
    rw [initSender_eq] at hinit
    cases hinit
    exact fun _ => Option.some_ne_none _
  | receiver => exact fun hckr => absurd rfl hckr

end Vesper.DoubleRatchet
