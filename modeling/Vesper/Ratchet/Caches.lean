import Vesper.Crypto.ByteForms
import Vesper.Ratchet.Calls

/-!
# How many skipped keys a session holds

The limit of `skip_message_keys` is one on a single skip. `growth` counts the keys that a header adds to
the cache; nothing ever takes a key out of it but the message that the key is for.
-/

namespace Vesper.DoubleRatchet
open TreeMaps
variable {P : Primitives}

/-- The keys that skipping to number `upto` adds. -/
def skipGrowth (s : RatchetState P) (upto : UInt32) : Nat :=
  match s.ckr, s.dhr with
  | some _, some d =>
    if upto.toNat ≤ s.nr.toNat + MAX_SKIP.toNat then
      missing s.mkskipped (skippedKeys d.bytes.toList s.nr (upto.toNat - s.nr.toNat))
    else 0
  | _, _ => 0

/-- The keys that `decrypt` adds for a header whose own key is not cached. -/
def growth (s : RatchetState P) (header : MessageHeader) : Nat :=
  if remoteKeyChanged s header then
    if header.pn.toNat ≤ s.nr.toNat + MAX_SKIP.toNat then
      skipGrowth s header.pn +
        if header.n.toNat ≤ MAX_SKIP.toNat then
          missing s.mkskipped (skippedKeys header.dh.bytes.toList 0 header.n.toNat)
        else 0
    else 0
  else skipGrowth s header.n

section
variable {s : RatchetState P} {header : MessageHeader} {dhrKey : Bytes} {ck : P.Block} {nr : UInt32}
  {k : Nat} {skipped : Skipped P}

theorem add_ofNat_inj {i j : Nat} (hi : i < 2 ^ 32) (hj : j < 2 ^ 32)
    (h : nr + .ofNat i = nr + .ofNat j) : i = j := by
  have heq : UInt32.ofNat i = .ofNat j := (UInt32.add_right_inj nr).mp h
  rw [← toNat_ofNat_of_lt hi, ← toNat_ofNat_of_lt hj, heq]

/-- Within the range of the counter, no round of a skip loop inserts a key of another. -/
theorem pairwise_rounds {κ β : Type} (hk : k ≤ 2 ^ 32) {key : UInt32 → κ} (hkey : Function.Injective key)
    (f : Nat → β) :
    ((List.range k).map fun i => (key (nr + .ofNat i), f i)).Pairwise fun a b => a.1 ≠ b.1 := by
  refine List.pairwise_map.mpr (List.pairwise_lt_range.imp_of_mem fun hi hj hlt heq => ?_)
  have hij := add_ofNat_inj (by have := List.mem_range.mp hi; omega)
    (by have := List.mem_range.mp hj; omega) (hkey heq)
  omega

theorem size_fill (hk : k ≤ 2 ^ 32) : (fill dhrKey ck nr k skipped).size =
    skipped.size + missing skipped (skippedKeys dhrKey nr k) := by
  have hdistinct : (skippedEntries dhrKey ck nr k).Pairwise fun a b => a.1 ≠ b.1 :=
    pairwise_rounds hk (fun _ _ h => congrArg Prod.snd h) (messageKey ck)
  rw [fill_eq_insertAll, size_insertAll hdistinct, map_fst_skippedEntries]

theorem size_skipMessageKeys (s : RatchetState P) (n : UInt32) :
    (skipMessageKeys s n).1.mkskipped.size = s.mkskipped.size + skipGrowth s n := by
  unfold skipGrowth
  split
  · next ck d hckr hdhr =>
    rw [toNat_MAX_SKIP]
    split
    · next hlimit =>
      rw [skipMessageKeys_of_chain hckr hdhr hlimit]
      exact size_fill (by omega)
    · next hlimit =>
      rw [skipMessageKeys_of_limit (by omega), Nat.add_zero]
  · next hno =>
    rcases skipMessageKeys_cases s n with heq | ⟨ck, d, hckr, hdhr, -⟩
    · rw [heq, Nat.add_zero]
    · exact absurd hdhr (hno ck d hckr)

theorem advanceTo_mkskipped (s : RatchetState P) (n : UInt32) :
    (advanceTo s n).1.mkskipped = (skipMessageKeys s n).1.mkskipped := by
  unfold advanceTo
  rcases skipMessageKeys s n with ⟨s1, _ | _⟩
  · rfl
  · dsimp only [stepChain]
    split <;> rfl

/-- What is skipped under one ratchet key leaves the keys under another alone. -/
theorem missing_skipMessageKeys (hdhr : s.dhr ≠ some header.dh) (n nr : UInt32) (k : Nat) :
    missing (skipMessageKeys s n).1.mkskipped (skippedKeys header.dh.bytes.toList nr k) =
      missing s.mkskipped (skippedKeys header.dh.bytes.toList nr k) := by
  rcases skipMessageKeys_cases s n with heq | ⟨ck, d, -, hd, -, -, heq⟩ <;> rw [heq]
  refine missing_congr fun q hq => ?_
  obtain ⟨i, -, rfl⟩ := List.mem_map.mp hq
  have hne : ∀ mk, ((header.dh.bytes.toList, nr + .ofNat i), mk) ∉
      skippedEntries d.bytes.toList ck s.nr (n.toNat - s.nr.toNat) := by
    intro mk hmem
    obtain ⟨j, -, heq⟩ := List.mem_map.mp hmem
    exact hdhr (hd.trans (congrArg some (dhKey_inj.mp (congrArg (·.1.1) heq))))
  rw [fill_eq_insertAll, Std.ExtTreeMap.contains_eq_isSome_getElem?,
    getElem?_insertAll_of_notMem hne, ← Std.ExtTreeMap.contains_eq_isSome_getElem?]

theorem skipGrowth_ratcheted (s : RatchetState P) (d : KeyAgreementPublicKey) (fresh : P.Secret)
    (n : UInt32) : skipGrowth (ratcheted s d fresh) n =
      if n.toNat ≤ MAX_SKIP.toNat then missing s.mkskipped (skippedKeys d.bytes.toList 0 n.toNat)
      else 0 := by
  have hnr : (0 : UInt32).toNat = 0 := rfl
  simp only [skipGrowth, ratcheted, hnr, Nat.zero_add, Nat.sub_zero]

/-- **What a header adds.** -/
theorem size_advance (hchain : ChainHasKey s)
    (hmiss : s.mkskipped[(header.dh.bytes.toList, header.n)]? = none) (fresh : P.Secret) :
    (advance s header fresh).1.mkskipped.size = s.mkskipped.size + growth s header := by
  unfold growth
  by_cases hdhr : s.dhr = some header.dh
  · rw [advance_same hmiss hdhr, advanceTo_mkskipped, size_skipMessageKeys, if_neg]
    rw [Bool.not_eq_true, remoteKeyChanged_eq_false_iff]
    exact hdhr
  · rw [if_pos (remoteKeyChanged_eq_true_iff.mpr hdhr), advance_changed hmiss hdhr, toNat_MAX_SKIP]
    by_cases hpn : header.pn.toNat ≤ s.nr.toNat + 1000
    · rw [if_pos hpn]
      have hsize := size_skipMessageKeys s header.pn
      have hmissing := missing_skipMessageKeys hdhr header.pn 0 header.n.toNat
      obtain ⟨s1, hs1⟩ := exists_skipMessageKeys hchain hpn
      rw [hs1] at hsize hmissing ⊢
      dsimp only
      rw [advanceTo_mkskipped, size_skipMessageKeys, skipGrowth_ratcheted, hmissing, toNat_MAX_SKIP]
      change s1.mkskipped.size + _ = _
      rw [hsize, Nat.add_assoc]
    · rw [if_neg hpn, skipMessageKeys_of_limit (Nat.not_le.mp hpn), Nat.add_zero]

end

/-! ## Runs -/

/-- The cache holds no more than the limit. -/
def Bounded (s : RatchetState P) : Prop := s.mkskipped.size ≤ MAX_SKIP.toNat

/-- The message's own key is cached, or what its header skips fits into the cache. -/
def HasRoom (s : RatchetState P) : SessionCall P → Prop
  | .encrypt .. => True
  | .decrypt header .. => (header.dh.bytes.toList, header.n) ∈ s.mkskipped ∨
    s.mkskipped.size + growth s header ≤ MAX_SKIP.toNat

theorem bounded_run_iff {s : RatchetState P} (hchain : ChainHasKey s) (hs : Bounded s)
    (call : SessionCall P) : Bounded (call.run s).1 ↔ HasRoom s call := by
  cases call with
  | encrypt plaintext aad =>
    refine iff_of_true ?_ trivial
    change Bounded (DoubleRatchet.encrypt s plaintext aad).1
    cases hcks : s.cks with
    | none => rwa [encrypt_of_no_chain hcks]
    | some ck =>
      rw [encrypt_of_chain hcks]
      exact hs
  | decrypt header ciphertext aad fresh =>
    change Bounded (DoubleRatchet.decrypt s header ciphertext aad fresh).1 ↔ _
    rw [decrypt_eq]
    cases hmiss : s.mkskipped[(header.dh.bytes.toList, header.n)]? with
    | some mk =>
      refine iff_of_true ?_ (.inl (Std.ExtTreeMap.mem_iff_isSome_getElem?.mpr (by rw [hmiss]; rfl)))
      rw [advance_cached hmiss]
      exact Nat.le_trans Std.ExtTreeMap.size_erase_le hs
    | none =>
      have hnot : (header.dh.bytes.toList, header.n) ∉ s.mkskipped := fun hmem => by
        rw [Std.ExtTreeMap.mem_iff_isSome_getElem?, hmiss] at hmem
        cases hmem
      dsimp only [Bounded, HasRoom]
      rw [size_advance hchain hmiss]
      exact (or_iff_right hnot).symm

/-- A session that has received nothing. -/
def plainSession : RatchetState plainPrimitives :=
  initReceiver plainPrimitives (.replicate 32 0) (.replicate 32 0)

/-! ## Floods -/

/-- The first message of a new chain to arrive is the one at the limit. -/
def flood (d : KeyAgreementPublicKey) (c : P.Cipher) (fresh : P.Secret) : SessionCall P :=
  .decrypt ⟨d, 0, MAX_SKIP⟩ c [] fresh

section
variable {s : RatchetState P} {d : KeyAgreementPublicKey}

/-- It fills the cache by as many keys as the limit has, whatever is in it. -/
theorem flood_eq (hdhr : s.dhr ≠ some d)
    (hnew : ∀ q : SkippedKey, q ∈ s.mkskipped → q.1 ≠ d.bytes.toList) (c : P.Cipher) (fresh : P.Secret) :
    ((flood d c fresh).run s).1.mkskipped.size = s.mkskipped.size + MAX_SKIP.toNat ∧
      ((flood d c fresh).run s).1.dhr = some d ∧
      ∀ q : SkippedKey, q ∈ ((flood d c fresh).run s).1.mkskipped →
        q ∈ s.mkskipped ∨ q.1 = d.bytes.toList := by
  have hmiss : s.mkskipped[(d.bytes.toList, MAX_SKIP)]? = none := by
    by_contra hsome
    refine hnew (d.bytes.toList, MAX_SKIP) (Std.ExtTreeMap.mem_iff_isSome_getElem?.mpr ?_) rfl
    exact Option.isSome_iff_ne_none.mpr hsome
  have hpn : skipMessageKeys s 0 = (s, .ok ()) :=
    skipMessageKeys_of_le (UInt32.le_iff_toNat_le.mpr (Nat.zero_le _))
  have hrun : ((flood d c fresh).run s).1 = (advanceTo (ratcheted s d fresh) MAX_SKIP).1 := by
    change (DoubleRatchet.decrypt s ⟨d, 0, MAX_SKIP⟩ c [] fresh).1 = _
    rw [decrypt_eq, advance_changed hmiss hdhr, hpn]
  have hadvance := advanceTo_of_chain (s := ratcheted s d fresh) (n := MAX_SKIP) rfl rfl
    (Nat.le_add_left ..)
  have hmissing : missing s.mkskipped (skippedKeys d.bytes.toList 0 MAX_SKIP.toNat) = MAX_SKIP.toNat := by
    refine (missing_eq_length fun q hq hmem => ?_).trans (by simp [skippedKeys])
    obtain ⟨i, -, rfl⟩ := List.mem_map.mp hq
    exact hnew _ hmem rfl
  refine ⟨?_, ?_, fun q hq => ?_⟩
  · rw [hrun, advanceTo_mkskipped, size_skipMessageKeys, skipGrowth_ratcheted, if_pos (Nat.le_refl _),
      hmissing]
    rfl
  · rw [hrun, hadvance]
    rfl
  · rw [hrun, hadvance] at hq
    dsimp only at hq
    exact mem_fill hq

/-- One flood after the other, each under a ratchet key of its own. -/
theorem exists_flooded (sk : P.Block) (ourDhPair fresh : P.Secret) (c : P.Cipher)
    (key : Nat → KeyAgreementPublicKey) {n : Nat} (hkey : ∀ i j, i < j → j < n → key i ≠ key j) :
    ∃ s, (calls (initReceiver P sk ourDhPair)).Reachable s ∧ s.mkskipped.size = n * MAX_SKIP.toNat ∧
      (∀ d, s.dhr = some d → ∃ j < n, d = key j) ∧
      ∀ q : SkippedKey, q ∈ s.mkskipped → ∃ j < n, q.1 = (key j).bytes.toList := by
  induction n with
  | zero =>
    refine ⟨initReceiver P sk ourDhPair, .init, ?_, nofun, fun q hq => ?_⟩
    · rw [Nat.zero_mul]
      exact Std.ExtTreeMap.size_empty
    · exact absurd hq Std.ExtTreeMap.not_mem_empty
  | succ n ih =>
    obtain ⟨s, hs, hsize, hdhr, hcached⟩ := ih fun i j hij hj => hkey i j hij (by omega)
    have hdhr' : s.dhr ≠ some (key n) := by
      intro heq
      obtain ⟨j, hj, hjn⟩ := hdhr _ heq
      exact hkey j n hj (by omega) hjn.symm
    have hnew : ∀ q : SkippedKey, q ∈ s.mkskipped → q.1 ≠ (key n).bytes.toList := by
      intro q hq heq
      obtain ⟨j, hj, hqj⟩ := hcached q hq
      exact hkey j n hj (by omega) (dhKey_inj.mp (hqj.symm.trans heq))
    obtain ⟨hsize', hdhr'', hcached'⟩ := flood_eq hdhr' hnew c fresh
    refine ⟨_, hs.step (e := flood (key n) c fresh) trivial, ?_, fun d hd => ?_, fun q hq => ?_⟩
    · exact hsize'.trans (by rw [hsize, Nat.succ_mul])
    · exact ⟨n, Nat.lt_succ_self n, Option.some.inj (hd.symm.trans hdhr'')⟩
    · rcases hcached' q hq with hq | hq
      · obtain ⟨j, hj, hqj⟩ := hcached q hq
        exact ⟨j, by omega, hqj⟩
      · exact ⟨n, Nat.lt_succ_self n, hq⟩

end

end Vesper.DoubleRatchet
