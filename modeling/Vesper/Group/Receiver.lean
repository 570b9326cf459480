import Vesper.Crypto.SenderKey
import Vesper.Ratchet.KeySchedule

/-!
# The receiving side of a sender key

What `message_key_for` does to a receiver, whose position in the sender's chain, cache and used
iterations are tied together by `Stands`.
-/

namespace Vesper.SenderKey
open DoubleRatchet (chainKey messageKey chainKey_chainKey messageKey_chainKey toNat_ofNat_of_lt)

variable {P : Primitives}

@[simp] theorem toNat_MAX_SKIP : MAX_SKIP.toNat = 2000 := rfl

/-! ## The skip loop -/

/-- The cache after `k` rounds of the skip loop. -/
def fill (ck : P.Block) (iteration : UInt32) (k : Nat) (skipped : Std.ExtTreeMap UInt32 P.Block) :
    Std.ExtTreeMap UInt32 P.Block := (skipLoop k ck iteration skipped).2.2

variable {ck : P.Block} {iteration : UInt32} {skipped : Std.ExtTreeMap UInt32 P.Block}

theorem skipLoop_eq (k : Nat) : skipLoop k ck iteration skipped =
    (chainKey ck k, iteration + .ofNat k, fill ck iteration k skipped) := by
  induction k generalizing ck iteration skipped with
  | zero => simp [skipLoop, chainKey, fill]
  | succ k ih =>
    have hck : chainKey (chainKey ck 1) k = chainKey ck (k + 1) := by
      rw [chainKey_chainKey, Nat.add_comm]
    have hit : iteration + 1 + .ofNat k = iteration + .ofNat (k + 1) := by
      rw [UInt32.ofNat_add, UInt32.add_assoc, UInt32.add_comm 1]
      rfl
    calc skipLoop (k + 1) ck iteration skipped
      _ = skipLoop k (chainKey ck 1) (iteration + 1) (skipped.insert iteration (messageKey ck 0)) :=
        rfl
      _ = _ := by rw [ih, hck, hit]; rfl

/-- The message keys of the next `k` iterations are cached, the rest is as before. -/
theorem getElem?_fill {k : Nat} (hk : iteration.toNat + k < 2 ^ 32) (t : UInt32) :
    (fill ck iteration k skipped)[t]? =
      if iteration.toNat ≤ t.toNat ∧ t.toNat < iteration.toNat + k
      then some (messageKey ck (t.toNat - iteration.toNat)) else skipped[t]? := by
  induction k generalizing ck iteration skipped with
  | zero =>
    rw [if_neg (by omega)]
    rfl
  | succ k ih =>
    have hit : (iteration + 1).toNat = iteration.toNat + 1 := by
      rw [UInt32.toNat_add]
      exact Nat.mod_eq_of_lt (by simp; omega)
    have hfill : fill ck iteration (k + 1) skipped =
        fill (chainKey ck 1) (iteration + 1) k (skipped.insert iteration (messageKey ck 0)) := rfl
    rw [hfill, ih (by omega), hit]
    by_cases ht : t = iteration
    · subst ht
      rw [if_neg (by omega), if_pos (by omega)]
      simp
    · have hne : t.toNat ≠ iteration.toNat := fun h => ht (UInt32.toNat_inj.mp h)
      have hinsert : (skipped.insert iteration (messageKey ck 0))[t]? = skipped[t]? := by
        rw [Std.ExtTreeMap.getElem?_insert, if_neg]
        simpa [Std.LawfulEqCmp.compare_eq_iff_eq] using Ne.symm ht
      rw [hinsert]
      by_cases h : iteration.toNat + 1 ≤ t.toNat ∧ t.toNat < iteration.toNat + 1 + k
      · rw [if_pos h, if_pos (by omega), messageKey_chainKey]
        congr 2
        omega
      · rw [if_neg h, if_neg (by omega)]

/-! ## `message_key_for` -/

variable {s : ReceiverState P} {t : UInt32}

theorem messageKeyFor_cached {mk : P.Block} (h : s.skipped[t]? = some mk) :
    s.messageKeyFor t = ({ s with skipped := s.skipped.erase t }, .ok mk) := by
  simp only [ReceiverState.messageKeyFor, h]

theorem messageKeyFor_behind (h : s.skipped[t]? = none) (ht : t.toNat < s.iteration.toNat) :
    s.messageKeyFor t = (s, .error (.error .decryptionFailed)) := by
  simp only [ReceiverState.messageKeyFor, h]
  rw [if_pos (UInt32.lt_iff_toNat_lt.mpr ht)]

theorem messageKeyFor_limit (h : s.skipped[t]? = none)
    (ht : s.iteration.toNat + MAX_SKIP.toNat < t.toNat) :
    s.messageKeyFor t = (s, .error (.error .skipLimitExceeded)) := by
  have hle : s.iteration ≤ t := UInt32.le_iff_toNat_le.mpr (by omega)
  have hgap : MAX_SKIP < t - s.iteration := by
    rw [UInt32.lt_iff_toNat_lt, UInt32.toNat_sub_of_le _ _ hle]
    omega
  simp only [ReceiverState.messageKeyFor, h]
  rw [if_neg (by rw [UInt32.lt_iff_toNat_lt]; omega), if_pos hgap]

theorem messageKeyFor_ahead (h : s.skipped[t]? = none) (ht : s.iteration.toNat ≤ t.toNat)
    (hgap : t.toNat ≤ s.iteration.toNat + MAX_SKIP.toNat) :
    s.messageKeyFor t =
      ({ s with
          chainKey := chainKey s.chainKey (t.toNat - s.iteration.toNat + 1)
          iteration := t + 1
          skipped := fill s.chainKey s.iteration (t.toNat - s.iteration.toNat) s.skipped },
        .ok (messageKey s.chainKey (t.toNat - s.iteration.toNat))) := by
  have hle : s.iteration ≤ t := UInt32.le_iff_toNat_le.mpr ht
  have hsub := UInt32.toNat_sub_of_le _ _ hle
  have hadd : s.iteration + .ofNat (t.toNat - s.iteration.toNat) = t := by
    rw [← hsub, UInt32.ofNat_toNat, UInt32.add_comm, UInt32.sub_add_cancel]
  simp only [ReceiverState.messageKeyFor, h, skipLoop_eq]
  rw [if_neg (by rw [UInt32.lt_iff_toNat_lt]; omega),
    if_neg (by rw [UInt32.lt_iff_toNat_lt]; omega), hsub, hadd]
  rfl

/-- Signing key and key id stay. -/
theorem messageKeyFor_frame (s : ReceiverState P) (t : UInt32) :
    (s.messageKeyFor t).1.signingPub = s.signingPub ∧ (s.messageKeyFor t).1.keyId = s.keyId := by
  unfold ReceiverState.messageKeyFor
  split
  · exact ⟨rfl, rfl⟩
  split
  · exact ⟨rfl, rfl⟩
  dsimp only
  split <;> exact ⟨rfl, rfl⟩

/-! ## Position in the chain -/

/-- A receiver started at iteration `k` with the chain key `c`, of which the iterations `used` were
handed out: all others that it is past are in its cache. -/
structure Advanced (c : P.Block) (k : Nat) (used : List UInt32) (s : ReceiverState P) : Prop where
  start : k ≤ s.iteration.toNat
  chainKey : s.chainKey = chainKey c (s.iteration.toNat - k)
  skipped : ∀ t, s.skipped[t]? =
    if k ≤ t.toNat ∧ t.toNat < s.iteration.toNat ∧ t ∉ used
    then some (messageKey c (t.toNat - k)) else none
  used : ∀ t ∈ used, k ≤ t.toNat ∧ t.toNat < s.iteration.toNat

variable {c : P.Block} {k : Nat} {used : List UInt32}

/-- An iteration that was handed out, or that precedes the receiver, yields no key. -/
theorem Advanced.gone (h : Advanced c k used s) (ht : t ∈ used ∨ t.toNat < k) :
    s.messageKeyFor t = (s, .error (.error .decryptionFailed)) := by
  have hlt : t.toNat < s.iteration.toNat := by
    rcases ht with ht | ht
    · exact (h.used t ht).2
    · exact Nat.lt_of_lt_of_le ht h.start
  refine messageKeyFor_behind ?_ hlt
  rw [h.skipped, if_neg]
  rintro ⟨hk, -, hnew⟩
  rcases ht with ht | ht
  · exact hnew ht
  · omega

/-- Nor does one beyond the skip limit. -/
theorem Advanced.tooFar (h : Advanced c k used s)
    (hgap : s.iteration.toNat + MAX_SKIP.toNat < t.toNat) :
    s.messageKeyFor t = (s, .error (.error .skipLimitExceeded)) := by
  refine messageKeyFor_limit ?_ hgap
  rw [h.skipped, if_neg]
  rintro ⟨-, hlt, -⟩
  omega

/-- An iteration in the cache yields its message key, and counts as used. -/
theorem Advanced.messageKeyFor_cached (h : Advanced c k used s) (hk : k ≤ t.toNat)
    (hnew : t ∉ used) (ht : t.toNat < s.iteration.toNat) :
    ∃ s', s.messageKeyFor t = (s', .ok (messageKey c (t.toNat - k))) ∧
      Advanced c k (used ++ [t]) s' ∧ s'.iteration.toNat = s.iteration.toNat := by
  have hmk : s.skipped[t]? = some (messageKey c (t.toNat - k)) := by
    rw [h.skipped, if_pos ⟨hk, ht, hnew⟩]
  refine ⟨_, SenderKey.messageKeyFor_cached hmk, ⟨h.start, h.chainKey, fun q => ?_, ?_⟩, rfl⟩
  · rw [Std.ExtTreeMap.getElem?_erase, h.skipped]
    by_cases hq : t = q
    · subst hq
      simp
    · rw [if_neg (by simpa [Std.LawfulEqCmp.compare_eq_iff_eq] using hq)]
      simp only [List.mem_append, List.mem_singleton, Ne.symm hq, or_false]
  · intro q hq
    rcases List.mem_append.mp hq with hq | hq
    · exact h.used q hq
    · rw [List.mem_singleton.mp hq]
      exact ⟨hk, ht⟩

/-- So does one ahead of the receiver, which moves past it. -/
theorem Advanced.messageKeyFor_ahead (h : Advanced c k used s) (ht : s.iteration.toNat ≤ t.toNat)
    (hgap : t.toNat ≤ s.iteration.toNat + MAX_SKIP.toNat) (hlt : t.toNat + 1 < 2 ^ 32) :
    ∃ s', s.messageKeyFor t = (s', .ok (messageKey c (t.toNat - k))) ∧
      Advanced c k (used ++ [t]) s' ∧ s'.iteration.toNat = t.toNat + 1 := by
  have hstart := h.start
  have hmiss : s.skipped[t]? = none := by
    rw [h.skipped, if_neg]
    rintro ⟨-, hq, -⟩
    omega
  have hit : (t + 1).toNat = t.toNat + 1 := by
    rw [UInt32.toNat_add]
    exact Nat.mod_eq_of_lt hlt
  have hmk : messageKey s.chainKey (t.toNat - s.iteration.toNat) = messageKey c (t.toNat - k) := by
    rw [h.chainKey, messageKey_chainKey]
    congr 1
    omega
  refine ⟨_, hmk ▸ SenderKey.messageKeyFor_ahead hmiss ht hgap, ⟨?_, ?_, fun q => ?_, ?_⟩, hit⟩
  · simp only [hit]
    omega
  · simp only [hit]
    rw [h.chainKey, chainKey_chainKey]
    congr 1
    omega
  · simp only [hit]
    rw [getElem?_fill (by omega), h.skipped, h.chainKey, messageKey_chainKey]
    by_cases hq : s.iteration.toNat ≤ q.toNat
    · have hnused : q ∉ used := fun hmem => by
        have := (h.used q hmem).2
        omega
      by_cases hqt : q = t
      · subst hqt
        rw [if_neg (by omega), if_neg (by omega), if_neg (by simp)]
      · have hne : q.toNat ≠ t.toNat := fun heq => hqt (UInt32.toNat_inj.mp heq)
        by_cases hlast : q.toNat < t.toNat
        · rw [if_pos (by omega), if_pos ⟨by omega, by omega, by simp [hnused, hqt]⟩]
          congr 2
          omega
        · rw [if_neg (by omega), if_neg (by omega), if_neg (by omega)]
    · have hqt : q ≠ t := by
        rintro rfl
        exact hq ht
      rw [if_neg (by omega)]
      simp only [List.mem_append, List.mem_singleton, hqt, or_false]
      by_cases hcached : k ≤ q.toNat ∧ q.toNat < s.iteration.toNat ∧ q ∉ used
      · rw [if_pos hcached, if_pos ⟨hcached.1, by omega, hcached.2.2⟩]
      · rw [if_neg hcached, if_neg fun hc => hcached ⟨hc.1, by omega, hc.2.2⟩]
  · intro q hq
    simp only [hit]
    rcases List.mem_append.mp hq with hq | hq
    · have := h.used q hq
      omega
    · rw [List.mem_singleton.mp hq]
      omega

/-- Every iteration that is not gone and within the skip limit yields its message key. -/
theorem Advanced.messageKeyFor (h : Advanced c k used s) (hk : k ≤ t.toNat) (hnew : t ∉ used)
    (hgap : t.toNat ≤ s.iteration.toNat + MAX_SKIP.toNat) (hlt : t.toNat + 1 < 2 ^ 32) :
    ∃ s', s.messageKeyFor t = (s', .ok (messageKey c (t.toNat - k))) ∧
      Advanced c k (used ++ [t]) s' ∧
      s'.iteration.toNat = max s.iteration.toNat (t.toNat + 1) := by
  rcases Nat.lt_or_ge t.toNat s.iteration.toNat with ht | ht
  · obtain ⟨s', hs', hadv, hit⟩ := h.messageKeyFor_cached hk hnew ht
    exact ⟨s', hs', hadv, by omega⟩
  · obtain ⟨s', hs', hadv, hit⟩ := h.messageKeyFor_ahead ht hgap hlt
    exact ⟨s', hs', hadv, by omega⟩

/-- A receiver created at iteration `k` of the chain that starts with `ck`, of which the iterations
`used` were handed out: all others that it is past are in its cache. -/
structure Stands (ck : P.Block) (k : Nat) (used : List UInt32) (s : ReceiverState P) : Prop where
  start : k ≤ s.iteration.toNat
  chainKey : s.chainKey = chainKey ck s.iteration.toNat
  skipped : ∀ t, s.skipped[t]? =
    if k ≤ t.toNat ∧ t.toNat < s.iteration.toNat ∧ t ∉ used then some (messageKey ck t.toNat)
    else none
  used : ∀ t ∈ used, k ≤ t.toNat ∧ t.toNat < s.iteration.toNat

theorem Stands.advanced_iff : Stands ck k used s ↔ Advanced (DoubleRatchet.chainKey ck k) k used s := by
  have hkey : k ≤ s.iteration.toNat → DoubleRatchet.chainKey (DoubleRatchet.chainKey ck k)
      (s.iteration.toNat - k) = DoubleRatchet.chainKey ck s.iteration.toNat := fun hk => by
    rw [chainKey_chainKey, Nat.add_sub_cancel' hk]
  have hcached : ∀ t : UInt32,
      (if k ≤ t.toNat ∧ t.toNat < s.iteration.toNat ∧ t ∉ used
        then some (messageKey (DoubleRatchet.chainKey ck k) (t.toNat - k)) else none) =
      if k ≤ t.toNat ∧ t.toNat < s.iteration.toNat ∧ t ∉ used
        then some (messageKey ck t.toNat) else none := fun t => by
    refine ite_congr rfl (fun ht => ?_) fun _ => rfl
    rw [messageKey_chainKey, Nat.add_sub_cancel' ht.1]
  constructor
  · intro h
    exact ⟨h.start, (hkey h.start).symm ▸ h.chainKey, fun t => (hcached t).symm ▸ h.skipped t, h.used⟩
  · intro h
    exact ⟨h.start, hkey h.start ▸ h.chainKey, fun t => hcached t ▸ h.skipped t, h.used⟩

/-- An iteration that was handed out, or that precedes the receiver, yields no key. -/
theorem Stands.gone (h : Stands ck k used s) (ht : t ∈ used ∨ t.toNat < k) :
    s.messageKeyFor t = (s, .error (.error .decryptionFailed)) :=
  (advanced_iff.mp h).gone ht

/-- Every other iteration within the skip limit yields its message key, and counts as used. -/
theorem Stands.messageKeyFor (h : Stands ck k used s) (hk : k ≤ t.toNat) (hnew : t ∉ used)
    (hgap : t.toNat ≤ s.iteration.toNat + MAX_SKIP.toNat) (hlt : t.toNat + 1 < 2 ^ 32) :
    ∃ s', s.messageKeyFor t = (s', .ok (messageKey ck t.toNat)) ∧
      Stands ck k (used ++ [t]) s' ∧
      s'.iteration.toNat = max s.iteration.toNat (t.toNat + 1) := by
  obtain ⟨s', hs', hadv, hit⟩ := (advanced_iff.mp h).messageKeyFor hk hnew hgap hlt
  rw [messageKey_chainKey, Nat.add_sub_cancel' hk] at hs'
  exact ⟨s', hs', advanced_iff.mpr hadv, hit⟩

/-- A receiver made from a snapshot. -/
theorem Stands.of_distribution {sender : SenderState P}
    (h : sender.chainKey = DoubleRatchet.chainKey ck sender.iteration.toNat) :
    Stands ck sender.iteration.toNat []
      (processDistributionMessage (createDistributionMessage sender)) := by
  refine ⟨Nat.le_refl _, h, fun t => ?_, by simp⟩
  rw [if_neg (by simp [processDistributionMessage, createDistributionMessage])]
  simp [processDistributionMessage]

end Vesper.SenderKey
