import Vesper.Crypto.DoubleRatchet

/-!
# The key schedule, and what each ratchet operation does to it

Root keys and chains as functions of the Diffie-Hellman outputs, and one specification lemma per
function of `double_ratchet.rs`. `advance` is the half of `decrypt` that comes before the
authentication: the state and the message key it chooses never depend on the ciphertext
(`decrypt_eq`).
-/

namespace Vesper.DoubleRatchet
variable {P : Primitives}

/-! ## Root keys and chains -/

/-- The root key that `kdf_rk` returns. -/
def rkStep (rk d : P.Block) : P.Block := P.hkdfBlock (P.hkdfExtract (some rk) [d]) rkInfo 0

/-- The chain key that `kdf_rk` returns. -/
def ckSeed (rk d : P.Block) : P.Block := P.hkdfBlock (P.hkdfExtract (some rk) [d]) rkInfo 1

@[simp] theorem kdfRk_eq (rk d : P.Block) : kdfRk P rk d = .ok (rkStep rk d, ckSeed rk d) := by
  simp [kdfRk, hkdfExpand, bind, Except.bind, pure, Except.pure, rkStep, ckSeed]

/-- The root key after the Diffie-Hellman outputs `ds`, the latest first. -/
def rootKey (sk : P.Block) : List P.Block → P.Block
  | [] => sk
  | d :: ds => rkStep (rootKey sk ds) d

/-- The first key of the chain that the latest output of `ds` started. -/
def chainSeed (sk : P.Block) : List P.Block → P.Block
  | [] => sk
  | d :: ds => ckSeed (rootKey sk ds) d

def chainKey (ck : P.Block) : Nat → P.Block
  | 0 => ck
  | j + 1 => (kdfCk P (chainKey ck j)).1

/-- The key of message number `j` of a chain. -/
def messageKey (ck : P.Block) (j : Nat) : P.Block := (kdfCk P (chainKey ck j)).2

theorem chainKey_chainKey (ck : P.Block) (i j : Nat) :
    chainKey (chainKey ck i) j = chainKey ck (i + j) := by
  induction j with
  | zero => rfl
  | succ j ih => exact congrArg (fun k => (kdfCk P k).1) ih

theorem messageKey_chainKey (ck : P.Block) (i j : Nat) :
    messageKey (chainKey ck i) j = messageKey ck (i + j) := by
  simp only [messageKey, chainKey_chainKey]

theorem initSender_eq (sk : P.Block) (bobDhPub : KeyAgreementPublicKey) (a0 : P.Secret) :
    initSender P sk bobDhPub a0 = .ok
      { dhs := a0, dhr := some bobDhPub, rk := rkStep sk (P.diffieHellman a0 bobDhPub),
        cks := some (ckSeed sk (P.diffieHellman a0 bobDhPub)), ckr := none,
        ns := 0, nr := 0, pn := 0, mkskipped := ∅ } := by
  simp [initSender, bind, Except.bind, pure, Except.pure]

/-! ## Sending -/

/-- Without a sending chain `encrypt` does nothing. -/
theorem encrypt_of_no_chain {s : RatchetState P} (hcks : s.cks = none) (plaintext aad : Bytes) :
    encrypt s plaintext aad = (s, .error (.error .invalidKey)) := by
  simp only [encrypt, hcks]

/-- `encrypt` takes one step of the sending chain. -/
theorem encrypt_of_chain {s : RatchetState P} {ck : P.Block} (hcks : s.cks = some ck)
    (plaintext aad : Bytes) : (encrypt s plaintext aad).1 =
      { s with cks := some (chainKey ck 1), ns := s.ns + 1 } := by
  simp only [encrypt, hcks]
  rfl

/-! ## Skipping -/

@[simp] theorem toNat_MAX_SKIP : MAX_SKIP.toNat = 1000 := rfl

theorem saturatingAdd_lt_iff {a b : UInt32} :
    saturatingAdd a MAX_SKIP < b ↔ a.toNat + 1000 < b.toNat := by
  have ha := a.toNat_lt
  have hb := b.toNat_lt
  rw [UInt32.lt_iff_toNat_lt, saturatingAdd, UInt32.toNat_ofNat', toNat_MAX_SKIP]
  omega

/-- The cache after `k` rounds of the skip loop. -/
def fill (dhrKey : Bytes) (ck : P.Block) (nr : UInt32) (k : Nat) (skipped : Skipped P) :
    Skipped P := (skipLoop dhrKey k ck nr skipped).2.2

@[simp] theorem fill_zero (dhrKey : Bytes) (ck : P.Block) (nr : UInt32) (skipped : Skipped P) :
    fill dhrKey ck nr 0 skipped = skipped := rfl

theorem skipLoop_eq (dhrKey : Bytes) (k : Nat) (ck : P.Block) (nr : UInt32)
    (skipped : Skipped P) : skipLoop dhrKey k ck nr skipped =
      (chainKey ck k, nr + .ofNat k, fill dhrKey ck nr k skipped) := by
  induction k generalizing ck nr skipped with
  | zero => simp [skipLoop, chainKey]
  | succ k ih =>
    have h1 : chainKey (kdfCk P ck).1 k = chainKey ck (k + 1) := by
      rw [show (kdfCk P ck).1 = chainKey ck 1 from rfl, chainKey_chainKey, Nat.add_comm]
    have h2 : nr + 1 + .ofNat k = nr + .ofNat (k + 1) := by
      rw [UInt32.ofNat_add, UInt32.add_assoc, UInt32.add_comm 1]
      rfl
    calc skipLoop dhrKey (k + 1) ck nr skipped
      _ = skipLoop dhrKey k (kdfCk P ck).1 (nr + 1)
            (skipped.insert (dhrKey, nr) (kdfCk P ck).2) := rfl
      _ = _ := by rw [ih, h1, h2]; rfl

/-- Message keys `nr .. nr + k - 1` of the receiving chain are cached, the rest is as before. -/
theorem getElem?_fill {dhrKey : Bytes} {ck : P.Block} {nr : UInt32} {k : Nat}
    {skipped : Skipped P} (hk : nr.toNat + k < 2 ^ 32) (q : SkippedKey) :
    (fill dhrKey ck nr k skipped)[q]? =
      if q.1 = dhrKey ∧ nr.toNat ≤ q.2.toNat ∧ q.2.toNat < nr.toNat + k
      then some (messageKey ck (q.2.toNat - nr.toNat)) else skipped[q]? := by
  induction k generalizing ck nr skipped with
  | zero =>
    rw [if_neg (by omega)]
    rfl
  | succ k ih =>
    have hnr : (nr + 1).toNat = nr.toNat + 1 := by
      rw [UInt32.toNat_add]; exact Nat.mod_eq_of_lt (by simp; omega)
    have hfill : fill dhrKey ck nr (k + 1) skipped =
        fill dhrKey (chainKey ck 1) (nr + 1) k
          (skipped.insert (dhrKey, nr) (messageKey ck 0)) := rfl
    have hk' : (nr + 1).toNat + k < 2 ^ 32 := by omega
    rw [hfill, ih hk', hnr]
    by_cases h : q.1 = dhrKey ∧ nr.toNat + 1 ≤ q.2.toNat ∧ q.2.toNat < nr.toNat + 1 + k
    · rw [if_pos h, if_pos ⟨h.1, by omega, by omega⟩, messageKey_chainKey]
      congr 2; omega
    rw [if_neg h, Std.ExtTreeMap.getElem?_insert]
    by_cases hq : q = (dhrKey, nr)
    · subst hq
      simp
    · have hne : ¬ compare (dhrKey, nr) q = .eq := by
        simpa [Std.LawfulEqCmp.compare_eq_iff_eq] using fun h => hq h.symm
      rw [if_neg hne, if_neg]
      rintro ⟨h1, h2, h3⟩
      have hn : q.2.toNat = nr.toNat := by
        by_contra hne
        exact h ⟨h1, by omega, by omega⟩
      exact hq (Prod.ext h1 (UInt32.toNat_inj.mp hn))

theorem toNat_ofNat_of_lt {n : Nat} (h : n < 2 ^ 32) : (UInt32.ofNat n).toNat = n := by
  rw [UInt32.toNat_ofNat']; exact Nat.mod_eq_of_lt h

/-- `getElem?_fill` for the message keys `r .. n - 1` of the chain `ck`. -/
theorem getElem?_fill_chain {dhrKey : Bytes} {ck : P.Block} {r n : Nat} {skipped : Skipped P}
    (hr : r ≤ n) (hn : n < 2 ^ 32) (q : SkippedKey) :
    (fill dhrKey (chainKey ck r) (.ofNat r) (n - r) skipped)[q]? =
      if q.1 = dhrKey ∧ r ≤ q.2.toNat ∧ q.2.toNat < n
      then some (messageKey ck q.2.toNat) else skipped[q]? := by
  have hr' := toNat_ofNat_of_lt (Nat.lt_of_le_of_lt hr hn)
  rw [getElem?_fill (by omega), hr', messageKey_chainKey, Nat.add_sub_of_le hr]
  by_cases hq : r ≤ q.2.toNat
  · rw [Nat.add_sub_of_le hq]
  · simp [hq]

theorem skipMessageKeys_of_le {s : RatchetState P} {n : UInt32} (h : n ≤ s.nr) :
    skipMessageKeys s n = (s, .ok ()) := by
  simp [skipMessageKeys, h]

theorem skipMessageKeys_of_limit {s : RatchetState P} {n : UInt32}
    (h : s.nr.toNat + 1000 < n.toNat) :
    skipMessageKeys s n = (s, .error (.error .skipLimitExceeded)) := by
  have h1 : ¬ n ≤ s.nr := by rw [UInt32.le_iff_toNat_le]; omega
  simp [skipMessageKeys, h1, saturatingAdd_lt_iff, h]

theorem skipMessageKeys_of_no_chain {s : RatchetState P} {n : UInt32} (hckr : s.ckr = none)
    (h : n.toNat ≤ s.nr.toNat + 1000) : skipMessageKeys s n = (s, .ok ()) := by
  unfold skipMessageKeys
  split
  · rfl
  · rw [if_neg (by rw [saturatingAdd_lt_iff]; omega), hckr]

theorem skipMessageKeys_of_chain {s : RatchetState P} {n : UInt32} {ck : P.Block}
    {d : KeyAgreementPublicKey} (hckr : s.ckr = some ck) (hdhr : s.dhr = some d)
    (h : n.toNat ≤ s.nr.toNat + 1000) :
    skipMessageKeys s n =
      ({ s with ckr := some (chainKey ck (n.toNat - s.nr.toNat)),
                nr := s.nr + .ofNat (n.toNat - s.nr.toNat),
                mkskipped := fill d.bytes.toList ck s.nr (n.toNat - s.nr.toNat) s.mkskipped },
        .ok ()) := by
  by_cases hle : n ≤ s.nr
  · have h0 : n.toNat - s.nr.toNat = 0 := by rw [UInt32.le_iff_toNat_le] at hle; omega
    rw [skipMessageKeys_of_le hle, h0, chainKey, ← hckr, fill_zero]
    simp
  · unfold skipMessageKeys
    rw [if_neg hle, if_neg (by rw [saturatingAdd_lt_iff]; omega), hckr, hdhr]
    simp [skipLoop_eq]

/-- Skipping touches only the receiving chain and the cache. -/
theorem skipMessageKeys_frame (s : RatchetState P) (n : UInt32) :
    (skipMessageKeys s n).1.dhs = s.dhs ∧ (skipMessageKeys s n).1.dhr = s.dhr ∧
      (skipMessageKeys s n).1.rk = s.rk := by
  unfold skipMessageKeys
  split
  · exact ⟨rfl, rfl, rfl⟩
  split
  · exact ⟨rfl, rfl, rfl⟩
  split
  · exact ⟨rfl, rfl, rfl⟩
  split <;> exact ⟨rfl, rfl, rfl⟩

/-- Skipping leaves the sending chain alone. -/
theorem skipMessageKeys_sends (s : RatchetState P) (n : UInt32) :
    (skipMessageKeys s n).1.cks = s.cks ∧ (skipMessageKeys s n).1.ns = s.ns := by
  unfold skipMessageKeys
  split
  · exact ⟨rfl, rfl⟩
  split
  · exact ⟨rfl, rfl⟩
  split
  · exact ⟨rfl, rfl⟩
  split <;> exact ⟨rfl, rfl⟩

@[simp] theorem skipMessageKeys_cks (s : RatchetState P) (n : UInt32) :
    (skipMessageKeys s n).1.cks = s.cks := (skipMessageKeys_sends s n).1

theorem exists_skipMessageKeys {s : RatchetState P} {n : UInt32}
    (hchain : s.ckr ≠ none → s.dhr ≠ none) (h : n.toNat ≤ s.nr.toNat + 1000) :
    ∃ s', skipMessageKeys s n = (s', .ok ()) := by
  cases hckr : s.ckr with
  | none => exact ⟨s, skipMessageKeys_of_no_chain hckr h⟩
  | some ck =>
    obtain ⟨d, hd⟩ := Option.ne_none_iff_exists'.mp (hchain (by simp [hckr]))
    exact ⟨_, skipMessageKeys_of_chain hckr hd h⟩

/-! ## The ratchet step -/

/-- The state that `dh_ratchet` leaves behind. -/
def ratcheted (s : RatchetState P) (dhrNew : KeyAgreementPublicKey) (fresh : P.Secret) :
    RatchetState P where
  dhs := fresh
  dhr := some dhrNew
  rk := rkStep (rkStep s.rk (P.diffieHellman s.dhs dhrNew)) (P.diffieHellman fresh dhrNew)
  cks := some (ckSeed (rkStep s.rk (P.diffieHellman s.dhs dhrNew)) (P.diffieHellman fresh dhrNew))
  ckr := some (ckSeed s.rk (P.diffieHellman s.dhs dhrNew))
  ns := 0
  nr := 0
  pn := s.ns
  mkskipped := s.mkskipped

theorem dhRatchet_eq (s : RatchetState P) (d : KeyAgreementPublicKey) (fresh : P.Secret) :
    dhRatchet s d fresh = (ratcheted s d fresh, .ok ()) := by
  simp [dhRatchet, ratcheted]

/-! ## `decrypt` up to the authentication -/

theorem remoteKeyChanged_eq_false_iff {s : RatchetState P} {header : MessageHeader} :
    remoteKeyChanged s header = false ↔ s.dhr = some header.dh := by
  unfold remoteKeyChanged
  cases s.dhr <;> simp

theorem remoteKeyChanged_eq_true_iff {s : RatchetState P} {header : MessageHeader} :
    remoteKeyChanged s header = true ↔ s.dhr ≠ some header.dh := by
  rw [← Bool.not_eq_false, remoteKeyChanged_eq_false_iff]

/-- One step of the receiving chain. -/
def stepChain (s : RatchetState P) : RatchetState P × Except Fault P.Block :=
  match s.ckr with
  | none => (s, .error (.error .invalidKey))
  | some ckr =>
    ({ s with ckr := some (kdfCk P ckr).1, nr := s.nr + 1 }, .ok (kdfCk P ckr).2)

/-- The receiving chain moved to message number `n` and past it. -/
def advanceTo (s : RatchetState P) (n : UInt32) : RatchetState P × Except Fault P.Block :=
  match skipMessageKeys s n with
  | (s, .error e) => (s, .error e)
  | (s, .ok ()) => stepChain s

/-- The state that `decrypt` leaves behind and the message key it tries. -/
def advance (s : RatchetState P) (header : MessageHeader) (fresh : P.Secret) :
    RatchetState P × Except Fault P.Block :=
  let cacheKey := (header.dh.bytes.toList, header.n)
  match s.mkskipped[cacheKey]? with
  | some mk => ({ s with mkskipped := s.mkskipped.erase cacheKey }, .ok mk)
  | none =>
    match ratchetIfChanged s header fresh with
    | (s, .error e) => (s, .error e)
    | (s, .ok ()) => advanceTo s header.n

theorem decrypt_eq (s : RatchetState P) (header : MessageHeader) (c : P.Cipher) (aad : Bytes)
    (fresh : P.Secret) : decrypt s header c aad fresh =
      ((advance s header fresh).1,
        (advance s header fresh).2.bind fun mk => decryptWithMk mk header c aad) := by
  unfold decrypt advance
  dsimp only
  cases s.mkskipped[(header.dh.bytes.toList, header.n)]? with
  | some mk => rfl
  | none =>
    rcases ratchetIfChanged s header fresh with ⟨s1, _ | _⟩
    · rfl
    dsimp only [advanceTo]
    rcases skipMessageKeys s1 header.n with ⟨s2, _ | _⟩
    · rfl
    dsimp only [stepChain]
    cases s2.ckr <;> rfl

theorem decrypt_ok_iff {s : RatchetState P} {header : MessageHeader} {c : P.Cipher} {aad : Bytes}
    {fresh : P.Secret} {p : Bytes} : (decrypt s header c aad fresh).2 = .ok p ↔
      ∃ mk, (advance s header fresh).2 = .ok mk ∧ decryptWithMk mk header c aad = .ok p := by
  rw [decrypt_eq]
  cases (advance s header fresh).2 <;> simp [Except.bind]

theorem advance_cached {s : RatchetState P} {header : MessageHeader} {mk : P.Block}
    (h : s.mkskipped[(header.dh.bytes.toList, header.n)]? = some mk) (fresh : P.Secret) :
    advance s header fresh =
      ({ s with mkskipped := s.mkskipped.erase (header.dh.bytes.toList, header.n) }, .ok mk) := by
  simp [advance, h]

theorem advance_same {s : RatchetState P} {header : MessageHeader}
    (h : s.mkskipped[(header.dh.bytes.toList, header.n)]? = none)
    (hdhr : s.dhr = some header.dh) (fresh : P.Secret) :
    advance s header fresh = advanceTo s header.n := by
  simp [advance, h, ratchetIfChanged, remoteKeyChanged, hdhr]

theorem advance_changed {s : RatchetState P} {header : MessageHeader}
    (h : s.mkskipped[(header.dh.bytes.toList, header.n)]? = none)
    (hdhr : s.dhr ≠ some header.dh) (fresh : P.Secret) :
    advance s header fresh =
      match skipMessageKeys s header.pn with
      | (s, .error e) => (s, .error e)
      | (s, .ok ()) => advanceTo (ratcheted s header.dh fresh) header.n := by
  have hc : remoteKeyChanged s header = true := remoteKeyChanged_eq_true_iff.mpr hdhr
  simp only [advance, h, ratchetIfChanged, hc, if_true]
  rcases skipMessageKeys s header.pn with ⟨s1, _ | _⟩ <;> simp [dhRatchet_eq]

theorem advanceTo_of_limit {s : RatchetState P} {n : UInt32}
    (h : s.nr.toNat + 1000 < n.toNat) :
    advanceTo s n = (s, .error (.error .skipLimitExceeded)) := by
  simp [advanceTo, skipMessageKeys_of_limit h]

theorem advanceTo_of_no_chain {s : RatchetState P} {n : UInt32} (hckr : s.ckr = none)
    (h : n.toNat ≤ s.nr.toNat + 1000) : advanceTo s n = (s, .error (.error .invalidKey)) := by
  simp [advanceTo, skipMessageKeys_of_no_chain hckr h, stepChain, hckr]

/-- The message key of number `n`, or of the next number when `n` is already behind. -/
theorem advanceTo_of_chain {s : RatchetState P} {n : UInt32} {ck : P.Block}
    {d : KeyAgreementPublicKey} (hckr : s.ckr = some ck) (hdhr : s.dhr = some d)
    (h : n.toNat ≤ s.nr.toNat + 1000) :
    advanceTo s n =
      ({ s with ckr := some (chainKey ck (n.toNat - s.nr.toNat + 1)),
                nr := s.nr + .ofNat (n.toNat - s.nr.toNat) + 1,
                mkskipped := fill d.bytes.toList ck s.nr (n.toNat - s.nr.toNat) s.mkskipped },
        .ok (messageKey ck (n.toNat - s.nr.toNat))) := by
  simp only [advanceTo, skipMessageKeys_of_chain hckr hdhr h, stepChain]
  rfl

/-- The first chain after a ratchet step serves numbers up to `MAX_SKIP`. -/
theorem advanceTo_ratcheted {s : RatchetState P} {d : KeyAgreementPublicKey} {fresh : P.Secret}
    {n : UInt32} (h : n.toNat ≤ 1000) : (advanceTo (ratcheted s d fresh) n).2 =
      .ok (messageKey (ckSeed s.rk (P.diffieHellman s.dhs d)) n.toNat) := by
  have hnr : (ratcheted s d fresh).nr.toNat = 0 := rfl
  rw [advanceTo_of_chain rfl rfl (by omega), hnr, Nat.sub_zero]

theorem advanceTo_ratcheted_of_limit {s : RatchetState P} {d : KeyAgreementPublicKey}
    {fresh : P.Secret} {n : UInt32} (h : 1000 < n.toNat) :
    advanceTo (ratcheted s d fresh) n =
      (ratcheted s d fresh, .error (.error .skipLimitExceeded)) := by
  have hnr : (ratcheted s d fresh).nr.toNat = 0 := rfl
  exact advanceTo_of_limit (by omega)

theorem advanceTo_sends (s : RatchetState P) (n : UInt32) :
    (advanceTo s n).1.dhs = s.dhs ∧ (advanceTo s n).1.cks = s.cks ∧ (advanceTo s n).1.ns = s.ns := by
  have hdhs := (skipMessageKeys_frame s n).1
  obtain ⟨hcks, hns⟩ := skipMessageKeys_sends s n
  unfold advanceTo
  rcases hskip : skipMessageKeys s n with ⟨s', _ | _⟩ <;> rw [hskip] at hdhs hcks hns
  · exact ⟨hdhs, hcks, hns⟩
  · dsimp only [stepChain]
    split <;> exact ⟨hdhs, hcks, hns⟩

/-- `decrypt` keeps the sending chain, or starts a new one with the generated key pair. -/
theorem advance_sends (s : RatchetState P) (header : MessageHeader) (fresh : P.Secret) :
    ((advance s header fresh).1.dhs = s.dhs ∧ (advance s header fresh).1.cks = s.cks ∧
        (advance s header fresh).1.ns = s.ns) ∨
      ∃ rk, (advance s header fresh).1.dhs = fresh ∧
        (advance s header fresh).1.cks = some (ckSeed rk (P.diffieHellman fresh header.dh)) ∧
        (advance s header fresh).1.ns = 0 := by
  cases hmiss : s.mkskipped[(header.dh.bytes.toList, header.n)]? with
  | some mk =>
    rw [advance_cached hmiss]
    exact .inl ⟨rfl, rfl, rfl⟩
  | none =>
    by_cases hdhr : s.dhr = some header.dh
    · rw [advance_same hmiss hdhr]
      exact .inl (advanceTo_sends s header.n)
    · rw [advance_changed hmiss hdhr]
      have hdhs := (skipMessageKeys_frame s header.pn).1
      obtain ⟨hcks, hns⟩ := skipMessageKeys_sends s header.pn
      rcases hskip : skipMessageKeys s header.pn with ⟨s', _ | _⟩ <;> rw [hskip] at hdhs hcks hns
      · exact .inl ⟨hdhs, hcks, hns⟩
      · exact .inr ⟨_, advanceTo_sends (ratcheted s' header.dh fresh) header.n⟩

/-- The key that a new receiver tries does not depend on the key pair it generates. -/
theorem advance_initReceiver (sk : P.Block) (b fresh fresh' : P.Secret) (header : MessageHeader) :
    (advance (initReceiver P sk b) header fresh).2 =
      (advance (initReceiver P sk b) header fresh').2 := by
  rw [advance_changed (by simp [initReceiver]) (by simp [initReceiver]),
    advance_changed (by simp [initReceiver]) (by simp [initReceiver])]
  by_cases hpn : (initReceiver P sk b).nr.toNat + 1000 < header.pn.toNat
  · rw [skipMessageKeys_of_limit hpn]
  rw [skipMessageKeys_of_no_chain rfl (Nat.not_lt.mp hpn)]
  dsimp only
  by_cases hn : header.n.toNat ≤ 1000
  · rw [advanceTo_ratcheted hn, advanceTo_ratcheted hn]
  · rw [advanceTo_ratcheted_of_limit (Nat.not_le.mp hn),
      advanceTo_ratcheted_of_limit (Nat.not_le.mp hn)]

end Vesper.DoubleRatchet
