import Vesper.Ratchet.Session

/-!
# Epochs of a matched session

The ratchet keys of the two parties of a session form one sequence `x 0, x 1, ...`: `x 0` is the
receiver's signed prekey and every later key is generated, by the parties in turn, when the first
message under the key before it arrives. The owner of `x e` sends chain `e`, whose seed is
`chainSeed sk (dhOuts x e)` on both sides. `Synced` says what a state holds at its epoch; the
lemmas say what `encrypt` and `advance` do to it.
-/

namespace Vesper.DoubleRatchet
variable {P : Primitives} {sk : P.Block}

/-- The Diffie-Hellman outputs of the first `e` epochs, the latest first. -/
def dhOuts (x : Nat → P.Secret) : Nat → List P.Block
  | 0 => []
  | e + 1 => P.diffieHellman (x (e + 1)) (P.publicKey (x e)) :: dhOuts x e

/-- The seed of chain `e`. -/
def seed (sk : P.Block) (x : Nat → P.Secret) (e : Nat) : P.Block := chainSeed sk (dhOuts x e)

theorem dhOuts_congr {x y : Nat → P.Secret} {e : Nat} (h : ∀ i ≤ e, x i = y i) :
    dhOuts x e = dhOuts y e := by
  induction e with
  | zero => rfl
  | succ e ih =>
    rw [dhOuts, dhOuts, ih fun i hi => h i (by omega), h _ (Nat.le_refl _), h e (by omega)]

theorem seed_congr {x y : Nat → P.Secret} {e : Nat} (h : ∀ i ≤ e, x i = y i) :
    seed sk x e = seed sk y e := by rw [seed, seed, dhOuts_congr h]

/-- A state at epoch `e`: it sends chain `e`, of which `cnt e` messages are out, and receives
chain `e - 1`, of which the keys below `r` are drawn. -/
structure Synced (sk : P.Block) (x : Nat → P.Secret) (cnt : Nat → Nat) (e r : Nat)
    (s : RatchetState P) : Prop where
  dhs : s.dhs = x e
  dhr : s.dhr = if e = 0 then none else some (P.publicKey (x (e - 1)))
  rk : s.rk = rootKey sk (dhOuts x e)
  cks : s.cks = if e = 0 then none else some (chainKey (seed sk x e) (cnt e))
  ckr : s.ckr = if e ≤ 1 then none else some (chainKey (seed sk x (e - 1)) r)
  ns : s.ns = .ofNat (cnt e)
  nr : s.nr = .ofNat r
  pn : s.pn = .ofNat (cnt (e - 2))

/-- Message `n` of chain `e`, as `encrypt` released it. -/
structure IsPacket (sk : P.Block) (x : Nat → P.Secret) (cnt : Nat → Nat) (e n : Nat)
    (m : Packet P × Bytes) : Prop where
  dh : m.1.header.dh = P.publicKey (x e)
  pn : m.1.header.pn = .ofNat (cnt (e - 2))
  num : m.1.header.n = .ofNat n
  sealed : aeadEncrypt P (messageKey (seed sk x e) n) (messageNonce m.1.header.n) m.2
    (buildAad m.1.header m.1.aad) = .ok m.1.ciphertext

variable {x y : Nat → P.Secret} {cnt cnt' : Nat → Nat} {e r n : Nat} {s : RatchetState P}
  {header : MessageHeader} {m : Packet P × Bytes} {fresh : P.Secret}

theorem Synced.congr (h : Synced sk x cnt e r s) (hx : ∀ i ≤ e, x i = y i)
    (hcnt : cnt e = cnt' e) (hcnt2 : cnt (e - 2) = cnt' (e - 2)) : Synced sk y cnt' e r s := by
  have hdh := dhOuts_congr hx
  have hs : seed sk x e = seed sk y e := seed_congr hx
  have hs' : seed sk x (e - 1) = seed sk y (e - 1) := seed_congr fun i hi => hx i (by omega)
  constructor
  · rw [h.dhs, hx e (Nat.le_refl _)]
  · rw [h.dhr, hx (e - 1) (by omega)]
  · rw [h.rk, hdh]
  · rw [h.cks, hs, hcnt]
  · rw [h.ckr, hs']
  · rw [h.ns, hcnt]
  · exact h.nr
  · rw [h.pn, hcnt2]

theorem IsPacket.congr (h : IsPacket sk x cnt e n m)
    (hx : ∀ i ≤ e, x i = y i) (hcnt : cnt (e - 2) = cnt' (e - 2)) :
    IsPacket sk y cnt' e n m := by
  refine ⟨?_, ?_, h.num, ?_⟩
  · rw [h.dh, hx e (Nat.le_refl _)]
  · rw [h.pn, hcnt]
  · rw [← seed_congr hx]
    exact h.sealed

theorem IsPacket.opens (haead : AeadInverts P) (h : IsPacket sk x cnt e n m) :
    decryptWithMk (messageKey (seed sk x e) n) m.1.header m.1.ciphertext m.1.aad = .ok m.2 :=
  haead _ _ _ _ _ h.sealed

/-- The state of a successful `init_sender` is at epoch 1. -/
theorem Synced.of_initSender {alice : RatchetState P}
    (h : initSender P sk (P.publicKey (x 0)) (x 1) = .ok alice) (hcnt : ∀ i, cnt i = 0) :
    Synced sk x cnt 1 0 alice ∧ alice.mkskipped = ∅ := by
  rw [initSender_eq] at h
  cases h
  exact ⟨by constructor <;> simp [dhOuts, rootKey, seed, chainSeed, chainKey, hcnt], rfl⟩

theorem Synced.of_initReceiver (hcnt : ∀ i, cnt i = 0) :
    Synced sk x cnt 0 0 (initReceiver P sk (x 0)) := by
  constructor <;> simp [initReceiver, dhOuts, rootKey, hcnt]

/-! ## `encrypt` -/

theorem Synced.encrypt_eq (h : Synced sk x cnt e r s) (he : e ≠ 0) (plaintext aad : Bytes) :
    encrypt s plaintext aad =
      let header := { dh := P.publicKey (x e), pn := .ofNat (cnt (e - 2)), n := .ofNat (cnt e) }
      ({ s with cks := some (chainKey (seed sk x e) (cnt e + 1)), ns := .ofNat (cnt e + 1) },
        (aeadEncrypt P (messageKey (seed sk x e) (cnt e)) (messageNonce header.n) plaintext
          (buildAad header aad)).map fun c => (header, c)) := by
  have hcks := h.cks
  rw [if_neg he] at hcks
  simp only [encrypt, hcks, h.dhs, h.pn, h.ns, UInt32.ofNat_add]
  rfl

/-- Nothing is released at epoch 0. -/
theorem Synced.ne_zero (h : Synced sk x cnt e r s) {plaintext aad : Bytes}
    {a : MessageHeader × P.Cipher} (henc : (encrypt s plaintext aad).2 = .ok a) : e ≠ 0 := by
  rintro rfl
  have hcks := h.cks
  simp only [if_true] at hcks
  simp [DoubleRatchet.encrypt, hcks] at henc

/-- A released message is message `cnt e` of chain `e`, and the state is in step with one message
more. -/
theorem Synced.encrypt (h : Synced sk x cnt e r s) {s' : RatchetState P}
    {plaintext aad : Bytes} {c : P.Cipher}
    (henc : encrypt s plaintext aad = (s', .ok (header, c)))
    (hcnt : ∀ i, i ≠ e → cnt' i = cnt i) (hcnt' : cnt' e = cnt e + 1) :
    IsPacket sk x cnt e (cnt e) (⟨header, c, aad⟩, plaintext) ∧ Synced sk x cnt' e r s' ∧
      s'.mkskipped = s.mkskipped := by
  have he : e ≠ 0 := h.ne_zero (congrArg Prod.snd henc)
  rw [h.encrypt_eq he] at henc
  obtain ⟨rfl, henc⟩ := Prod.mk.inj henc
  have hpn : cnt' (e - 2) = cnt (e - 2) := hcnt _ (by omega)
  refine ⟨?_, ⟨h.dhs, h.dhr, h.rk, ?_, h.ckr, ?_, h.nr, by rw [hpn]; exact h.pn⟩, rfl⟩
  · dsimp only at henc
    cases haead : aeadEncrypt P (messageKey (seed sk x e) (cnt e)) (messageNonce (.ofNat (cnt e)))
        plaintext (buildAad ⟨P.publicKey (x e), .ofNat (cnt (e - 2)), .ofNat (cnt e)⟩ aad) with
    | error => simp [haead, Except.map] at henc
    | ok q =>
      simp only [haead, Except.map, Except.ok.injEq, Prod.mk.injEq] at henc
      obtain ⟨-, rfl, rfl⟩ := henc
      exact ⟨rfl, rfl, rfl, haead⟩
  · rw [if_neg he, hcnt']
  · rw [hcnt']

/-! ## `advance` -/

/-- Message `n` of the chain being received, when its key is not drawn yet. The counters may only
have wrapped when no message in between is missing. -/
theorem Synced.advance_same (h : Synced sk x cnt e r s) (fresh : P.Secret) (he : 2 ≤ e)
    (hmiss : s.mkskipped[(header.dh.bytes.toList, header.n)]? = none)
    (hdh : header.dh = P.publicKey (x (e - 1))) (hn : header.n = .ofNat n)
    (hr : r = n ∨ r ≤ n ∧ n < 2 ^ 32) (hskip : header.n.toNat ≤ s.nr.toNat + 1000) :
    ∃ s', advance s header fresh = (s', .ok (messageKey (seed sk x (e - 1)) n)) ∧
      Synced sk x cnt e (n + 1) s' ∧
      s'.mkskipped = fill header.dh.bytes.toList (chainKey (seed sk x (e - 1)) r) (.ofNat r)
        (n - r) s.mkskipped := by
  have hdhr : s.dhr = some header.dh := by rw [h.dhr, if_neg (by omega), hdh]
  have hckr := h.ckr
  rw [if_neg (by omega)] at hckr
  have hk : header.n.toNat - s.nr.toNat = n - r := by
    rw [hn, h.nr]
    rcases hr with rfl | ⟨hr, hlt⟩
    · omega
    · rw [toNat_ofNat_of_lt hlt, toNat_ofNat_of_lt (by omega)]
  have hle : r + (n - r) = n := by omega
  rw [DoubleRatchet.advance_same hmiss hdhr, advanceTo_of_chain hckr hdhr hskip, hk,
    messageKey_chainKey, chainKey_chainKey, ← Nat.add_assoc, hle, h.nr, ← UInt32.ofNat_add, hle]
  refine ⟨_, rfl, ⟨h.dhs, h.dhr, h.rk, h.cks, ?_, h.ns, ?_, h.pn⟩, rfl⟩
  · rw [if_neg (by omega)]
  · rw [UInt32.ofNat_add]; rfl

/-- The state after the rest of the receiving chain is buffered and the ratchet has taken up
`x (e + 1)`: it is at epoch `e + 2`. -/
theorem Synced.ratcheted (h : Synced sk x cnt e r s) (hdh : DhCommutes P)
    (hxy : ∀ i ≤ e + 1, x i = y i) (hfresh : y (e + 2) = fresh) (hcnt : cnt (e + 2) = 0) :
    Synced sk y cnt (e + 2) 0 (DoubleRatchet.ratcheted s (P.publicKey (x (e + 1))) fresh) := by
  have hd : P.diffieHellman s.dhs (P.publicKey (y (e + 1))) =
      P.diffieHellman (y (e + 1)) (P.publicKey (y e)) := by
    rw [h.dhs, hxy e (by omega), hdh]
  have hy : dhOuts x e = dhOuts y e := dhOuts_congr fun i hi => hxy i (by omega)
  rw [hxy (e + 1) (Nat.le_refl _)]
  constructor
  · exact hfresh.symm
  · rw [if_neg (by omega)]
    simp [DoubleRatchet.ratcheted]
  · simp [DoubleRatchet.ratcheted, hd, h.rk, hy, dhOuts, rootKey, hfresh]
  · rw [if_neg (by omega), hcnt]
    simp [DoubleRatchet.ratcheted, hd, h.rk, hy, dhOuts, rootKey, chainKey, seed, chainSeed,
      hfresh]
  · rw [if_neg (by omega)]
    simp [DoubleRatchet.ratcheted, hd, h.rk, hy, dhOuts, chainKey, seed, chainSeed]
  · simp [DoubleRatchet.ratcheted, hcnt]
  · simp [DoubleRatchet.ratcheted]
  · simp [DoubleRatchet.ratcheted, h.ns]

/-- The cache once the receiving chain is buffered up to `m`. -/
def closed (s : RatchetState P) (m : UInt32) : Skipped P :=
  match s.ckr, s.dhr with
  | some ck, some d => fill d.bytes.toList ck s.nr (m.toNat - s.nr.toNat) s.mkskipped
  | _, _ => s.mkskipped

theorem Synced.skipMessageKeys (h : Synced sk x cnt e r s) {m : UInt32}
    (hskip : m.toNat ≤ s.nr.toNat + 1000) :
    ∃ s', skipMessageKeys s m = (s', .ok ()) ∧ s'.mkskipped = closed s m ∧
      s'.rk = s.rk ∧ s'.dhs = s.dhs ∧ s'.ns = s.ns := by
  by_cases he : e ≤ 1
  · have hckr : s.ckr = none := by rw [h.ckr, if_pos he]
    exact ⟨s, skipMessageKeys_of_no_chain hckr hskip, by rw [closed, hckr], rfl, rfl, rfl⟩
  · have hckr := h.ckr
    have hdhr := h.dhr
    rw [if_neg he] at hckr
    rw [if_neg (by omega)] at hdhr
    exact ⟨_, skipMessageKeys_of_chain hckr hdhr hskip, by simp only [closed, hckr, hdhr], rfl,
      rfl, rfl⟩

theorem Synced.getElem?_closed (h : Synced sk x cnt e r s) (hr : r ≤ n) (hn : n < 2 ^ 32)
    (q : SkippedKey) : (closed s (.ofNat n))[q]? =
      if 2 ≤ e ∧ q.1 = (P.publicKey (x (e - 1))).bytes.toList ∧ r ≤ q.2.toNat ∧ q.2.toNat < n
      then some (messageKey (seed sk x (e - 1)) q.2.toNat) else s.mkskipped[q]? := by
  have hckr := h.ckr
  have hdhr := h.dhr
  by_cases he : e ≤ 1
  · rw [if_pos he] at hckr
    rw [if_neg (by omega), closed, hckr]
  · rw [if_neg he] at hckr
    rw [if_neg (by omega)] at hdhr
    simp only [closed, hckr, hdhr, h.nr, toNat_ofNat_of_lt hn,
      toNat_ofNat_of_lt (Nat.lt_of_le_of_lt hr hn), getElem?_fill_chain hr hn,
      show 2 ≤ e by omega, true_and]

/-- Message `n` of the chain after the one being received: the ratchet takes a step. -/
theorem Synced.advance_next (h : Synced sk x cnt e r s) (hdh : DhCommutes P)
    (hmiss : s.mkskipped[(header.dh.bytes.toList, header.n)]? = none)
    (hhdr : header.dh = P.publicKey (x (e + 1))) (hnew : s.dhr ≠ some header.dh)
    (hn : header.n = .ofNat n) (hlt : n ≤ 1000)
    (hskip : header.pn.toNat ≤ s.nr.toNat + 1000)
    (hxy : ∀ i ≤ e + 1, x i = y i) (hfresh : y (e + 2) = fresh) (hcnt : cnt (e + 2) = 0) :
    ∃ s', advance s header fresh = (s', .ok (messageKey (seed sk x (e + 1)) n)) ∧
      Synced sk y cnt (e + 2) (n + 1) s' ∧
      s'.mkskipped = fill header.dh.bytes.toList (seed sk x (e + 1)) 0 n (closed s header.pn) := by
  obtain ⟨s1, hs1, hmk, hrk, hdhs, hns⟩ := h.skipMessageKeys hskip
  have hseed : seed sk y (e + 1) = seed sk x (e + 1) := (seed_congr hxy).symm
  -- only the root key, the key pair and the send counter enter the ratchet step
  have hrat : Synced sk y cnt (e + 2) 0
      (DoubleRatchet.ratcheted s1 (P.publicKey (x (e + 1))) fresh) := by
    have hs := h.ratcheted hdh hxy hfresh hcnt
    simp only [DoubleRatchet.ratcheted, hrk, hdhs, hns] at hs ⊢
    exact ⟨hs.1, hs.2, hs.3, hs.4, hs.5, hs.6, hs.7, hs.8⟩
  have hckr := hrat.ckr
  rw [if_neg (by omega), show e + 2 - 1 = e + 1 from rfl, hseed, chainKey] at hckr
  have hdhr := hrat.dhr
  rw [if_neg (by omega), show e + 2 - 1 = e + 1 from rfl, ← hxy _ (Nat.le_refl _)] at hdhr
  have hn' : header.n.toNat = n := by rw [hn]; exact toNat_ofNat_of_lt (by omega)
  have hnr : (DoubleRatchet.ratcheted s1 (P.publicKey (x (e + 1))) fresh).nr = 0 := rfl
  rw [advance_changed hmiss hnew, hs1]
  dsimp only
  rw [hhdr, advanceTo_of_chain hckr hdhr (by rw [hn', hnr]; simp; omega), hn', hnr]
  refine ⟨_, rfl, ⟨hrat.dhs, hrat.dhr, hrat.rk, hrat.cks, ?_, hrat.ns, ?_, hrat.pn⟩, ?_⟩
  · rw [if_neg (by omega), show e + 2 - 1 = e + 1 from rfl, hseed]
    rfl
  · rw [UInt32.ofNat_add]
    simp
  · rw [← hmk]
    rfl

end Vesper.DoubleRatchet
