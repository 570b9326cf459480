import Vesper.Lib.OneTimeKeys
import Vesper.Ratchet.KeySchedule
import Vesper.Crypto.Symbolic

/-!
# Every receiving key is used once

What `decrypt` does to the keys of a state when nothing is assumed of the headers: forged ratchet
keys, forged counters, replays. `Lineage` places the state in the tree of roots that grows from the
shared secret, and `KeyRing` says that the keys in the cache, those already tried and those still to
be drawn are pairwise different.
-/

namespace Vesper.DoubleRatchet

/-! ## Lineage -/

section
variable {P : Primitives} {sk : P.Block} {ds : List P.Block} {i r : Nat} {s : RatchetState P}

/-- A state whose root key comes from the Diffie-Hellman outputs `ds`: it sends message `i` of the
latest chain next and receives message `r` of the chain before it. -/
structure Lineage (sk : P.Block) (ds : List P.Block) (i r : Nat) (s : RatchetState P) : Prop where
  dhr : ds.tail ≠ [] → s.dhr ≠ none
  rk : s.rk = rootKey sk ds
  cks : s.cks = if ds = [] then none else some (chainKey (chainSeed sk ds) i)
  ckr : s.ckr = if ds.tail = [] then none else some (chainKey (chainSeed sk ds.tail) r)

theorem Lineage.of_initSender {a0 : P.Secret} {b0 : KeyAgreementPublicKey}
    (h : initSender P sk b0 a0 = .ok s) :
    Lineage sk [P.diffieHellman a0 b0] 0 0 s ∧ s.mkskipped = ∅ := by
  simp only [initSender, kdfRk_eq, bind, Except.bind, pure, Except.pure] at h
  cases h
  exact ⟨by constructor <;> simp [rootKey, chainSeed, chainKey], rfl⟩

theorem Lineage.of_initReceiver (b0 : P.Secret) : Lineage sk [] 0 0 (initReceiver P sk b0) := by
  constructor <;> simp [initReceiver, rootKey]

/-- `encrypt` takes at most one step of the sending chain. -/
theorem Lineage.encrypt (h : Lineage sk ds i r s) (plaintext aad : Bytes) :
    ∃ i', Lineage sk ds i' r (encrypt s plaintext aad).1 ∧
      (DoubleRatchet.encrypt s plaintext aad).1.mkskipped = s.mkskipped := by
  have hcks := h.cks
  split at hcks
  · next hds => exact ⟨i, by simpa [DoubleRatchet.encrypt, hcks] using h, by
      simp [DoubleRatchet.encrypt, hcks]⟩
  · next hds =>
    simp only [DoubleRatchet.encrypt, hcks]
    exact ⟨i + 1, ⟨h.dhr, h.rk, by rw [if_neg hds]; rfl, h.ckr⟩, trivial⟩

/-- What is released is sealed with a key of the latest chain. -/
theorem Lineage.sealed (h : Lineage sk ds i r s) {plaintext aad : Bytes} {header : MessageHeader}
    {c : P.Cipher} (henc : (DoubleRatchet.encrypt s plaintext aad).2 = .ok (header, c)) :
    ds ≠ [] ∧ aeadEncrypt P (messageKey (chainSeed sk ds) i) (messageNonce header.n) plaintext
      (buildAad header aad) = .ok c := by
  have hcks := h.cks
  split at hcks
  · simp [DoubleRatchet.encrypt, hcks] at henc
  · next hds =>
    refine ⟨hds, ?_⟩
    simp only [DoubleRatchet.encrypt, hcks] at henc
    cases haead : aeadEncrypt P (kdfCk P (chainKey (chainSeed sk ds) i)).2 (messageNonce s.ns)
        plaintext (buildAad ⟨P.publicKey s.dhs, s.pn, s.ns⟩ aad) with
    | error => simp [haead, Except.map] at henc
    | ok q =>
      simp only [haead, Except.map, Except.ok.injEq, Prod.mk.injEq] at henc
      obtain ⟨rfl, rfl⟩ := henc
      exact haead

theorem Lineage.ratcheted (h : Lineage sk ds i r s) (d : KeyAgreementPublicKey)
    (fresh : P.Secret) :
    Lineage sk (P.diffieHellman fresh d :: P.diffieHellman s.dhs d :: ds) 0 0
      (ratcheted s d fresh) := by
  constructor <;> simp [DoubleRatchet.ratcheted, h.rk, rootKey, chainSeed, chainKey]

end

/-! ## Keys as free terms -/

section
variable {sk : symbolic.Block} {ds es : List symbolic.Block} {i j : Nat}
open Symbolic (Term)

theorem part_rootKey : Term.Part sk (rootKey sk ds) := by
  induction ds with
  | nil => exact .refl
  | cons d ds ih => exact .expand (.salt ih)

theorem size_rootKey (sk : symbolic.Block) (ds : List symbolic.Block) :
    Term.size sk + ds.length ≤ Term.size (rootKey sk ds) := by
  induction ds with
  | nil => exact Nat.le_refl _
  | cons d ds ih =>
    have : Term.size (rootKey sk (d :: ds)) =
        Term.size (rootKey sk ds) + Term.size (.cats [d]) + 1 + 1 := rfl
    rw [List.length_cons, this]
    omega

theorem rootKey_inj (h : rootKey sk ds = rootKey sk es) : ds = es := by
  induction ds generalizing es with
  | nil =>
    cases es with
    | nil => rfl
    | cons e es =>
      have hsize := size_rootKey sk (e :: es)
      rw [← h, rootKey, List.length_cons] at hsize
      omega
  | cons d ds ih =>
    cases es with
    | nil =>
      have hsize := size_rootKey sk (d :: ds)
      rw [h, rootKey, List.length_cons] at hsize
      omega
    | cons e es =>
      obtain ⟨hprk, -, -⟩ := Term.expand.inj h
      obtain ⟨hrk, hikm⟩ := Term.extract.inj hprk
      rw [ih hrk, List.cons.inj (Term.cats_inj.mp hikm) |>.1]

theorem chainSeed_inj (hds : ds ≠ []) (hes : es ≠ []) (h : chainSeed sk ds = chainSeed sk es) :
    ds = es := by
  obtain ⟨d, ds, rfl⟩ := List.exists_cons_of_ne_nil hds
  obtain ⟨e, es, rfl⟩ := List.exists_cons_of_ne_nil hes
  obtain ⟨hprk, -, -⟩ := Term.expand.inj h
  obtain ⟨hrk, hikm⟩ := Term.extract.inj hprk
  rw [rootKey_inj hrk, List.cons.inj (Term.cats_inj.mp hikm) |>.1]

/-- A key that no step of a chain made. -/
def Root (b : symbolic.Block) : Prop := ∀ key data, b ≠ .hmac key data

theorem Root.chainKey_inj {b b' : symbolic.Block} (h : Root b) (h' : Root b')
    (heq : chainKey b i = chainKey b' j) : i = j ∧ b = b' := by
  induction i generalizing j with
  | zero =>
    cases j with
    | zero => exact ⟨rfl, heq⟩
    | succ j => exact absurd heq (h _ _)
  | succ i ih =>
    cases j with
    | zero => exact absurd heq.symm (h' _ _)
    | succ j =>
      obtain ⟨rfl, rfl⟩ := ih (Term.hmac.inj heq).1
      exact ⟨rfl, rfl⟩

/-- A message key determines the root of its chain and its number. -/
theorem Root.messageKey_inj {b b' : symbolic.Block} (h : Root b) (h' : Root b')
    (heq : messageKey b i = messageKey b' j) : i = j ∧ b = b' :=
  h.chainKey_inj h' (Term.hmac.inj heq).1

theorem root_chainSeed (hds : ds ≠ []) : Root (chainSeed sk ds) := by
  obtain ⟨d, ds, rfl⟩ := List.exists_cons_of_ne_nil hds
  exact fun _ _ => nofun

/-- A message key determines its chain and its number. -/
theorem messageKey_inj (hds : ds ≠ []) (hes : es ≠ [])
    (h : messageKey (chainSeed sk ds) i = messageKey (chainSeed sk es) j) : i = j ∧ ds = es := by
  obtain ⟨hij, hseed⟩ := (root_chainSeed hds).messageKey_inj (root_chainSeed hes) h
  exact ⟨hij, chainSeed_inj hds hes hseed⟩

/-- A shared secret that no ratchet step made. -/
def Unratcheted (sk : symbolic.Block) : Prop := ∀ prk, sk ≠ .expand prk rkInfo 0

variable {sk' : symbolic.Block}

theorem Unratcheted.rootKey (h : Unratcheted sk) (h' : Unratcheted sk')
    (heq : rootKey sk ds = DoubleRatchet.rootKey sk' es) : sk = sk' := by
  induction ds generalizing es with
  | nil =>
    cases es with
    | nil => exact heq
    | cons e es => exact absurd heq (h _)
  | cons d ds ih =>
    cases es with
    | nil => exact absurd heq.symm (h' _)
    | cons e es => exact ih (Term.extract.inj (Term.expand.inj heq).1).1

/-- A message key determines the shared secret it comes from. -/
theorem Unratcheted.messageKey (h : Unratcheted sk) (h' : Unratcheted sk') (hds : ds ≠ [])
    (hes : es ≠ []) (heq : messageKey (chainSeed sk ds) i =
      DoubleRatchet.messageKey (chainSeed sk' es) j) : sk = sk' := by
  obtain ⟨-, hseed⟩ := (root_chainSeed hds).messageKey_inj (root_chainSeed hes) heq
  obtain ⟨d, ds, rfl⟩ := List.exists_cons_of_ne_nil hds
  obtain ⟨e, es, rfl⟩ := List.exists_cons_of_ne_nil hes
  exact h.rootKey h' (Term.extract.inj (Term.expand.inj hseed).1).1

/-- The shared secret goes into every message key. -/
theorem part_messageKey (hds : ds ≠ []) : Term.Part sk (messageKey (chainSeed sk ds) i) := by
  obtain ⟨d, ds, rfl⟩ := List.exists_cons_of_ne_nil hds
  refine .hmac ?_
  induction i with
  | zero => exact .expand (.salt part_rootKey)
  | succ i ih => exact .hmac ih

end

/-! ## The key ring -/

section
variable {sk : symbolic.Block} {ds : List symbolic.Block} {i r : Nat}
  {cache : Skipped symbolic} {spent : symbolic.Block → Prop} {mk : symbolic.Block}

/-- A message key of the peer's that a state with lineage `ds` has drawn: its receiving chains are
those at every second output before the latest. -/
def Drawn (sk : symbolic.Block) (ds : List symbolic.Block) (r : Nat) (mk : symbolic.Block) :
    Prop :=
  ∃ es j, es ≠ [] ∧ (es.length + ds.length) % 2 = 1 ∧
    (es.length < ds.tail.length ∨ es = ds.tail ∧ j < r) ∧ mk = messageKey (chainSeed sk es) j

/-- The cached keys are drawn, pairwise different, and not among those already tried. -/
structure KeyRing (sk : symbolic.Block) (ds : List symbolic.Block) (r : Nat)
    (cache : Skipped symbolic) (spent : symbolic.Block → Prop) : Prop where
  cached : ∀ (q : SkippedKey) mk, cache[q]? = some mk → Drawn sk ds r mk
  spent : ∀ mk, spent mk → Drawn sk ds r mk ∧ ∀ q : SkippedKey, cache[q]? ≠ some mk
  distinct : ∀ (q q' : SkippedKey) mk, cache[q]? = some mk → cache[q']? = some mk → q = q'

theorem KeyRing.iff : KeyRing sk ds r cache spent ↔ OneTime.Ring (Drawn sk ds r) cache spent :=
  ⟨fun h => ⟨h.cached, h.spent, h.distinct⟩, fun h => ⟨h.cached, h.tried, h.distinct⟩⟩

theorem KeyRing.empty (h : ∀ mk, ¬ spent mk) : KeyRing sk ds r ∅ spent :=
  KeyRing.iff.mpr (.empty h)

theorem Drawn.mono (h : Drawn sk ds r mk) {r' : Nat} (hr : r ≤ r') : Drawn sk ds r' mk := by
  obtain ⟨es, j, hes, hpar, hlt, rfl⟩ := h
  exact ⟨es, j, hes, hpar, hlt.imp_right fun h => ⟨h.1, by omega⟩, rfl⟩

/-- The next key of the receiving chain is not drawn. -/
theorem not_drawn (hds : ds.tail ≠ []) : ¬ Drawn sk ds r (messageKey (chainSeed sk ds.tail) r) := by
  rintro ⟨es, j, hes, -, hlt, heq⟩
  obtain ⟨rfl, rfl⟩ := messageKey_inj hds hes heq
  omega

theorem drawn_next (hds : ds.tail ≠ []) :
    Drawn sk ds (r + 1) (messageKey (chainSeed sk ds.tail) r) := by
  refine ⟨ds.tail, r, hds, ?_, .inr ⟨rfl, Nat.lt_succ_self r⟩, rfl⟩
  cases ds with
  | nil => exact absurd rfl hds
  | cons d ds =>
    simp only [List.tail_cons, List.length_cons]
    omega

theorem KeyRing.ratchet (h : KeyRing sk ds r cache spent) (d d' : symbolic.Block) :
    KeyRing sk (d' :: d :: ds) 0 cache spent := by
  have hmono : ∀ mk, Drawn sk ds r mk → Drawn sk (d' :: d :: ds) 0 mk := by
    rintro mk ⟨es, j, hes, hpar, hlt, rfl⟩
    refine ⟨es, j, hes, ?_, .inl ?_, rfl⟩
    · simp only [List.length_cons]
      omega
    · have hlen : es.length ≤ ds.tail.length := by
        rcases hlt with h | h
        · omega
        · exact Nat.le_of_eq (congrArg _ h.1)
      rw [List.length_tail] at hlen
      simp only [List.tail_cons, List.length_cons]
      omega
  exact KeyRing.iff.mpr ((KeyRing.iff.mp h).mono hmono fun _ => id)

/-- A key drawn from the chain and tried. -/
theorem KeyRing.try_next (h : KeyRing sk ds r cache spent) (hds : ds.tail ≠ []) :
    KeyRing sk ds (r + 1) cache
      (fun mk => spent mk ∨ mk = messageKey (chainSeed sk ds.tail) r) :=
  KeyRing.iff.mpr ((KeyRing.iff.mp h).draw (fun _ h => h.mono (Nat.le_succ r)) (not_drawn hds)
    (drawn_next hds))

/-- A key drawn from the chain and cached, in any slot. -/
theorem KeyRing.cache_next (h : KeyRing sk ds r cache spent) (hds : ds.tail ≠ [])
    (slot : SkippedKey) :
    KeyRing sk ds (r + 1) (cache.insert slot (messageKey (chainSeed sk ds.tail) r)) spent :=
  KeyRing.iff.mpr ((KeyRing.iff.mp h).put (fun _ h => h.mono (Nat.le_succ r)) (not_drawn hds)
    (drawn_next hds) slot)

/-- The skip loop. -/
theorem KeyRing.fill (h : KeyRing sk ds r cache spent) (hds : ds.tail ≠ []) (dhrKey : Bytes)
    (nr : UInt32) (k : Nat) :
    KeyRing sk ds (r + k) (fill dhrKey (chainKey (chainSeed sk ds.tail) r) nr k cache) spent := by
  induction k generalizing r nr cache with
  | zero => exact h
  | succ k ih =>
    rw [← Nat.add_assoc, Nat.add_right_comm]
    exact ih (h.cache_next hds (dhrKey, nr)) (nr + 1)

/-- A cached key taken out and tried. -/
theorem KeyRing.try_cached (h : KeyRing sk ds r cache spent) {slot : SkippedKey}
    (hmk : cache[slot]? = some mk) :
    KeyRing sk ds r (cache.erase slot) (fun mk' => spent mk' ∨ mk' = mk) :=
  KeyRing.iff.mpr ((KeyRing.iff.mp h).take hmk)

theorem KeyRing.weaken (h : KeyRing sk ds r cache spent) {spent' : symbolic.Block → Prop}
    (hsub : ∀ mk, spent' mk → spent mk) : KeyRing sk ds r cache spent' :=
  KeyRing.iff.mpr ((KeyRing.iff.mp h).mono (fun _ => id) hsub)

/-! ## What `decrypt` does to the key ring -/

/-- A state whose keys are all accounted for. -/
structure Tracked (sk : symbolic.Block) (ds : List symbolic.Block) (i r : Nat)
    (s : RatchetState symbolic) (spent : symbolic.Block → Prop) : Prop where
  lineage : Lineage sk ds i r s
  ring : KeyRing sk ds r s.mkskipped spent

variable {s : RatchetState symbolic} {n : UInt32}

theorem Tracked.skipMessageKeys (h : Tracked sk ds i r s spent) (n : UInt32) :
    ∃ r', Tracked sk ds i r' (skipMessageKeys s n).1 spent := by
  by_cases hlimit : s.nr.toNat + 1000 < n.toNat
  · exact ⟨r, by rw [skipMessageKeys_of_limit hlimit]; exact h⟩
  have hckr := h.lineage.ckr
  by_cases hds : ds.tail = []
  · rw [if_pos hds] at hckr
    exact ⟨r, by rw [skipMessageKeys_of_no_chain hckr (by omega)]; exact h⟩
  · rw [if_neg hds] at hckr
    obtain ⟨d, hd⟩ := Option.ne_none_iff_exists'.mp (h.lineage.dhr hds)
    rw [skipMessageKeys_of_chain hckr hd (by omega)]
    refine ⟨r + (n.toNat - s.nr.toNat), ⟨h.lineage.dhr, h.lineage.rk, h.lineage.cks, ?_⟩,
      h.ring.fill hds ..⟩
    rw [if_neg hds]
    exact congrArg some (chainKey_chainKey ..)

/-- The key that `stepChain` draws was never tried before. -/
theorem Tracked.stepChain (h : Tracked sk ds i r s spent) :
    ∃ r', Tracked sk ds i r' (stepChain s).1
        (fun mk => spent mk ∨ (DoubleRatchet.stepChain s).2 = .ok mk) ∧
      ∀ mk, (DoubleRatchet.stepChain s).2 = .ok mk → ¬ spent mk := by
  have hckr := h.lineage.ckr
  by_cases hds : ds.tail = []
  · rw [if_pos hds] at hckr
    simp only [DoubleRatchet.stepChain, hckr]
    exact ⟨r, ⟨h.lineage, h.ring.weaken (by simp)⟩, by simp⟩
  · rw [if_neg hds] at hckr
    simp only [DoubleRatchet.stepChain, hckr]
    refine ⟨r + 1, ⟨⟨h.lineage.dhr, h.lineage.rk, h.lineage.cks, by rw [if_neg hds]; rfl⟩,
      (h.ring.try_next hds).weaken ?_⟩, ?_⟩
    · rintro mk (hmk | hmk)
      · exact .inl hmk
      · exact .inr (Except.ok.inj hmk).symm
    · rintro mk hmk hspent
      obtain rfl := Except.ok.inj hmk
      exact not_drawn hds (h.ring.spent _ hspent).1

theorem Tracked.advanceTo (h : Tracked sk ds i r s spent) (n : UInt32) :
    ∃ r', Tracked sk ds i r' (advanceTo s n).1
        (fun mk => spent mk ∨ (DoubleRatchet.advanceTo s n).2 = .ok mk) ∧
      ∀ mk, (DoubleRatchet.advanceTo s n).2 = .ok mk → ¬ spent mk := by
  obtain ⟨r', h'⟩ := h.skipMessageKeys n
  unfold DoubleRatchet.advanceTo
  rcases hskip : DoubleRatchet.skipMessageKeys s n with ⟨s', f | _⟩ <;> rw [hskip] at h'
  · exact ⟨r', ⟨h'.lineage, h'.ring.weaken (by simp)⟩, by simp⟩
  · exact h'.stepChain

theorem Tracked.ratcheted (h : Tracked sk ds i r s spent) (d : KeyAgreementPublicKey)
    (fresh : symbolic.Secret) :
    ∃ ds', ds'.length = ds.length + 2 ∧ Tracked sk ds' 0 0 (ratcheted s d fresh) spent :=
  ⟨_, rfl, h.lineage.ratcheted d fresh, h.ring.ratchet ..⟩

/-- The sending chain stays where it is, or a new one starts two outputs on. -/
def Grows (ds : List symbolic.Block) (i : Nat) (ds' : List symbolic.Block) (i' : Nat) : Prop :=
  ds' = ds ∧ i' = i ∨ ds'.length = ds.length + 2

theorem Grows.refl : Grows ds i ds i := .inl ⟨rfl, rfl⟩

theorem Grows.parity {ds' : List symbolic.Block} {i' : Nat} (h : Grows ds i ds' i') :
    ds'.length % 2 = ds.length % 2 := by
  rcases h with ⟨rfl, -⟩ | h
  · rfl
  · omega

/-- **One use**: `decrypt` tries a key that was never tried before, and all keys stay accounted
for, whatever the header. -/
theorem Tracked.advance (h : Tracked sk ds i r s spent) (header : MessageHeader)
    (fresh : symbolic.Secret) :
    (∃ ds' i' r', Grows ds i ds' i' ∧ Tracked sk ds' i' r' (advance s header fresh).1
        (fun mk => spent mk ∨ (DoubleRatchet.advance s header fresh).2 = .ok mk)) ∧
      ∀ mk, (DoubleRatchet.advance s header fresh).2 = .ok mk → ¬ spent mk := by
  cases hmiss : s.mkskipped[(header.dh.bytes.toList, header.n)]? with
  | some mk =>
    rw [advance_cached hmiss]
    refine ⟨⟨ds, i, r, .refl, ⟨h.lineage.1, h.lineage.2, h.lineage.3, h.lineage.4⟩,
      (h.ring.try_cached hmiss).weaken ?_⟩, ?_⟩
    · rintro mk' (hmk | hmk)
      · exact .inl hmk
      · exact .inr (Except.ok.inj hmk).symm
    · rintro mk' hmk hspent
      obtain rfl := Except.ok.inj hmk
      exact (h.ring.spent _ hspent).2 _ hmiss
  | none =>
    by_cases hdhr : s.dhr = some header.dh
    · rw [advance_same hmiss hdhr]
      obtain ⟨r', h', hspent⟩ := h.advanceTo header.n
      exact ⟨⟨ds, i, r', .refl, h'⟩, hspent⟩
    · rw [advance_changed hmiss hdhr]
      obtain ⟨r', h'⟩ := h.skipMessageKeys header.pn
      rcases hskip : DoubleRatchet.skipMessageKeys s header.pn with ⟨s', f | _⟩ <;>
        rw [hskip] at h'
      · exact ⟨⟨ds, i, r', .refl, h'.lineage, h'.ring.weaken (by simp)⟩, by simp⟩
      · obtain ⟨ds', hlen, h''⟩ := h'.ratcheted header.dh fresh
        obtain ⟨r'', h''', hspent⟩ := h''.advanceTo header.n
        exact ⟨⟨ds', 0, r'', .inr hlen, h'''⟩, hspent⟩

end

end Vesper.DoubleRatchet
