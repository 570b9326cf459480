import Vesper.Lib.SymbolicKnowledge
import Vesper.Ratchet.SendingKeys

/-!
# What a stolen state exposes

A thief reads the whole of a `RatchetState`: its key pair, the root key, both chain keys and the
cached message keys. `Exposes` is what it derives from them. The lemmas say from which older keys a
key of the tree can have been put together, and which keys of the tree a state holds.
-/

namespace Vesper.DoubleRatchet
open Symbolic (Term Deduces Derives Composed)

/-! ## Descent along the key schedule -/

section
variable {broken : KeyAgreementPublicKey → Prop} {known : symbolic.Block → Prop}
  {b sk d : symbolic.Block} {ds : List symbolic.Block} {j : Nat}

/-- A chain key comes from an earlier one of its chain, or from the seed. -/
theorem composed_chainKey (h : Composed broken known (chainKey b j)) :
    (∃ k ≤ j, known (chainKey b k)) ∨ Composed broken known b := by
  induction j with
  | zero => exact .inr h
  | succ j ih =>
    rcases h with h | h
    · exact .inl ⟨j + 1, Nat.le_refl _, h⟩
    · exact (ih h).imp_left fun ⟨k, hk, h⟩ => ⟨k, Nat.le_succ_of_le hk, h⟩

theorem composed_messageKey (h : Composed broken known (messageKey b j))
    (hmk : ¬ known (messageKey b j)) :
    (∃ k ≤ j, known (chainKey b k)) ∨ Composed broken known b :=
  composed_chainKey (h.resolve_left hmk)

/-- The two outputs of `kdf_rk` come from its two inputs. -/
theorem composed_kdfRk {info : Bytes} {n : Nat}
    (h : Composed broken known (.expand (.extract sk (.cats [d])) info n))
    (hnot : ¬ known (.expand (.extract sk (.cats [d])) info n))
    (hprk : ¬ known (.extract sk (.cats [d]))) :
    Composed broken known sk ∧ Composed broken known d := by
  have hparts := (h.resolve_left hnot).resolve_left hprk
  exact ⟨hparts.1, hparts.2.1⟩

end

/-! ## The keys that a state holds -/

/-- The keys in a state. -/
def RatchetState.Holds (s : RatchetState symbolic) (t : symbolic.Block) : Prop :=
  t = s.rk ∨ s.cks = some t ∨ s.ckr = some t ∨ ∃ q : SkippedKey, s.mkskipped[q]? = some t

/-- What a thief of the state derives, which has its secret key too. -/
def RatchetState.Exposes (s : RatchetState symbolic) (t : symbolic.Block) : Prop :=
  Deduces (fun name => name = s.dhs.name) s.Holds t

section
variable {sk t : symbolic.Block} {ds es : List symbolic.Block} {i j r : Nat}
  {s : RatchetState symbolic} {spent : symbolic.Block → Prop}

variable (sk) in
theorem rootKey_eq_expand (hds : ds ≠ []) :
    ∃ salt d, rootKey sk ds = .expand (.extract salt (.cats [d])) rkInfo 0 := by
  obtain ⟨d, ds, rfl⟩ := List.exists_cons_of_ne_nil hds
  exact ⟨_, d, rfl⟩

variable (sk) in
theorem chainSeed_eq_expand (hds : ds ≠ []) :
    ∃ salt d, chainSeed sk ds = .expand (.extract salt (.cats [d])) rkInfo 1 := by
  obtain ⟨d, ds, rfl⟩ := List.exists_cons_of_ne_nil hds
  exact ⟨_, d, rfl⟩

theorem rootKey_ne_chainKey (hds : ds ≠ []) (hes : es ≠ []) :
    rootKey sk ds ≠ chainKey (chainSeed sk es) j := by
  obtain ⟨salt, d, hroot⟩ := rootKey_eq_expand sk hds
  obtain ⟨salt', d', hseed⟩ := chainSeed_eq_expand sk hes
  rw [hroot, hseed]
  intro h
  cases j with
  | zero => exact absurd (Term.expand.inj h).2.2 (by decide)
  | succ j => cases h

theorem rootKey_ne_messageKey (hds : ds ≠ []) : rootKey sk ds ≠ messageKey t j := by
  obtain ⟨salt, d, hroot⟩ := rootKey_eq_expand sk hds
  rw [hroot]
  exact nofun

theorem chainKey_ne_messageKey (hds : ds ≠ []) : chainKey (chainSeed sk ds) i ≠ messageKey t j := by
  obtain ⟨salt, d, hseed⟩ := chainSeed_eq_expand sk hds
  rw [hseed]
  intro h
  cases i with
  | zero => cases h
  | succ i => exact absurd (Term.hmac.inj h).2 (by decide)

/-- Root key, sending chain, receiving chain, cache. -/
theorem Tracked.holds (h : Tracked sk ds i r s spent) (ht : s.Holds t) :
    t = rootKey sk ds ∨ ds ≠ [] ∧ t = chainKey (chainSeed sk ds) i ∨
      ds.tail ≠ [] ∧ t = chainKey (chainSeed sk ds.tail) r ∨
      Drawn sk ds r t ∧ ∃ q : SkippedKey, s.mkskipped[q]? = some t := by
  rcases ht with ht | ht | ht | ⟨q, ht⟩
  · exact .inl (ht.trans h.lineage.rk)
  · rw [h.lineage.cks, Option.ite_none_left_eq_some] at ht
    exact .inr (.inl ⟨ht.1, (Option.some.inj ht.2).symm⟩)
  · rw [h.lineage.ckr, Option.ite_none_left_eq_some] at ht
    exact .inr (.inr (.inl ⟨ht.1, (Option.some.inj ht.2).symm⟩))
  · exact .inr (.inr (.inr ⟨h.ring.cached q t ht, q, ht⟩))

theorem Tracked.holds_rootKey (h : Tracked sk ds i r s spent) (hds : ds ≠ []) (hes : es ≠ [])
    (ht : s.Holds (rootKey sk es)) : es = ds := by
  rcases h.holds ht with heq | ⟨-, heq⟩ | ⟨hds', heq⟩ | ⟨⟨es', j', -, -, -, heq⟩, -⟩
  · exact rootKey_inj heq
  · exact absurd heq (rootKey_ne_chainKey hes hds)
  · exact absurd heq (rootKey_ne_chainKey hes hds')
  · exact absurd heq (rootKey_ne_messageKey hes)

theorem Tracked.holds_chainKey (h : Tracked sk ds i r s spent) (hds : ds ≠ []) (hes : es ≠ [])
    (ht : s.Holds (chainKey (chainSeed sk es) j)) : es = ds ∧ j = i ∨ es = ds.tail ∧ j = r := by
  have hinj : ∀ {fs k}, fs ≠ [] → chainKey (chainSeed sk es) j = chainKey (chainSeed sk fs) k →
      es = fs ∧ j = k := fun hfs heq =>
    let hkey := (root_chainSeed hes).chainKey_inj (root_chainSeed hfs) heq
    ⟨chainSeed_inj hes hfs hkey.2, hkey.1⟩
  rcases h.holds ht with heq | ⟨-, heq⟩ | ⟨hds', heq⟩ | ⟨⟨es', j', -, -, -, heq⟩, -⟩
  · exact absurd heq.symm (rootKey_ne_chainKey hds hes)
  · exact .inl (hinj hds heq)
  · exact .inr (hinj hds' heq)
  · exact absurd heq (chainKey_ne_messageKey hes)

theorem Tracked.holds_messageKey (h : Tracked sk ds i r s spent) (hds : ds ≠ []) {b}
    (ht : s.Holds (messageKey b j)) :
    Drawn sk ds r (messageKey b j) ∧ ∃ q : SkippedKey, s.mkskipped[q]? = some (messageKey b j) := by
  rcases h.holds ht with heq | ⟨-, heq⟩ | ⟨hds', heq⟩ | hdrawn
  · exact absurd heq.symm (rootKey_ne_messageKey hds)
  · exact absurd heq.symm (chainKey_ne_messageKey hds)
  · exact absurd heq.symm (chainKey_ne_messageKey hds')
  · exact hdrawn

/-- Every key held is the output of HKDF-Expand or of HMAC. -/
theorem Tracked.holds_output (h : Tracked sk ds i r s spent) (hds : ds ≠ []) (ht : s.Holds t) :
    (∃ prk info n, t = .expand prk info n) ∨ ∃ key data, t = .hmac key data := by
  have hchain : ∀ {fs k}, fs ≠ [] → t = chainKey (chainSeed sk fs) k →
      (∃ prk info n, t = .expand prk info n) ∨ ∃ key data, t = .hmac key data := by
    intro fs k hfs heq
    obtain ⟨salt, d, hseed⟩ := chainSeed_eq_expand sk hfs
    rw [heq, hseed]
    cases k with
    | zero => exact .inl ⟨_, _, _, rfl⟩
    | succ k => exact .inr ⟨_, _, rfl⟩
  rcases h.holds ht with heq | ⟨-, heq⟩ | ⟨hds', heq⟩ | ⟨⟨es', j', -, -, -, heq⟩, -⟩
  · obtain ⟨salt, d, hroot⟩ := rootKey_eq_expand sk hds
    exact .inl ⟨_, _, _, heq.trans hroot⟩
  · exact hchain hds heq
  · exact hchain hds' heq
  · exact .inr ⟨_, _, heq⟩

theorem Tracked.holds_isKey (h : Tracked sk ds i r s spent) (hds : ds ≠ []) :
    ∀ t, s.Holds t → t.IsKey := by
  intro t ht
  rcases h.holds_output hds ht with ⟨prk, info, n, rfl⟩ | ⟨key, data, rfl⟩ <;> trivial

/-- No pseudorandom key of HKDF stays in a state. -/
theorem Tracked.not_holds_extract (h : Tracked sk ds i r s spent) (hds : ds ≠ []) {salt ikm} :
    ¬ s.Holds (.extract salt ikm) := by
  intro ht
  rcases h.holds_output hds ht with ⟨prk, info, n, heq⟩ | ⟨key, data, heq⟩ <;> cases heq

theorem size_chainKey (b : symbolic.Block) (j : Nat) :
    Term.size (chainKey b j) = Term.size b + j := by
  induction j with
  | zero => rfl
  | succ j ih =>
    have hstep : Term.size (chainKey b (j + 1)) = Term.size (chainKey b j) + 1 := rfl
    omega

variable (sk) in
theorem size_lt_chainSeed (hds : ds ≠ []) : Term.size sk < Term.size (chainSeed sk ds) := by
  obtain ⟨d, ds, rfl⟩ := List.exists_cons_of_ne_nil hds
  have hroot := size_rootKey sk ds
  have hseed : Term.size (chainSeed sk (d :: ds)) =
      Term.size (rootKey sk ds) + Term.size (.cats [d]) + 1 + 1 := rfl
  omega

theorem size_lt_chainKey (hds : ds ≠ []) : Term.size sk < Term.size (chainKey (chainSeed sk ds) j) := by
  have hseed := size_lt_chainSeed sk hds
  rw [size_chainKey]
  omega

/-- The shared secret is not part of itself: every key held is larger. -/
theorem Tracked.holds_size (h : Tracked sk ds i r s spent) (hds : ds ≠ []) (ht : s.Holds t) :
    Term.size sk < Term.size t := by
  rcases h.holds ht with rfl | ⟨-, rfl⟩ | ⟨hds', rfl⟩ | ⟨⟨es', j', hes', -, -, rfl⟩, -⟩
  · have hroot := size_rootKey sk ds
    have hlen := List.length_pos_of_ne_nil hds
    omega
  · exact size_lt_chainKey hds
  · exact size_lt_chainKey hds'
  · exact Nat.lt_succ_of_lt (size_lt_chainKey hes')

end

end Vesper.DoubleRatchet
