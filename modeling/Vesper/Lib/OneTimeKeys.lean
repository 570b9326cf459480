import Std.Data.ExtTreeMap

/-!
# One-time keys

Keys that are drawn one after another, each tried at once or put aside in a cache and tried later.
`Ring` says that the keys put aside were drawn, are pairwise different and were not tried yet; its
rules follow a key from its draw to its use, under whatever slots the cache files it.
-/

namespace OneTime
variable {κ β : Type} [Ord κ] [Std.TransOrd κ]

structure Ring (drawn : β → Prop) (cache : Std.ExtTreeMap κ β) (tried : β → Prop) : Prop where
  cached : ∀ (q : κ) k, cache[q]? = some k → drawn k
  tried : ∀ k, tried k → drawn k ∧ ∀ q : κ, cache[q]? ≠ some k
  distinct : ∀ (q q' : κ) k, cache[q]? = some k → cache[q']? = some k → q = q'

variable {drawn drawn' tried tried' : β → Prop} {cache : Std.ExtTreeMap κ β} {k : β}

theorem Ring.empty (h : ∀ k, ¬ tried k) : Ring drawn (∅ : Std.ExtTreeMap κ β) tried :=
  ⟨by simp, fun k hk => absurd hk (h k), by simp⟩

theorem Ring.mono (h : Ring drawn cache tried) (hdrawn : ∀ k, drawn k → drawn' k)
    (htried : ∀ k, tried' k → tried k) : Ring drawn' cache tried' :=
  ⟨fun q k hq => hdrawn k (h.cached q k hq),
    fun k hk => ⟨hdrawn k (h.tried k (htried k hk)).1, (h.tried k (htried k hk)).2⟩, h.distinct⟩

/-- A new key that is tried at once. -/
theorem Ring.draw (h : Ring drawn cache tried) (hdrawn : ∀ k, drawn k → drawn' k)
    (hnew : ¬ drawn k) (hk : drawn' k) : Ring drawn' cache (fun k' => tried k' ∨ k' = k) := by
  refine ⟨fun q k' hq => hdrawn k' (h.cached q k' hq), ?_, h.distinct⟩
  rintro k' (ht | rfl)
  · exact ⟨hdrawn k' (h.tried k' ht).1, (h.tried k' ht).2⟩
  · exact ⟨hk, fun q hq => hnew (h.cached q k' hq)⟩

variable [Std.LawfulEqOrd κ]

/-- A new key that is put aside, in any slot. -/
theorem Ring.put (h : Ring drawn cache tried) (hdrawn : ∀ k, drawn k → drawn' k)
    (hnew : ¬ drawn k) (hk : drawn' k) (slot : κ) : Ring drawn' (cache.insert slot k) tried := by
  have hget : ∀ (q : κ) k', (cache.insert slot k)[q]? = some k' →
      q = slot ∧ k' = k ∨ cache[q]? = some k' := by
    intro q k' hq
    rw [Std.ExtTreeMap.getElem?_insert] at hq
    split at hq
    · next heq => exact .inl ⟨(Std.LawfulEqCmp.compare_eq_iff_eq.mp heq).symm, by simp_all⟩
    · exact .inr hq
  constructor
  · intro q k' hq
    obtain ⟨-, rfl⟩ | hq := hget q k' hq
    · exact hk
    · exact hdrawn k' (h.cached q k' hq)
  · intro k' ht
    refine ⟨hdrawn k' (h.tried k' ht).1, fun q hq => ?_⟩
    obtain ⟨-, rfl⟩ | hq := hget q k' hq
    · exact hnew (h.tried k' ht).1
    · exact (h.tried k' ht).2 q hq
  · intro q q' k' hq hq'
    rcases hget q k' hq with ⟨hslot, rfl⟩ | hold <;>
      rcases hget q' _ hq' with ⟨hslot', heq⟩ | hold'
    · rw [hslot, hslot']
    · exact absurd (h.cached q' _ hold') hnew
    · exact absurd (heq ▸ h.cached q _ hold) hnew
    · exact h.distinct q q' k' hold hold'

/-- A key that was put aside is taken out and tried. -/
theorem Ring.take (h : Ring drawn cache tried) {slot : κ} (hk : cache[slot]? = some k) :
    Ring drawn (cache.erase slot) (fun k' => tried k' ∨ k' = k) := by
  have hget : ∀ (q : κ) k', (cache.erase slot)[q]? = some k' → q ≠ slot ∧ cache[q]? = some k' := by
    intro q k' hq
    rw [Std.ExtTreeMap.getElem?_erase] at hq
    split at hq
    · cases hq
    · next hne => exact ⟨fun heq => hne (by simp [heq]), hq⟩
  refine ⟨fun q k' hq => h.cached q k' (hget q k' hq).2, ?_, ?_⟩
  · rintro k' (ht | rfl)
    · exact ⟨(h.tried k' ht).1, fun q hq => (h.tried k' ht).2 q (hget q k' hq).2⟩
    · refine ⟨h.cached slot k' hk, fun q hq => ?_⟩
      obtain ⟨hne, hq⟩ := hget q k' hq
      exact hne (h.distinct q slot k' hq hk)
  · intro q q' k' hq hq'
    exact h.distinct q q' k' (hget q k' hq).2 (hget q' k' hq').2

end OneTime
