import Vesper.Group.Channel
import Vesper.Ratchet.Caches

/-!
# How many skipped keys a group member holds

The same for the receiver of a sender key: `message_key_for` limits a single gap. `caches_bounded_iff` says
of both caches in which runs they stay within the limit.
-/

namespace Vesper.SenderKey
open TreeMaps
open DoubleRatchet (messageKey chainKey map_rounds_succ pairwise_rounds toNat_ofNat_of_lt plainSession)
variable {P : Primitives}

/-- Any messages reach the receiver, in any order. -/
def receipts (start : ReceiverState P) : Machine (ReceiverState P) (SenderKeyMessage P) where
  init := start
  enabled _ _ := True
  next s msg := (decrypt s msg).1

/-! ## The cache -/

/-- The iterations that `k` rounds of the skip loop insert. -/
def skippedIterations (iteration : UInt32) (k : Nat) : List UInt32 :=
  (List.range k).map fun i => iteration + .ofNat i

/-- Their entries. -/
def skippedEntries (ck : P.Block) (iteration : UInt32) (k : Nat) : List (UInt32 × P.Block) :=
  (List.range k).map fun i => (iteration + .ofNat i, messageKey ck i)

section
variable {ck : P.Block} {iteration : UInt32} {k : Nat} {skipped : Std.ExtTreeMap UInt32 P.Block}

theorem map_fst_skippedEntries :
    (skippedEntries ck iteration k).map Prod.fst = skippedIterations iteration k := List.map_map ..

theorem fill_eq_insertAll :
    fill ck iteration k skipped = insertAll skipped (skippedEntries ck iteration k) := by
  induction k generalizing ck iteration skipped with
  | zero => rfl
  | succ k ih =>
    have hentries : skippedEntries ck iteration (k + 1) =
        (iteration, messageKey ck 0) :: skippedEntries (chainKey ck 1) (iteration + 1) k :=
      map_rounds_succ ck iteration k Prod.mk
    rw [hentries, insertAll_cons]
    exact ih

theorem size_fill (hk : k ≤ 2 ^ 32) : (fill ck iteration k skipped).size =
    skipped.size + missing skipped (skippedIterations iteration k) := by
  have hdistinct : (skippedEntries ck iteration k).Pairwise fun a b => a.1 ≠ b.1 :=
    pairwise_rounds hk Function.injective_id (messageKey ck)
  rw [fill_eq_insertAll, size_insertAll hdistinct, map_fst_skippedEntries]

end

/-- The keys that `message_key_for` adds for an iteration whose own key is not cached. -/
def growth (s : ReceiverState P) (target : UInt32) : Nat :=
  if s.iteration.toNat ≤ target.toNat ∧ target.toNat ≤ s.iteration.toNat + MAX_SKIP.toNat then
    missing s.skipped (skippedIterations s.iteration (target.toNat - s.iteration.toNat))
  else 0

theorem size_messageKeyFor {s : ReceiverState P} {target : UInt32} (hmiss : s.skipped[target]? = none) :
    (s.messageKeyFor target).1.skipped.size = s.skipped.size + growth s target := by
  have hlt := target.toNat_lt
  unfold growth
  by_cases hbehind : target.toNat < s.iteration.toNat
  · rw [messageKeyFor_behind hmiss hbehind, if_neg (by omega), Nat.add_zero]
  by_cases hlimit : s.iteration.toNat + MAX_SKIP.toNat < target.toNat
  · rw [messageKeyFor_limit hmiss hlimit, if_neg (by omega), Nat.add_zero]
  · rw [messageKeyFor_ahead hmiss (by omega) (by omega), if_pos (by omega)]
    exact size_fill (by omega)

/-! ## Runs -/

def Bounded (s : ReceiverState P) : Prop := s.skipped.size ≤ MAX_SKIP.toNat

/-- The message does not verify, its own key is cached, or what it skips fits into the cache. -/
def HasRoom (s : ReceiverState P) (msg : SenderKeyMessage P) : Prop :=
  s.signingPub.verify P msg.payload msg.signature ≠ .ok () ∨ msg.iteration ∈ s.skipped ∨
    s.skipped.size + growth s msg.iteration ≤ MAX_SKIP.toNat

theorem bounded_decrypt_iff {s : ReceiverState P} (hs : Bounded s) (msg : SenderKeyMessage P) :
    Bounded (decrypt s msg).1 ↔ HasRoom s msg := by
  cases hverify : s.signingPub.verify P msg.payload msg.signature with
  | error f =>
    refine iff_of_true ?_ (.inl (by rw [hverify]; exact nofun))
    rw [decrypt_unverified hverify]
    exact hs
  | ok =>
    rw [decrypt_verified hverify, HasRoom, or_iff_right (not_not_intro hverify)]
    cases hmiss : s.skipped[msg.iteration]? with
    | some mk =>
      refine iff_of_true ?_ (.inl (Std.ExtTreeMap.mem_iff_isSome_getElem?.mpr (by rw [hmiss]; rfl)))
      rw [messageKeyFor_cached hmiss]
      exact Nat.le_trans Std.ExtTreeMap.size_erase_le hs
    | none =>
      have hnot : msg.iteration ∉ s.skipped := fun hmem => by
        rw [Std.ExtTreeMap.mem_iff_isSome_getElem?, hmiss] at hmem
        cases hmem
      rw [or_iff_right hnot, Bounded, size_messageKeyFor hmiss]

/-- The receiver of a new sender key. -/
def plainReceiver : ReceiverState plainPrimitives :=
  processDistributionMessage ⟨0, 0, .replicate 32 0, ⟨.replicate 32 0⟩⟩

/-- A message of the sender. -/
def plainMessage (iteration : UInt32) : SenderKeyMessage plainPrimitives :=
  ⟨0, iteration, List.replicate 16 0, .replicate 64 0⟩

/-- **Skipped-key caches** stay within the limits in the runs in which every message finds room for the
keys it skips, and in no others. -/
theorem caches_bounded_iff {start : DoubleRatchet.RatchetState P} (hstart : DoubleRatchet.Started start)
    (es : List (DoubleRatchet.SessionCall P)) (dist : SenderKeyDistributionMessage P)
    (msgs : List (SenderKeyMessage P)) :
    ((DoubleRatchet.calls start).Throughout DoubleRatchet.Bounded start es ↔
      ((DoubleRatchet.calls start).restrict DoubleRatchet.HasRoom).Allowed start es) ∧
    ((receipts (processDistributionMessage dist)).Throughout Bounded (processDistributionMessage dist) msgs ↔
      ((receipts (processDistributionMessage dist)).restrict HasRoom).Allowed
        (processDistributionMessage dist) msgs) := by
  constructor
  · refine Machine.throughout_iff (I := DoubleRatchet.ChainHasKey)
      (fun _ call h _ => DoubleRatchet.kept_chainHasKey.run h call)
      (fun _ call h hs _ => DoubleRatchet.bounded_run_iff h hs call)
      (hstart.chainHasKey .init) ?_ (Machine.allowed_of_enabled (fun _ _ => trivial) _ _)
    rw [DoubleRatchet.Bounded, hstart.mkskipped]
    exact Nat.zero_le _
  · refine Machine.throughout_iff (I := fun _ => True) (fun _ _ _ _ => trivial)
      (fun _ msg _ hs _ => bounded_decrypt_iff hs msg) trivial ?_
      (Machine.allowed_of_enabled (fun _ _ => trivial) _ _)
    exact Nat.zero_le _


/-- A session and a receiver that two messages are missing of. -/
theorem caches_bounded_sample :
    (DoubleRatchet.calls plainSession).Throughout DoubleRatchet.Bounded plainSession
      [.decrypt ⟨⟨.replicate 32 7⟩, 0, 2⟩ [] [] (.replicate 32 0)] ∧
    (receipts plainReceiver).Throughout Bounded plainReceiver [plainMessage 2] := by
  obtain ⟨hsession, hreceiver⟩ := @caches_bounded_iff plainPrimitives plainSession
    .receiver [.decrypt ⟨⟨.replicate 32 7⟩, 0, 2⟩ [] [] (.replicate 32 0)]
    ⟨0, 0, .replicate 32 0, ⟨.replicate 32 0⟩⟩ [plainMessage 2]
  exact ⟨hsession.mpr ⟨⟨trivial, .inr (by decide +kernel)⟩, trivial⟩,
    hreceiver.mpr ⟨⟨trivial, .inr (.inr (by decide +kernel))⟩, trivial⟩⟩

/-! ## Caches over the limit -/

theorem decrypt_plain (s : ReceiverState plainPrimitives) (iteration : UInt32) :
    (decrypt s (plainMessage iteration)).1 = (s.messageKeyFor iteration).1 := by
  have hverify : s.signingPub.verify plainPrimitives (plainMessage iteration).payload
      (plainMessage iteration).signature = .ok () := rfl
  rw [decrypt_verified hverify]
  rfl

theorem reachable_plain {s : ReceiverState plainPrimitives} (h : (receipts plainReceiver).Reachable s)
    (iteration : UInt32) : (receipts plainReceiver).Reachable (s.messageKeyFor iteration).1 := by
  have hstep := h.step (e := plainMessage iteration) trivial
  rwa [show (receipts plainReceiver).next s (plainMessage iteration) = _ from decrypt_plain s iteration]
    at hstep

/-- A receiver that caches no key from its own iteration on. -/
def Behind (s : ReceiverState P) : Prop := ∀ t ∈ s.skipped, t.toNat < s.iteration.toNat

/-- A gap of the size of the limit fills the cache by as many keys, whatever is in it. -/
theorem Behind.flood {s : ReceiverState P} (h : Behind s) {t : UInt32}
    (ht : t.toNat = s.iteration.toNat + MAX_SKIP.toNat) (hlt : t.toNat + 1 < 2 ^ 32) :
    Behind (s.messageKeyFor t).1 ∧ (s.messageKeyFor t).1.iteration.toNat = t.toNat + 1 ∧
      (s.messageKeyFor t).1.skipped.size = s.skipped.size + MAX_SKIP.toNat := by
  have hmiss : s.skipped[t]? = none := by
    by_contra hsome
    have := h t (Std.ExtTreeMap.mem_iff_isSome_getElem?.mpr (Option.isSome_iff_ne_none.mpr hsome))
    omega
  have hiteration : ∀ i < MAX_SKIP.toNat, (s.iteration + .ofNat i).toNat = s.iteration.toNat + i := by
    intro i hi
    rw [UInt32.toNat_add, toNat_ofNat_of_lt (by omega)]
    exact Nat.mod_eq_of_lt (by omega)
  have hgap : t.toNat - s.iteration.toNat = MAX_SKIP.toNat := by omega
  have hnext : (t + 1).toNat = t.toNat + 1 := by
    rw [UInt32.toNat_add]
    exact Nat.mod_eq_of_lt hlt
  have hahead := messageKeyFor_ahead hmiss (by omega) (Nat.le_of_eq ht)
  have hgrowth : growth s t = MAX_SKIP.toNat := by
    rw [growth, if_pos ⟨by omega, Nat.le_of_eq ht⟩, hgap]
    refine (missing_eq_length fun t' ht' hmem => ?_).trans (by simp [skippedIterations])
    obtain ⟨i, hi, rfl⟩ := List.mem_map.mp ht'
    have := h _ hmem
    have := hiteration i (List.mem_range.mp hi)
    omega
  refine ⟨?_, ?_, ?_⟩
  · intro t' ht'
    rw [hahead] at ht' ⊢
    dsimp only at ht' ⊢
    rw [hgap, fill_eq_insertAll] at ht'
    rw [hnext]
    rcases mem_insertAll ht' with hmem | ⟨mk, hmem⟩
    · have := h t' hmem
      omega
    · obtain ⟨i, hi, heq⟩ := List.mem_map.mp hmem
      obtain rfl : s.iteration + .ofNat i = t' := congrArg Prod.fst heq
      have hi := List.mem_range.mp hi
      rw [hiteration i hi]
      omega
  · rw [hahead]
    exact hnext
  · rw [size_messageKeyFor hmiss, hgrowth]

/-- Two ratchet keys, or two gaps, each within the limit of a skip. -/
theorem caches_not_bounded :
    (∃ start s, DoubleRatchet.Started start ∧
      (DoubleRatchet.calls (P := plainPrimitives) start).Reachable s ∧
        s.mkskipped.size = 2 * DoubleRatchet.MAX_SKIP.toNat) ∧
    ∃ s, (receipts plainReceiver).Reachable s ∧ s.skipped.size = 2 * MAX_SKIP.toNat := by
  constructor
  · obtain ⟨s, hs, hsize, -⟩ := DoubleRatchet.exists_flooded (P := plainPrimitives) (.replicate 32 0)
      (.replicate 32 0) (.replicate 32 0) [] numberedKey (n := 2) fun i j hij hj heq => by
        have := numberedKey_inj (by omega) (by omega) heq
        omega
    exact ⟨_, s, .receiver, hs, hsize⟩
  · have hstart : Behind plainReceiver := fun t ht => absurd ht Std.ExtTreeMap.not_mem_empty
    obtain ⟨hfirst, hiteration, hsize⟩ := hstart.flood (t := 2000) rfl (by decide)
    obtain ⟨-, -, hsize'⟩ := hfirst.flood (t := 4001) (by rw [hiteration]; decide) (by decide)
    have hinit : (receipts plainReceiver).Reachable plainReceiver := .init
    have hreach := reachable_plain hinit 2000
    have hreach' := reachable_plain hreach 4001
    have hempty : plainReceiver.skipped.size = 0 := Std.ExtTreeMap.size_empty
    refine ⟨_, hreach', ?_⟩
    rw [hsize', hsize, hempty]
    omega

end Vesper.SenderKey
