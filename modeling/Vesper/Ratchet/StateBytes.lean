import Vesper.Ratchet.Caches
import Mathlib.Data.List.ReduceOption

/-!
# Sessions as bytes

`RatchetState::to_bytes` and `from_bytes`: what is stored between two operations. A state comes back as it
was unless its cache has more entries than the `u32` in front of them can count.
-/

namespace Vesper.DoubleRatchet
open ByteReader TreeMaps
variable {P : Primitives} (F : ByteForms P)

def SERIAL_VERSION : UInt8 := 0x01

/-! ## Writing -/

/-- A flag, and the key if there is one. -/
def optionBytes : Option (Vector UInt8 32) → Bytes
  | some k => 1 :: k.toList
  | none => [0]

/-- `key_len(2 BE) + key_bytes + iter(4 BE) + mk(32)` -/
def skippedBytes (entry : SkippedKey × P.Block) : Bytes :=
  be16 (.ofNat entry.1.1.length) ++ (entry.1.1 ++ (be32 entry.1.2 ++ (F.block entry.2).toList))

def RatchetState.toBytes (s : RatchetState P) : Bytes :=
  [SERIAL_VERSION] ++ ((F.secret s.dhs).toList ++ (optionBytes (s.dhr.map (·.bytes)) ++
    ((F.block s.rk).toList ++ (optionBytes (s.cks.map F.block) ++ (optionBytes (s.ckr.map F.block) ++
      (be32 s.ns ++ (be32 s.nr ++ (be32 s.pn ++ (be32 (.ofNat s.mkskipped.size) ++
        s.mkskipped.toList.flatMap (skippedBytes F))))))))))

/-! ## Reading -/

def readOption : Reader Fault (Option (Vector UInt8 32)) := do
  let present ← u8 invalid
  if present = 1 then return some (← fixed invalid 32) else return none

def readSkipped : Reader Fault (SkippedKey × P.Block) := do
  let keyLen ← u16 invalid
  let dhKey ← bytes invalid keyLen.toNat
  let iter ← u32 invalid
  let mk ← fixed invalid 32
  return ((dhKey, iter), F.block.symm mk)

def RatchetState.read : Reader Fault (RatchetState P) := do
  let version ← u8 invalid
  if version ≠ SERIAL_VERSION then throw invalid
  else
    let dhs ← fixed invalid 32
    let dhr ← readOption
    let rk ← fixed invalid 32
    let cks ← readOption
    let ckr ← readOption
    let ns ← u32 invalid
    let nr ← u32 invalid
    let pn ← u32 invalid
    let count ← u32 invalid
    let mkskipped ← fold (readSkipped F) (fun m entry => m.insert entry.1 entry.2) count.toNat ∅
    return {
      dhs := F.secret.symm dhs, dhr := dhr.map .mk, rk := F.block.symm rk, cks := cks.map F.block.symm,
      ckr := ckr.map F.block.symm, ns, nr, pn, mkskipped }

/-- What follows the last entry is ignored. -/
def RatchetState.fromBytes (data : Bytes) : Except Fault (RatchetState P) :=
  (RatchetState.read F data).map Prod.fst

/-! ## What is written is read -/

/-- What the format has room for. -/
structure Storable (s : RatchetState P) : Prop where
  count : s.mkskipped.size < 2 ^ 32
  keys : ∀ q : SkippedKey, q ∈ s.mkskipped → q.1.length < 2 ^ 16

theorem reads_option (k : Option (Vector UInt8 32)) : Reads readOption (optionBytes k) k := by
  cases k with
  | none => exact (reads_u8 0).bind_pure (.pure none)
  | some k =>
    change Reads readOption ([1] ++ k.toList) (some k)
    exact (reads_u8 1).bind ((reads_fixed k).bind_pure (.pure (some k)))

theorem reads_skipped {entry : SkippedKey × P.Block} (h : entry.1.1.length < 2 ^ 16) :
    Reads (readSkipped F) (skippedBytes F entry) entry := by
  have hlen : (UInt16.ofNat entry.1.1.length).toNat = entry.1.1.length := by
    rw [UInt16.toNat_ofNat']
    exact Nat.mod_eq_of_lt h
  have hmk : F.block.symm (F.block entry.2) = entry.2 := F.block.symm_apply_apply _
  refine (reads_be16 _).bind ?_
  rw [hlen]
  refine (reads_bytes _).bind ((reads_be32 _).bind ((reads_fixed _).bind_pure ?_))
  rw [hmk]
  exact .pure entry

theorem Storable.reads {s : RatchetState P} (h : Storable s) :
    Reads (RatchetState.read F) (s.toBytes F) s := by
  have hcount : (UInt32.ofNat s.mkskipped.size).toNat = s.mkskipped.toList.length := by
    rw [toNat_ofNat_of_lt h.count, Std.ExtTreeMap.length_toList]
  have hentries : ∀ entry ∈ s.mkskipped.toList, Reads (readSkipped F) (skippedBytes F entry) entry := by
    intro entry hentry
    have hsome := Std.ExtTreeMap.mem_toList_iff_getElem?_eq_some.mp hentry
    exact reads_skipped F (h.keys _ (Std.ExtTreeMap.mem_iff_isSome_getElem?.mpr (by rw [hsome]; rfl)))
  refine (reads_u8 _).bind ?_
  rw [if_neg (not_not_intro rfl)]
  refine (reads_fixed _).bind ((reads_option _).bind ((reads_fixed _).bind ((reads_option _).bind
    ((reads_option _).bind ((reads_be32 _).bind ((reads_be32 _).bind ((reads_be32 _).bind
      ((reads_be32 _).bind ?_))))))))
  rw [hcount]
  refine (Reads.fold hentries ∅).bind_pure ?_
  have hmap : s.mkskipped.toList.foldl (fun m entry => m.insert entry.1 entry.2) ∅ = s.mkskipped :=
    insertAll_toList s.mkskipped
  have hdhr : (s.dhr.map (·.bytes)).map KeyAgreementPublicKey.mk = s.dhr := by
    cases s.dhr <;> rfl
  have hkey : ∀ k : Option P.Block, (k.map F.block).map F.block.symm = k := by
    intro k
    cases k <;> simp
  rw [hmap, hdhr, hkey, hkey, F.block.symm_apply_apply, F.secret.symm_apply_apply]
  exact .pure s

theorem Storable.fromBytes_toBytes {s : RatchetState P} (h : Storable s) :
    RatchetState.fromBytes F (s.toBytes F) = .ok s := by
  rw [RatchetState.fromBytes, (h.reads F).whole]
  rfl

/-! ## What is read can be written -/

theorem returns_skipped : Returns (readSkipped F) fun entry => entry.1.1.length < 2 ^ 16 := by
  refine (returns_true _).bind fun keyLen _ => (returns_bytes _).bind fun dhKey hlen =>
    (returns_true _).bind fun iter _ => (returns_true _).bind fun mk _ => .pure ?_
  rw [hlen]
  exact keyLen.toNat_lt

theorem returns_read : Returns (RatchetState.read F) Storable := by
  refine (returns_true _).bind fun version _ => ?_
  split
  · exact fun _ _ _ heq => nomatch heq
  refine (returns_true _).bind fun dhs _ => (returns_true _).bind fun dhr _ =>
    (returns_true _).bind fun rk _ => (returns_true _).bind fun cks _ => (returns_true _).bind fun ckr _ =>
      (returns_true _).bind fun ns _ => (returns_true _).bind fun nr _ => (returns_true _).bind fun pn _ =>
        (returns_true _).bind fun count _ => ?_
  have hfold := (returns_skipped F).fold
    (f := fun (m : Skipped P) entry => m.insert entry.1 entry.2)
    (I := fun n m => m.size ≤ n ∧ ∀ q : SkippedKey, q ∈ m → q.1.length < 2 ^ 16)
    (fun n m entry hm hentry => ?_) count.toNat (k := 0) (s := ∅) ?_
  · refine hfold.bind fun m hm => .pure ⟨?_, hm.2⟩
    have := count.toNat_lt
    have := hm.1
    dsimp only
    omega
  · refine ⟨Nat.le_trans Std.ExtTreeMap.size_insert_le (Nat.succ_le_succ hm.1), fun q hq => ?_⟩
    rcases Std.ExtTreeMap.mem_insert.mp hq with heq | hq
    · rw [← Std.LawfulEqCmp.compare_eq_iff_eq.mp heq]
      exact hentry
    · exact hm.2 q hq
  · exact ⟨Nat.le_refl _, fun q hq => absurd hq Std.ExtTreeMap.not_mem_empty⟩

theorem storable_of_fromBytes {data : Bytes} {s : RatchetState P}
    (h : RatchetState.fromBytes F data = .ok s) : Storable s := by
  obtain ⟨⟨s', rest⟩, hread, rfl⟩ := map_eq_ok.mp h
  exact returns_read F data s' rest hread

/-- **A state comes back** if and only if the format has room for it. -/
theorem fromBytes_toBytes_iff {s : RatchetState P} :
    RatchetState.fromBytes F (s.toBytes F) = .ok s ↔ Storable s :=
  ⟨storable_of_fromBytes F, fun h => h.fromBytes_toBytes F⟩

/-! ## Runs through storage -/

/-- The state after some calls, and what they return. -/
def perform : RatchetState P → List (SessionCall P) → RatchetState P × List (Returned P)
  | s, [] => (s, [])
  | s, call :: es =>
    let (s, returned) := call.run s
    let (s, rest) := perform s es
    (s, returned :: rest)

/-- The same with saves: at `none` the state is written and read again. -/
def performStored :
    RatchetState P → List (Option (SessionCall P)) → Except Fault (RatchetState P × List (Returned P))
  | s, [] => .ok (s, [])
  | s, none :: steps => do
    let s ← RatchetState.fromBytes F (s.toBytes F)
    performStored s steps
  | s, some call :: steps => do
    let (s, returned) := call.run s
    let (s, rest) ← performStored s steps
    return (s, returned :: rest)

section
variable {start s : RatchetState P} {es : List (SessionCall P)}

/-- The format has room for the number of cached keys. -/
def Countable (s : RatchetState P) : Prop := s.mkskipped.size < 2 ^ 32

instance : Decidable (Countable s) := inferInstanceAs (Decidable (_ < _))

theorem Countable.storable (h : Countable s) (hkeys : CachesPublicKeys s) : Storable s :=
  ⟨h, fun q hq => by rw [hkeys q hq]; decide⟩

/-- Saves make no difference where every state can be counted. -/
theorem performStored_eq (start : RatchetState P) (hkeys : CachesPublicKeys s) {steps : List (Option (SessionCall P))}
    (h : (calls start).Throughout Countable s steps.reduceOption) :
    performStored F s steps = .ok (perform s steps.reduceOption) := by
  induction steps generalizing s with
  | nil => rfl
  | cons step steps ih =>
    cases step with
    | none =>
      rw [List.reduceOption_cons_of_none] at h ⊢
      have hs : Countable s := Machine.throughout_iff_forall_prefix.mp h [] List.nil_prefix
      rw [performStored, (hs.storable hkeys).fromBytes_toBytes F]
      exact ih hkeys h
    | some call =>
      rw [List.reduceOption_cons_of_some] at h ⊢
      have hrest := ih (kept_cachesPublicKeys.run hkeys call) h.2
      have hcall : performStored F s (some call :: steps) =
          (performStored F (call.run s).1 steps).bind fun r => .ok (r.1, (call.run s).2 :: r.2) := rfl
      rw [hcall, hrest]
      rfl

/-- **Persistence is lossless** in the runs in which every state can be counted, and in no others: each
state comes back, and saving and loading anywhere changes nothing. What was read is read again. -/
theorem persistence_iff (hstart : Started start) (es : List (SessionCall P)) :
    (((calls start).Throughout (fun s => RatchetState.fromBytes F (s.toBytes F) = .ok s) start es ∧
        ∀ es', es' <+: es → ∀ steps : List (Option (SessionCall P)), steps.reduceOption = es' →
          performStored F start steps = .ok (perform start es')) ↔
      (calls start).Throughout Countable start es) ∧
    ∀ data s, RatchetState.fromBytes F data = .ok s →
      RatchetState.fromBytes F (s.toBytes F) = .ok s := by
  refine ⟨⟨fun h => ?_, fun h => ⟨?_, ?_⟩⟩, fun data s h => ?_⟩
  · refine Machine.throughout_iff_forall_prefix.mpr fun es' hpre => ?_
    have hback := Machine.throughout_iff_forall_prefix.mp h.1 es' hpre
    exact (storable_of_fromBytes F hback).count
  · refine Machine.throughout_iff_forall_prefix.mpr fun es' hpre => ?_
    have hcount := Machine.throughout_iff_forall_prefix.mp h es' hpre
    have hreach : (calls start).Reachable ((calls start).exec start es') :=
      Machine.Reachable.init.exec (Machine.allowed_of_enabled (fun _ _ => trivial) _ _)
    exact (hcount.storable (hstart.cachesPublicKeys hreach)).fromBytes_toBytes F
  · rintro es' hpre steps rfl
    refine performStored_eq F start (hstart.cachesPublicKeys .init) ?_
    refine Machine.throughout_iff_forall_prefix.mpr fun es'' hpre' => ?_
    exact Machine.throughout_iff_forall_prefix.mp h es'' (hpre'.trans hpre)
  · exact (storable_of_fromBytes F h).fromBytes_toBytes F

end

/-- A message that two others precede. -/
def sampleCall : SessionCall plainPrimitives :=
  .decrypt ⟨numberedKey 7, 0, 2⟩ (List.replicate 16 0) [] (.replicate 32 1)

theorem persistence_sample : performStored plainForms plainSession [none, some sampleCall, none] =
    .ok (perform plainSession [sampleCall]) := by
  have hbefore : Countable plainSession := by decide +kernel
  have hafter : Countable (sampleCall.run plainSession).1 := by decide +kernel
  exact ((persistence_iff plainForms .receiver [sampleCall]).1.mpr ⟨hbefore, hafter⟩).2 [sampleCall]
    (List.prefix_refl _) _ rfl

/-- Enough floods, and the state does not come back. -/
theorem persistence_lossy : ∃ s, (calls plainSession).Reachable s ∧
    RatchetState.fromBytes plainForms (s.toBytes plainForms) ≠ .ok s := by
  obtain ⟨s, hs, hsize, -⟩ := exists_flooded (P := plainPrimitives) (.replicate 32 0) (.replicate 32 0)
    (.replicate 32 0) [] numberedKey (n := 4294968) fun i j hij hj heq => by
      have := numberedKey_inj (by omega) (by omega) heq
      omega
  refine ⟨s, hs, fun hback => ?_⟩
  have := (storable_of_fromBytes plainForms hback).count
  rw [hsize, toNat_MAX_SKIP] at this
  omega

end Vesper.DoubleRatchet
