import Vesper.Ratchet.StateBytes

/-!
# Panics and counters of a loaded session

`skip_message_keys` expects a remote key wherever there is a receiving chain, and `from_bytes` does not check
it. `nrIncrements` lists every value that a `decrypt` adds one to: only the increment after the skips can be
one too many.
-/

namespace Vesper.DoubleRatchet
variable {P : Primitives}

/-! ## Panics -/

/-- The call does not panic. -/
def NoPanic (s : RatchetState P) : SessionCall P → Prop
  | .encrypt plaintext aad => ∀ message, (encrypt s plaintext aad).2 ≠ .error (.panic message)
  | .decrypt header ciphertext aad fresh =>
    ∀ message, (decrypt s header ciphertext aad fresh).2 ≠ .error (.panic message)

section
variable {s : RatchetState P} {message : String}

theorem skipMessageKeys_ne_panic (hs : ChainHasKey s) (n : UInt32) :
    (skipMessageKeys s n).2 ≠ .error (.panic message) := by
  by_cases hlimit : s.nr.toNat + 1000 < n.toNat
  · rw [skipMessageKeys_of_limit hlimit]
    simp
  · obtain ⟨s', hs'⟩ := exists_skipMessageKeys hs (Nat.not_lt.mp hlimit)
    rw [hs']
    exact nofun

theorem advanceTo_ne_panic (hs : ChainHasKey s) (n : UInt32) :
    (advanceTo s n).2 ≠ .error (.panic message) := by
  have hskip : (skipMessageKeys s n).2 ≠ .error (.panic message) := skipMessageKeys_ne_panic hs n
  unfold advanceTo
  rcases heq : skipMessageKeys s n with ⟨s1, f | _⟩ <;> rw [heq] at hskip
  · intro h
    cases h
    exact hskip rfl
  · dsimp only [stepChain]
    split
    · simp
    · exact nofun

theorem advance_ne_panic (hs : ChainHasKey s) (header : MessageHeader) (fresh : P.Secret) :
    (advance s header fresh).2 ≠ .error (.panic message) := by
  cases hmiss : s.mkskipped[(header.dh.bytes.toList, header.n)]? with
  | some mk =>
    rw [advance_cached hmiss]
    exact nofun
  | none =>
    by_cases hdhr : s.dhr = some header.dh
    · rw [advance_same hmiss hdhr]
      exact advanceTo_ne_panic hs header.n
    · have hskip : (skipMessageKeys s header.pn).2 ≠ .error (.panic message) :=
        skipMessageKeys_ne_panic hs header.pn
      have hkept := kept_chainHasKey.skip s header.pn hs
      rw [advance_changed hmiss hdhr]
      rcases heq : skipMessageKeys s header.pn with ⟨s1, f | _⟩ <;> rw [heq] at hskip hkept
      · intro h
        cases h
        exact hskip rfl
      · exact advanceTo_ne_panic (kept_chainHasKey.ratchet s1 header.dh fresh hkept) header.n

theorem aeadDecrypt_ne_panic {key : P.Block} {nonce aad : Bytes} {c : P.Cipher} :
    aeadDecrypt P key nonce c aad ≠ .error (.panic message) := by
  unfold aeadDecrypt
  split
  · simp
  · cases P.openBox key nonce c aad <;> simp

theorem ChainHasKey.noPanic (hs : ChainHasKey s) (call : SessionCall P) : NoPanic s call := by
  cases call with
  | encrypt plaintext aad =>
    intro message h
    cases hcks : s.cks with
    | none =>
      rw [encrypt_of_no_chain hcks] at h
      cases h
    | some ck =>
      simp only [encrypt, hcks, aeadEncrypt] at h
      split at h <;> cases h
  | decrypt header ciphertext aad fresh =>
    intro message h
    rw [decrypt_eq] at h
    have hadvance : (advance s header fresh).2 ≠ .error (.panic message) :=
      advance_ne_panic hs header fresh
    cases hmk : (advance s header fresh).2 with
    | error f =>
      rw [hmk] at h hadvance
      exact hadvance (congrArg _ (Except.error.inj h))
    | ok mk =>
      rw [hmk] at h
      exact aeadDecrypt_ne_panic h

end

/-! ## Counters -/

/-- The values of `nr` that `skip_message_keys` adds one to. -/
def skipIncrements (s : RatchetState P) (upto : UInt32) : List UInt32 :=
  match s.ckr, s.dhr with
  | some _, some _ =>
    if upto.toNat ≤ s.nr.toNat + MAX_SKIP.toNat then
      (List.range (upto.toNat - s.nr.toNat)).map fun i => s.nr + .ofNat i
    else []
  | _, _ => []

/-- The values of `nr` that `decrypt` adds one to. -/
def nrIncrements (s : RatchetState P) (header : MessageHeader) (fresh : P.Secret) : List UInt32 :=
  match s.mkskipped[(header.dh.bytes.toList, header.n)]? with
  | some _ => []
  | none =>
    (if remoteKeyChanged s header then skipIncrements s header.pn else []) ++
      match ratchetIfChanged s header fresh with
      | (_, .error _) => []
      | (s, .ok ()) =>
        skipIncrements s header.n ++
          match skipMessageKeys s header.n with
          | (_, .error _) => []
          | (s, .ok ()) => if s.ckr.isSome then [s.nr] else []

/-- The increments add up to what the loop leaves. -/
theorem skipIncrements_spec (dhrKey : Bytes) (k : Nat) (ck : P.Block) (nr : UInt32) (skipped : Skipped P) :
    (skipLoop dhrKey k ck nr skipped).2.1 =
      ((List.range k).map fun i => nr + .ofNat i).foldl (fun _ v => v + 1) nr := by
  rw [skipLoop_eq]
  cases k with
  | zero => exact UInt32.add_zero nr
  | succ k =>
    rw [List.range_succ, List.map_append, List.foldl_append, List.map_singleton, List.foldl_cons,
      List.foldl_nil, UInt32.ofNat_add, ← UInt32.add_assoc]
    rfl

def lastNumber : UInt32 := 0xFFFFFFFF

/-- No counter is at its last value when one is added to it. -/
def NoOverflow (s : RatchetState P) : SessionCall P → Prop
  | .encrypt .. => True
  | .decrypt header _ _ fresh => lastNumber ∉ nrIncrements s header fresh

/-- The message moves the current chain, and not past the last number. -/
def BelowLast (s : RatchetState P) : SessionCall P → Prop
  | .encrypt .. => True
  | .decrypt header .. =>
    s.mkskipped[(header.dh.bytes.toList, header.n)]? = none → s.dhr = some header.dh → s.ckr ≠ none →
      header.n.toNat ≤ s.nr.toNat + MAX_SKIP.toNat → max s.nr.toNat header.n.toNat ≠ lastNumber.toNat

section
variable {s : RatchetState P}

/-- The limit keeps the rounds of a skip below the last number. -/
theorem lastNumber_notMem_skipIncrements (n : UInt32) : lastNumber ∉ skipIncrements s n := by
  have hlast : lastNumber.toNat = 2 ^ 32 - 1 := rfl
  have hn := n.toNat_lt
  unfold skipIncrements
  split
  · split
    · intro hmem
      obtain ⟨i, hi, heq⟩ := List.mem_map.mp hmem
      have hi := List.mem_range.mp hi
      have hnr : (s.nr + .ofNat i).toNat = s.nr.toNat + i := by
        rw [UInt32.toNat_add, toNat_ofNat_of_lt (by omega)]
        exact Nat.mod_eq_of_lt (by omega)
      rw [heq] at hnr
      omega
    · exact List.not_mem_nil
  · exact List.not_mem_nil

/-- The counter after a skip to `n`. -/
theorem toNat_skipped {n : UInt32} :
    (s.nr + .ofNat (n.toNat - s.nr.toNat)).toNat = max s.nr.toNat n.toNat := by
  have hn := n.toNat_lt
  have hnr := s.nr.toNat_lt
  rw [UInt32.toNat_add, toNat_ofNat_of_lt (by omega), Nat.mod_eq_of_lt (by omega)]
  omega

/-- The increment after the skip of a chain that goes on. -/
theorem noOverflow_same_iff {header : MessageHeader} {fresh : P.Secret} {c : P.Cipher} {aad : Bytes}
    (hmiss : s.mkskipped[(header.dh.bytes.toList, header.n)]? = none) (hdhr : s.dhr = some header.dh) :
    NoOverflow s (.decrypt header c aad fresh) ↔ BelowLast s (.decrypt header c aad fresh) := by
  have hskip := lastNumber_notMem_skipIncrements (s := s) header.n
  have hchanged : remoteKeyChanged s header = false := remoteKeyChanged_eq_false_iff.mpr hdhr
  have hsame : ratchetIfChanged s header fresh = (s, .ok ()) := by simp [ratchetIfChanged, hchanged]
  simp only [NoOverflow, BelowLast, nrIncrements, hmiss, hchanged, hsame, hdhr, Bool.false_eq_true,
    if_false, List.nil_append, List.mem_append, hskip, false_or, true_imp_iff]
  by_cases hlimit : s.nr.toNat + 1000 < header.n.toNat
  · rw [skipMessageKeys_of_limit hlimit, toNat_MAX_SKIP]
    exact iff_of_true List.not_mem_nil fun _ hle => absurd hle (Nat.not_le.mpr hlimit)
  rw [Nat.not_lt] at hlimit
  rcases Option.eq_none_or_eq_some s.ckr with hckr | ⟨ck, hckr⟩
  · rw [skipMessageKeys_of_no_chain hckr hlimit]
    simp [hckr]
  · rw [skipMessageKeys_of_chain hckr hdhr hlimit]
    have hne : s.ckr ≠ none := by simp [hckr]
    simp only [Option.isSome_some, if_true, List.mem_singleton, ← UInt32.toNat_inj, toNat_skipped, hne,
      ne_eq, not_false_eq_true, true_imp_iff, toNat_MAX_SKIP, hlimit]
    exact not_congr eq_comm

/-- A chain that a message starts is at most the limit of a skip away from its beginning. -/
theorem noOverflow_changed {header : MessageHeader} {fresh : P.Secret} {c : P.Cipher} {aad : Bytes}
    (hmiss : s.mkskipped[(header.dh.bytes.toList, header.n)]? = none) (hdhr : s.dhr ≠ some header.dh) :
    NoOverflow s (.decrypt header c aad fresh) := by
  have hskip := lastNumber_notMem_skipIncrements (s := s) header.pn
  have hchanged : remoteKeyChanged s header = true := remoteKeyChanged_eq_true_iff.mpr hdhr
  simp only [NoOverflow, nrIncrements, hmiss, hchanged, if_true, List.mem_append, hskip, false_or,
    ratchetIfChanged]
  rcases skipMessageKeys s header.pn with ⟨s1, _ | _⟩
  · exact List.not_mem_nil
  dsimp only
  rw [dhRatchet_eq]
  have hskip' := lastNumber_notMem_skipIncrements (s := ratcheted s1 header.dh fresh) header.n
  simp only [List.mem_append, hskip', false_or]
  have hnr : (ratcheted s1 header.dh fresh).nr.toNat = 0 := rfl
  by_cases hlimit : 1000 < header.n.toNat
  · rw [skipMessageKeys_of_limit (by omega)]
    exact List.not_mem_nil
  · rw [skipMessageKeys_of_chain rfl rfl (by omega)]
    have hlast : lastNumber.toNat = 2 ^ 32 - 1 := rfl
    have hnext := toNat_skipped (s := ratcheted s1 header.dh fresh) (n := header.n)
    intro hmem
    dsimp only at hmem
    rw [Option.isSome_some, if_pos rfl, List.mem_singleton] at hmem
    rw [← hmem] at hnext
    omega

theorem noOverflow_iff (call : SessionCall P) : NoOverflow s call ↔ BelowLast s call := by
  cases call with
  | encrypt => exact Iff.rfl
  | decrypt header c aad fresh =>
    cases hmiss : s.mkskipped[(header.dh.bytes.toList, header.n)]? with
    | some mk =>
      refine iff_of_true ?_ fun hnone => ?_
      · simp only [NoOverflow, nrIncrements, hmiss]
        exact List.not_mem_nil
      · rw [hmiss] at hnone
        cases hnone
    | none =>
      by_cases hdhr : s.dhr = some header.dh
      · exact noOverflow_same_iff hmiss hdhr
      · exact iff_of_true (noOverflow_changed hmiss hdhr) fun _ heq => absurd heq hdhr

end

/-! ## Loaded sessions -/

/-- **Panics**: in the runs of a state, wherever it was loaded from, a receiving chain always has its key
and no call panics, if and only if that is so of the state itself; every new session is such a state. And
no counter is at its last value when one is added to it if and only if no message takes the current chain
to its last number. -/
theorem panics_iff (start : RatchetState P) (es : List (SessionCall P)) :
    ((calls start).Throughout ChainHasKey start es ∧ ((calls start).restrict NoPanic).Allowed start es ↔
      ChainHasKey start) ∧
    (Started start → ChainHasKey start) ∧
    (((calls start).restrict NoOverflow).Allowed start es ↔
      ((calls start).restrict BelowLast).Allowed start es) := by
  have hall : ∀ es, (calls start).Allowed start es :=
    Machine.allowed_of_enabled (fun _ _ => trivial) start
  have hkept : ∀ s call, ChainHasKey s → (calls start).enabled s call →
      ChainHasKey ((calls start).next s call) :=
    fun s call hs _ => kept_chainHasKey.run hs call
  refine ⟨⟨fun h => ?_, fun h => ⟨?_, ?_⟩⟩, fun h => h.chainHasKey .init, ?_⟩
  · exact Machine.throughout_iff_forall_prefix.mp h.1 [] List.nil_prefix
  · exact Machine.throughout_of_invariant hkept (fun _ hs => hs) h (hall es)
  · refine Machine.allowed_restrict_of_prefixes (hall es) fun es' call _ _ => ?_
    exact (Machine.Allowed.invariant hkept h (hall es')).noPanic call
  · exact Machine.allowed_restrict_congr fun s call _ => noOverflow_iff call

/-- A session that has a receiving chain and no remote key, as `from_bytes` takes it. -/
def orphanBytes : Bytes :=
  [1] ++ List.replicate 32 0 ++ [0] ++ List.replicate 32 0 ++ [0] ++ [1] ++ List.replicate 32 0 ++
    List.replicate 16 0

/-- Any message of a longer chain makes it panic. -/
theorem orphan_panics : ((RatchetState.fromBytes plainForms orphanBytes).map fun s : RatchetState plainPrimitives =>
    (decrypt s ⟨numberedKey 7, 1, 0⟩ (List.replicate 16 0) [] (.replicate 32 0)).2) =
      .ok (.error (.panic "receive chain key exists but remote DH key is missing")) := by
  decide +kernel

end Vesper.DoubleRatchet
