import Mathlib.Logic.Function.Iterate
import Vesper.Crypto.Symbolic
import Vesper.Group.Receiver
import Vesper.Lib.Machine

/-!
# `message_key_for` over any sequence of calls

A receiver that is asked for keys in any order, next to the record of what it has returned.
-/

namespace Vesper.SenderKey
open DoubleRatchet (messageKey)

variable {P : Primitives}

def ReceiverState.new (keyId iteration : UInt32) (chainKey : P.Block) (signingPub : IdentityPublicKey) :
    ReceiverState P :=
  { keyId, iteration, chainKey, signingPub, skipped := ∅ }

/-- The message key that the `n + 1`st call of `advance` draws, from `c` on. -/
def advanced (c : P.Block) (n : Nat) : P.Block :=
  (advance P ((fun chainKey => (advance P chainKey).1)^[n] c)).2

theorem advanced_eq (c : P.Block) (n : Nat) : advanced c n = messageKey c n := by
  have hchain : (fun chainKey => (advance P chainKey).1)^[n] c = DoubleRatchet.chainKey c n := by
    induction n with
    | zero => rfl
    | succ n ih =>
      rw [Function.iterate_succ_apply', ih]
      rfl
  rw [advanced, hchain]
  rfl

variable (P) in
/-- A receiver, and the targets that it has returned a key for. -/
structure KeyCalls where
  receiver : ReceiverState P
  returned : List UInt32

def KeyCalls.call (k : KeyCalls P) (target : UInt32) : KeyCalls P :=
  match k.receiver.messageKeyFor target with
  | (receiver, .ok _) => ⟨receiver, k.returned ++ [target]⟩
  | (receiver, .error _) => ⟨receiver, k.returned⟩

/-- The calls of `message_key_for` on one receiver; a `u32` counter cannot step past the last value. -/
def keyCalls (receiver : ReceiverState P) : Machine (KeyCalls P) UInt32 where
  init := ⟨receiver, []⟩
  enabled _ target := target.toNat < 2 ^ 32 - 1
  next := KeyCalls.call

instance (receiver : ReceiverState P) (k : KeyCalls P) (target : UInt32) :
    Decidable ((keyCalls receiver).enabled k target) :=
  inferInstanceAs (Decidable (target.toNat < 2 ^ 32 - 1))

/-- The target is not before the start, not returned before, and not too far ahead. -/
structure KeyCalls.Due (start : UInt32) (k : KeyCalls P) (target : UInt32) : Prop where
  start : start ≤ target
  new : target ∉ k.returned
  near : k.receiver.iteration ≤ target → target - k.receiver.iteration ≤ MAX_SKIP

variable {k : KeyCalls P} {c : P.Block} {start target : UInt32}

theorem KeyCalls.Due.near_iff : (k.receiver.iteration ≤ target → target - k.receiver.iteration ≤ MAX_SKIP) ↔
    target.toNat ≤ k.receiver.iteration.toNat + MAX_SKIP.toNat := by
  constructor
  · intro h
    rcases Nat.lt_or_ge target.toNat k.receiver.iteration.toNat with hlt | hge
    · omega
    · have hle := UInt32.le_iff_toNat_le.mpr hge
      have hgap := UInt32.le_iff_toNat_le.mp (h hle)
      rw [UInt32.toNat_sub_of_le _ _ hle] at hgap
      omega
  · intro h hle
    rw [UInt32.le_iff_toNat_le, UInt32.toNat_sub_of_le _ _ hle]
    omega

/-- A due target is answered with its key. -/
theorem KeyCalls.Due.answered (hdue : k.Due start target) (hlast : target.toNat < 2 ^ 32 - 1)
    (h : Advanced c start.toNat k.returned k.receiver) :
    ∃ receiver, k.receiver.messageKeyFor target =
        (receiver, .ok (advanced c (target.toNat - start.toNat))) ∧
      Advanced c start.toNat (k.returned ++ [target]) receiver := by
  obtain ⟨receiver, hcall, hadvanced, -⟩ := h.messageKeyFor (UInt32.le_iff_toNat_le.mp hdue.start)
    hdue.new (near_iff.mp hdue.near) (by omega)
  exact ⟨receiver, by rw [advanced_eq]; exact hcall, hadvanced⟩

/-- Any other is refused, and the receiver stays as it is. -/
theorem KeyCalls.refused (hdue : ¬ k.Due start target)
    (h : Advanced c start.toNat k.returned k.receiver) :
    ∃ e, k.receiver.messageKeyFor target = (k.receiver, .error e) := by
  by_cases hgone : target ∈ k.returned ∨ target.toNat < start.toNat
  · exact ⟨_, h.gone hgone⟩
  · obtain ⟨hnew, hstart⟩ := not_or.mp hgone
    refine ⟨_, h.tooFar (Nat.lt_of_not_le fun hnear => hdue ⟨?_, hnew, Due.near_iff.mpr hnear⟩)⟩
    exact UInt32.le_iff_toNat_le.mpr (Nat.le_of_not_lt hstart)

/-- One call keeps the receiver and the record in step. -/
theorem KeyCalls.advanced_call (hlast : target.toNat < 2 ^ 32 - 1)
    (h : Advanced c start.toNat k.returned k.receiver) :
    Advanced c start.toNat (k.call target).returned (k.call target).receiver := by
  by_cases hdue : k.Due start target
  · obtain ⟨receiver, hcall, hadvanced⟩ := hdue.answered hlast h
    simp only [KeyCalls.call, hcall]
    exact hadvanced
  · obtain ⟨e, hcall⟩ := KeyCalls.refused hdue h
    simp only [KeyCalls.call, hcall]
    exact h

variable {keyId : UInt32} {signingPub : IdentityPublicKey}

theorem ReceiverState.advanced_new :
    Advanced c start.toNat [] (.new keyId start c signingPub) := by
  refine ⟨Nat.le_refl _, ?_, fun t => ?_, by simp⟩
  · rw [ReceiverState.new, Nat.sub_self]
    rfl
  · rw [if_neg (fun h => Nat.not_lt_of_le h.1 h.2.1)]
    simp [ReceiverState.new]

/-- So does every run of calls. -/
theorem keyCalls_advanced (h : (keyCalls (.new keyId start c signingPub)).Reachable k) :
    Advanced c start.toNat k.returned k.receiver :=
  h.invariant (I := fun k => Advanced c start.toNat k.returned k.receiver)
    ReceiverState.advanced_new fun _ _ _ hk hlast => KeyCalls.advanced_call hlast hk

/-- **The specification of `message_key_for`**: after any calls, a target is answered if and only if it
is due, with the key of as many steps of the chain as it lies past the start; an error leaves the
receiver unchanged. -/
theorem messageKeyFor_spec (keyId start : UInt32) (c : P.Block) (signingPub : IdentityPublicKey)
    (targets : List UInt32) (h : ∀ t ∈ targets, t.toNat < 2 ^ 32 - 1)
    (target : UInt32) (hlast : target.toNat < 2 ^ 32 - 1) :
    let k := (keyCalls (.new keyId start c signingPub)).exec ⟨.new keyId start c signingPub, []⟩ targets
    (∀ mk, (k.receiver.messageKeyFor target).2 = .ok mk ↔
      k.Due start target ∧ mk = advanced c (target.toNat - start.toNat)) ∧
    ∀ e, (k.receiver.messageKeyFor target).2 = .error e →
      (k.receiver.messageKeyFor target).1 = k.receiver := by
  intro k
  have hallowed : ∀ (s : KeyCalls P) (ts : List UInt32), (∀ t ∈ ts, t.toNat < 2 ^ 32 - 1) →
      (keyCalls (.new keyId start c signingPub)).Allowed s ts := by
    intro s ts hts
    induction ts generalizing s with
    | nil => trivial
    | cons t ts ih => exact ⟨hts t (.head _), ih _ fun t ht => hts t (.tail _ ht)⟩
  have hk : Advanced c start.toNat k.returned k.receiver :=
    keyCalls_advanced (Machine.Reachable.init.exec (hallowed _ targets h))
  by_cases hdue : k.Due start target
  · obtain ⟨receiver, hcall, -⟩ := hdue.answered hlast hk
    rw [hcall]
    refine ⟨fun mk => ?_, fun e he => by cases he⟩
    constructor
    · rintro ⟨⟩
      exact ⟨hdue, rfl⟩
    · rintro ⟨-, rfl⟩
      rfl
  · obtain ⟨e, hcall⟩ := KeyCalls.refused hdue hk
    rw [hcall]
    exact ⟨fun mk => ⟨fun hok => by (cases hok), fun hok => absurd hok.1 hdue⟩, fun _ _ => rfl⟩

/-- After the keys of iterations 7 and 5, that of 6 is drawn and that of 7 is not drawn again. -/
theorem messageKeyFor_spec_sample :
    let k := (keyCalls (P := symbolic) (.new 1 5 (.atom 0) ⟨.replicate 32 0⟩)).exec
      ⟨.new 1 5 (.atom 0) ⟨.replicate 32 0⟩, []⟩ [7, 5]
    (k.receiver.messageKeyFor 6).2 = .ok (advanced (P := symbolic) (.atom 0) 1) ∧
      ∀ mk, (k.receiver.messageKeyFor 7).2 ≠ .ok mk := by
  have htargets : ∀ t ∈ [(7 : UInt32), 5], t.toNat < 2 ^ 32 - 1 := by simp
  have h := messageKeyFor_spec (P := symbolic) 1 5 (.atom 0) ⟨.replicate 32 0⟩ [7, 5] htargets
  refine ⟨((h 6 (by decide)).1 _).mpr ⟨⟨by decide, by decide +kernel, by decide +kernel⟩, rfl⟩, ?_⟩
  intro mk hmk
  exact absurd (((h 7 (by decide)).1 mk).mp hmk).1.new (by decide +kernel)

end Vesper.SenderKey
