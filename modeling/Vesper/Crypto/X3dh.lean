import Vesper.Crypto.Primitives

/-!
# X3DH

`x3dh.rs`: the key agreement that starts a session. `KeyAgreementKeyPair::generate` is the argument
`ek`.
-/

namespace Vesper.X3dh
variable (P : Primitives)

/-- Prepended to the DH outputs before the KDF. -/
def F : Vector UInt8 32 := .replicate 32 0xFF

def SALT : Vector UInt8 32 := .replicate 32 0

/-- `"X3DH"` -/
def INFO : Bytes := [88, 51, 68, 72]

/-- Bob's key bundle, as the server hands it out. -/
structure X3dhBundle where
  ikSign : IdentityPublicKey
  ikDh : KeyAgreementPublicKey
  spk : KeyAgreementPublicKey
  spkSig : P.Signature
  opk : Option KeyAgreementPublicKey

/-- Sent by Alice with the first encrypted message. -/
structure X3dhInitMessage where
  ikDh : KeyAgreementPublicKey
  ek : KeyAgreementPublicKey
  opkUsed : Bool
  deriving DecidableEq

structure X3dhSenderOutput where
  sk : P.Block
  init : X3dhInitMessage

def deriveSk (dhOutputs : List P.Block) : Except Fault P.Block :=
  hkdf P (some (P.block SALT)) (P.block F :: dhOutputs) INFO

variable {P}

/-- Alice's side: verify the signed prekey, run 3 or 4 rounds of DH, derive the shared key. -/
def x3dhSend (ourIkDh : P.Secret) (bundle : X3dhBundle P) (ek : P.Secret) :
    Except Fault (X3dhSenderOutput P) := do
  bundle.ikSign.verify P (bundle.spk.bytes.toList, none) bundle.spkSig
  let dh1 := P.diffieHellman ourIkDh bundle.spk
  let dh2 := P.diffieHellman ek bundle.ikDh
  let dh3 := P.diffieHellman ek bundle.spk
  let sk ← match bundle.opk with
    | some opk => deriveSk P [dh1, dh2, dh3, P.diffieHellman ek opk]
    | none => deriveSk P [dh1, dh2, dh3]
  return { sk, init := { ikDh := P.publicKey ourIkDh, ek := P.publicKey ek,
                         opkUsed := bundle.opk.isSome } }

/-- Bob's side: the same rounds from his secrets. -/
def x3dhReceive (ourIkDh ourSpk : P.Secret) (ourOpk : Option P.Secret) (init : X3dhInitMessage) :
    Except Fault P.Block :=
  if init.opkUsed ≠ ourOpk.isSome then .error (.error .invalidKey)
  else
    let dh1 := P.diffieHellman ourSpk init.ikDh
    let dh2 := P.diffieHellman ourIkDh init.ek
    let dh3 := P.diffieHellman ourSpk init.ek
    match ourOpk with
    | some opk => deriveSk P [dh1, dh2, dh3, P.diffieHellman opk init.ek]
    | none => deriveSk P [dh1, dh2, dh3]

theorem x3dhSend_eq {ourIkDh ek : P.Secret} {bundle : X3dhBundle P} {out : X3dhSenderOutput P}
    (h : x3dhSend ourIkDh bundle ek = .ok out) :
    ∃ rest, out.sk = P.hkdfBlock (P.hkdfExtract (some (P.block SALT)) (P.block F ::
        P.diffieHellman ourIkDh bundle.spk :: P.diffieHellman ek bundle.ikDh ::
          P.diffieHellman ek bundle.spk :: rest)) INFO 0 ∧
      out.init.ikDh = P.publicKey ourIkDh ∧ out.init.ek = P.publicKey ek ∧
      out.init.opkUsed = !rest.isEmpty := by
  unfold x3dhSend at h
  cases hverify : bundle.ikSign.verify P (bundle.spk.bytes.toList, none) bundle.spkSig with
  | error f => simp [hverify, bind, Except.bind] at h
  | ok =>
    simp only [hverify, bind, Except.bind, pure, Except.pure, deriveSk, hkdf_eq] at h
    cases hopk : bundle.opk with
    | none =>
      simp only [hopk, Except.ok.injEq] at h
      exact ⟨[], by rw [← h]; exact ⟨rfl, rfl, rfl, rfl⟩⟩
    | some opk =>
      simp only [hopk, Except.ok.injEq] at h
      exact ⟨[P.diffieHellman ek opk], by rw [← h]; exact ⟨rfl, rfl, rfl, rfl⟩⟩

/-- The shared key of three rounds. -/
def sharedKey (dh1 dh2 dh3 : P.Block) : P.Block :=
  P.hkdfBlock (P.hkdfExtract (some (P.block SALT)) [P.block F, dh1, dh2, dh3]) INFO 0

variable {ourIkDh ourSpk ek : P.Secret} {bundle : X3dhBundle P} {init : X3dhInitMessage}

/-- Without a one-time prekey, the sender gets the key of three rounds if the bundle verifies. -/
theorem x3dhSend_ok_iff (hopk : bundle.opk = none) {out : X3dhSenderOutput P} :
    x3dhSend ourIkDh bundle ek = .ok out ↔
      bundle.ikSign.verify P (bundle.spk.bytes.toList, none) bundle.spkSig = .ok () ∧
        out = { sk := sharedKey (P.diffieHellman ourIkDh bundle.spk)
                  (P.diffieHellman ek bundle.ikDh) (P.diffieHellman ek bundle.spk)
                init := { ikDh := P.publicKey ourIkDh, ek := P.publicKey ek, opkUsed := false } } := by
  unfold x3dhSend
  cases bundle.ikSign.verify P (bundle.spk.bytes.toList, none) bundle.spkSig with
  | error f => simp [bind, Except.bind]
  | ok =>
    simp only [bind, Except.bind, pure, Except.pure, hopk, deriveSk, hkdf_eq, Option.isSome_none,
      Except.ok.injEq, true_and]
    exact eq_comm

theorem x3dhReceive_ok_iff {sk : P.Block} : x3dhReceive ourIkDh ourSpk none init = .ok sk ↔
    init.opkUsed = false ∧
      sk = sharedKey (P.diffieHellman ourSpk init.ikDh) (P.diffieHellman ourIkDh init.ek)
        (P.diffieHellman ourSpk init.ek) := by
  cases h : init.opkUsed
  · simp only [x3dhReceive, h, Option.isSome_none, ne_eq, not_true_eq_false, if_false, deriveSk,
      hkdf_eq, Except.ok.injEq, true_and]
    exact eq_comm
  · simp [x3dhReceive, h]

/-- Both sides derive the same key. -/
theorem x3dhReceive_of_x3dhSend (hcomm : DhCommutes P) (hdh : bundle.ikDh = P.publicKey ourIkDh)
    (hspk : bundle.spk = P.publicKey ourSpk) (hopk : bundle.opk = none) {theirIkDh : P.Secret}
    {out : X3dhSenderOutput P} (h : x3dhSend theirIkDh bundle ek = .ok out) :
    x3dhReceive ourIkDh ourSpk none out.init = .ok out.sk := by
  obtain ⟨-, rfl⟩ := (x3dhSend_ok_iff hopk).mp h
  refine x3dhReceive_ok_iff.mpr ⟨rfl, ?_⟩
  simp only [hdh, hspk]
  rw [hcomm ourSpk, hcomm ourIkDh, hcomm ourSpk]

end Vesper.X3dh
