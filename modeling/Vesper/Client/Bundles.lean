import Vesper.Client.Session
import Vesper.Crypto.ByteForms

/-!
# X3DH over the wire formats

`parse_bundle`, `x3dh_send` and `x3dh_receive` of the bindings. Whoever holds the secrets behind a bundle
derives the sender's key from the 65 bytes of the init message, with or without a one-time prekey; a prekey
that the identity key did not sign is rejected before anything is computed with it.
-/

namespace Vesper.Client
open X3dh
variable {P : Primitives} (F : ByteForms P)

/-! ## The bindings -/

/-- `to32` -/
def exact32 (b : Bytes) : Except Thrown (Vector UInt8 32) :=
  if h : b.length = 32 then .ok ⟨b.toArray, by simpa⟩ else .error (.js "expected 32 bytes")

/-- `ik_sign_pub(32) || ik_dh_pub(32) || spk_pub(32) || spk_sig(64) || opk_present(1) || [opk_pub(32)]` -/
def parseBundle (bytes : Bytes) : Except Thrown (X3dhBundle P) :=
  if h : bytes.length < 161 then .error (.js "bundle too short")
  else
    let ikSign : IdentityPublicKey := ⟨slice 32 bytes 0 (by omega)⟩
    let ikDh : KeyAgreementPublicKey := ⟨slice 32 bytes 32 (by omega)⟩
    let spk : KeyAgreementPublicKey := ⟨slice 32 bytes 64 (by omega)⟩
    let spkSig := F.signature.symm (slice 64 bytes 96 (by omega))
    if bytes[160] ≠ 0 then
      if h' : bytes.length < 193 then .error (.js "bundle: opk_present=1 but no opk bytes")
      else .ok { ikSign, ikDh, spk, spkSig, opk := some ⟨slice 32 bytes 161 (by omega)⟩ }
    else .ok { ikSign, ikDh, spk, spkSig, opk := none }

/-- Returns `sk(32) || ik_dh_pub(32) || ek_pub(32) || opk_used(1)`. -/
def x3dhSendBytes (ourIkDhSecret bundleBytes : Bytes) (ek : P.Secret) : Except Thrown Bytes := do
  let ourIkDh ← exact32 ourIkDhSecret
  let bundle ← parseBundle F bundleBytes
  let out ← liftWasm (x3dhSend (F.secret.symm ourIkDh) bundle ek)
  return (F.block out.sk).toList ++ initBytes out.init

/-- `our_opk_secret` is empty when no one-time prekey was used. -/
def readOpk (ourOpkSecret : Bytes) : Except Thrown (Option (Vector UInt8 32)) :=
  if ourOpkSecret.isEmpty then .ok none else (exact32 ourOpkSecret).map some

def x3dhReceiveBytes (ourIkDhSecret ourSpkSecret ourOpkSecret initMsgBytes : Bytes) :
    Except Thrown Bytes := do
  let init ← parseInit initMsgBytes
  let ourIkDh ← exact32 ourIkDhSecret
  let ourSpk ← exact32 ourSpkSecret
  let ourOpk ← readOpk ourOpkSecret
  let sk ← liftWasm
    (x3dhReceive (F.secret.symm ourIkDh) (F.secret.symm ourSpk) (ourOpk.map F.secret.symm) init)
  return (F.block sk).toList

@[simp] theorem exact32_toList (v : Vector UInt8 32) : exact32 v.toList = .ok v := by
  rw [exact32, dif_pos (by simp)]
  rfl

theorem exact32_error_iff {b : Bytes} : (∃ e, exact32 b = .error e) ↔ b.length ≠ 32 := by
  rw [exact32]
  split
  · rename_i h
    simp [h]
  · rename_i h
    simp [h]

/-! ## Diffie-Hellman calls -/

/-- Code of the core that keeps a list of its Diffie-Hellman calls. -/
abbrev DhLog (P : Primitives) := ExceptT Fault (StateM (List (P.Secret × KeyAgreementPublicKey)))

def loggedDh (secret : P.Secret) (key : KeyAgreementPublicKey) : DhLog P P.Block := do
  modify (· ++ [(secret, key)])
  return P.diffieHellman secret key

/-- `x3dhSend`, its calls logged. -/
def x3dhSendLogged (ourIkDh : P.Secret) (bundle : X3dhBundle P) (ek : P.Secret) :
    DhLog P (X3dhSenderOutput P) := do
  ExceptT.mk (pure (bundle.ikSign.verify P (bundle.spk.bytes.toList, none) bundle.spkSig))
  let dh1 ← loggedDh ourIkDh bundle.spk
  let dh2 ← loggedDh ek bundle.ikDh
  let dh3 ← loggedDh ek bundle.spk
  let sk ← match bundle.opk with
    | some opk => do
      let dh4 ← loggedDh ek opk
      ExceptT.mk (pure (deriveSk P [dh1, dh2, dh3, dh4]))
    | none => ExceptT.mk (pure (deriveSk P [dh1, dh2, dh3]))
  return { sk, init := { ikDh := P.publicKey ourIkDh, ek := P.publicKey ek,
                         opkUsed := bundle.opk.isSome } }

/-- The log changes nothing, and a prekey that does not verify gets into no call. -/
theorem x3dhSendLogged_run (ourIkDh : P.Secret) (bundle : X3dhBundle P) (ek : P.Secret) :
    ((x3dhSendLogged ourIkDh bundle ek).run.run []).1 = x3dhSend ourIkDh bundle ek ∧
    (bundle.ikSign.verify P (bundle.spk.bytes.toList, none) bundle.spkSig ≠ .ok () →
      ((x3dhSendLogged ourIkDh bundle ek).run.run []).2 = []) := by
  unfold x3dhSendLogged x3dhSend
  cases bundle.ikSign.verify P (bundle.spk.bytes.toList, none) bundle.spkSig with
  | error f => exact ⟨rfl, fun _ => rfl⟩
  | ok =>
    refine ⟨?_, fun h => absurd rfl h⟩
    cases bundle.opk with
    | none => rfl
    | some opk => rfl

/-! ## Agreement -/

/-- What the KDF makes of the DH outputs. -/
def sessionKey (dhOutputs : List P.Block) : P.Block :=
  P.hkdfBlock (P.hkdfExtract (some (P.block SALT)) (P.block X3dh.F :: dhOutputs)) INFO 0

theorem deriveSk_eq (dhOutputs : List P.Block) : deriveSk P dhOutputs = .ok (sessionKey dhOutputs) :=
  hkdf_eq ..

/-- A prekey that verifies leads to a key, and the responder's secrets to the same. -/
theorem exists_x3dhSend (hcomm : DhCommutes P) (ourIkDh : P.Secret) {bundle : X3dhBundle P} (ek : P.Secret)
    (hverify : bundle.ikSign.verify P (bundle.spk.bytes.toList, none) bundle.spkSig = .ok ()) :
    ∃ sk, x3dhSend ourIkDh bundle ek = .ok ⟨sk, P.publicKey ourIkDh, P.publicKey ek, bundle.opk.isSome⟩ ∧
      ∀ theirIkDh theirSpk theirOpk, bundle.ikDh = P.publicKey theirIkDh →
        bundle.spk = P.publicKey theirSpk → bundle.opk = Option.map P.publicKey theirOpk →
        x3dhReceive theirIkDh theirSpk theirOpk
          ⟨P.publicKey ourIkDh, P.publicKey ek, bundle.opk.isSome⟩ = .ok sk := by
  let shared := [P.diffieHellman ourIkDh bundle.spk, P.diffieHellman ek bundle.ikDh,
    P.diffieHellman ek bundle.spk]
  unfold x3dhSend
  rw [hverify]
  cases hopk : bundle.opk with
  | none =>
    refine ⟨sessionKey shared, ?_, ?_⟩
    · dsimp only
      rw [deriveSk_eq]
      rfl
    intro theirIkDh theirSpk theirOpk hik hspk hkeys
    obtain rfl : theirOpk = none := Option.map_eq_none_iff.mp hkeys.symm
    rw [x3dhReceive, if_neg (by simp)]
    dsimp only [shared]
    rw [deriveSk_eq, hik, hspk, hcomm theirSpk, hcomm theirIkDh, hcomm theirSpk]
  | some key =>
    refine ⟨sessionKey (shared ++ [P.diffieHellman ek key]), ?_, ?_⟩
    · dsimp only
      rw [deriveSk_eq]
      rfl
    intro theirIkDh theirSpk theirOpk hik hspk hkeys
    obtain ⟨opk, rfl, rfl⟩ := Option.map_eq_some_iff.mp hkeys.symm
    rw [x3dhReceive, if_neg (by simp)]
    dsimp only [shared, List.cons_append, List.nil_append]
    rw [deriveSk_eq, hik, hspk, hcomm theirSpk, hcomm theirIkDh, hcomm theirSpk, hcomm opk]

theorem x3dhReceive_error_iff {ourIkDh ourSpk : P.Secret} {ourOpk : Option P.Secret}
    {init : X3dhInitMessage} : (∃ fault, x3dhReceive ourIkDh ourSpk ourOpk init = .error fault) ↔
      init.opkUsed ≠ ourOpk.isSome := by
  rw [x3dhReceive]
  split
  · rename_i h
    exact iff_of_true ⟨_, rfl⟩ h
  · rename_i h
    refine iff_of_false ?_ h
    rintro ⟨fault, hfault⟩
    cases ourOpk <;> simp [deriveSk] at hfault

/-- The bytes of a one-time secret, or none. -/
def opkBytes (opk : Option P.Secret) : Bytes := opk.elim [] fun s => (F.secret s).toList

theorem readOpk_opkBytes (opk : Option P.Secret) :
    readOpk (opkBytes F opk) = .ok (opk.map F.secret) := by
  cases opk with
  | none => rfl
  | some opk =>
    have hne : (F.secret opk).toList.isEmpty = false := by
      rw [List.isEmpty_eq_false_iff, ← List.length_pos_iff]
      simp
    rw [readOpk, opkBytes, Option.elim, hne, exact32_toList]
    rfl

theorem x3dhReceiveBytes_eq (ik spk : P.Secret) (opk : Option P.Secret) (init : X3dhInitMessage) :
    x3dhReceiveBytes F (F.secret ik).toList (F.secret spk).toList (opkBytes F opk) (initBytes init) =
      (liftWasm (x3dhReceive ik spk opk init)).map fun sk => (F.block sk).toList := by
  have hopk : (opk.map F.secret).map F.secret.symm = opk := by
    cases opk <;> simp
  rw [x3dhReceiveBytes, parseInit_initBytes, exact32_toList, exact32_toList, readOpk_opkBytes]
  dsimp only [bind, Except.bind, pure, Except.pure]
  rw [F.secret.symm_apply_apply, F.secret.symm_apply_apply, hopk]
  cases liftWasm (x3dhReceive ik spk opk init) <;> rfl

theorem readOpk_error_iff {opk : Bytes} :
    (∃ e, readOpk opk = .error e) ↔ opk ≠ [] ∧ opk.length ≠ 32 := by
  rw [readOpk]
  cases opk with
  | nil => simp
  | cons x rest =>
    rw [List.isEmpty_cons, if_neg Bool.false_ne_true, and_iff_right (List.cons_ne_nil x rest),
      ← exact32_error_iff]
    cases exact32 (x :: rest) <;> simp [Except.map]

theorem readOpk_isSome {opk : Bytes} {key : Option (Vector UInt8 32)} (h : readOpk opk = .ok key) :
    key.isSome ↔ opk ≠ [] := by
  rw [readOpk] at h
  cases opk with
  | nil =>
    obtain rfl := Except.ok.inj h
    simp
  | cons x rest =>
    rw [List.isEmpty_cons, if_neg Bool.false_ne_true] at h
    obtain ⟨v, -, rfl⟩ := map_eq_ok.mp h
    simp

theorem x3dhSendBytes_eq {bundleBytes : Bytes} {bundle : X3dhBundle P}
    (hparse : parseBundle F bundleBytes = .ok bundle) (ourIkDh ek : P.Secret) :
    x3dhSendBytes F (F.secret ourIkDh).toList bundleBytes ek =
      (liftWasm (x3dhSend ourIkDh bundle ek)).map fun out =>
        (F.block out.sk).toList ++ initBytes out.init := by
  rw [x3dhSendBytes, exact32_toList, hparse]
  dsimp only [bind, Except.bind]
  rw [F.secret.symm_apply_apply]
  cases x3dhSend ourIkDh bundle ek <;> rfl

theorem parseInit_error_iff {initMsg : Bytes} : (∃ e, parseInit initMsg = .error e) ↔ initMsg.length < 65 := by
  rw [parseInit]
  split
  · rename_i h
    exact iff_of_true ⟨_, rfl⟩ h
  · rename_i h
    refine iff_of_false ?_ h
    rintro ⟨_, heq⟩
    cases heq

theorem parseInit_opkUsed {initMsg : Bytes} {init : X3dhInitMessage} (h : parseInit initMsg = .ok init) :
    init.opkUsed ↔ initMsg[64]? ≠ some 0 := by
  rw [parseInit] at h
  split at h
  · cases h
  rename_i hlength
  obtain rfl := Except.ok.inj h
  rw [List.getElem?_eq_getElem (by omega)]
  simp

/-- A step fails, or what comes after it does. -/
theorem bind_error_iff {ε α β : Type} {x : Except ε α} {f : α → Except ε β} {A B : Prop}
    (hx : (∃ e, x = .error e) ↔ A) (hf : ∀ a, x = .ok a → ((∃ e, f a = .error e) ↔ B)) :
    (∃ e, x >>= f = .error e) ↔ A ∨ B := by
  cases x with
  | error e => exact iff_of_true ⟨e, rfl⟩ (.inl (hx.mp ⟨e, rfl⟩))
  | ok a =>
    rw [or_iff_right fun h => nomatch hx.mpr h]
    exact hf a rfl

/-- The receiver refuses exactly wrong lengths, and a one-time secret where none was used or none where one
was. -/
theorem x3dhReceiveBytes_error_iff {ik spk opk initMsg : Bytes} :
    (∃ e, x3dhReceiveBytes F ik spk opk initMsg = .error e) ↔
      initMsg.length < 65 ∨ ik.length ≠ 32 ∨ spk.length ≠ 32 ∨ (opk ≠ [] ∧ opk.length ≠ 32) ∨
        ¬ (initMsg[64]? ≠ some 0 ↔ opk ≠ []) := by
  refine bind_error_iff parseInit_error_iff fun init hinit => bind_error_iff exact32_error_iff fun _ _ =>
    bind_error_iff exact32_error_iff fun _ _ => bind_error_iff readOpk_error_iff fun key hkey => ?_
  have hflags : init.opkUsed ≠ (key.map F.secret.symm).isSome ↔ ¬ (initMsg[64]? ≠ some 0 ↔ opk ≠ []) := by
    rw [← parseInit_opkUsed hinit, ← readOpk_isSome hkey, Option.isSome_map, ne_eq, Bool.eq_iff_iff]
  rw [← hflags, ← x3dhReceive_error_iff]
  cases x3dhReceive _ _ _ init with
  | error fault => exact iff_of_true ⟨_, rfl⟩ ⟨_, rfl⟩
  | ok sk => exact iff_of_false nofun nofun

/-! ## X3DH over wires -/

/-- What the holder of an identity key has signed: it verifies, and nothing else does. -/
structure Signs (key : IdentityPublicKey) (issued : Set (Bytes × P.Signature)) : Prop where
  correct : ∀ m s, (m, s) ∈ issued → key.verify P (m, none) s = .ok ()
  unforgeable : ∀ m s, key.verify P (m, none) s = .ok () → (m, s) ∈ issued

/-- **X3DH agrees over the wire formats**, the receiver fails exactly where it should, and a prekey that its
identity key has not signed is rejected before any Diffie-Hellman. -/
theorem x3dh_over_wires (hcomm : DhCommutes P) {key : IdentityPublicKey} {issued : Set (Bytes × P.Signature)}
    (hsigns : Signs key issued) :
    (∀ ourIkDh ek bundleBytes bundle, parseBundle F bundleBytes = .ok bundle →
      bundle.ikSign.verify P (bundle.spk.bytes.toList, none) bundle.spkSig = .ok () →
      ∃ sk initMsg, sk.length = 32 ∧ initMsg.length = 65 ∧
        x3dhSendBytes F (F.secret ourIkDh).toList bundleBytes ek = .ok (sk ++ initMsg) ∧
        ∀ ik spk opk, bundle.ikDh = P.publicKey ik → bundle.spk = P.publicKey spk →
          bundle.opk = Option.map P.publicKey opk →
          x3dhReceiveBytes F (F.secret ik).toList (F.secret spk).toList (opkBytes F opk) initMsg = .ok sk) ∧
    (∀ ik spk opk initMsg, (∃ e, x3dhReceiveBytes F ik spk opk initMsg = .error e) ↔
      initMsg.length < 65 ∨ ik.length ≠ 32 ∨ spk.length ≠ 32 ∨ (opk ≠ [] ∧ opk.length ≠ 32) ∨
        ¬ (initMsg[64]? ≠ some 0 ↔ opk ≠ [])) ∧
    ∀ ourIkDh ek bundleBytes bundle, parseBundle F bundleBytes = .ok bundle → bundle.ikSign = key →
      ((∃ e, x3dhSendBytes F (F.secret ourIkDh).toList bundleBytes ek = .error e) ↔
        (bundle.spk.bytes.toList, bundle.spkSig) ∉ issued) ∧
      ((bundle.spk.bytes.toList, bundle.spkSig) ∉ issued →
        ((x3dhSendLogged ourIkDh bundle ek).run.run []).2 = []) := by
  refine ⟨fun ourIkDh ek bundleBytes bundle hparse hverify => ?_,
    fun ik spk opk initMsg => x3dhReceiveBytes_error_iff F,
    fun ourIkDh ek bundleBytes bundle hparse hkey => ?_⟩
  · obtain ⟨sk, hsend, hreceive⟩ := exists_x3dhSend hcomm ourIkDh ek hverify
    refine ⟨(F.block sk).toList, initBytes ⟨P.publicKey ourIkDh, P.publicKey ek, bundle.opk.isSome⟩,
      by simp, by simp [initBytes], ?_, fun ik spk opk hik hspk hopk => ?_⟩
    · rw [x3dhSendBytes_eq F hparse, hsend]
      rfl
    · rw [x3dhReceiveBytes_eq, hreceive ik spk opk hik hspk hopk]
      rfl
  · have hverify : bundle.ikSign.verify P (bundle.spk.bytes.toList, none) bundle.spkSig = .ok () ↔
        (bundle.spk.bytes.toList, bundle.spkSig) ∈ issued := by
      rw [hkey]
      exact ⟨hsigns.unforgeable _ _, hsigns.correct _ _⟩
    refine ⟨?_, fun hissued => (x3dhSendLogged_run ourIkDh bundle ek).2 (mt hverify.mp hissued)⟩
    rw [x3dhSendBytes_eq F hparse, ← hverify]
    cases hresult : bundle.ikSign.verify P (bundle.spk.bytes.toList, none) bundle.spkSig with
    | ok =>
      obtain ⟨sk, hsend, -⟩ := exists_x3dhSend hcomm ourIkDh ek hresult
      rw [hsend]
      refine iff_of_false ?_ (not_not_intro rfl)
      rintro ⟨_, heq⟩
      cases heq
    | error fault =>
      rw [x3dhSend, hresult]
      exact iff_of_true ⟨_, rfl⟩ fun heq => by cases heq

/-! ## Two devices -/

/-- An identity key that has signed the prekeys of two devices. -/
def twoDevices : Primitives :=
  { plainPrimitives with
    sign := fun _ m => if m.1 = List.replicate 32 2 then .replicate 64 2 else .replicate 64 1
    checkSignature := fun _ m (s : Vector UInt8 64) =>
      decide ((m.1, s) = (List.replicate 32 1, .replicate 64 1) ∨
        (m.1, s) = (List.replicate 32 2, .replicate 64 2)) }

def twoDevicesForms : ByteForms twoDevices where
  secret := .refl _
  block := .refl _
  signingKey := .refl _
  signature := .refl _
  cipher := .refl _
  block_apply _ := rfl
  length_cipher _ := rfl

theorem dhCommutes_twoDevices : DhCommutes twoDevices := dhCommutes_plain

/-- What it has signed. -/
def signedPrekeys : Set (Bytes × twoDevices.Signature) :=
  {(List.replicate 32 1, .replicate 64 1), (List.replicate 32 2, .replicate 64 2)}

theorem signs_twoDevices (key : IdentityPublicKey) : Signs (P := twoDevices) key signedPrekeys := by
  have hverify : ∀ m (s : twoDevices.Signature),
      key.verify twoDevices (m, none) s = .ok () ↔ (m, s) ∈ signedPrekeys := by
    intro m s
    have hcheck : twoDevices.checkSignature key (m, none) s = true ↔ (m, s) ∈ signedPrekeys :=
      decide_eq_true_iff (p := (m, (show Vector UInt8 64 from s)) = (List.replicate 32 1, .replicate 64 1) ∨
        (m, (show Vector UInt8 64 from s)) = (List.replicate 32 2, .replicate 64 2))
    rw [← hcheck, IdentityPublicKey.verify]
    change (if !true then _ else _) = _ ↔ _
    cases twoDevices.checkSignature key (m, none) s <;> simp
  exact ⟨fun m s => (hverify m s).mpr, fun m s => (hverify m s).mp⟩

/-- The bundle of one of them. -/
def sampleBundle (spk : UInt8) : Bytes :=
  List.replicate 32 9 ++ (List.replicate 32 8 ++ (List.replicate 32 spk ++ (List.replicate 64 spk ++ [0])))

theorem parseBundle_sample (spk : UInt8) : parseBundle twoDevicesForms (sampleBundle spk) =
    .ok ⟨⟨.replicate 32 9⟩, ⟨.replicate 32 8⟩, ⟨.replicate 32 spk⟩, .replicate 64 spk, none⟩ := rfl

theorem x3dh_over_wires_sample : ∃ sk initMsg, sk.length = 32 ∧
    x3dhSendBytes twoDevicesForms (List.replicate 32 3) (sampleBundle 1) (.replicate 32 4) =
      .ok (sk ++ initMsg) ∧
    x3dhReceiveBytes twoDevicesForms (List.replicate 32 8) (List.replicate 32 1) [] initMsg = .ok sk := by
  obtain ⟨sk, initMsg, hlength, -, hsend, hreceive⟩ :=
    (x3dh_over_wires twoDevicesForms dhCommutes_twoDevices (signs_twoDevices ⟨.replicate 32 9⟩)).1
      (.replicate 32 3) (.replicate 32 4) (sampleBundle 1) _ (parseBundle_sample 1)
      ((signs_twoDevices _).correct _ _ (.inl rfl))
  exact ⟨sk, initMsg, hlength, hsend, hreceive (.replicate 32 8) (.replicate 32 1) none rfl rfl rfl⟩

/-- A bundle whose prekey and signature are altered to those of the other device is not rejected. -/
theorem altered_bundle_accepted : Signs (P := twoDevices) ⟨.replicate 32 9⟩ signedPrekeys ∧
    ∃ bundle bundle', parseBundle twoDevicesForms (sampleBundle 1) = .ok bundle ∧
      parseBundle twoDevicesForms (sampleBundle 2) = .ok bundle' ∧ bundle.ikSign = ⟨.replicate 32 9⟩ ∧
      bundle'.ikSign = bundle.ikSign ∧ bundle'.ikDh = bundle.ikDh ∧ bundle'.spk ≠ bundle.spk ∧
      bundle'.spkSig ≠ bundle.spkSig ∧
      ∃ out, x3dhSendBytes twoDevicesForms (List.replicate 32 3) (sampleBundle 2) (.replicate 32 4) =
        .ok out := by
  have hsig : (Vector.replicate 64 2 : Vector UInt8 64) ≠ .replicate 64 1 := by decide
  refine ⟨signs_twoDevices _, _, _, parseBundle_sample 1, parseBundle_sample 2, rfl, rfl, rfl, by decide,
    hsig, ?_⟩
  obtain ⟨sk, hsend, -⟩ := @exists_x3dhSend twoDevices dhCommutes_twoDevices (.replicate 32 3)
    ⟨⟨.replicate 32 9⟩, ⟨.replicate 32 8⟩, ⟨.replicate 32 2⟩, .replicate 64 2, none⟩ (.replicate 32 4)
    ((signs_twoDevices _).correct _ _ (.inr rfl))
  have hbytes := x3dhSendBytes_eq twoDevicesForms (parseBundle_sample 2) (.replicate 32 3) (.replicate 32 4)
  rw [hsend] at hbytes
  exact ⟨_, hbytes⟩

end Vesper.Client
