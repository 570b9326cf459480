import Vesper.Client.Bundles
import Vesper.Client.Encoding

/-!
# Published bundles

The server checks a bundle (`verify-bundle.ts`) before it hands it out, on what its own decoder makes of the
string. The client decodes the string again, and reads a flag that the server does not look at.
-/

namespace Vesper.Client
open Unicode (Utf16)
open Base64 X3dh
variable {P : Primitives} (F : ByteForms P)

/-! ## The server -/

/-- Ed25519 of the `crypto` module. -/
structure NodeEd25519 where
  /-- `createPublicKey` takes the key. -/
  createPublicKey : Vector UInt8 32 → Bool
  verify : Vector UInt8 32 → Vector UInt8 32 → Vector UInt8 64 → Bool

/-- It decides as the verification of the core does. -/
def NodeEd25519.Agrees (node : NodeEd25519) : Prop := ∀ key m s,
  (node.createPublicKey key = true ∧ node.verify key m s = true) ↔
    IdentityPublicKey.verify P ⟨key⟩ (m.toList, none) (F.signature.symm s) = .ok ()

/-- `Buffer.from(…, 'base64')` -/
def decodeB64Url (s : Utf16) : Bytes := decodeLoose (standard s)

def verifyKeyBundle (node : NodeEd25519) (bundleB64url : Utf16) : Except String Unit :=
  let bundle := decodeB64Url bundleB64url
  if h : bundle.length ≠ 161 then
    .error ("Invalid bundle length: expected 161, got " ++ toString bundle.length)
  else
    let ikSignPub := slice 32 bundle 0 (by omega)
    let spkPub := slice 32 bundle 64 (by omega)
    let spkSig := slice 64 bundle 96 (by omega)
    if !node.createPublicKey ikSignPub then .error "Invalid identity signing key in bundle"
    else if !node.verify ikSignPub spkPub spkSig then .error "Bundle signature verification failed"
    else .ok ()

/-- The fields of the server's 161 bytes; there is no one-time prekey in them. -/
def serverBundle (bundle : Bytes) : Option (X3dhBundle P) :=
  if h : bundle.length = 161 then some {
    ikSign := ⟨slice 32 bundle 0 (by omega)⟩
    ikDh := ⟨slice 32 bundle 32 (by omega)⟩
    spk := ⟨slice 32 bundle 64 (by omega)⟩
    spkSig := F.signature.symm (slice 64 bundle 96 (by omega))
    opk := none }
  else none

theorem verifyKeyBundle_eq_ok_iff {node : NodeEd25519} (hagree : node.Agrees F) {s : Utf16} :
    verifyKeyBundle node s = .ok () ↔ ∃ bundle, serverBundle F (decodeB64Url s) = some bundle ∧
      bundle.ikSign.verify P (bundle.spk.bytes.toList, none) bundle.spkSig = .ok () := by
  rw [verifyKeyBundle, serverBundle]
  by_cases hlength : (decodeB64Url s).length = 161
  · rw [dif_neg (not_not_intro hlength), dif_pos hlength]
    simp only [Option.some.injEq, exists_eq_left']
    rw [← hagree]
    cases node.createPublicKey _ <;> cases node.verify _ _ _ <;> simp
  · rw [dif_pos hlength, dif_neg hlength]
    exact iff_of_false nofun nofun

/-! ## The client -/

/-- Decoding, parsing and X3DH succeed, and the bundle is the server's. -/
def Usable (s : Utf16) : Prop :=
  ∃ bytes bundle, b64Dec s = .ok bytes ∧ parseBundle F bytes = .ok bundle ∧
    serverBundle F (decodeB64Url s) = some bundle ∧
    ∀ ourIkDh ek, ∃ out, x3dhSendBytes F (F.secret ourIkDh).toList bytes ek = .ok out

/-- Apart from white space the string is in the alphabet up to at most one `=` at its end, and the white
space leaves the client's padding as it should be. -/
def Readable (s : Utf16) : Prop :=
  let p := standard s
  let data := p.filter (!isSpace ·)
  let body := data.takeWhile (· ≠ pad)
  (∀ c ∈ body, (value? c).isSome) ∧ (data.length - body.length) + (p.length - data.length) % 4 ≤ 1

instance (s : Utf16) : Decidable (Readable s) := inferInstanceAs (Decidable (_ ∧ _))

theorem filter_append_pads (p : Utf16) (k : Nat) : (p ++ List.replicate k pad).filter (!isSpace ·) =
    p.filter (!isSpace ·) ++ List.replicate k pad := by
  rw [List.filter_append]
  congr 1
  refine List.filter_eq_self.mpr fun c hc => ?_
  rw [List.eq_of_mem_replicate hc]
  rfl

/-- The string that is given to `atob`. -/
theorem b64Dec_eq_ok_iff {s : Utf16} {bytes : Bytes} : b64Dec s = .ok bytes ↔
    atob (standard s ++ List.replicate ((4 - (standard s).length % 4) % 4) pad) = some bytes := by
  rw [b64Dec]
  split
  · rename_i b h
    rw [h, Except.ok.injEq, Option.some.injEq]
  · rename_i h
    rw [h]
    exact iff_of_false (fun heq => by cases heq) fun heq => by cases heq

theorem length_filter_le (p : Utf16) : (p.filter (!isSpace ·)).length ≤ p.length :=
  List.length_filter_le ..

theorem length_of_ofSextets {vs : List (Fin 64)} (h : (ofSextets vs).length = 161) : vs.length = 215 := by
  rw [length_ofSextets] at h
  omega

/-- What the client decodes, the server has decoded. -/
theorem decodeB64Url_of_b64Dec {s : Utf16} {bytes : Bytes} (h : b64Dec s = .ok bytes) :
    decodeB64Url s = bytes := by
  rw [decodeB64Url, ← decodeLoose_append_pads]
  exact decodeLoose_of_atob (b64Dec_eq_ok_iff.mp h)

/-- At most one character follows the first pad inclusive. -/
theorem dropWhile_eq_pads {data : Utf16}
    (h : data.length - (data.takeWhile (· ≠ pad)).length ≤ 1) :
    data.dropWhile (· ≠ pad) = List.replicate (data.length - (data.takeWhile (· ≠ pad)).length) pad := by
  have hlength : (data.dropWhile (· ≠ pad)).length = data.length - (data.takeWhile (· ≠ pad)).length := by
    have hsplit := congrArg List.length (List.takeWhile_append_dropWhile (p := (· ≠ pad)) (l := data))
    rw [List.length_append] at hsplit
    omega
  rw [← hlength] at h ⊢
  cases hrest : data.dropWhile (· ≠ pad) with
  | nil => rfl
  | cons c rest =>
    have hhead := List.head?_dropWhile_not (· ≠ pad) data
    rw [hrest] at h hhead
    obtain rfl : rest = [] := List.length_eq_zero_iff.mp (by simpa using h)
    obtain rfl : c = pad := by simpa using hhead
    rfl

/-- **What the client decodes of a string whose server bytes are a bundle.** -/
theorem exists_b64Dec_iff {s : Utf16} (hlength : (decodeB64Url s).length = 161) :
    (∃ bytes, b64Dec s = .ok bytes) ↔ Readable s := by
  constructor
  · rintro ⟨bytes, h⟩
    have hserver := decodeB64Url_of_b64Dec h
    obtain ⟨body, e, vs, heq, hvs, rfl, -, he⟩ := atob_eq_some_iff.mp (b64Dec_eq_ok_iff.mp h)
    have hbody : body.length = 215 := by
      rw [← length_of_mapM hvs]
      exact length_of_ofSextets (hserver ▸ hlength)
    have hpad := pad_notMem hvs
    rw [filter_append_pads] at heq
    have hcount := congrArg (List.count pad) heq
    rw [List.count_append, List.count_append, List.count_replicate_self, List.count_replicate_self,
      List.count_eq_zero_of_not_mem hpad] at hcount
    have hdata : (standard s).filter (!isSpace ·) = body ++ List.replicate
        (e - (4 - (standard s).length % 4) % 4) pad := by
      have hsplit : e = (e - (4 - (standard s).length % 4) % 4) + (4 - (standard s).length % 4) % 4 := by omega
      rw [hsplit, ← List.replicate_append_replicate, ← List.append_assoc] at heq
      exact (List.append_left_inj _).mp heq
    have hle := length_filter_le (standard s)
    rw [Readable, hdata, takeWhile_append_pads hpad]
    refine ⟨isSome_of_mapM hvs, ?_⟩
    rw [hdata] at hle
    simp only [List.length_append, List.length_replicate, hbody] at hle ⊢
    omega
  · rintro ⟨hbody, hpads⟩
    obtain ⟨vs, hvs⟩ := exists_mapM hbody
    have hrest := @dropWhile_eq_pads ((standard s).filter (!isSpace ·)) (by omega)
    have hdata := (List.takeWhile_append_dropWhile (p := (· ≠ pad))
      (l := (standard s).filter (!isSpace ·))).symm
    have hle := length_filter_le (standard s)
    rw [hrest] at hdata
    generalize ((standard s).filter (!isSpace ·)).takeWhile (· ≠ pad) = body at hdata hvs hpads
    generalize ((standard s).filter (!isSpace ·)).length - body.length = e at hdata hpads
    have hserver : decodeB64Url s = ofSextets vs := by
      rw [decodeB64Url, ← decodeLoose_filter, hdata, decodeLoose_append_pads, decodeLoose_body hvs]
    have hlen := length_of_ofSextets (hserver ▸ hlength)
    rw [length_of_mapM hvs] at hlen
    rw [hdata, List.length_append, List.length_replicate, hlen] at hle hpads
    refine ⟨_, b64Dec_eq_ok_iff.mpr (atob_eq_some_iff.mpr
      ⟨body, e + (4 - (standard s).length % 4) % 4, vs, ?_, hvs, rfl, by omega, ?_⟩)⟩
    · rw [filter_append_pads, hdata, List.append_assoc, List.replicate_append_replicate]
    · rw [hlen]
      omega

/-- The client's parser reads 161 bytes as the server does where the flag is zero, and rejects them
elsewhere. -/
theorem parseBundle_eq_ok_iff {bytes : Bytes} (hlength : bytes.length = 161) {bundle : X3dhBundle P} :
    parseBundle F bytes = .ok bundle ↔ serverBundle F bytes = some bundle ∧ bytes[160]? = some 0 := by
  rw [parseBundle, serverBundle, dif_neg (by omega), dif_pos hlength, List.getElem?_eq_getElem (by omega)]
  dsimp only
  by_cases hflag : bytes[160] = 0
  · rw [if_neg (not_not_intro hflag), hflag, Except.ok.injEq, Option.some.injEq, and_iff_left rfl]
  · rw [if_pos hflag, dif_pos (by omega)]
    exact iff_of_false nofun fun h => hflag (Option.some.inj h.2)

theorem length_of_serverBundle {bytes : Bytes} {bundle : X3dhBundle P}
    (h : serverBundle F bytes = some bundle) : bytes.length = 161 := by
  rw [serverBundle] at h
  split at h
  · assumption
  · cases h

theorem opk_of_serverBundle {bytes : Bytes} {bundle : X3dhBundle P}
    (h : serverBundle F bytes = some bundle) : bundle.opk = none := by
  rw [serverBundle] at h
  split at h
  · rw [← Option.some.inj h]
  · cases h

/-- **An accepted bundle is usable** if and only if the client's decoder takes the string and the flag is
zero. -/
theorem usable_iff {node : NodeEd25519} (hagree : node.Agrees F) {s : Utf16}
    (haccepted : verifyKeyBundle node s = .ok ()) :
    Usable F s ↔ Readable s ∧ (decodeB64Url s)[160]? = some 0 := by
  obtain ⟨bundle, hserver, hverify⟩ := (verifyKeyBundle_eq_ok_iff F hagree).mp haccepted
  have hlength := length_of_serverBundle F hserver
  rw [← exists_b64Dec_iff hlength]
  constructor
  · rintro ⟨bytes, bundle', hdec, hparse, -, -⟩
    rw [decodeB64Url_of_b64Dec hdec] at hlength ⊢
    exact ⟨⟨bytes, hdec⟩, ((parseBundle_eq_ok_iff F hlength).mp hparse).2⟩
  · rintro ⟨⟨bytes, hdec⟩, hflag⟩
    have hsame := decodeB64Url_of_b64Dec hdec
    have hparse := (parseBundle_eq_ok_iff F hlength).mpr ⟨hserver, hflag⟩
    rw [hsame] at hparse
    refine ⟨bytes, bundle, hdec, hparse, hserver, fun ourIkDh ek => ?_⟩
    have hsend : x3dhSend ourIkDh bundle ek = .ok _ :=
      (x3dhSend_ok_iff (opk_of_serverBundle F hserver)).mpr ⟨hverify, rfl⟩
    rw [x3dhSendBytes_eq F hparse, hsend]
    exact ⟨_, rfl⟩

/-! ## A bundle with a flag -/

/-- The server's verification, for the identity key of two devices. -/
def sampleNode : NodeEd25519 where
  createPublicKey _ := true
  verify key m s := twoDevices.checkSignature ⟨key⟩ (m.toList, none) s

theorem sampleNode_agrees : sampleNode.Agrees twoDevicesForms := by
  intro key m s
  rw [IdentityPublicKey.verify]
  change _ ↔ (if !true then _ else if twoDevices.checkSignature ⟨key⟩ (m.toList, none) s then _ else _) = _
  rw [show sampleNode.verify key m s = twoDevices.checkSignature ⟨key⟩ (m.toList, none) s from rfl]
  cases twoDevices.checkSignature ⟨key⟩ (m.toList, none) s <;> simp [sampleNode]

/-- The bundle of a device, and the same with the flag set. -/
def sampleString (flag : UInt8) : Utf16 :=
  (toSextets ((sampleBundle 1).take 160 ++ [flag])).map urlChar

theorem decode_sampleString (flag : UInt8) :
    decodeB64Url (sampleString flag) = (sampleBundle 1).take 160 ++ [flag] :=
  decodeB64Url_of_b64Dec (b64Dec_map_urlChar _)

theorem sampleString_accepted (flag : UInt8) : verifyKeyBundle sampleNode (sampleString flag) = .ok () := by
  refine (verifyKeyBundle_eq_ok_iff twoDevicesForms sampleNode_agrees).mpr
    ⟨⟨⟨.replicate 32 9⟩, ⟨.replicate 32 8⟩, ⟨.replicate 32 1⟩, .replicate 64 1, none⟩, ?_, ?_⟩
  · rw [decode_sampleString]
    rfl
  · exact (signs_twoDevices _).correct _ _ (.inl rfl)

theorem usable_sample : Usable twoDevicesForms (sampleString 0) := by
  refine (usable_iff twoDevicesForms sampleNode_agrees (sampleString_accepted 0)).mpr ⟨?_, ?_⟩
  · have hlength : (decodeB64Url (sampleString 0)).length = 161 := by
      rw [decode_sampleString]
      rfl
    exact (exists_b64Dec_iff hlength).mp ⟨_, b64Dec_map_urlChar _⟩
  · rw [decode_sampleString]
    rfl

/-- The server accepts a bundle whose flag announces a one-time prekey; no client can use it. -/
theorem flagged_bundle_unusable : verifyKeyBundle sampleNode (sampleString 1) = .ok () ∧
    ¬ Usable twoDevicesForms (sampleString 1) := by
  refine ⟨sampleString_accepted 1, ?_⟩
  rintro ⟨bytes, bundle, hdec, hparse, -, -⟩
  have hsame := decodeB64Url_of_b64Dec hdec
  rw [decode_sampleString] at hsame
  subst hsame
  have hflag := ((parseBundle_eq_ok_iff twoDevicesForms rfl).mp hparse).2
  cases hflag

end Vesper.Client
