import Vesper.Server.MetadataValidator

/-!
# Metadata at the client

`parseMetadata.ts`, which never fails: what it does not understand is replaced by a default. What the server
returns is read back field by field.
-/

namespace Vesper.Metadata.Client
open Server (Text trim)
open Json (units)

structure MessageMetadata where
  waveform : List ℚ
  duration : ℚ
  mimeType : Text
  encrypted : Bool
  destructAfterSeconds : Option ℚ := none

/-- The runtime, with `parseFloat(String(v))` for what is no number: `none` is `NaN`. -/
structure Browser extends Runtime where
  parseFloat : Value → Option Number

def FORBIDDEN_KEYS : List Text := ["__proto__", "constructor", "prototype", "toString", "valueOf"].map units

def DEFAULTS : MessageMetadata where
  waveform := []
  duration := 0
  mimeType := units "audio/webm"
  encrypted := false

def isSafeAudioMime (R : Runtime) (mime : Text) : Bool :=
  let normalized := trim (toLowerCase R mime)
  if !startsWith normalized "audio/" then false
  else if 100 < normalized.length then false
  else if ["html", "javascript", "script", "<", ">"].any (occurs normalized) then false
  else true

variable (B : Browser)

/-- `typeof v === 'number' ? v : parseFloat(String(v))` -/
def toNumber : Value → Option Number
  | .num n => some n
  | v => B.parseFloat v

def parsePoint (v : Value) : ℚ :=
  match toNumber B v with
  | some (.finite n) => clamp n
  | _ => 0.05

def parseWaveform : Option Value → List ℚ
  | some (.arr rawWaveform) => (rawWaveform.take 2000).map (parsePoint B)
  | _ => []

def parseDuration : Option Value → ℚ
  | none => 0
  | some rawDuration =>
    match toNumber B rawDuration with
    | some (.finite n) => if 0 ≤ n ∧ n ≤ 10800 then n else 0
    | _ => 0

def parseMimeType : Option Value → Text
  | some (.str rawMime) =>
    if trim rawMime ≠ [] ∧ isSafeAudioMime B.toRuntime (trim rawMime) then trim rawMime else DEFAULTS.mimeType
  | _ => DEFAULTS.mimeType

def parseEncrypted : Option Value → Bool
  | some (.bool true) => true
  | _ => false

def parseDestructAfterSeconds : Option Value → Option ℚ
  | none => none
  | some rawDas =>
    match toNumber B rawDas with
    | some (.finite n) => if 1 ≤ n ∧ n ≤ 7 * 24 * 3600 then some (round n) else none
    | _ => none

def parseFields (fields : List (Text × Value)) : MessageMetadata where
  waveform := parseWaveform B (fields.lookup (units "waveform"))
  duration := parseDuration B (fields.lookup (units "duration"))
  mimeType := parseMimeType B (fields.lookup (units "mimeType"))
  encrypted := parseEncrypted (fields.lookup (units "encrypted"))
  destructAfterSeconds := parseDestructAfterSeconds B (fields.lookup (units "destructAfterSeconds"))

def parseMetadata (raw : Option Text) : MessageMetadata :=
  match raw with
  | none | some [] => DEFAULTS
  | some raw =>
    match B.parse raw with
    | some (.obj fields) =>
      if FORBIDDEN_KEYS.any (fields.map Prod.fst).contains then DEFAULTS else parseFields B fields
    | _ => DEFAULTS

/-- The fields of the server, and the defaults for those that are absent. -/
def withDefaults (m : ValidatedMetadata) : MessageMetadata where
  waveform := m.waveform.getD DEFAULTS.waveform
  duration := m.duration.getD DEFAULTS.duration
  mimeType := m.mimeType.getD DEFAULTS.mimeType
  encrypted := m.encrypted.isSome
  destructAfterSeconds := m.destructAfterSeconds

/-! ## Fields that respect the limits of the server -/

variable {B} {m : ValidatedMetadata}

/-- The server is the stricter one. -/
theorem isSafeAudioMime_of_server {R : Runtime} {mime : Text} (h : Metadata.isSafeAudioMime R mime = true) :
    isSafeAudioMime R mime = true := by
  unfold Metadata.isSafeAudioMime at h
  unfold isSafeAudioMime
  dsimp only at h ⊢
  split at h
  · cases h
  · rename_i haudio
    split at h
    · cases h
    · rename_i hlength
      split at h
      · cases h
      · rename_i hwords
        rw [if_neg haudio, if_neg hlength, if_neg fun hany => hwords ?_]
        obtain ⟨word, hword, hoccurs⟩ := List.any_eq_true.1 hany
        refine List.any_eq_true.2 ⟨word, ?_, hoccurs⟩
        exact List.mem_append_left ["data:"] hword

theorem ne_nil_of_safe {R : Runtime} {mime : Text} (h : Metadata.isSafeAudioMime R mime = true) : mime ≠ [] := by
  rintro rfl
  cases h

theorem parsePoint_map {w : List ℚ} (h : ∀ p ∈ w, 0 ≤ p ∧ p ≤ 1) :
    (w.map fun p => .num (.finite p)).map (parsePoint B) = w := by
  rw [List.map_map]
  exact (List.map_congr_left fun p hp => clamp_of_mem (h p hp).1 (h p hp).2).trans (List.map_id w)

theorem parseWaveform_map {w : Option (List ℚ)}
    (h : ∀ x ∈ w, x.length ≤ MAX_WAVEFORM_POINTS ∧ ∀ p ∈ x, 0 ≤ p ∧ p ≤ 1) :
    parseWaveform B (w.map fun x => .arr (x.map fun p => .num (.finite p))) = w.getD [] := by
  cases w with
  | none => rfl
  | some x =>
    obtain ⟨hlength, hrange⟩ := h x rfl
    change ((x.map _).take 2000).map (parsePoint B) = x
    rw [List.take_of_length_le (by rwa [List.length_map]), parsePoint_map hrange]

theorem parseDuration_map {d : Option ℚ} (h : ∀ x ∈ d, 0 ≤ x ∧ x ≤ MAX_DURATION_SEC) :
    parseDuration B (d.map fun x => .num (.finite x)) = d.getD 0 := by
  cases d with
  | none => rfl
  | some x =>
    obtain ⟨h0, hmax⟩ := h x rfl
    rw [MAX_DURATION_SEC] at hmax
    exact if_pos ⟨h0, by linarith⟩

theorem parseMimeType_map {t : Option Text}
    (h : ∀ x ∈ t, trim x = x ∧ Metadata.isSafeAudioMime B.toRuntime x = true) :
    parseMimeType B (t.map .str) = t.getD DEFAULTS.mimeType := by
  cases t with
  | none => rfl
  | some x =>
    obtain ⟨htrim, hsafe⟩ := h x rfl
    change (if trim x ≠ [] ∧ isSafeAudioMime B.toRuntime (trim x) then trim x else _) = x
    rw [htrim, if_pos ⟨ne_nil_of_safe hsafe, isSafeAudioMime_of_server hsafe⟩]

theorem parseEncrypted_map (e : Option Unit) : parseEncrypted (e.map fun _ => .bool true) = e.isSome := by
  cases e <;> rfl

theorem parseDestructAfterSeconds_map {s : Option ℚ}
    (h : ∀ x ∈ s, 1 ≤ x ∧ x ≤ MAX_DESTRUCT_SEC ∧ ∃ seconds : ℤ, x = seconds) :
    parseDestructAfterSeconds B (s.map fun x => .num (.finite x)) = s := by
  cases s with
  | none => rfl
  | some x =>
    obtain ⟨h1, hmax, hsec⟩ := h x rfl
    change (if 1 ≤ x ∧ x ≤ 7 * 24 * 3600 then some (round x) else none) = some x
    rw [MAX_DESTRUCT_SEC] at hmax
    rw [if_pos ⟨h1, hmax⟩, round_of_eq hsec]

theorem parseFields_fields (h : m.Respects B.toRuntime) : parseFields B m.fields = withDefaults m := by
  have hwaveform := lookup_fields (m := m) (.head _)
  have hduration := lookup_fields (m := m) (.tail _ (.head _))
  have hmimeType := lookup_fields (m := m) (.tail _ (.tail _ (.head _)))
  have hencrypted := lookup_fields (m := m) (.tail _ (.tail _ (.tail _ (.head _))))
  have hdestruct := lookup_fields (m := m) (.tail _ (.tail _ (.tail _ (.tail _ (.head _)))))
  rw [parseFields, hwaveform, hduration, hmimeType, hencrypted, hdestruct, parseWaveform_map h.waveform,
    parseDuration_map fun d hd => ⟨(h.duration d hd).1, (h.duration d hd).2.1⟩, parseMimeType_map h.mimeType,
    parseEncrypted_map, parseDestructAfterSeconds_map h.destructAfterSeconds]
  rfl

theorem not_forbidden : ∀ key ∈ FORBIDDEN_KEYS, key ∉ allowedKeys := by decide

theorem parseMetadata_of_parse {v : Text} (hparse : B.parse v = some (.obj m.fields))
    (h : m.Respects B.toRuntime) : parseMetadata B (some v) = withDefaults m := by
  have hforbidden : FORBIDDEN_KEYS.any (m.fields.map Prod.fst).contains = false :=
    List.any_eq_false.2 fun key hkey hmem =>
      not_forbidden key hkey (mem_allowedKeys_of_fields (List.contains_iff_mem.1 hmem))
  cases v with
  | nil =>
    rw [B.parse_nil] at hparse
    cases hparse
  | cons u rest =>
    simp only [parseMetadata, hparse, hforbidden]
    exact parseFields_fields h

/-- **Normal form**: what the server returns is returned again for itself; it is an object of fields that
respect their limits; and the client reads just these fields, with defaults for those that are absent. -/
theorem metadata_normal_form (B : Browser) (raw : Option Text) (v : Text)
    (h : validateAndNormalizeMetadata B.toRuntime raw = .ok (some v))
    (hjson : ∀ text m, raw = some text → validateText B.toRuntime text = .ok m →
      B.parse (B.stringify (.obj m.fields)) = some (.obj m.fields))
    (hsize : byteLength v ≤ MAX_METADATA_BYTES) :
    validateAndNormalizeMetadata B.toRuntime (some v) = .ok (some v) ∧
    ∃ m : ValidatedMetadata, B.parse v = some (.obj m.fields) ∧ m.Respects B.toRuntime ∧
      parseMetadata B (some v) = withDefaults m := by
  obtain ⟨text, m, hraw, hm, hrespects, hfields, rfl⟩ := validateAndNormalizeMetadata_some h
  have hparse := hjson text m hraw hm
  exact ⟨validateAndNormalizeMetadata_of_parse hsize hparse hrespects hfields, m, hparse, hrespects,
    parseMetadata_of_parse hparse hrespects⟩

def sampleRaw : Text :=
  units "\x7b\"waveform\":[2],\"duration\":1.0004,\"mimeType\":\" audio/webm \",\"encrypted\":false\x7d"

def sampleNormalized : Text :=
  units "\x7b\"waveform\":[1],\"duration\":1,\"mimeType\":\"audio/webm\"\x7d"

def sampleMetadata : ValidatedMetadata where
  waveform := some [1]
  duration := some 1
  mimeType := some (units "audio/webm")

def sampleFields : List (Text × Value) :=
  [(units "waveform", .arr [.num (.finite 2)]), (units "duration", .num (.finite 1.0004)),
    (units "mimeType", .str (units " audio/webm ")), (units "encrypted", .bool false)]

/-- A browser that knows two texts. -/
def sampleBrowser : Browser where
  parse text :=
    if text = sampleRaw then some (.obj sampleFields)
    else if text = sampleNormalized then some (.obj sampleMetadata.fields)
    else none
  parse_nil := rfl
  stringify _ := sampleNormalized
  lowerBeyond _ u _ := [u]
  parseFloat _ := none

theorem parse_sampleRaw : sampleBrowser.parse sampleRaw = some (.obj sampleFields) := by
  dsimp only [sampleBrowser]
  rw [if_pos rfl]

theorem parse_sampleNormalized :
    sampleBrowser.parse sampleNormalized = some (.obj sampleMetadata.fields) := by
  have hne : sampleNormalized ≠ sampleRaw := by decide +kernel
  dsimp only [sampleBrowser]
  rw [if_neg hne, if_pos rfl]

theorem validateText_sample : validateText sampleBrowser.toRuntime sampleRaw = .ok sampleMetadata := by
  have hsize : ¬ MAX_METADATA_BYTES < byteLength sampleRaw := by decide +kernel
  have hduration : validateDuration (.num (.finite 1.0004)) = .ok 1 := by
    rw [validateDuration, if_neg (by norm_num), if_neg (by rw [MAX_DURATION_SEC]; norm_num)]
    norm_num [round]
  have hpresent : ifPresent sampleFields "duration" validateDuration = .ok (some 1) := by
    change some <$> validateDuration (.num (.finite 1.0004)) = _
    rw [hduration]
    rfl
  rw [validateText, if_neg hsize, parse_sampleRaw]
  change validateFields sampleBrowser.toRuntime sampleFields = _
  have hforbidden : (sampleFields.map Prod.fst).find? Metadata.FORBIDDEN_KEYS.contains = none := by decide +kernel
  have hunknown : (sampleFields.map Prod.fst).find? (!allowedKeys.contains ·) = none := by decide +kernel
  rw [validateFields, hforbidden, hunknown]
  simp only [hpresent]
  rfl

theorem metadata_normal_form_sample :
    validateAndNormalizeMetadata sampleBrowser.toRuntime (some sampleNormalized) = .ok (some sampleNormalized) ∧
    ∃ m : ValidatedMetadata, sampleBrowser.parse sampleNormalized = some (.obj m.fields) ∧
      m.Respects sampleBrowser.toRuntime ∧
      parseMetadata sampleBrowser (some sampleNormalized) = withDefaults m := by
  have hraw : validateAndNormalizeMetadata sampleBrowser.toRuntime (some sampleRaw) =
      validateText sampleBrowser.toRuntime sampleRaw >>= fun result =>
        if result.fields.length = 0 then .ok none
        else .ok (some (sampleBrowser.stringify (.obj result.fields))) := by rfl
  refine metadata_normal_form sampleBrowser (some sampleRaw) sampleNormalized ?_ (fun text m htext hm => ?_)
    (by decide +kernel)
  · rw [hraw, validateText_sample]
    rfl
  · obtain rfl := Option.some.inj htext
    obtain rfl := Except.ok.inj (validateText_sample.symm.trans hm)
    exact parse_sampleNormalized

end Vesper.Metadata.Client
