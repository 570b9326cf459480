import Vesper.Server.Database
import Vesper.Lib.Fallible
import Vesper.Lib.Json
import Mathlib.Data.List.DropRight
import Mathlib.Data.Rat.Floor
import Mathlib.Tactic.Linarith

/-!
# Metadata of messages

`validateAndNormalizeMetadata` of `metadata.validator.ts`. Numbers are rationals, or infinite where a
literal was too large. What it returns is a normal form: the fields respect their limits, and such
fields are left as they are.
-/

namespace Vesper.Metadata
open Server (Text isSpace trim)
open Json (units)

/-! ## Values -/

inductive Number
  | finite (q : ℚ)
  | infinite (negative : Bool)

/-- What `JSON.parse` returns. The keys of an object are its own ones. -/
inductive Value
  | null
  | bool (b : Bool)
  | num (n : Number)
  | str (s : Text)
  | arr (xs : List Value)
  | obj (fields : List (Text × Value))

/-- `JSON`, and what `toLowerCase` makes of a unit beyond ASCII, which may depend on what stands around it. -/
structure Runtime where
  parse : Text → Option Value
  parse_nil : parse [] = none
  stringify : Value → Text
  lowerBeyond : Text → UInt16 → Text → Text

/-- `Buffer.byteLength(s, 'utf8')` -/
def byteLength (s : Text) : Nat := (Unicode.encode s).length

/-- `Math.round` -/
def round (q : ℚ) : ℚ := ⌊q + 1 / 2⌋

/-- `Math.min(1, Math.max(0, v))` -/
def clamp (v : ℚ) : ℚ := min 1 (max 0 v)

def lowerFrom (R : Runtime) : Text → Text → Text
  | _, [] => []
  | before, u :: rest =>
    (if u < 0x80 then [if 0x41 ≤ u ∧ u ≤ 0x5A then u + 0x20 else u] else R.lowerBeyond before u rest) ++
      lowerFrom R (u :: before) rest

def toLowerCase (R : Runtime) (s : Text) : Text := lowerFrom R [] s

def startsWith (s : Text) (start : String) : Bool := (units start).isPrefixOf s

/-- Whether a word occurs. -/
def occurs (s : Text) (word : String) : Bool := s.tails.any (startsWith · word)

/-! ## The validator -/

def MAX_METADATA_BYTES : Nat := 64 * 1024
def MAX_WAVEFORM_POINTS : Nat := 2000
def MAX_DURATION_SEC : ℚ := 3 * 3600
def MAX_DESTRUCT_SEC : ℚ := 7 * 24 * 3600

def FORBIDDEN_KEYS : List Text :=
  ["__proto__", "constructor", "prototype", "toString", "valueOf", "hasOwnProperty", "isPrototypeOf"].map units

def allowedKeys : List Text := ["waveform", "duration", "mimeType", "encrypted", "destructAfterSeconds"].map units

/-- Absent fields are `none`. -/
structure ValidatedMetadata where
  waveform : Option (List ℚ) := none
  duration : Option ℚ := none
  mimeType : Option Text := none
  encrypted : Option Unit := none
  destructAfterSeconds : Option ℚ := none

/-- `[a-z0-9+\-;=\s\."]` -/
def isMimeUnit (u : UInt16) : Bool :=
  (0x61 ≤ u && u ≤ 0x7A) || (0x30 ≤ u && u ≤ 0x39) || (units "+-;=.\"").contains u || isSpace u

def isSafeAudioMime (R : Runtime) (mime : Text) : Bool :=
  let normalized := trim (toLowerCase R mime)
  if !startsWith normalized "audio/" then false
  else if 100 < normalized.length then false
  else if ["html", "javascript", "script", "<", ">", "data:"].any (occurs normalized) then false
  else if !(normalized.drop 6 ≠ [] && (normalized.drop 6).all isMimeUnit) then false
  else true

section
variable (R : Runtime)

/-- The points from an index on. -/
def normalizePoints : Nat → List Value → Except Text (List ℚ)
  | _, [] => .ok []
  | i, .num (.finite v) :: rest => return clamp v :: (← normalizePoints (i + 1) rest)
  | i, _ :: _ => .error (units "metadata.waveform[" ++ units (toString i) ++ units "]: must be a finite number")

def validateWaveform : Value → Except Text (List ℚ)
  | .arr wf =>
    if MAX_WAVEFORM_POINTS < wf.length then .error (units "metadata.waveform: too many points")
    else normalizePoints 0 wf
  | _ => .error (units "metadata.waveform: must be an array")

def validateDuration : Value → Except Text ℚ
  | .num (.finite dur) =>
    if dur < 0 then .error (units "metadata.duration: must be a non-negative finite number")
    else if MAX_DURATION_SEC < dur then .error (units "metadata.duration: exceeds maximum")
    else .ok (round (dur * 1000) / 1000)
  | _ => .error (units "metadata.duration: must be a non-negative finite number")

def validateMimeType : Value → Except Text Text
  | .str mime =>
    let trimmed := trim mime
    if isSafeAudioMime R trimmed then .ok trimmed
    else .error (units "metadata.mimeType: \"" ++ mime ++ units "\" is not a valid audio MIME type")
  | _ => .error (units "metadata.mimeType: must be a string")

/-- Only `true` is kept. -/
def validateEncrypted : Value → Except Text (Option Unit)
  | .bool enc => .ok (if enc then some () else none)
  | _ => .error (units "metadata.encrypted: must be a boolean")

def validateDestructAfterSeconds : Value → Except Text ℚ
  | .num (.finite das) =>
    if das < 1 then .error (units "metadata.destructAfterSeconds: must be a positive integer (≥ 1 second)")
    else if MAX_DESTRUCT_SEC < das then
      .error (units "metadata.destructAfterSeconds: exceeds maximum of 604800s")
    else .ok (round das)
  | _ => .error (units "metadata.destructAfterSeconds: must be a positive integer (≥ 1 second)")

/-- A field that is checked if it is there. -/
def ifPresent (fields : List (Text × Value)) (key : String) {α : Type} (validate : Value → Except Text α) :
    Except Text (Option α) :=
  match fields.lookup (units key) with
  | none => .ok none
  | some v => some <$> validate v

def validateFields (fields : List (Text × Value)) : Except Text ValidatedMetadata :=
  match (fields.map Prod.fst).find? FORBIDDEN_KEYS.contains with
  | some key => .error (units "metadata: forbidden key \"" ++ key ++ units "\"")
  | none =>
    match (fields.map Prod.fst).find? (!allowedKeys.contains ·) with
    | some key => .error (units "metadata: unknown field \"" ++ key ++ units "\"")
    | none => do
      let waveform ← ifPresent fields "waveform" validateWaveform
      let duration ← ifPresent fields "duration" validateDuration
      let mimeType ← ifPresent fields "mimeType" (validateMimeType R)
      let encrypted ← ifPresent fields "encrypted" validateEncrypted
      let destructAfterSeconds ← ifPresent fields "destructAfterSeconds" validateDestructAfterSeconds
      return { waveform, duration, mimeType, encrypted := encrypted.join, destructAfterSeconds }

/-- What is validated, before it is printed. -/
def validateText (raw : Text) : Except Text ValidatedMetadata :=
  if MAX_METADATA_BYTES < byteLength raw then .error (units "metadata: exceeds maximum size of 64 KB")
  else
    match R.parse raw with
    | none => .error (units "metadata: invalid JSON")
    | some (.obj fields) => validateFields R fields
    | some _ => .error (units "metadata: must be a JSON object")

/-- The entries with a value. -/
def present (entries : List (Text × Option Value)) : List (Text × Value) :=
  entries.filterMap fun (key, v) => v.map (key, ·)

/-- The fields of the result, in the order in which they are set. -/
def ValidatedMetadata.entries (m : ValidatedMetadata) : List (Text × Option Value) :=
  [(units "waveform", m.waveform.map fun w => .arr (w.map fun p => .num (.finite p))),
    (units "duration", m.duration.map fun d => .num (.finite d)),
    (units "mimeType", m.mimeType.map .str),
    (units "encrypted", m.encrypted.map fun _ => .bool true),
    (units "destructAfterSeconds", m.destructAfterSeconds.map fun s => .num (.finite s))]

def ValidatedMetadata.fields (m : ValidatedMetadata) : List (Text × Value) := present m.entries

def validateAndNormalizeMetadata (raw : Option Text) : Except Text (Option Text) :=
  match raw with
  | none | some [] => .ok none
  | some raw => do
    let result ← validateText R raw
    if result.fields.length = 0 then return none
    else return some (R.stringify (.obj result.fields))

/-! ## The limits -/

structure ValidatedMetadata.Respects (m : ValidatedMetadata) : Prop where
  waveform : ∀ w ∈ m.waveform, w.length ≤ MAX_WAVEFORM_POINTS ∧ ∀ p ∈ w, 0 ≤ p ∧ p ≤ 1
  duration : ∀ d ∈ m.duration, 0 ≤ d ∧ d ≤ MAX_DURATION_SEC ∧ ∃ milliseconds : ℤ, d * 1000 = milliseconds
  mimeType : ∀ t ∈ m.mimeType, trim t = t ∧ isSafeAudioMime R t = true
  destructAfterSeconds : ∀ s ∈ m.destructAfterSeconds, 1 ≤ s ∧ s ≤ MAX_DESTRUCT_SEC ∧ ∃ seconds : ℤ, s = seconds

end

theorem round_intCast (n : ℤ) : round n = n := by
  rw [round, Int.floor_intCast_add, Int.floor_eq_zero_iff.2 (by norm_num), add_zero]

theorem intCast_le_round {q : ℚ} {n : ℤ} (h : n ≤ q) : (n : ℚ) ≤ round q :=
  Int.cast_le.2 (Int.le_floor.2 (by linarith))

theorem round_le_intCast {q : ℚ} {n : ℤ} (h : q ≤ n) : round q ≤ n := by
  have hround : round q ≤ round n := Int.cast_le.2 (Int.floor_le_floor (by linarith))
  rwa [round_intCast] at hround

theorem clamp_mem (v : ℚ) : 0 ≤ clamp v ∧ clamp v ≤ 1 :=
  ⟨le_min (by norm_num) (le_max_left ..), min_le_left ..⟩

theorem clamp_of_mem {v : ℚ} (h0 : 0 ≤ v) (h1 : v ≤ 1) : clamp v = v := by
  rw [clamp, max_eq_right h0, min_eq_right h1]

theorem trim_trim (s : Text) : trim (trim s) = trim s := by
  have hleft : (trim s).dropWhile isSpace = trim s := by
    rw [List.dropWhile_eq_self_iff]
    intro hpos hspace
    have hprefix : trim s <+: s.dropWhile isSpace := List.rdropWhile_prefix isSpace (s.dropWhile isSpace)
    obtain ⟨rest, hrest⟩ := hprefix
    have hpos' : 0 < (s.dropWhile isSpace).length := by
      rw [← hrest, List.length_append]
      exact Nat.lt_add_right _ hpos
    have hhead : (s.dropWhile isSpace)[0] = (trim s)[0] := by
      simp only [← hrest, List.getElem_append_left hpos]
    have hspace' : isSpace (s.dropWhile isSpace)[0] = true := hhead.symm ▸ hspace
    exact List.dropWhile_get_zero_not isSpace s hpos' hspace'
  have hright : List.rdropWhile isSpace (trim s) = trim s := List.rdropWhile_idempotent isSpace _
  rw [trim, hleft]
  exact hright

/-! ## Fields within their limits -/

theorem normalizePoints_ok {i : Nat} {points : List Value} {w : List ℚ} (h : normalizePoints i points = .ok w) :
    w.length = points.length ∧ ∀ p ∈ w, 0 ≤ p ∧ p ≤ 1 := by
  induction points generalizing i w with
  | nil =>
    cases h
    exact ⟨rfl, fun p hp => nomatch hp⟩
  | cons point rest ih =>
    unfold normalizePoints at h
    split at h
    · cases ‹_ :: _ = []›
    · rename_i v rest' hpoints
      obtain ⟨-, rfl⟩ := List.cons.inj hpoints
      obtain ⟨w', hrest, hw⟩ := bind_eq_ok.1 h
      cases hw
      obtain ⟨hlength, hrange⟩ := ih hrest
      exact ⟨congrArg (· + 1) hlength, List.forall_mem_cons.2 ⟨clamp_mem v, hrange⟩⟩
    · cases h

theorem normalizePoints_of_range (i : Nat) {w : List ℚ} (h : ∀ p ∈ w, 0 ≤ p ∧ p ≤ 1) :
    normalizePoints i (w.map fun p => .num (.finite p)) = .ok w := by
  induction w generalizing i with
  | nil => rfl
  | cons p rest ih =>
    obtain ⟨⟨h0, h1⟩, hrest⟩ := List.forall_mem_cons.1 h
    rw [List.map_cons, normalizePoints, ih (i + 1) hrest, clamp_of_mem h0 h1]
    rfl

variable {R : Runtime} {v : Value} {fields : List (Text × Value)} {m : ValidatedMetadata}

theorem validateWaveform_ok {w : List ℚ} (h : validateWaveform v = .ok w) :
    w.length ≤ MAX_WAVEFORM_POINTS ∧ ∀ p ∈ w, 0 ≤ p ∧ p ≤ 1 := by
  unfold validateWaveform at h
  split at h
  · split at h
    · cases h
    · rename_i hlength
      obtain ⟨heq, hrange⟩ := normalizePoints_ok h
      exact ⟨heq ▸ Nat.le_of_not_lt hlength, hrange⟩
  · cases h

theorem validateDuration_ok {d : ℚ} (h : validateDuration v = .ok d) :
    0 ≤ d ∧ d ≤ MAX_DURATION_SEC ∧ ∃ milliseconds : ℤ, d * 1000 = milliseconds := by
  unfold validateDuration at h
  split at h
  · rename_i dur
    split at h
    · cases h
    · split at h
      · cases h
      · rename_i hneg hmax
        cases h
        have hlower : ((0 : ℤ) : ℚ) ≤ round (dur * 1000) := intCast_le_round (by push_cast; linarith)
        have hupper : round (dur * 1000) ≤ ((10800000 : ℤ) : ℚ) := by
          refine round_le_intCast ?_
          rw [MAX_DURATION_SEC] at hmax
          push_cast
          linarith
        refine ⟨by push_cast at hlower; positivity, ?_, ⌊dur * 1000 + 1 / 2⌋, ?_⟩
        · rw [MAX_DURATION_SEC, div_le_iff₀ (by norm_num)]
          push_cast at hupper
          linarith
        · rw [div_mul_cancel₀ _ (by norm_num), round]
  · cases h

theorem validateMimeType_ok {t : Text} (h : validateMimeType R v = .ok t) :
    trim t = t ∧ isSafeAudioMime R t = true := by
  unfold validateMimeType at h
  split at h
  · dsimp only at h
    split at h
    · rename_i mime hsafe
      cases h
      exact ⟨trim_trim mime, hsafe⟩
    · cases h
  · cases h

theorem validateDestructAfterSeconds_ok {s : ℚ} (h : validateDestructAfterSeconds v = .ok s) :
    1 ≤ s ∧ s ≤ MAX_DESTRUCT_SEC ∧ ∃ seconds : ℤ, s = seconds := by
  unfold validateDestructAfterSeconds at h
  split at h
  · rename_i das
    split at h
    · cases h
    · split at h
      · cases h
      · rename_i hone hmax
        cases h
        have hlower : ((1 : ℤ) : ℚ) ≤ round das := intCast_le_round (by push_cast; linarith)
        have hupper : round das ≤ ((604800 : ℤ) : ℚ) := by
          refine round_le_intCast ?_
          rw [MAX_DESTRUCT_SEC] at hmax
          push_cast
          linarith
        push_cast at hlower hupper
        refine ⟨hlower, ?_, ⌊das + 1 / 2⌋, rfl⟩
        rw [MAX_DESTRUCT_SEC]
        linarith
  · cases h

/-! ## The fields together -/

theorem ifPresent_ok {key : String} {α : Type} {validate : Value → Except Text α} {r : Option α} {a : α}
    (h : ifPresent fields key validate = .ok r) (ha : a ∈ r) : ∃ v, validate v = .ok a := by
  unfold ifPresent at h
  split at h
  · cases h
    cases ha
  · rename_i v _
    cases hvalidate : validate v with
    | error e =>
      rw [hvalidate] at h
      cases h
    | ok b =>
      rw [hvalidate] at h
      cases h
      cases ha
      exact ⟨v, hvalidate⟩

theorem validateFields_respects (h : validateFields R fields = .ok m) : m.Respects R := by
  unfold validateFields at h
  split at h
  · cases h
  · split at h
    · cases h
    · obtain ⟨waveform, hwaveform, h⟩ := bind_eq_ok.1 h
      obtain ⟨duration, hduration, h⟩ := bind_eq_ok.1 h
      obtain ⟨mimeType, hmimeType, h⟩ := bind_eq_ok.1 h
      obtain ⟨encrypted, -, h⟩ := bind_eq_ok.1 h
      obtain ⟨destructAfterSeconds, hdestruct, h⟩ := bind_eq_ok.1 h
      cases h
      exact {
        waveform := fun w hw => (ifPresent_ok hwaveform hw).elim fun _ => validateWaveform_ok
        duration := fun d hd => (ifPresent_ok hduration hd).elim fun _ => validateDuration_ok
        mimeType := fun t ht => (ifPresent_ok hmimeType ht).elim fun _ => validateMimeType_ok
        destructAfterSeconds := fun s hs =>
          (ifPresent_ok hdestruct hs).elim fun _ => validateDestructAfterSeconds_ok }

theorem validateWaveform_of_range {w : List ℚ} (hlength : w.length ≤ MAX_WAVEFORM_POINTS)
    (h : ∀ p ∈ w, 0 ≤ p ∧ p ≤ 1) : validateWaveform (.arr (w.map fun p => .num (.finite p))) = .ok w := by
  rw [validateWaveform, List.length_map, if_neg (Nat.not_lt.2 hlength)]
  exact normalizePoints_of_range 0 h

theorem round_of_eq {q : ℚ} (h : ∃ n : ℤ, q = n) : round q = q := by
  obtain ⟨n, rfl⟩ := h
  exact round_intCast n

theorem validateDuration_of_range {d : ℚ} (h0 : 0 ≤ d) (hmax : d ≤ MAX_DURATION_SEC)
    (hms : ∃ milliseconds : ℤ, d * 1000 = milliseconds) : validateDuration (.num (.finite d)) = .ok d := by
  rw [validateDuration, if_neg (not_lt.2 h0), if_neg (not_lt.2 hmax), round_of_eq hms,
    mul_div_cancel_right₀ _ (by norm_num)]

theorem validateMimeType_of_safe {t : Text} (htrim : trim t = t) (hsafe : isSafeAudioMime R t = true) :
    validateMimeType R (.str t) = .ok t := by
  rw [validateMimeType, htrim, if_pos hsafe]

theorem validateDestructAfterSeconds_of_range {s : ℚ} (h1 : 1 ≤ s) (hmax : s ≤ MAX_DESTRUCT_SEC)
    (hsec : ∃ seconds : ℤ, s = seconds) : validateDestructAfterSeconds (.num (.finite s)) = .ok s := by
  rw [validateDestructAfterSeconds, if_neg (not_lt.2 h1), if_neg (not_lt.2 hmax), round_of_eq hsec]

/-! ## What the result holds -/

theorem fst_mem_of_present {entries : List (Text × Option Value)} {field : Text × Value}
    (h : field ∈ present entries) : field.1 ∈ entries.map Prod.fst := by
  obtain ⟨⟨key, x⟩, hentry, hfield⟩ := List.mem_filterMap.1 h
  obtain ⟨v, -, rfl⟩ := Option.map_eq_some_iff.1 hfield
  exact List.mem_map_of_mem hentry

theorem lookup_eq_none_of_not_mem {key : Text} {fields : List (Text × Value)} (h : key ∉ fields.map Prod.fst) :
    fields.lookup key = none := by
  rw [List.lookup_eq_none_iff]
  intro field hfield
  exact bne_iff_ne.2 fun heq => h (heq ▸ List.mem_map_of_mem hfield)

theorem lookup_present {entries : List (Text × Option Value)} {key : Text} {x : Option Value}
    (hkeys : (entries.map Prod.fst).Nodup) (h : (key, x) ∈ entries) : (present entries).lookup key = x := by
  induction entries with
  | nil => cases h
  | cons entry rest ih =>
    obtain ⟨key', y⟩ := entry
    obtain ⟨hnew, hrest⟩ := List.nodup_cons.1 hkeys
    cases List.mem_cons.1 h with
    | inl heq =>
      cases heq
      cases x with
      | none =>
        refine lookup_eq_none_of_not_mem fun hmem => hnew ?_
        obtain ⟨field, hfield, rfl⟩ := List.mem_map.1 hmem
        exact fst_mem_of_present hfield
      | some v => exact List.lookup_cons_self
    | inr hmem =>
      have hmem' : key ∈ rest.map Prod.fst := List.mem_map_of_mem hmem
      have hne : key ≠ key' := fun heq => hnew (heq ▸ hmem')
      cases y with
      | none => exact ih hrest hmem
      | some v =>
        change List.lookup key ((key', v) :: present rest) = x
        rw [List.lookup_cons, beq_false_of_ne hne]
        exact ih hrest hmem

theorem map_fst_entries (m : ValidatedMetadata) : m.entries.map Prod.fst = allowedKeys := rfl

theorem nodup_allowedKeys : allowedKeys.Nodup := by decide

theorem mem_allowedKeys_of_fields {key : Text} (h : key ∈ m.fields.map Prod.fst) : key ∈ allowedKeys := by
  obtain ⟨field, hfield, rfl⟩ := List.mem_map.1 h
  exact fst_mem_of_present hfield

theorem lookup_fields {key : Text} {x : Option Value} (h : (key, x) ∈ m.entries) : m.fields.lookup key = x :=
  lookup_present (map_fst_entries m ▸ nodup_allowedKeys) h

theorem ifPresent_fields {key : String} {α β : Type} {x : Option α} {f : α → Value} {g : α → β}
    {validate : Value → Except Text β} (hentry : (units key, x.map f) ∈ m.entries)
    (h : ∀ a ∈ x, validate (f a) = .ok (g a)) : ifPresent m.fields key validate = .ok (x.map g) := by
  rw [ifPresent, lookup_fields hentry]
  cases x with
  | none => rfl
  | some a =>
    change some <$> validate (f a) = _
    rw [h a rfl]
    rfl

theorem not_forbidden : ∀ key ∈ allowedKeys, FORBIDDEN_KEYS.contains key = false := by decide

/-- What respects the limits is left as it is. -/
theorem validateFields_fields (h : m.Respects R) : validateFields R m.fields = .ok m := by
  have hforbidden : (m.fields.map Prod.fst).find? FORBIDDEN_KEYS.contains = none :=
    List.find?_eq_none.2 fun key hkey hmem => by
      rw [not_forbidden key (mem_allowedKeys_of_fields hkey)] at hmem
      cases hmem
  have hunknown : (m.fields.map Prod.fst).find? (!allowedKeys.contains ·) = none :=
    List.find?_eq_none.2 fun key hkey hmem => by
      rw [List.contains_iff_mem.2 (mem_allowedKeys_of_fields hkey)] at hmem
      cases hmem
  have hwaveform : ifPresent m.fields "waveform" validateWaveform = .ok (m.waveform.map id) :=
    ifPresent_fields (.head _) fun w hw =>
      validateWaveform_of_range (h.waveform w hw).1 (h.waveform w hw).2
  have hduration : ifPresent m.fields "duration" validateDuration = .ok (m.duration.map id) :=
    ifPresent_fields (.tail _ (.head _)) fun d hd =>
      validateDuration_of_range (h.duration d hd).1 (h.duration d hd).2.1 (h.duration d hd).2.2
  have hmimeType : ifPresent m.fields "mimeType" (validateMimeType R) = .ok (m.mimeType.map id) :=
    ifPresent_fields (.tail _ (.tail _ (.head _))) fun t ht =>
      validateMimeType_of_safe (h.mimeType t ht).1 (h.mimeType t ht).2
  have hencrypted : ifPresent m.fields "encrypted" validateEncrypted = .ok (m.encrypted.map some) :=
    ifPresent_fields (.tail _ (.tail _ (.tail _ (.head _)))) fun _ _ => rfl
  have hdestruct : ifPresent m.fields "destructAfterSeconds" validateDestructAfterSeconds =
      .ok (m.destructAfterSeconds.map id) :=
    ifPresent_fields (.tail _ (.tail _ (.tail _ (.tail _ (.head _))))) fun s hs =>
      validateDestructAfterSeconds_of_range (h.destructAfterSeconds s hs).1 (h.destructAfterSeconds s hs).2.1
        (h.destructAfterSeconds s hs).2.2
  rw [validateFields, hforbidden, hunknown, hwaveform, hduration, hmimeType, hencrypted, hdestruct]
  simp only [Option.map_id_fun, id_eq]
  cases m with
  | mk waveform duration mimeType encrypted destructAfterSeconds =>
    cases encrypted <;> rfl

theorem validateText_respects {raw : Text} (h : validateText R raw = .ok m) : m.Respects R := by
  unfold validateText at h
  split at h
  · cases h
  · split at h
    · cases h
    · exact validateFields_respects h
    · cases h

/-- What is returned was printed from metadata that respect the limits. -/
theorem validateAndNormalizeMetadata_some {raw : Option Text} {v : Text}
    (h : validateAndNormalizeMetadata R raw = .ok (some v)) :
    ∃ text m, raw = some text ∧ validateText R text = .ok m ∧ m.Respects R ∧ m.fields.length ≠ 0 ∧
      v = R.stringify (.obj m.fields) := by
  unfold validateAndNormalizeMetadata at h
  split at h
  · cases h
  · cases h
  · rename_i text _
    obtain ⟨m, hm, h⟩ := bind_eq_ok.1 h
    split at h
    · cases h
    · rename_i hfields
      cases h
      exact ⟨text, m, rfl, hm, validateText_respects hm, hfields, rfl⟩

theorem validateAndNormalizeMetadata_of_parse {v : Text} (hsize : byteLength v ≤ MAX_METADATA_BYTES)
    (hparse : R.parse v = some (.obj m.fields)) (h : m.Respects R) (hfields : m.fields.length ≠ 0) :
    validateAndNormalizeMetadata R (some v) = .ok (some (R.stringify (.obj m.fields))) := by
  have htext : validateText R v = .ok m := by
    rw [validateText, if_neg (Nat.not_lt.2 hsize), hparse]
    exact validateFields_fields h
  cases v with
  | nil =>
    rw [R.parse_nil] at hparse
    cases hparse
  | cons u rest =>
    rw [validateAndNormalizeMetadata, htext]
    exact if_neg hfields
    intro h
    cases h

end Vesper.Metadata
