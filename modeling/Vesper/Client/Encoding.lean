import Vesper.Lib.Base64
import Vesper.Client.Session

/-!
# Bytes as strings

`b64Enc` and `b64Dec` of `useE2E.ts`. What is encoded is decoded; but the encoder spreads its bytes over
the arguments of one call, of which an engine takes only so many.
-/

namespace Vesper.Client
open Unicode (Utf16)
open Base64

/-- `s.replace(/a/g, 'b')` for two characters. -/
def replaceAll (a b : UInt16) (s : Utf16) : Utf16 := s.map fun c => if c = a then b else c

/-- `-` becomes `+` and `_` becomes `/`. -/
def standard (s : Utf16) : Utf16 := replaceAll 95 47 (replaceAll 45 43 s)

/-- `maxArgs` is how many arguments the engine takes; `String.fromCharCode(...a)` throws on more. -/
def b64Enc (maxArgs : Nat) (a : Bytes) : Except Thrown Utf16 :=
  if maxArgs < a.length then .error (.js "Maximum call stack size exceeded")
  else .ok ((replaceAll 47 95 (replaceAll 43 45 (btoa a))).filter (· ≠ pad))

def b64Dec (s : Utf16) : Except Thrown Bytes :=
  let p := standard s
  match atob (p ++ List.replicate ((4 - p.length % 4) % 4) pad) with
  | some b => .ok b
  | none => .error (.js "The string to be decoded is not correctly encoded.")

/-- The character of a value in the alphabet for URLs. -/
def urlChar (v : Fin 64) : UInt16 :=
  let c := char v
  let c := if c = 43 then 45 else c
  if c = 47 then 95 else c

theorem urlChar_ne_pad (v : Fin 64) : urlChar v ≠ pad := by
  revert v
  decide

theorem isSpace_char (v : Fin 64) : isSpace (char v) = false := by
  revert v
  decide

theorem standard_urlChar (v : Fin 64) : standard [urlChar v] = [char v] := by
  revert v
  decide

theorem standard_map_urlChar (vs : List (Fin 64)) : standard (vs.map urlChar) = vs.map char := by
  induction vs with
  | nil => rfl
  | cons v vs ih =>
    have happend : standard (urlChar v :: vs.map urlChar) =
        standard [urlChar v] ++ standard (vs.map urlChar) := rfl
    rw [List.map_cons, happend, standard_urlChar, ih]
    rfl

theorem b64Enc_eq_ok_iff {maxArgs : Nat} {a : Bytes} {s : Utf16} :
    b64Enc maxArgs a = .ok s ↔ a.length ≤ maxArgs ∧ s = (toSextets a).map urlChar := by
  have hchars : (replaceAll 47 95 (replaceAll 43 45 (btoa a))).filter (· ≠ pad) =
      (toSextets a).map urlChar := by
    have hpads : ∀ k, (replaceAll 47 95 (replaceAll 43 45 (List.replicate k pad))).filter (· ≠ pad) = [] := by
      intro k
      simp [replaceAll, List.map_replicate, pad]
    have hsplit : replaceAll 47 95 (replaceAll 43 45 (btoa a)) = (toSextets a).map urlChar ++
        replaceAll 47 95 (replaceAll 43 45 (List.replicate ((4 - (toSextets a).length % 4) % 4) pad)) := by
      simp only [btoa, replaceAll, List.map_append, List.map_map]
      rfl
    rw [hsplit, List.filter_append, hpads, List.append_nil, List.filter_eq_self]
    intro c hc
    obtain ⟨v, -, rfl⟩ := List.mem_map.mp hc
    simpa using urlChar_ne_pad v
  rw [b64Enc, hchars]
  split
  · rename_i h
    exact iff_of_false nofun fun hle => absurd hle.1 (by omega)
  · rename_i h
    rw [Except.ok.injEq, and_iff_right (Nat.not_lt.mp h)]
    exact eq_comm

/-- What the encoder makes, the decoder reads. -/
theorem b64Dec_map_urlChar (a : Bytes) : b64Dec ((toSextets a).map urlChar) = .ok a := by
  have hmod := length_toSextets_mod a
  have hatob : atob ((toSextets a).map char ++
      List.replicate ((4 - ((toSextets a).map char).length % 4) % 4) pad) = some a := by
    rw [List.length_map]
    refine atob_eq_some_iff.mpr ⟨(toSextets a).map char, (4 - (toSextets a).length % 4) % 4, toSextets a, ?_,
      mapM_value?_map_char _, ofSextets_toSextets a, ?_, ?_⟩
    · refine List.filter_eq_self.mpr fun c hc => ?_
      rcases List.mem_append.mp hc with hc | hc
      · obtain ⟨v, -, rfl⟩ := List.mem_map.mp hc
        rw [isSpace_char]
        rfl
      · rw [List.eq_of_mem_replicate hc]
        rfl
    · rwa [List.length_map]
    · rw [List.length_map]
      omega
  rw [b64Dec, standard_map_urlChar, hatob]

theorem b64Dec_of_b64Enc {maxArgs : Nat} {a : Bytes} {s : Utf16} (h : b64Enc maxArgs a = .ok s) :
    b64Dec s = .ok a := by
  obtain ⟨-, rfl⟩ := b64Enc_eq_ok_iff.mp h
  exact b64Dec_map_urlChar a

end Vesper.Client
