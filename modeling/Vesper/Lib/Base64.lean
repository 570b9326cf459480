import Vesper.Lib.Unicode

/-!
# Base64

Groups of six bits and bytes, the encoder `btoa`, and two decoders: the forgiving one of the web platform
(`atob`) and one that skips what it does not know. What the first accepts, both read alike.
-/

namespace Base64
open Unicode (Utf16)

/-! ## Sextets -/

/-- The bytes of a sequence of six-bit groups; bits that fill no byte are dropped. -/
def ofSextets : List (Fin 64) → List UInt8
  | a :: b :: c :: d :: rest =>
    .ofNat (a.val * 4 + b.val / 16) :: .ofNat (b.val % 16 * 16 + c.val / 4) ::
      .ofNat (c.val % 4 * 64 + d.val) :: ofSextets rest
  | [a, b, c] => [.ofNat (a.val * 4 + b.val / 16), .ofNat (b.val % 16 * 16 + c.val / 4)]
  | [a, b] => [.ofNat (a.val * 4 + b.val / 16)]
  | [_] => []
  | [] => []

def toSextets : List UInt8 → List (Fin 64)
  | x :: y :: z :: rest =>
    .ofNat 64 (x.toNat / 4) :: .ofNat 64 (x.toNat % 4 * 16 + y.toNat / 16) ::
      .ofNat 64 (y.toNat % 16 * 4 + z.toNat / 64) :: .ofNat 64 (z.toNat % 64) :: toSextets rest
  | [x, y] =>
    [.ofNat 64 (x.toNat / 4), .ofNat 64 (x.toNat % 4 * 16 + y.toNat / 16), .ofNat 64 (y.toNat % 16 * 4)]
  | [x] => [.ofNat 64 (x.toNat / 4), .ofNat 64 (x.toNat % 4 * 16)]
  | [] => []

/-- A byte from two numbers that carry its high and its low bits. -/
theorem ofNat_eq {x : UInt8} {n : Nat} (h : n % 256 = x.toNat) : UInt8.ofNat n = x := by
  rw [← UInt8.toNat_inj, UInt8.toNat_ofNat', h]

theorem ofSextets_toSextets (bytes : List UInt8) : ofSextets (toSextets bytes) = bytes := by
  induction bytes using toSextets.induct with
  | case1 x y z rest ih =>
    have hx := x.toNat_lt
    have hy := y.toNat_lt
    have hz := z.toNat_lt
    rw [toSextets, ofSextets, ih]
    refine List.cons_eq_cons.mpr ⟨ofNat_eq ?_, List.cons_eq_cons.mpr ⟨ofNat_eq ?_,
      List.cons_eq_cons.mpr ⟨ofNat_eq ?_, rfl⟩⟩⟩
    all_goals simp only [Fin.val_ofNat]; omega
  | case2 x y =>
    have hx := x.toNat_lt
    have hy := y.toNat_lt
    rw [toSextets, ofSextets]
    refine List.cons_eq_cons.mpr ⟨ofNat_eq ?_, List.cons_eq_cons.mpr ⟨ofNat_eq ?_, rfl⟩⟩
    all_goals simp only [Fin.val_ofNat]; omega
  | case3 x =>
    have hx := x.toNat_lt
    rw [toSextets, ofSextets]
    refine List.cons_eq_cons.mpr ⟨ofNat_eq ?_, rfl⟩
    simp only [Fin.val_ofNat]; omega
  | case4 => rfl

theorem length_ofSextets (vs : List (Fin 64)) : (ofSextets vs).length = vs.length * 3 / 4 := by
  induction vs using ofSextets.induct with
  | case1 a b c d rest ih =>
    simp only [ofSextets, List.length_cons, ih]
    omega
  | case2 | case3 | case4 | case5 => simp [ofSextets]

theorem length_toSextets_mod (bytes : List UInt8) : (toSextets bytes).length % 4 ≠ 1 := by
  induction bytes using toSextets.induct with
  | case1 x y z rest ih =>
    simp only [toSextets, List.length_cons]
    omega
  | case2 | case3 | case4 => simp [toSextets]

theorem length_le_toSextets (bytes : List UInt8) : bytes.length ≤ (toSextets bytes).length := by
  induction bytes using toSextets.induct with
  | case1 x y z rest ih =>
    simp only [toSextets, List.length_cons]
    omega
  | case2 | case3 | case4 => simp [toSextets]

/-! ## Characters -/

/-- `=` -/
def pad : UInt16 := 61

/-- The value of a character of the standard alphabet. -/
def value? (c : UInt16) : Option (Fin 64) :=
  if 65 ≤ c.toNat ∧ c.toNat ≤ 90 then some (.ofNat 64 (c.toNat - 65))
  else if 97 ≤ c.toNat ∧ c.toNat ≤ 122 then some (.ofNat 64 (c.toNat - 97 + 26))
  else if 48 ≤ c.toNat ∧ c.toNat ≤ 57 then some (.ofNat 64 (c.toNat - 48 + 52))
  else if c = 43 then some 62
  else if c = 47 then some 63
  else none

/-- The character of a value. -/
def char (v : Fin 64) : UInt16 :=
  if v.val < 26 then .ofNat (v.val + 65)
  else if v.val < 52 then .ofNat (v.val - 26 + 97)
  else if v.val < 62 then .ofNat (v.val - 52 + 48)
  else if v.val = 62 then 43
  else 47

theorem value?_char (v : Fin 64) : value? (char v) = some v := by
  revert v
  decide

/-- ASCII white space. -/
def isSpace (c : UInt16) : Bool := c = 9 ∨ c = 10 ∨ c = 12 ∨ c = 13 ∨ c = 32

theorem value?_of_isSpace {c : UInt16} (h : isSpace c) : value? c = none := by
  simp only [isSpace, decide_eq_true_eq] at h
  rcases h with rfl | rfl | rfl | rfl | rfl <;> rfl

/-! ## Encoding -/

/-- `btoa` on the characters of the bytes. -/
def btoa (bytes : List UInt8) : Utf16 :=
  let vs := toSextets bytes
  vs.map char ++ List.replicate ((4 - vs.length % 4) % 4) pad

/-! ## Decoding -/

/-- Up to two `=` at the end of a multiple of four characters are dropped. -/
def unpad (data : Utf16) : Utf16 :=
  if data.length % 4 = 0 then
    if [pad, pad] <:+ data then data.take (data.length - 2)
    else if [pad] <:+ data then data.take (data.length - 1)
    else data
  else data

/-- `atob`, the forgiving decoder: white space is dropped, and anything else outside of the alphabet fails. -/
def atob (data : Utf16) : Option (List UInt8) :=
  let data := unpad (data.filter (!isSpace ·))
  if data.length % 4 = 1 then none else (data.mapM value?).map ofSextets

/-- The decoder that skips what is not in the alphabet and stops at the first `=`. -/
def decodeLoose (data : Utf16) : List UInt8 :=
  ofSextets ((data.takeWhile (· ≠ pad)).filterMap value?)

theorem mapM_value?_map_char (vs : List (Fin 64)) : (vs.map char).mapM value? = some vs := by
  induction vs with
  | nil => rfl
  | cons v vs ih => simp [value?_char, ih]

/-- What is in the alphabet is decoded whole. -/
theorem filterMap_of_mapM {data : Utf16} {vs : List (Fin 64)} (h : data.mapM value? = some vs) :
    data.filterMap value? = vs := by
  induction data generalizing vs with
  | nil =>
    obtain rfl := Option.some.inj h
    rfl
  | cons c data ih =>
    rw [List.mapM_cons] at h
    obtain ⟨v, hv, hrest⟩ := Option.bind_eq_some_iff.mp h
    obtain ⟨vs', hvs', hcons⟩ := Option.bind_eq_some_iff.mp hrest
    obtain rfl := Option.some.inj hcons
    rw [List.filterMap_cons_some hv, ih hvs']

theorem length_of_mapM {data : Utf16} {vs : List (Fin 64)} (h : data.mapM value? = some vs) :
    vs.length = data.length := by
  induction data generalizing vs with
  | nil =>
    obtain rfl := Option.some.inj h
    rfl
  | cons c data ih =>
    rw [List.mapM_cons] at h
    obtain ⟨v, hv, hrest⟩ := Option.bind_eq_some_iff.mp h
    obtain ⟨vs', hvs', hcons⟩ := Option.bind_eq_some_iff.mp hrest
    obtain rfl := Option.some.inj hcons
    rw [List.length_cons, List.length_cons, ih hvs']

theorem isSome_of_mapM {data : Utf16} {vs : List (Fin 64)} (h : data.mapM value? = some vs) :
    ∀ c ∈ data, (value? c).isSome := by
  induction data generalizing vs with
  | nil => nofun
  | cons c data ih =>
    rw [List.mapM_cons] at h
    obtain ⟨v, hv, hrest⟩ := Option.bind_eq_some_iff.mp h
    obtain ⟨vs', hvs', -⟩ := Option.bind_eq_some_iff.mp hrest
    intro c' hc'
    rcases List.mem_cons.mp hc' with rfl | hc'
    · rw [hv]
      rfl
    · exact ih hvs' c' hc'

theorem exists_mapM {data : Utf16} (h : ∀ c ∈ data, (value? c).isSome) :
    ∃ vs, data.mapM value? = some vs := by
  induction data with
  | nil => exact ⟨[], rfl⟩
  | cons c data ih =>
    obtain ⟨v, hv⟩ := Option.isSome_iff_exists.mp (h c List.mem_cons_self)
    obtain ⟨vs, hvs⟩ := ih fun c' hc' => h c' (List.mem_cons_of_mem c hc')
    exact ⟨v :: vs, by simp [hv, hvs]⟩

theorem pad_notMem {data : Utf16} {vs : List (Fin 64)} (h : data.mapM value? = some vs) : pad ∉ data :=
  fun hmem => by cases isSome_of_mapM h pad hmem

theorem not_suffix_of_notMem {body : Utf16} (h : pad ∉ body) : ¬ [pad] <:+ body :=
  fun hsuffix => h (hsuffix.subset (List.mem_singleton_self pad))

/-- What `unpad` leaves of a body with `e` pads. -/
theorem unpad_append {body : Utf16} (h : pad ∉ body) {e : Nat}
    (he : e = 0 ∨ e ≤ 2 ∧ (body.length + e) % 4 = 0) : unpad (body ++ List.replicate e pad) = body := by
  have hone : ¬ [pad] <:+ body := not_suffix_of_notMem h
  obtain rfl | rfl | rfl : e = 0 ∨ e = 1 ∨ e = 2 := by omega
  · have htwo : ¬ [pad, pad] <:+ body := fun hsuffix =>
      hone ((List.suffix_append [pad] [pad]).trans hsuffix)
    rw [List.replicate_zero, List.append_nil, unpad, if_neg htwo, if_neg hone, ite_self]
  · have htwo : ¬ [pad, pad] <:+ body ++ List.replicate 1 pad := by
      rintro ⟨start, hstart⟩
      have hsplit : start ++ [pad] ++ [pad] = body ++ [pad] := by
        rw [List.append_assoc]
        exact hstart
      exact hone ⟨start, (List.append_left_inj _).mp hsplit⟩
    have hpad : [pad] <:+ body ++ List.replicate 1 pad := List.suffix_append body [pad]
    rw [unpad, if_pos (by simpa using he), if_neg htwo, if_pos hpad, List.length_append,
      List.length_replicate, Nat.add_sub_cancel, List.take_left]
  · have hpads : [pad, pad] <:+ body ++ List.replicate 2 pad := List.suffix_append body [pad, pad]
    rw [unpad, if_pos (by simpa using he), if_pos hpads, List.length_append,
      List.length_replicate, Nat.add_sub_cancel, List.take_left]

theorem exists_unpad (data : Utf16) : ∃ e, data = unpad data ++ List.replicate e pad ∧
    (e = 0 ∨ e ≤ 2 ∧ ((unpad data).length + e) % 4 = 0) := by
  unfold unpad
  split
  · rename_i hmod
    split
    · rename_i hsuffix
      obtain ⟨start, rfl⟩ := hsuffix
      refine ⟨2, ?_, .inr ⟨Nat.le_refl 2, ?_⟩⟩ <;> simp_all
    split
    · rename_i hsuffix
      obtain ⟨start, rfl⟩ := hsuffix
      refine ⟨1, ?_, .inr ⟨by omega, ?_⟩⟩ <;> simp_all
    · exact ⟨0, by simp, .inl rfl⟩
  · exact ⟨0, by simp, .inl rfl⟩

/-- **What `atob` accepts**: a body in the alphabet and, apart from white space, at most two pads that
complete it. -/
theorem atob_eq_some_iff {data : Utf16} {bytes : List UInt8} : atob data = some bytes ↔
    ∃ body e vs, data.filter (!isSpace ·) = body ++ List.replicate e pad ∧ body.mapM value? = some vs ∧
      ofSextets vs = bytes ∧ body.length % 4 ≠ 1 ∧ (e = 0 ∨ e ≤ 2 ∧ (body.length + e) % 4 = 0) := by
  constructor
  · intro h
    obtain ⟨e, heq, he⟩ := exists_unpad (data.filter (!isSpace ·))
    rw [atob] at h
    split at h
    · cases h
    rename_i hmod
    obtain ⟨vs, hvs, hbytes⟩ := Option.map_eq_some_iff.mp h
    exact ⟨_, e, vs, heq, hvs, hbytes, hmod, he⟩
  · rintro ⟨body, e, vs, heq, hvs, rfl, hmod, he⟩
    rw [atob, heq, unpad_append (pad_notMem hvs) he, if_neg hmod, hvs]
    rfl

/-- White space is nothing to the loose decoder. -/
theorem decodeLoose_filter (data : Utf16) : decodeLoose (data.filter (!isSpace ·)) = decodeLoose data := by
  have hdecode : ((data.filter (!isSpace ·)).takeWhile (· ≠ pad)).filterMap value? =
      (data.takeWhile (· ≠ pad)).filterMap value? := by
    induction data with
    | nil => rfl
    | cons c data ih =>
      cases hc : isSpace c with
      | true =>
        have hne : c ≠ pad := by
          rintro rfl
          cases hc
        rw [List.filter_cons_of_neg (by simp [hc]), ih, List.takeWhile_cons_of_pos (by simpa using hne),
          List.filterMap_cons_none (value?_of_isSpace hc)]
      | false =>
        rw [List.filter_cons_of_pos (by simp [hc])]
        by_cases hpad : c = pad
        · rw [List.takeWhile_cons_of_neg (by simpa using hpad), List.takeWhile_cons_of_neg (by simpa using hpad)]
        · rw [List.takeWhile_cons_of_pos (by simpa using hpad), List.takeWhile_cons_of_pos (by simpa using hpad),
            List.filterMap_cons, List.filterMap_cons, ih]
  rw [decodeLoose, hdecode, decodeLoose]

theorem takeWhile_pads (e : Nat) : (List.replicate e pad).takeWhile (· ≠ pad) = [] := by
  cases e with
  | zero => rfl
  | succ e => exact List.takeWhile_cons_of_neg (by simp)

theorem takeWhile_append_pads {body : Utf16} (h : pad ∉ body) (e : Nat) :
    (body ++ List.replicate e pad).takeWhile (· ≠ pad) = body := by
  have hbody : ∀ c ∈ body, c ≠ pad := fun c hc heq => h (heq ▸ hc)
  rw [List.takeWhile_append_of_pos (by simpa using hbody), takeWhile_pads, List.append_nil]

/-- Nor are pads at the end. -/
theorem decodeLoose_append_pads (data : Utf16) (e : Nat) :
    decodeLoose (data ++ List.replicate e pad) = decodeLoose data := by
  have htake : (data ++ List.replicate e pad).takeWhile (· ≠ pad) = data.takeWhile (· ≠ pad) := by
    rw [List.takeWhile_append, takeWhile_pads, List.append_nil]
    split
    · rename_i h
      exact ((List.takeWhile_prefix _).eq_of_length h).symm
    · rfl
  rw [decodeLoose, htake, decodeLoose]


theorem decodeLoose_body {body : Utf16} {vs : List (Fin 64)} (h : body.mapM value? = some vs) :
    decodeLoose body = ofSextets vs := by
  have htake := takeWhile_append_pads (pad_notMem h) 0
  rw [List.replicate_zero, List.append_nil] at htake
  rw [decodeLoose, htake, filterMap_of_mapM h]

/-- **Where `atob` accepts, both decoders read the same bytes.** -/
theorem decodeLoose_of_atob {data : Utf16} {bytes : List UInt8} (h : atob data = some bytes) :
    decodeLoose data = bytes := by
  obtain ⟨body, e, vs, heq, hvs, rfl, -, -⟩ := atob_eq_some_iff.mp h
  rw [← decodeLoose_filter, heq, decodeLoose_append_pads, decodeLoose_body hvs]

end Base64
