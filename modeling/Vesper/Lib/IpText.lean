import Mathlib.Data.List.Basic
import Mathlib.Tactic.Common

/-!
# The text of IP addresses

Dotted IPv4, and the canonical text of IPv6: hexadecimal groups without leading zeros, the first of the
longest runs of two or more zero groups written as `::`, and the last 32 bits dotted where `inet_ntop` does
that. `pieces` is what a split at the colons gives back.
-/

namespace IpText

/-! ## IPv4 -/

structure Ipv4 where
  a : UInt8
  b : UInt8
  c : UInt8
  d : UInt8
  deriving DecidableEq

/-- The 32 bits, as a number. -/
def Ipv4.value (ip : Ipv4) : Nat :=
  ((ip.a.toNat * 256 + ip.b.toNat) * 256 + ip.c.toNat) * 256 + ip.d.toNat

def decimal (n : UInt8) : List Char := Nat.toDigits 10 n.toNat

def Ipv4.text (ip : Ipv4) : List Char :=
  ['.'].intercalate [decimal ip.a, decimal ip.b, decimal ip.c, decimal ip.d]

/-! ## IPv6 -/

/-- Eight groups. -/
abbrev Ipv6 := Vector UInt16 8

def hex (n : UInt16) : List Char := Nat.toDigits 16 n.toNat

/-- How many groups at the front are zero. -/
def zeros (gs : List UInt16) : Nat := (gs.takeWhile (· = 0)).length

/-- Where the first of the longest runs of zero groups starts, counted from `i`, and how long it is. -/
def longestRun : Nat → List UInt16 → Nat × Nat
  | i, [] => (i, 0)
  | i, g :: gs =>
    let (start, length) := longestRun (i + 1) gs
    if length ≤ zeros (g :: gs) then (i, zeros (g :: gs)) else (start, length)

/-- The text of groups with the run taken out, the tail given. -/
def compressed (gs : List UInt16) : List Char :=
  let (start, length) := longestRun 0 gs
  if length < 2 then [':'].intercalate (gs.map hex)
  else [':'].intercalate ((gs.take start).map hex) ++ "::".toList ++
    [':'].intercalate ((gs.drop (start + length)).map hex)

/-- The text that RFC 5952 prescribes. -/
def Ipv6.text (ip : Ipv6) : List Char := compressed ip.toList

/-- The address in two groups. -/
def ofGroups (g h : UInt16) : Ipv4 :=
  ⟨.ofNat (g.toNat / 256), .ofNat g.toNat, .ofNat (h.toNat / 256), .ofNat h.toNat⟩

/-- The text that `inet_ntop` prints: dotted at the end if the run is that of `::a.b.c.d` or
`::ffff:a.b.c.d`. -/
def Ipv6.ntop (ip : Ipv6) : List Char :=
  match longestRun 0 ip.toList with
  | (0, 6) => "::".toList ++ (ofGroups ip[6] ip[7]).text
  | (0, 5) => if ip[5] = 0xffff then "::ffff:".toList ++ (ofGroups ip[6] ip[7]).text else ip.text
  | _ => ip.text

/-! ## Characters -/

theorem mem_toDigits {b n : Nat} (hb : 1 < b) {c : Char} (hc : c ∈ Nat.toDigits b n) :
    ∃ d < b, c = Nat.digitChar d := by
  induction n using Nat.strongRecOn with
  | _ n ih =>
    rw [Nat.toDigits_eq_if hb] at hc
    split at hc
    · exact ⟨n, by assumption, List.mem_singleton.mp hc⟩
    · rcases List.mem_append.mp hc with hc | hc
      · exact ih (n / b) (Nat.div_lt_self (by omega) hb) hc
      · exact ⟨n % b, Nat.mod_lt n (by omega), List.mem_singleton.mp hc⟩

/-- The characters of a group. -/
theorem mem_hex {g : UInt16} {c : Char} (hc : c ∈ hex g) : c ∈ "0123456789abcdef".toList := by
  obtain ⟨d, hd, rfl⟩ := mem_toDigits (by decide) hc
  have hall : ∀ d : Fin 16, Nat.digitChar d ∈ "0123456789abcdef".toList := by decide
  exact hall ⟨d, hd⟩

theorem mem_decimal {n : UInt8} {c : Char} (hc : c ∈ decimal n) : c ∈ "0123456789".toList := by
  obtain ⟨d, hd, rfl⟩ := mem_toDigits (by decide) hc
  have hall : ∀ d : Fin 10, Nat.digitChar d ∈ "0123456789".toList := by decide
  exact hall ⟨d, hd⟩

theorem colon_not_mem_hex (g : UInt16) : ':' ∉ hex g := fun h => absurd (mem_hex h) (by decide)

theorem length_hex_le (g : UInt16) : (hex g).length ≤ 4 :=
  (Nat.length_toDigits_le_iff (by decide) (by decide)).mpr g.toNat_lt

/-- A group between `0x1000` and `0xffff` has four digits. -/
theorem hex_of_le {g : UInt16} (h : 4096 ≤ g.toNat) : hex g =
    [Nat.digitChar (g.toNat / 4096), Nat.digitChar (g.toNat / 256 % 16), Nat.digitChar (g.toNat / 16 % 16),
      Nat.digitChar (g.toNat % 16)] := by
  have hlt := g.toNat_lt
  have h256 : g.toNat / 16 / 16 = g.toNat / 256 := Nat.div_div_eq_div_mul ..
  have h4096 : g.toNat / 256 / 16 = g.toNat / 4096 := Nat.div_div_eq_div_mul ..
  rw [hex, Nat.toDigits_of_base_le (by decide) (by omega), Nat.toDigits_of_base_le (by decide) (by omega), h256,
    Nat.toDigits_of_base_le (by decide) (by omega), h4096, Nat.toDigits_of_lt_base (by omega)]
  rfl

/-! ## Pieces -/

/-- What stands between the colons. -/
def pieces (gs : List UInt16) : List (List Char) :=
  let (start, length) := longestRun 0 gs
  if length < 2 then gs.map hex
  else (if start = 0 then [[]] else (gs.take start).map hex) ++
    ([] :: if gs.length ≤ start + length then [[]] else (gs.drop (start + length)).map hex)

theorem intercalate_append {α : Type} {sep : List α} {xs ys : List (List α)} (hxs : xs ≠ []) (hys : ys ≠ []) :
    sep.intercalate (xs ++ ys) = sep.intercalate xs ++ (sep ++ sep.intercalate ys) := by
  induction xs with
  | nil => exact absurd rfl hxs
  | cons x xs ih =>
    cases xs with
    | nil => rw [List.singleton_append, List.intercalate_cons_of_ne_nil hys, List.intercalate_singleton,
        List.append_assoc]
    | cons x' xs =>
      have hrest : x' :: xs ≠ [] := by simp
      have hall : x' :: xs ++ ys ≠ [] := by simp
      rw [List.cons_append, List.intercalate_cons_of_ne_nil hall, ih hrest,
        List.intercalate_cons_of_ne_nil hrest]
      simp only [List.append_assoc]

theorem compressed_eq (gs : List UInt16) : compressed gs = [':'].intercalate (pieces gs) := by
  cases gs with
  | nil => rfl
  | cons g gs =>
    unfold compressed pieces
    obtain ⟨start, length⟩ := longestRun 0 (g :: gs)
    dsimp only
    split
    · rfl
    have hleft : (if start = 0 then [[]] else ((g :: gs).take start).map hex) ≠ [] := by
      split
      · simp
      · simp [*]
    have hjoin : [':'].intercalate (if start = 0 then [[]] else ((g :: gs).take start).map hex) =
        [':'].intercalate (((g :: gs).take start).map hex) := by
      split
      · rename_i h
        rw [h]
        rfl
      · rfl
    have hright : (if (g :: gs).length ≤ start + length then [[]]
        else ((g :: gs).drop (start + length)).map hex) ≠ [] := by
      split
      · simp
      · rename_i h
        simpa using Nat.lt_of_not_le h
    have hjoin' : [':'].intercalate (if (g :: gs).length ≤ start + length then [[]]
        else ((g :: gs).drop (start + length)).map hex) =
        [':'].intercalate (((g :: gs).drop (start + length)).map hex) := by
      split
      · rename_i h
        rw [List.drop_eq_nil_of_le h]
        rfl
      · rfl
    rw [intercalate_append hleft (by simp), List.intercalate_cons_of_ne_nil hright, hjoin, hjoin']
    simp only [List.nil_append, List.append_assoc]
    rfl

theorem mem_pieces {gs : List UInt16} {p : List Char} (hp : p ∈ pieces gs) : p = [] ∨ ∃ g, p = hex g := by
  have hmap : ∀ l : List UInt16, p ∈ l.map hex → p = [] ∨ ∃ g, p = hex g := by
    intro l hl
    obtain ⟨g, -, rfl⟩ := List.mem_map.mp hl
    exact .inr ⟨g, rfl⟩
  unfold pieces at hp
  dsimp only at hp
  split at hp
  · exact hmap _ hp
  · rcases List.mem_append.mp hp with hp | hp
    · split at hp
      · exact .inl (List.mem_singleton.mp hp)
      · exact hmap _ hp
    · rcases List.mem_cons.mp hp with rfl | hp
      · exact .inl rfl
      · split at hp
        · exact .inl (List.mem_singleton.mp hp)
        · exact hmap _ hp

theorem colon_not_mem_pieces {gs : List UInt16} {p : List Char} (hp : p ∈ pieces gs) : ':' ∉ p := by
  rcases mem_pieces hp with rfl | ⟨g, rfl⟩
  · exact List.not_mem_nil
  · exact colon_not_mem_hex g

theorem mem_intercalate {α : Type} {sep : List α} {xs : List (List α)} {a : α}
    (h : a ∈ sep.intercalate xs) : a ∈ sep ∨ ∃ x ∈ xs, a ∈ x := by
  induction xs with
  | nil => simp at h
  | cons x xs ih =>
    cases xs with
    | nil =>
      rw [List.intercalate_singleton] at h
      exact .inr ⟨x, .head _, h⟩
    | cons x' xs =>
      rw [List.intercalate_cons_of_ne_nil (by simp), List.mem_append, List.mem_append] at h
      rcases h with (h | h) | h
      · exact .inr ⟨x, .head _, h⟩
      · exact .inl h
      · rcases ih h with h | ⟨y, hy, h⟩
        · exact .inl h
        · exact .inr ⟨y, .tail _ hy, h⟩

theorem pieces_ne_nil {gs : List UInt16} (h : gs ≠ []) : pieces gs ≠ [] := by
  unfold pieces
  dsimp only
  split
  · simpa using h
  · simp

/-- **A split at the colons gives the pieces back.** -/
theorem splitOn_compressed {gs : List UInt16} (h : gs ≠ []) : (compressed gs).splitOn ':' = pieces gs := by
  rw [compressed_eq, List.splitOn_intercalate ':' (fun _ => colon_not_mem_pieces) (pieces_ne_nil h)]

/-- The characters of an address. -/
def alphabet : List Char := "0123456789abcdef:.".toList

theorem mem_text {ip : Ipv6} {c : Char} (hc : c ∈ ip.text) : c ∈ alphabet := by
  rw [Ipv6.text, compressed_eq] at hc
  rcases mem_intercalate hc with hc | ⟨p, hp, hc⟩
  · rw [List.mem_singleton.mp hc]
    decide
  · rcases mem_pieces hp with rfl | ⟨g, rfl⟩
    · cases hc
    · have hsub : "0123456789abcdef".toList ⊆ alphabet := by decide
      exact hsub (mem_hex hc)

theorem mem_dotted {ip : Ipv4} {c : Char} (hc : c ∈ ip.text) : c ∈ alphabet := by
  have hsub : "0123456789".toList ⊆ alphabet := by decide
  rcases mem_intercalate hc with hc | ⟨p, hp, hc⟩
  · rw [List.mem_singleton.mp hc]
    decide
  · simp only [List.mem_cons, List.not_mem_nil, or_false] at hp
    rcases hp with rfl | rfl | rfl | rfl <;> exact hsub (mem_decimal hc)

theorem mem_ntop {ip : Ipv6} {c : Char} (hc : c ∈ ip.ntop) : c ∈ alphabet := by
  have hcolons : "::".toList ⊆ alphabet := by decide
  have hmapped : "::ffff:".toList ⊆ alphabet := by decide
  unfold Ipv6.ntop at hc
  split at hc
  · exact (List.mem_append.mp hc).elim (@hcolons c) mem_dotted
  · split at hc
    · exact (List.mem_append.mp hc).elim (@hmapped c) mem_dotted
    · exact mem_text hc
  · exact mem_text hc

/-! ## Where the run is -/

theorem longestRun_zeros (i : Nat) (gs : List UInt16) : i ≤ (longestRun i gs).1 ∧
    (longestRun i gs).2 = zeros (gs.drop ((longestRun i gs).1 - i)) := by
  induction gs generalizing i with
  | nil => simp [longestRun, zeros]
  | cons g gs ih =>
    obtain ⟨hle, hzeros⟩ := ih (i + 1)
    simp only [longestRun]
    split
    · simp
    · have hsub : (longestRun (i + 1) gs).1 - i = (longestRun (i + 1) gs).1 - (i + 1) + 1 := by omega
      refine ⟨by omega, ?_⟩
      rw [hsub, List.drop_succ_cons]
      exact hzeros

theorem eq_zero_of_zeros {g : UInt16} {gs : List UInt16} (h : 0 < zeros (g :: gs)) : g = 0 := by
  by_contra hne
  simp [zeros, hne] at h

/-- What a split shows of a group: its digits, or nothing for one in the run. -/
def Shows (p : List Char) (g : UInt16) : Prop := p = hex g ∨ p = [] ∧ g = 0

/-- **The first three pieces** of an address that does not start with zero: the first is its first group; the
next two show the groups after it, unless the run starts with the second. -/
theorem pieces_cons {g : UInt16} (g₁ g₂ : UInt16) (gs : List UInt16) (hg : g ≠ 0) :
    ∃ p₁ p₂ ps, pieces (g :: g₁ :: g₂ :: gs) = hex g :: p₁ :: p₂ :: ps ∧ Shows p₁ g₁ ∧
      (Shows p₂ g₂ ∨ g₁ = 0 ∧ ∃ g', Shows p₂ g') := by
  obtain ⟨-, hzeros⟩ := longestRun_zeros 0 (g :: g₁ :: g₂ :: gs)
  unfold pieces
  generalize longestRun 0 (g :: g₁ :: g₂ :: gs) = run at hzeros ⊢
  obtain ⟨start, length⟩ := run
  dsimp only at hzeros ⊢
  rw [Nat.sub_zero] at hzeros
  split
  · exact ⟨hex g₁, hex g₂, gs.map hex, rfl, .inl rfl, .inl (.inl rfl)⟩
  have hrun : 0 < zeros ((g :: g₁ :: g₂ :: gs).drop start) := by omega
  match start with
  | 0 => exact absurd (eq_zero_of_zeros hrun) hg
  | 1 =>
    have hg₁ : g₁ = 0 := eq_zero_of_zeros hrun
    rw [if_neg (by decide)]
    split
    · exact ⟨[], [], [], rfl, .inr ⟨rfl, hg₁⟩, .inr ⟨hg₁, 0, .inr ⟨rfl, rfl⟩⟩⟩
    · rename_i hend
      obtain ⟨g', rest, hrest⟩ : ∃ g' rest, (g :: g₁ :: g₂ :: gs).drop (1 + length) = g' :: rest :=
        List.exists_cons_of_ne_nil (by simpa using Nat.lt_of_not_le hend)
      rw [hrest]
      exact ⟨[], hex g', rest.map hex, rfl, .inr ⟨rfl, hg₁⟩, .inr ⟨hg₁, g', .inl rfl⟩⟩
  | 2 =>
    have hg₂ : g₂ = 0 := eq_zero_of_zeros hrun
    rw [if_neg (by decide)]
    exact ⟨hex g₁, [], _, rfl, .inl rfl, .inl (.inr ⟨rfl, hg₂⟩)⟩
  | start + 3 =>
    rw [if_neg (by omega)]
    exact ⟨hex g₁, hex g₂, _, rfl, .inl rfl, .inl (.inl rfl)⟩

/-- The text of an address that does not start with zero starts with its first group and a colon. -/
theorem compressed_cons {g g₁ g₂ : UInt16} {gs : List UInt16} (hg : g ≠ 0) :
    ∃ rest, compressed (g :: g₁ :: g₂ :: gs) = hex g ++ ':' :: rest := by
  obtain ⟨p₁, p₂, ps, hpieces, -⟩ := pieces_cons g₁ g₂ gs hg
  rw [compressed_eq, hpieces, List.intercalate_cons_of_ne_nil (by simp)]
  exact ⟨_, List.append_assoc ..⟩

/-! ## Addresses of known form -/

theorem Ipv6.toList_eq (ip : Ipv6) :
    ip.toList = [ip[0], ip[1], ip[2], ip[3], ip[4], ip[5], ip[6], ip[7]] := by
  apply List.ext_getElem
  · simp
  · intro i hi _
    rw [Vector.length_toList] at hi
    match i, hi with
    | 0, _ | 1, _ | 2, _ | 3, _ | 4, _ | 5, _ | 6, _ | 7, _ => simp

variable {ip : Ipv6}

/-- Nothing is dotted in an address that does not start with zero. -/
theorem Ipv6.ntop_eq_text (h : ip[0] ≠ 0) : ip.ntop = ip.text := by
  have hzeros := (longestRun_zeros 0 ip.toList).2
  have hstart : ∀ n, longestRun 0 ip.toList = (0, n + 1) → False := by
    intro n hrun
    rw [hrun, Ipv6.toList_eq] at hzeros
    exact h (eq_zero_of_zeros (Nat.lt_of_lt_of_eq (Nat.succ_pos n) hzeros))
  unfold Ipv6.ntop
  split
  · exact absurd (by assumption) (hstart 5)
  · exact absurd (by assumption) (hstart 4)
  · rfl

theorem Ipv6.text_cons (h : ip[0] ≠ 0) : ∃ rest, ip.text = hex ip[0] ++ ':' :: rest := by
  rw [Ipv6.text, Ipv6.toList_eq]
  exact compressed_cons h

theorem longestRun_mapped (g h : UInt16) : longestRun 0 [0, 0, 0, 0, 0, 0xffff, g, h] = (0, 5) := by
  by_cases hg : g = 0 <;> by_cases hh : h = 0 <;> simp [longestRun, zeros, hg, hh]

/-- `::ffff:0:0/96` -/
theorem Ipv6.text_mapped (h : ip.toList = ([0, 0, 0, 0, 0, 0xffff, ip[6], ip[7]] : List UInt16)) :
    ip.text = "::ffff:".toList ++ (hex ip[6] ++ ':' :: hex ip[7]) := by
  have hffff : hex 0xffff = ['f', 'f', 'f', 'f'] := by decide
  have hsplit : "::ffff:".toList = "::".toList ++ ['f', 'f', 'f', 'f', ':'] := by decide
  have hdrop : List.drop (0 + 5) ([0, 0, 0, 0, 0, 0xffff, ip[6], ip[7]] : List UInt16) =
    ([0xffff, ip[6], ip[7]] : List UInt16) := rfl
  rw [Ipv6.text, h, compressed, longestRun_mapped]
  dsimp only
  rw [if_neg (by decide), hdrop, List.take_zero, List.map_nil, List.intercalate_nil, List.nil_append, hsplit]
  simp only [List.map_cons, List.map_nil, hffff, List.intercalate_cons_cons, List.intercalate_singleton,
    List.append_assoc, List.cons_append, List.nil_append]

theorem Ipv6.ntop_mapped (h : ip.toList = ([0, 0, 0, 0, 0, 0xffff, ip[6], ip[7]] : List UInt16)) :
    ip.ntop = "::ffff:".toList ++ (ofGroups ip[6] ip[7]).text := by
  have hfive : ip[5] = 0xffff := by
    rw [Ipv6.toList_eq] at h
    simpa using (List.cons.inj (List.cons.inj (List.cons.inj (List.cons.inj (List.cons.inj h).2).2).2).2).2
  unfold Ipv6.ntop
  rw [h, longestRun_mapped]
  exact if_pos hfive

/-- `64:ff9b::/96` -/
theorem Ipv6.text_nat64 (h : ip.toList = ([0x64, 0xff9b, 0, 0, 0, 0, ip[6], ip[7]] : List UInt16)) :
    ∃ rest, ip.text = "64:ff9b::".toList ++ rest := by
  have hrun : ∃ n, longestRun 0 [0x64, 0xff9b, 0, 0, 0, 0, ip[6], ip[7]] = (2, n + 2) := by
    by_cases hg : ip[6] = 0 <;> by_cases hh : ip[7] = 0 <;> simp [longestRun, zeros, hg, hh]
  obtain ⟨n, hrun⟩ := hrun
  have hfront : [':'].intercalate ([0x64, 0xff9b].map hex) = "64:ff9b".toList := by decide
  rw [Ipv6.text, h, compressed, hrun]
  dsimp only
  have htake : List.take 2 ([0x64, 0xff9b, 0, 0, 0, 0, ip[6], ip[7]] : List UInt16) = [0x64, 0xff9b] := rfl
  have hsplit : "64:ff9b::".toList = "64:ff9b".toList ++ "::".toList := by decide
  rw [if_neg (by omega), htake, hfront, hsplit]
  exact ⟨_, rfl⟩

end IpText
