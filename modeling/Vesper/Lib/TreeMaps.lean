import Std.Data.ExtTreeMap
import Mathlib.Data.List.Flatten
import Mathlib.Data.List.Perm.Subperm
import Mathlib.Tactic.Common

/-!
# Tree maps as lists of entries

Inserting the entries of a tree map one by one, in order, gives the map back; a map cannot have more
entries than were inserted, nor more than there are keys.
-/

namespace TreeMaps
variable {κ : Type} {ν : Type} [Ord κ] [Std.TransOrd κ] [Std.LawfulEqOrd κ]

/-- The entries inserted one by one. -/
def insertAll (m : Std.ExtTreeMap κ ν) (entries : List (κ × ν)) : Std.ExtTreeMap κ ν :=
  entries.foldl (fun m entry => m.insert entry.1 entry.2) m

omit [Std.LawfulEqOrd κ] in
theorem insertAll_cons (m : Std.ExtTreeMap κ ν) (entry : κ × ν) (entries : List (κ × ν)) :
    insertAll m (entry :: entries) = insertAll (m.insert entry.1 entry.2) entries := rfl

/-- How many of the keys have no entry. -/
def missing (m : Std.ExtTreeMap κ ν) (keys : List κ) : Nat := keys.countP fun k => !m.contains k

omit [Std.LawfulEqOrd κ] in
theorem missing_congr {m m' : Std.ExtTreeMap κ ν} {keys : List κ}
    (h : ∀ k ∈ keys, m'.contains k = m.contains k) : missing m' keys = missing m keys :=
  List.countP_congr fun k hk => by rw [h k hk]

omit [Std.LawfulEqOrd κ] in
theorem missing_eq_length {m : Std.ExtTreeMap κ ν} {keys : List κ} (h : ∀ k ∈ keys, k ∉ m) :
    missing m keys = keys.length := by
  refine List.countP_eq_length.mpr fun k hk => ?_
  rw [Bool.not_eq_true', Bool.eq_false_iff]
  exact fun hcontains => h k hk hcontains

/-- A map grows by the keys it did not have. -/
theorem size_insertAll {m : Std.ExtTreeMap κ ν} {entries : List (κ × ν)}
    (hdistinct : entries.Pairwise fun a b => a.1 ≠ b.1) :
    (insertAll m entries).size = m.size + missing m (entries.map Prod.fst) := by
  induction entries generalizing m with
  | nil => rfl
  | cons entry entries ih =>
    rw [List.pairwise_cons] at hdistinct
    have hrest : missing (m.insert entry.1 entry.2) (entries.map Prod.fst) =
        missing m (entries.map Prod.fst) := by
      refine missing_congr fun k hk => ?_
      obtain ⟨entry', hentry', rfl⟩ := List.mem_map.mp hk
      have hne : (compare entry.1 entry'.1 == .eq) = false := by
        rw [beq_eq_false_iff_ne, ne_eq, Std.LawfulEqCmp.compare_eq_iff_eq]
        exact hdistinct.1 entry' hentry'
      rw [Std.ExtTreeMap.contains_insert, hne, Bool.false_or]
    have hcons : missing m ((entry :: entries).map Prod.fst) =
        missing m (entries.map Prod.fst) + if m.contains entry.1 then 0 else 1 := by
      rw [List.map_cons, missing, List.countP_cons]
      cases m.contains entry.1 <;> rfl
    rw [insertAll_cons, ih hdistinct.2, hrest, hcons, Std.ExtTreeMap.size_insert]
    split <;> omega

/-- What entries of other keys leave alone. -/
theorem getElem?_insertAll_of_notMem {m : Std.ExtTreeMap κ ν} {entries : List (κ × ν)} {k : κ}
    (h : ∀ v, (k, v) ∉ entries) : (insertAll m entries)[k]? = m[k]? := by
  induction entries generalizing m with
  | nil => rfl
  | cons entry entries ih =>
    have hne : ¬ compare entry.1 k = .eq := by
      rw [Std.LawfulEqCmp.compare_eq_iff_eq]
      rintro rfl
      exact h entry.2 List.mem_cons_self
    rw [insertAll_cons, ih fun v hv => h v (List.mem_cons_of_mem _ hv), Std.ExtTreeMap.getElem?_insert,
      if_neg hne]

theorem getElem?_insertAll_of_mem {m : Std.ExtTreeMap κ ν} {entries : List (κ × ν)} {k : κ} {v : ν}
    (hdistinct : entries.Pairwise fun a b => a.1 ≠ b.1) (h : (k, v) ∈ entries) :
    (insertAll m entries)[k]? = some v := by
  induction entries generalizing m with
  | nil => cases h
  | cons entry entries ih =>
    rw [List.pairwise_cons] at hdistinct
    rw [insertAll_cons]
    rcases List.mem_cons.mp h with rfl | h
    · rw [getElem?_insertAll_of_notMem fun v' hv' => hdistinct.1 _ hv' rfl,
        Std.ExtTreeMap.getElem?_insert_self]
    · exact ih hdistinct.2 h

theorem pairwise_toList (m : Std.ExtTreeMap κ ν) : m.toList.Pairwise fun a b => a.1 ≠ b.1 :=
  Std.ExtTreeMap.distinct_keys_toList.imp fun h heq => h (Std.LawfulEqCmp.compare_eq_iff_eq.mpr heq)

/-- **A map is its entries.** -/
theorem insertAll_toList (m : Std.ExtTreeMap κ ν) : insertAll ∅ m.toList = m := by
  refine Std.ExtTreeMap.ext_getElem? fun k => ?_
  cases hk : m[k]? with
  | some v =>
    exact getElem?_insertAll_of_mem (pairwise_toList m)
      (Std.ExtTreeMap.mem_toList_iff_getElem?_eq_some.mpr hk)
  | none =>
    refine (getElem?_insertAll_of_notMem fun v hv => ?_).trans Std.ExtTreeMap.getElem?_empty
    rw [Std.ExtTreeMap.mem_toList_iff_getElem?_eq_some.mp hv] at hk
    cases hk

theorem mem_insertAll {m : Std.ExtTreeMap κ ν} {entries : List (κ × ν)} {k : κ} :
    k ∈ insertAll m entries → k ∈ m ∨ ∃ v, (k, v) ∈ entries := by
  induction entries generalizing m with
  | nil => exact .inl
  | cons entry entries ih =>
    intro h
    rcases ih h with h | ⟨v, hv⟩
    · rcases Std.ExtTreeMap.mem_insert.mp h with heq | h
      · refine .inr ⟨entry.2, ?_⟩
        rw [← Std.LawfulEqCmp.compare_eq_iff_eq.mp heq]
        exact List.mem_cons_self
      · exact .inl h
    · exact .inr ⟨v, List.mem_cons_of_mem _ hv⟩

/-- A map whose keys are among those of a list has no more entries than the list. -/
theorem size_le_of_keys {m : Std.ExtTreeMap κ ν} {keys : List κ} (h : ∀ k ∈ m, k ∈ keys) :
    m.size ≤ keys.length := by
  have hnodup : (m.toList.map Prod.fst).Nodup := List.pairwise_map.mpr (pairwise_toList m)
  have hsubset : m.toList.map Prod.fst ⊆ keys := by
    intro k hk
    obtain ⟨entry, hentry, rfl⟩ := List.mem_map.mp hk
    have hsome := Std.ExtTreeMap.mem_toList_iff_getElem?_eq_some.mp hentry
    exact h _ (Std.ExtTreeMap.mem_iff_isSome_getElem?.mpr (by rw [hsome]; rfl))
  have hle := (List.subperm_of_subset hnodup hsubset).length_le
  rwa [List.length_map, Std.ExtTreeMap.length_toList] at hle

/-- What stands for the entries does not grow by more than what stands for a new one. -/
theorem length_flatMap_insert_le {β : Type} (f : κ × ν → List β) (m : Std.ExtTreeMap κ ν) (k : κ) (v : ν) :
    ((m.insert k v).toList.flatMap f).length ≤ (m.toList.flatMap f).length + (f (k, v)).length := by
  have hnodup : (m.insert k v).toList.Nodup :=
    (pairwise_toList _).imp fun h heq => h (congrArg Prod.fst heq)
  have hsubset : (m.insert k v).toList ⊆ (k, v) :: m.toList := by
    rintro ⟨k', v'⟩ hentry
    have hsome := Std.ExtTreeMap.mem_toList_iff_getElem?_eq_some.mp hentry
    rw [Std.ExtTreeMap.getElem?_insert] at hsome
    split at hsome
    · rename_i heq
      obtain rfl := Std.LawfulEqCmp.compare_eq_iff_eq.mp heq
      obtain rfl := Option.some.inj hsome
      exact List.mem_cons_self
    · exact List.mem_cons_of_mem _ (Std.ExtTreeMap.mem_toList_iff_getElem?_eq_some.mpr hsome)
  obtain ⟨l, hperm, hsub⟩ := List.subperm_of_subset hnodup hsubset
  calc ((m.insert k v).toList.flatMap f).length
    _ = (l.flatMap f).length := ((hperm.flatMap_right f).length_eq).symm
    _ ≤ (((k, v) :: m.toList).flatMap f).length := (hsub.flatMap f).length_le
    _ = (m.toList.flatMap f).length + (f (k, v)).length := by
      rw [List.flatMap_cons, List.length_append, Nat.add_comm]

end TreeMaps
