import Mathlib.Data.List.Perm.Basic
import Mathlib.Logic.Basic

/-!
# Bookkeeping

Items of which each may have an account, numbered in the order in which they are opened, and a value for every
account: `Bookkeeping` says that no two items have the same account, and that each item knows the value of its own.
An item that changes a value changes what no other item knows.
-/

universe u v

variable {α : Type u} {ν : Type v}

structure Bookkeeping (account : α → Option (Nat × ν)) (items : List α) (value : Nat → ν) (next : Nat) : Prop where
  distinct : ((items.filterMap account).map Prod.fst).Nodup
  known : ∀ q ∈ items.filterMap account, q.1 < next ∧ value q.1 = q.2

namespace Bookkeeping
variable {account : α → Option (Nat × ν)} {items items' : List α} {value value' : Nat → ν} {next k : Nat} {x y : α}
  {a b : ν}

theorem nil : Bookkeeping account [] value next := ⟨List.nodup_nil, fun _ h => absurd h List.not_mem_nil⟩

theorem perm (h : Bookkeeping account items value next) (hperm : items.Perm items') :
    Bookkeeping account items' value next :=
  ⟨((hperm.filterMap account).map _).nodup_iff.mp h.distinct,
    fun q hq => h.known q ((hperm.filterMap account).mem_iff.mpr hq)⟩

theorem mem (h : Bookkeeping account items value next) (hx : x ∈ items) (haccount : account x = some (k, a)) :
    k < next ∧ value k = a :=
  h.known (k, a) (List.mem_filterMap.mpr ⟨x, hx, haccount⟩)

/-- Nothing has changed for the accounts that are open. -/
theorem congr (h : Bookkeeping account items value next) (hvalue : ∀ k < next, value' k = value k) :
    Bookkeeping account items value' next :=
  ⟨h.distinct, fun q hq => ⟨(h.known q hq).1, (hvalue q.1 (h.known q hq).1).trans (h.known q hq).2⟩⟩

/-- An item becomes another one with the same account. -/
theorem keep (h : Bookkeeping account (x :: items) value next) (heq : account y = account x) :
    Bookkeeping account (y :: items) value next := by
  have hsame : (y :: items).filterMap account = (x :: items).filterMap account := by
    rw [List.filterMap_cons, List.filterMap_cons, heq]
  obtain ⟨hdistinct, hknown⟩ := h
  rw [← hsame] at hdistinct hknown
  exact ⟨hdistinct, hknown⟩

theorem add (h : Bookkeeping account items value next) (hnone : account x = none) :
    Bookkeeping account (x :: items) value next := by
  obtain ⟨hdistinct, hknown⟩ := h
  rw [← List.filterMap_cons_none (l := items) hnone] at hdistinct hknown
  exact ⟨hdistinct, hknown⟩

theorem drop (h : Bookkeeping account (x :: items) value next) : Bookkeeping account items value next := by
  obtain ⟨hdistinct, hknown⟩ := h
  cases hx : account x with
  | none =>
    rw [List.filterMap_cons_none hx] at hdistinct hknown
    exact ⟨hdistinct, hknown⟩
  | some q =>
    rw [List.filterMap_cons_some hx] at hdistinct hknown
    rw [List.map_cons, List.nodup_cons] at hdistinct
    exact ⟨hdistinct.2, fun q' hq' => hknown q' (List.mem_cons_of_mem _ hq')⟩

/-- Nobody else has the account of an item. -/
theorem ne_of_mem (h : Bookkeeping account (x :: items) value next) (hx : account x = some (k, a)) :
    ∀ q ∈ items.filterMap account, q.1 ≠ k := by
  have hdistinct := h.distinct
  rw [List.filterMap_cons_some hx, List.map_cons, List.nodup_cons] at hdistinct
  intro q hq heq
  exact hdistinct.1 (List.mem_map.mpr ⟨q, hq, heq⟩)

/-- An item opens the next account. -/
theorem «open» (h : Bookkeeping account items value next) (hx : account x = some (next, a)) (ha : value next = a) :
    Bookkeeping account (x :: items) value (next + 1) := by
  have hitems : (x :: items).filterMap account = (next, a) :: items.filterMap account :=
    List.filterMap_cons_some hx
  refine ⟨?_, ?_⟩
  · rw [hitems, List.map_cons, List.nodup_cons]
    refine ⟨fun hmem => ?_, h.distinct⟩
    obtain ⟨q, hq, heq⟩ := List.mem_map.mp hmem
    exact absurd (h.known q hq).1 (heq ▸ Nat.lt_irrefl _)
  · rw [hitems]
    intro q hq
    rcases List.mem_cons.mp hq with rfl | hq
    · exact ⟨Nat.lt_succ_self _, ha⟩
    · exact ⟨Nat.lt_succ_of_lt (h.known q hq).1, (h.known q hq).2⟩

/-- An item that is over has changed the value of its account. -/
theorem close (h : Bookkeeping account (x :: items) value next) (hx : account x = some (k, a))
    (hvalue : ∀ k', k' ≠ k → value' k' = value k') : Bookkeeping account items value' next := by
  have hne := h.ne_of_mem hx
  refine ⟨h.drop.distinct, fun q hq => ?_⟩
  obtain ⟨hlt, hq'⟩ := h.drop.known q hq
  exact ⟨hlt, (hvalue q.1 (hne q hq)).trans hq'⟩

/-- An item has changed the value of its account, and knows it. -/
theorem change (h : Bookkeeping account (x :: items) value next) (hx : account x = some (k, a))
    (hy : account y = some (k, b)) (hb : value' k = b) (hvalue : ∀ k', k' ≠ k → value' k' = value k') :
    Bookkeeping account (y :: items) value' next := by
  have hlt := (h.mem List.mem_cons_self hx).1
  have hne := h.ne_of_mem hx
  have hrest := h.close hx hvalue
  have hitems : (y :: items).filterMap account = (k, b) :: items.filterMap account := List.filterMap_cons_some hy
  refine ⟨?_, ?_⟩
  · rw [hitems, List.map_cons, List.nodup_cons]
    refine ⟨fun hmem => ?_, hrest.distinct⟩
    obtain ⟨q, hq, heq⟩ := List.mem_map.mp hmem
    exact hne q hq heq
  · rw [hitems]
    intro q hq
    rcases List.mem_cons.mp hq with rfl | hq
    · exact ⟨hlt, hb⟩
    · exact hrest.known q hq

end Bookkeeping
