import Mathlib.Data.List.Infix
import Mathlib.Order.Lattice

/-!
# Segments of sorted lists

A list is a segment of a strictly sorted one if it is sorted, and leaves no element of it out between two
of its own. Segments are put together where nothing lies between them. `firsts` drops repetitions.
-/

namespace List
variable {α : Type*}

/-- The elements of a part of a sorted list come before all others, or are in it. -/
theorem mem_take_or_forall {r : α → α → Prop} {l : List α} (hl : l.Pairwise r) {v : α} (hv : v ∈ l) (n : Nat) :
    v ∈ l.take n ∨ ∀ x ∈ l.take n, r x v := by
  rw [← take_append_drop n l] at hl hv
  refine (mem_append.mp hv).imp_right fun hdrop x hx => ?_
  exact (pairwise_append.mp hl).2.2 x hx v hdrop

section
variable [LinearOrder α] {V W p : List α}

theorem prefix_of_sorted (hV : V.Pairwise (· < ·)) (hW : W.Pairwise (· < ·)) (hsub : W ⊆ V)
    (hdown : ∀ v ∈ V, ∀ b ∈ W, v ≤ b → v ∈ W) : W <+: V := by
  induction V generalizing W with
  | nil => rw [subset_nil.mp hsub]
  | cons x V ih =>
    obtain ⟨hx, hV⟩ := pairwise_cons.mp hV
    cases W with
    | nil => exact nil_prefix
    | cons w W =>
      obtain ⟨hw, hW'⟩ := pairwise_cons.mp hW
      have hle : x ≤ w := by
        rcases mem_cons.mp (hsub (.head _)) with rfl | hmem
        · exact le_rfl
        · exact (hx w hmem).le
      have heq : x = w := by
        rcases mem_cons.mp (hdown x (.head _) w (.head _) hle) with heq | hmem
        · exact heq
        · exact absurd (hw x hmem) hle.not_gt
      subst heq
      have hrest : ∀ v ∈ V, v ∈ x :: W → v ∈ W := fun v hv hmem =>
        (mem_cons.mp hmem).resolve_left (hx v hv).ne'
      refine cons_prefix_cons.mpr ⟨rfl, ih hV hW' (fun b hb => ?_) fun v hv b hb hvb => ?_⟩
      · exact (mem_cons.mp (hsub (.tail _ hb))).resolve_left (hw b hb).ne'
      · exact hrest v hv (hdown v (.tail _ hv) b (.tail _ hb) hvb)

/-- The segments of a sorted list are its sorted parts without gaps. -/
theorem infix_iff_of_sorted (hV : V.Pairwise (· < ·)) :
    W <:+: V ↔ W.Pairwise (· < ·) ∧ W ⊆ V ∧ ∀ v ∈ V, ∀ a ∈ W, ∀ b ∈ W, a ≤ v → v ≤ b → v ∈ W := by
  constructor
  · intro h
    refine ⟨hV.sublist h.sublist, h.subset, fun v hv a ha b hb hav hvb => ?_⟩
    obtain ⟨l₁, l₂, rfl⟩ := h
    obtain ⟨hleft, -, hright⟩ := pairwise_append.mp hV
    rcases mem_append.mp hv with hv | hv
    · rcases mem_append.mp hv with hv | hv
      · exact absurd ((pairwise_append.mp hleft).2.2 v hv a ha) hav.not_gt
      · exact hv
    · exact absurd (hright b (mem_append_right _ hb) v hv) hvb.not_gt
  · rintro ⟨hW, hsub, hgap⟩
    induction V with
    | nil => rw [subset_nil.mp hsub]
    | cons x V ih =>
      obtain ⟨hx, hV'⟩ := pairwise_cons.mp hV
      cases W with
      | nil => exact nil_infix
      | cons w W =>
        obtain ⟨hw, hW'⟩ := pairwise_cons.mp hW
        by_cases heq : w = x
        · subst heq
          refine (prefix_of_sorted hV hW hsub fun v hv b hb hvb => hgap v hv w (.head _) b hb ?_ hvb).isInfix
          rcases mem_cons.mp hv with rfl | hv
          · exact le_rfl
          · exact (hx v hv).le
        · have hsub' : w :: W ⊆ V := by
            intro b hb
            refine (mem_cons.mp (hsub hb)).resolve_left ?_
            rintro rfl
            rcases mem_cons.mp hb with rfl | hb
            · exact heq rfl
            · exact absurd (hw b hb) (hx w ((mem_cons.mp (hsub (.head _))).resolve_left heq)).not_gt
          exact (ih hV' hsub' fun v hv => hgap v (.tail _ hv)).trans (suffix_cons ..).isInfix

/-- Two segments, one after the other, with nothing between them. -/
theorem infix_append_of_sorted (hV : V.Pairwise (· < ·)) (hW : W <:+: V) (hp : p <:+: V)
    (hlt : ∀ w ∈ W, ∀ x ∈ p, w < x)
    (hgap : ∀ v ∈ V, (∃ w ∈ W, w ≤ v) → (∃ x ∈ p, v ≤ x) → v ∈ W ∨ v ∈ p) : W ++ p <:+: V := by
  obtain ⟨hsortedW, hsubW, hgapW⟩ := (infix_iff_of_sorted hV).mp hW
  obtain ⟨hsortedp, hsubp, hgapp⟩ := (infix_iff_of_sorted hV).mp hp
  refine (infix_iff_of_sorted hV).mpr ⟨pairwise_append.mpr ⟨hsortedW, hsortedp, hlt⟩, ?_, ?_⟩
  · exact append_subset.mpr ⟨hsubW, hsubp⟩
  · intro v hv a ha b hb hav hvb
    refine mem_append.mpr ?_
    rcases mem_append.mp ha with ha | ha <;> rcases mem_append.mp hb with hb | hb
    · exact .inl (hgapW v hv a ha b hb hav hvb)
    · exact hgap v hv ⟨a, ha, hav⟩ ⟨b, hb, hvb⟩
    · exact absurd (hlt b hb a ha) (hav.trans hvb).not_gt
    · exact .inr (hgapp v hv a ha b hb hav hvb)

/-- What is added at the end of a sorted list comes after all that was there. -/
theorem lt_of_mem_of_prefix (hV : V.Pairwise (· < ·)) (h : W <+: V) {u v : α} (hu : u ∈ W) (hv : v ∈ V)
    (hnew : v ∉ W) : u < v := by
  obtain ⟨rest, rfl⟩ := h
  exact (pairwise_append.mp hV).2.2 u hu v ((mem_append.mp hv).resolve_left hnew)

end

section
variable [DecidableEq α]

/-- The elements of a list at their first places, but for those that were seen before. -/
def firsts (seen : List α) : List α → List α
  | [] => []
  | x :: xs => if x ∈ seen then firsts seen xs else x :: firsts (x :: seen) xs

theorem firsts_eq_self {seen l : List α} (hl : l.Nodup) (hseen : ∀ x ∈ l, x ∉ seen) : firsts seen l = l := by
  induction l generalizing seen with
  | nil => rfl
  | cons x xs ih =>
    obtain ⟨hx, hxs⟩ := nodup_cons.mp hl
    rw [firsts, if_neg (hseen x (.head _)), ih hxs]
    intro y hy hmem
    rcases mem_cons.mp hmem with rfl | hmem
    · exact hx hy
    · exact hseen y (.tail _ hy) hmem

theorem firsts_eq_nil {seen l : List α} (hl : l ⊆ seen) : firsts seen l = [] := by
  induction l with
  | nil => rfl
  | cons x xs ih =>
    rw [firsts, if_pos (hl (.head _)), ih fun y hy => hl (.tail _ hy)]

theorem firsts_append {seen l₁ l₂ : List α} (hl : l₁.Nodup) (hseen : ∀ x ∈ l₁, x ∉ seen) :
    firsts seen (l₁ ++ l₂) = l₁ ++ firsts (l₁.reverse ++ seen) l₂ := by
  induction l₁ generalizing seen with
  | nil => rfl
  | cons x xs ih =>
    obtain ⟨hx, hxs⟩ := nodup_cons.mp hl
    rw [cons_append, firsts, if_neg (hseen x (.head _)), ih hxs]
    · simp
    · intro y hy hmem
      rcases mem_cons.mp hmem with rfl | hmem
      · exact hx hy
      · exact hseen y (.tail _ hy) hmem

theorem firsts_append_of_subset {seen l₁ l₂ : List α} (hl : l₁ ⊆ seen) : firsts seen (l₁ ++ l₂) = firsts seen l₂ := by
  induction l₁ with
  | nil => rfl
  | cons x xs ih =>
    rw [cons_append, firsts, if_pos (hl (.head _)), ih fun y hy => hl (.tail _ hy)]

end

end List
