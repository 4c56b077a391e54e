import Mathlib.Data.List.Basic
import Mathlib.Data.List.Infix

/-!
# Properties that separators cut

A property of lists is cut at a separator when a list with the separator in it has the
property exactly when both sides have it. Such a property goes from a text to its parts and
from the parts to any text that the same separators join.
-/

def CutAt {α : Type*} (seps : List α) (P : List α → Prop) : Prop :=
  ∀ c ∈ seps, ∀ x y, P (x ++ c :: y) ↔ P x ∧ P y

namespace CutAt

variable {α : Type*} {seps : List α} {P : List α → Prop} {c : α}

theorem cons (h : CutAt seps P) (hc : c ∈ seps) {y : List α} : P (c :: y) ↔ P [] ∧ P y :=
  h c hc [] y

theorem enclosed (h : CutAt seps P) (hc : c ∈ seps) {x : List α} :
    P (c :: (x ++ [c])) ↔ P [] ∧ P x := by
  rw [h.cons hc, h c hc x []]
  exact ⟨fun h => ⟨h.1, h.2.1⟩, fun h => ⟨h.1, h.2, h.1⟩⟩

theorem intercalate (h : CutAt seps P) (hc : c ∈ seps) {parts : List (List α)} (hne : parts ≠ []) :
    P ([c].intercalate parts) ↔ ∀ x ∈ parts, P x := by
  induction parts with
  | nil => exact absurd rfl hne
  | cons x parts ih =>
    cases parts with
    | nil => simp
    | cons y parts =>
      have hrest := ih (List.cons_ne_nil y parts)
      rw [List.intercalate_cons_cons, List.append_assoc, List.singleton_append, h c hc, hrest,
        List.forall_mem_cons (a := x)]

theorem not_infix {t : List α} (ht : ∀ c ∈ seps, c ∉ t) : CutAt seps fun s => ¬t <:+: s := by
  intro c hc x y
  -- what begins at the separator is empty, as far as it lies in `t`
  have hprefix : ∀ z, z <+: c :: y → z ⊆ t → z = [] := by
    intro z hz hsub
    rcases List.prefix_cons_iff.1 hz with rfl | ⟨z, rfl, -⟩
    · rfl
    · exact absurd (hsub List.mem_cons_self) (ht c hc)
  rw [← not_or, not_iff_not]
  constructor
  · intro h
    rcases List.infix_append_iff.1 h with hx | hy | ⟨left, right, rfl, hx, hy⟩
    · exact Or.inl hx
    · rcases List.infix_cons_iff.1 hy with hz | hy
      · obtain rfl := hprefix t hz (List.Subset.refl t)
        exact Or.inl (List.nil_infix)
      · exact Or.inr hy
    · obtain rfl := hprefix right hy (List.subset_append_right left right)
      rw [List.append_nil]
      exact Or.inl hx.isInfix
  · rintro (hx | hy)
    · exact List.infix_append_of_infix_left hx
    · exact List.infix_append_of_infix_right (List.infix_cons hy)

theorem forall_mem {p : α → Prop} (hp : ∀ c ∈ seps, p c) : CutAt seps fun s => ∀ c ∈ s, p c := by
  intro c hc x y
  have hsep : p c := hp c hc
  simp only [List.forall_mem_append, List.forall_mem_cons]
  exact ⟨fun h => ⟨h.1, h.2.2⟩, fun h => ⟨h.1, hsep, h.2⟩⟩

end CutAt
