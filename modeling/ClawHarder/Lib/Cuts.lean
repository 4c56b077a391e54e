import Mathlib.Data.List.Basic

/-!
# Cuts of a list

A cut is an interval of positions. Cuts that are in order take pieces out of a list, and drop what
is between them.

* `slices_eq_kept`: **the slices, one behind the other, are the items that are in a cut.**
-/

namespace Cuts

variable {α : Type*}

def slice (l : List α) (start stop : ℕ) : List α := (l.take stop).drop start

def inCut (cuts : List (ℕ × ℕ)) (i : ℕ) : Bool := cuts.any fun c => c.1 ≤ i && i < c.2

def kept (l : List α) (cuts : List (ℕ × ℕ)) : List α :=
  (l.zipIdx.filter fun x => inCut cuts x.2).map Prod.fst

/-- The cuts are from a position on, one behind the other, and in a list of `n` items. -/
def Ordered (n : ℕ) : ℕ → List (ℕ × ℕ) → Prop
  | _, [] => True
  | pos, (a, b) :: cuts => pos ≤ a ∧ a ≤ b ∧ b ≤ n ∧ Ordered n b cuts

theorem inCut_cons (a b : ℕ) (cuts : List (ℕ × ℕ)) (i : ℕ) :
    inCut ((a, b) :: cuts) i = (decide (a ≤ i ∧ i < b) || inCut cuts i) := by
  simp [inCut]

variable {cuts : List (ℕ × ℕ)}

theorem Ordered.mono {n pos pos' : ℕ} (h : Ordered n pos cuts)
    (hle : pos' ≤ pos) : Ordered n pos' cuts := by
  cases cuts with
  | nil => trivial
  | cons c cuts => exact ⟨Nat.le_trans hle h.1, h.2⟩

theorem Ordered.inCut_of_lt {n pos i : ℕ} (h : Ordered n pos cuts)
    (hi : i < pos) : inCut cuts i = false := by
  induction cuts generalizing pos with
  | nil => rfl
  | cons c cuts ih =>
    obtain ⟨ha, hab, -, hrest⟩ := h
    rw [inCut_cons, ih hrest (by omega), Bool.or_false, decide_eq_false_iff_not]
    omega

theorem drop_eq_slice_append (l : List α) {a b : ℕ} (hab : a ≤ b) :
    l.drop a = slice l a b ++ l.drop b := by
  have hdrop : (l.take b).drop a ++ (l.drop b).drop (a - b) = l.drop a := by
    rcases Nat.le_total b l.length with hb | hb
    · have happ : (l.take b ++ l.drop b).drop a =
          (l.take b).drop a ++ (l.drop b).drop (a - (l.take b).length) := List.drop_append
      rw [List.take_append_drop, List.length_take, Nat.min_eq_left hb] at happ
      exact happ.symm
    · rw [List.take_of_length_le hb, List.drop_eq_nil_of_le hb]
      simp
  rw [Nat.sub_eq_zero_of_le hab, List.drop_zero] at hdrop
  exact hdrop.symm

theorem slice_length (l : List α) (a b : ℕ) : (slice l a b).length = min b l.length - a := by
  simp [slice]

theorem mem_zipIdx_slice {l : List α} {a b : ℕ} {x : α × ℕ} (h : x ∈ (slice l a b).zipIdx a) :
    a ≤ x.2 ∧ x.2 < b := by
  obtain ⟨hle, hlt⟩ := List.mem_zipIdx h
  have := slice_length l a b
  omega

/-- The slices of cuts from a position on, by induction on the cuts. -/
theorem slices_eq_filter {l : List α} {pos : ℕ}
    (h : Ordered l.length pos cuts) :
    (cuts.map fun c => slice l c.1 c.2).flatten =
      (((l.drop pos).zipIdx pos).filter fun x => inCut cuts x.2).map Prod.fst := by
  induction cuts generalizing pos with
  | nil => simp [inCut]
  | cons c cuts ih =>
    obtain ⟨a, b⟩ := c
    obtain ⟨ha, hab, hb, hrest⟩ := h
    have hgap : ((slice l pos a).zipIdx pos).filter (fun x => inCut ((a, b) :: cuts) x.2) = [] := by
      rw [List.filter_eq_nil_iff]
      intro x hx
      have := mem_zipIdx_slice hx
      rw [inCut_cons, hrest.inCut_of_lt (by omega)]
      simp only [Bool.or_false, decide_eq_true_eq]
      omega
    have hcut : ((slice l a b).zipIdx a).filter (fun x => inCut ((a, b) :: cuts) x.2) =
        (slice l a b).zipIdx a := by
      rw [List.filter_eq_self]
      intro x hx
      have := mem_zipIdx_slice hx
      rw [inCut_cons]
      simp [this]
    have htail : ((l.drop b).zipIdx b).filter (fun x => inCut ((a, b) :: cuts) x.2) =
        ((l.drop b).zipIdx b).filter (fun x => inCut cuts x.2) := by
      refine List.filter_congr fun x hx => ?_
      have := (List.mem_zipIdx hx).1
      rw [inCut_cons, decide_eq_false (by omega), Bool.false_or]
    have hpos : pos + (slice l pos a).length = a := by
      rw [slice_length]
      omega
    have hpos' : a + (slice l a b).length = b := by
      rw [slice_length]
      omega
    rw [List.map_cons, List.flatten_cons, ih hrest, drop_eq_slice_append l ha, List.zipIdx_append,
      hpos, drop_eq_slice_append l hab, List.zipIdx_append, hpos', List.filter_append,
      List.filter_append, hgap, hcut, htail, List.nil_append, List.map_append, List.zipIdx_map_fst]

/-- **The slices, one behind the other, are the items that are in a cut.** -/
theorem slices_eq_kept {l : List α} (h : Ordered l.length 0 cuts) :
    (cuts.map fun c => slice l c.1 c.2).flatten = kept l cuts := by
  rw [slices_eq_filter h, List.drop_zero]
  rfl

end Cuts
