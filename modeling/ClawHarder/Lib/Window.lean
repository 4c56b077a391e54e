import Mathlib.Data.List.DropRight

/-!
# The last elements of a growing list

A bounded store that drops its oldest elements holds `List.rtake` of all that it was
ever given.

* `rtake_concat`: **a window of a window and a new element is the window of them all.**

A store with several limits drops until the rest fits (`dropUntil`).

-/

namespace List

variable {α : Type*} (n : ℕ) (xs : List α) (x : α)

theorem length_rtake : (xs.rtake n).length = min n xs.length := by
  unfold rtake
  rw [length_drop]
  omega

theorem take_append_rtake : xs.take (xs.length - n) ++ xs.rtake n = xs :=
  take_append_drop _ xs

theorem rtake_suffix : xs.rtake n <:+ xs := drop_suffix _ xs

/-- **The window can forget what it dropped.** -/
theorem rtake_concat : (xs.rtake n ++ [x]).rtake n = (xs ++ [x]).rtake n := by
  cases n with
  | zero => rw [rtake_zero, rtake_zero]
  | succ n =>
    have hinner : (xs.rtake (n + 1)).rtake n = xs.rtake n := by
      rw [rtake_eq_reverse_take_reverse, rtake_eq_reverse_take_reverse, reverse_reverse,
        take_take, Nat.min_eq_left (Nat.le_succ n), ← rtake_eq_reverse_take_reverse]
    rw [rtake_concat_succ, rtake_concat_succ, hinner]

theorem take_concat : (xs ++ [x]).take ((xs ++ [x]).length - n) =
    xs.take (xs.length - n) ++
      (xs.rtake n ++ [x]).take ((xs.rtake n ++ [x]).length - n) := by
  refine (append_left_inj ((xs ++ [x]).rtake n)).1 ?_
  calc (xs ++ [x]).take ((xs ++ [x]).length - n) ++ (xs ++ [x]).rtake n
      = xs ++ [x] := take_append_rtake n (xs ++ [x])
    _ = xs.take (xs.length - n) ++ (xs.rtake n ++ [x]) := by
        rw [← append_assoc, take_append_rtake]
    _ = _ := by
        rw [append_assoc, ← rtake_concat, take_append_rtake]

theorem rtake_append_right {n : ℕ} {xs ys : List α} (h : n ≤ ys.length) :
    (xs ++ ys).rtake n = ys.rtake n := by
  unfold rtake
  have hdrop : (xs ++ ys).length - n = xs.length + (ys.length - n) := by
    rw [length_append]
    omega
  rw [hdrop, ← drop_drop, drop_left]

theorem mem_rtake_append {n : ℕ} {xs ys : List α} {x : α} (h : ys.length < n) :
    x ∈ (xs ++ x :: ys).rtake n := by
  unfold rtake
  have hle : (xs ++ x :: ys).length - n ≤ xs.length := by
    rw [length_append, length_cons]
    omega
  rw [drop_append_of_le_length hle]
  exact mem_append_right _ mem_cons_self

section Fitting

variable (fits : List α → Prop)

structure LongestFitting (xs ys : List α) : Prop where
  suffix : ys <:+ xs
  holds : fits ys
  longest : ∀ zs, zs <:+ xs → fits zs → zs <:+ ys

variable [DecidablePred fits]

/-- Drop the first elements until the rest fits, or nothing is left. -/
def dropUntil : List α → List α
  | [] => []
  | x :: xs => if fits (x :: xs) then x :: xs else dropUntil xs

theorem dropUntil_suffix : dropUntil fits xs <:+ xs := by
  induction xs with
  | nil => exact suffix_refl []
  | cons x xs ih =>
    unfold dropUntil
    split
    · exact suffix_refl (x :: xs)
    · exact ih.trans (suffix_cons x xs)

theorem fits_dropUntil : dropUntil fits xs = [] ∨ fits (dropUntil fits xs) := by
  induction xs with
  | nil => exact Or.inl rfl
  | cons x xs ih =>
    unfold dropUntil
    split
    · rename_i hfits
      exact Or.inr hfits
    · exact ih

variable {fits xs}

theorem suffix_dropUntil {zs : List α} (hzs : zs <:+ xs) (hfits : fits zs) :
    zs <:+ dropUntil fits xs := by
  induction xs with
  | nil => exact hzs
  | cons x xs ih =>
    unfold dropUntil
    split
    · exact hzs
    · rename_i hover
      rcases suffix_cons_iff.1 hzs with rfl | hzs
      · exact absurd hfits hover
      · exact ih hzs

/-- **Dropping finds the longest end that fits**, if any end does. -/
theorem longestFitting_dropUntil (hnil : fits []) : LongestFitting fits xs (dropUntil fits xs) where
  suffix := dropUntil_suffix xs fits
  holds := by
    rcases fits_dropUntil xs fits with hleft | hfits
    · rw [hleft]
      exact hnil
    · exact hfits
  longest _ := suffix_dropUntil

/-- **Where parts of what fits fit, what was dropped can be forgotten.** -/
theorem dropUntil_concat (hpart : ∀ ys zs, ys <+ zs → fits zs → fits ys) :
    dropUntil fits (dropUntil fits xs ++ [x]) = dropUntil fits (xs ++ [x]) := by
  have hend : dropUntil fits xs ++ [x] <:+ xs ++ [x] := suffix_append_self_iff.2 (dropUntil_suffix xs fits)
  have hforth : dropUntil fits (dropUntil fits xs ++ [x]) <:+ dropUntil fits (xs ++ [x]) := by
    rcases fits_dropUntil (dropUntil fits xs ++ [x]) fits with hleft | hfits
    · rw [hleft]
      exact nil_suffix
    · exact suffix_dropUntil ((dropUntil_suffix _ fits).trans hend) hfits
  have hback : dropUntil fits (xs ++ [x]) <:+ dropUntil fits (dropUntil fits xs ++ [x]) := by
    rcases fits_dropUntil (xs ++ [x]) fits with hleft | hfits
    · rw [hleft]
      exact nil_suffix
    · refine suffix_dropUntil ?_ hfits
      -- without the new element it is an end that fits already
      rcases suffix_concat_iff.1 (dropUntil_suffix (xs ++ [x]) fits) with
        hnil | ⟨zs, hzs, hsuffix⟩
      · rw [hnil]
        exact nil_suffix
      · rw [hzs] at hfits ⊢
        have hzfits : fits zs := hpart zs (zs ++ [x]) (sublist_append_left zs [x]) hfits
        exact suffix_append_self_iff.2 (suffix_dropUntil hsuffix hzfits)
  exact hforth.eq_of_length_le (hback.length_le)

end Fitting

end List
