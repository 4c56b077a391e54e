import ClawHarder.Lib.Run
import Mathlib.Data.List.Sort

/-!
# Registers of a run, and sorted logs

A register is a part of the state that some labels set and all others leave. After a run
it has what the last setting label set. A log that is sorted stably before it is run can
be restricted to some labels before or after the sort.

* `read_run`: **a register holds what was set last.**
* `filter_insertionSort`: sorting and filtering commute.
* `insertionSort_key_eq_iff`: **a stable sort by a key is known by its order and its classes.**
-/

namespace Machine

variable {σ α V : Type*} {step : σ → α → σ} {sets : α → Option V}

def lastSet (sets : α → Option V) (default : V) (as : List α) : V :=
  (as.filterMap sets).getLast?.getD default

theorem lastSet_cons (default : V) (a : α) (as : List α) :
    lastSet sets default (a :: as) = lastSet sets ((sets a).getD default) as := by
  unfold lastSet
  cases h : sets a with
  | none => rw [List.filterMap_cons_none h, Option.getD_none]
  | some v => rw [List.filterMap_cons_some h, List.getLast?_cons, Option.getD_some, Option.getD_some]

/-- **A register holds what was set last.** -/
theorem read_run {read : σ → V} (hstep : ∀ s a, read (step s a) = (sets a).getD (read s))
    (s : σ) (as : List α) : read (run step s as) = lastSet sets (read s) as := by
  induction as generalizing s with
  | nil => rfl
  | cons a as ih => rw [run_cons, ih, hstep, lastSet_cons]

theorem run_filter {p : α → Bool} (h : ∀ s a, p a = false → step s a = s) (s : σ)
    (as : List α) : run step s (as.filter p) = run step s as := by
  induction as generalizing s with
  | nil => rfl
  | cons a as ih =>
    cases hp : p a with
    | true => rw [List.filter_cons_of_pos hp, run_cons, run_cons, ih]
    | false =>
      rw [List.filter_cons_of_neg (by rw [hp]; exact Bool.false_ne_true), run_cons, h s a hp, ih]

end Machine

namespace List

variable {α : Type*} {r : α → α → Prop} [DecidableRel r] [IsTrans α r]

theorem filter_orderedInsert (p : α → Bool) (a : α) {l : List α} (hsorted : l.Pairwise r) :
    (l.orderedInsert r a).filter p =
      if p a then (l.filter p).orderedInsert r a else l.filter p := by
  induction l with
  | nil => cases hp : p a <;> simp [hp]
  | cons b l ih =>
    obtain ⟨hb, hl⟩ := pairwise_cons.1 hsorted
    have hrest := ih hl
    by_cases hab : r a b
    · -- the new element comes before what is kept of a list above it
      have habove : ∀ c ∈ (b :: l).filter p, r a c := by
        intro c hc
        rcases mem_cons.1 (mem_filter.1 hc).1 with rfl | hc
        · exact hab
        · exact IsTrans.trans a b c hab (hb c hc)
      rw [orderedInsert_cons_of_le r l hab]
      cases hp : p a with
      | true =>
        rw [filter_cons_of_pos hp, if_pos rfl]
        cases hf : (b :: l).filter p with
        | nil => rfl
        | cons c rest =>
          rw [orderedInsert_cons_of_le r rest (habove c (by rw [hf]; exact mem_cons_self))]
      | false =>
        rw [filter_cons_of_neg (by rw [hp]; exact Bool.false_ne_true), if_neg Bool.false_ne_true]
    · rw [orderedInsert_of_not_le r l hab]
      cases hpb : p b with
      | true =>
        rw [filter_cons_of_pos hpb, filter_cons_of_pos hpb, hrest]
        cases hp : p a with
        | true => rw [if_pos rfl, if_pos rfl, orderedInsert_of_not_le r _ hab]
        | false => rw [if_neg Bool.false_ne_true, if_neg Bool.false_ne_true]
      | false =>
        have hneg : ¬ p b = true := by rw [hpb]; exact Bool.false_ne_true
        rw [filter_cons_of_neg hneg, filter_cons_of_neg hneg, hrest]

/-- **Sorting and filtering commute.** -/
theorem filter_insertionSort [Std.Total r] (p : α → Bool) (l : List α) :
    (l.insertionSort r).filter p = (l.filter p).insertionSort r := by
  induction l with
  | nil => rfl
  | cons a l ih =>
    rw [insertionSort_cons, filter_orderedInsert p a (pairwise_insertionSort r l), ih]
    cases hp : p a with
    | true => rw [if_pos rfl, filter_cons_of_pos hp, insertionSort_cons]
    | false =>
      rw [if_neg Bool.false_ne_true, filter_cons_of_neg (by rw [hp]; exact Bool.false_ne_true)]

section Keyed

variable {κ : Type*} [LinearOrder κ] [DecidableEq κ] {key : α → κ}

theorem eq_of_classes {l₁ l₂ : List α} (h₁ : l₁.Pairwise fun a b => key a ≤ key b)
    (h₂ : l₂.Pairwise fun a b => key a ≤ key b)
    (h : ∀ k, l₁.filter (fun a => key a = k) = l₂.filter fun a => key a = k) : l₁ = l₂ := by
  induction l₁ generalizing l₂ with
  | nil =>
    refine (eq_nil_iff_forall_not_mem.2 fun b hb => ?_).symm
    have hmem : b ∈ l₂.filter fun a => key a = key b := mem_filter.2 ⟨hb, by simp⟩
    rw [← h (key b)] at hmem
    simp at hmem
  | cons a l₁ ih =>
    cases l₂ with
    | nil => simpa using h (key a)
    | cons b l₂ =>
      obtain ⟨ha, hl₁⟩ := pairwise_cons.1 h₁
      obtain ⟨hb, hl₂⟩ := pairwise_cons.1 h₂
      -- each head is in the other list, so neither key is above the other
      have hba : key b ≤ key a := by
        have hmem : a ∈ (b :: l₂).filter fun c => key c = key a := by
          rw [← h (key a)]
          exact mem_filter.2 ⟨mem_cons_self, by simp⟩
        rcases mem_cons.1 (mem_filter.1 hmem).1 with rfl | hmem
        · exact le_rfl
        · exact hb a hmem
      have hab : key a ≤ key b := by
        have hmem : b ∈ (a :: l₁).filter fun c => key c = key b := by
          rw [h (key b)]
          exact mem_filter.2 ⟨mem_cons_self, by simp⟩
        rcases mem_cons.1 (mem_filter.1 hmem).1 with rfl | hmem
        · exact le_rfl
        · exact ha b hmem
      have hkey : key b = key a := le_antisymm hba hab
      have hhead := h (key a)
      rw [filter_cons_of_pos (by simp), filter_cons_of_pos (by simp [hkey])] at hhead
      obtain ⟨rfl, -⟩ := cons.inj hhead
      have htail : l₁ = l₂ := by
        refine ih hl₁ hl₂ fun k => ?_
        have hk := h k
        by_cases hak : key a = k
        · rw [filter_cons_of_pos (by simp [hak]), filter_cons_of_pos (by simp [hak])] at hk
          exact (cons.inj hk).2
        · rwa [filter_cons_of_neg (by simp [hak]), filter_cons_of_neg (by simp [hak])] at hk
      rw [htail]

/-- **A stable sort by a key is known by its order and its classes.** -/
theorem insertionSort_key_eq_iff {l l' : List α} :
    l.insertionSort (fun a b => key a ≤ key b) = l' ↔
      (l'.Pairwise fun a b => key a ≤ key b) ∧
        ∀ k, l.filter (fun a => key a = k) = l'.filter fun a => key a = k := by
  have htotal : Std.Total fun a b : α => key a ≤ key b := ⟨fun a b => le_total (key a) (key b)⟩
  have htrans : IsTrans α fun a b => key a ≤ key b := ⟨fun _ _ _ hab hbc => le_trans hab hbc⟩
  have hclass : ∀ k, (l.insertionSort fun a b => key a ≤ key b).filter (fun a => key a = k) =
      l.filter fun a => key a = k := by
    intro k
    rw [filter_insertionSort]
    refine Pairwise.insertionSort_eq (pairwise_of_forall_mem_list fun a ha b hb => ?_)
    have hka : key a = k := by simpa using (mem_filter.1 ha).2
    have hkb : key b = k := by simpa using (mem_filter.1 hb).2
    exact (hka.trans hkb.symm).le
  constructor
  · rintro rfl
    exact ⟨pairwise_insertionSort _ l, fun k => (hclass k).symm⟩
  · rintro ⟨hsorted, hsame⟩
    exact eq_of_classes (pairwise_insertionSort _ l) hsorted fun k => (hclass k).trans (hsame k)

end Keyed

end List
