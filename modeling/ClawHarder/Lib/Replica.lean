import Mathlib.Data.Set.Basic
import Mathlib.Logic.Function.Basic
import Mathlib.Logic.Relation

/-!
# Copies of a versioned store

A store holds a set of items at a revision. Copies of it are opened, grow on their
own and are saved back; a save is taken only from a copy that is based on the
revision of the store. The holder of a copy is promised items that it stores.

* `Sound.steps`: **no promised item is lost** in any order of such steps, as long as
  a copy is closed only when all it has is saved.
-/

namespace Replica

variable {ι α : Type*} [DecidableEq ι]

/-- A copy: the revision that it is based on, its items, and whether it was edited. -/
structure Copy (α : Type*) where
  base : ℤ
  items : Set α
  dirty : Bool

structure Store (ι α : Type*) where
  revision : ℤ
  saved : Set α
  copies : ι → Option (Copy α)
  promised : ι → Set α

inductive Step : Store ι α → Store ι α → Prop
  | opened {s : Store ι α} {i : ι} (hnone : s.copies i = none) :
    Step s { s with
      copies := Function.update s.copies i
        (some { base := s.revision, items := s.saved, dirty := false }) }
  /-- The copy gains items, promised or not told of; a clean one has none that are new. -/
  | edited {s : Store ι α} {i : ι} {c c' : Copy α} {new : Set α} (hcopy : s.copies i = some c)
    (hbase : c'.base = c.base) (hitems : c'.items = c.items ∪ new)
    (hdirty : c'.dirty = false → c.dirty = false ∧ new ⊆ c.items) :
    Step s { s with
      copies := Function.update s.copies i (some c')
      promised := Function.update s.promised i (s.promised i ∪ new) }
  | saved {s : Store ι α} {i : ι} {c : Copy α} (hcopy : s.copies i = some c)
    (hbase : c.base = s.revision) :
    Step s { s with
      revision := s.revision + 1
      saved := c.items
      copies := Function.update s.copies i
        (some { base := s.revision + 1, items := c.items, dirty := false }) }
  | closed {s : Store ι α} {i : ι} {c : Copy α} (hcopy : s.copies i = some c)
    (hitems : c.items ⊆ s.saved) :
    Step s { s with copies := Function.update s.copies i none }

/-- What holds of a copy, beside what is saved and what its holder was promised. -/
structure Copy.Sound (c : Copy α) (revision : ℤ) (saved promised : Set α) : Prop where
  /-- it is based on this revision or an earlier one -/
  based : c.base ≤ revision
  /-- when it is current, it has all that is saved -/
  current : c.base = revision → saved ⊆ c.items
  clean : c.dirty = false → c.items ⊆ saved
  /-- what is not saved was promised -/
  origin : c.items ⊆ saved ∪ promised

structure Sound (s : Store ι α) : Prop where
  copy : ∀ i c, s.copies i = some c → c.Sound s.revision s.saved (s.promised i)
  kept : ∀ i, ∀ x ∈ s.promised i, x ∈ s.saved ∨ ∃ c, s.copies i = some c ∧ x ∈ c.items

omit [DecidableEq ι] in
theorem Copy.Sound.superseded {c : Copy α} {revision : ℤ} {saved saved' promised : Set α}
    (h : c.Sound revision saved promised) (hsaved : saved ⊆ saved') :
    c.Sound (revision + 1) saved' promised where
  based := by
    have hle := h.based
    omega
  current hbase := by
    have hle := h.based
    omega
  clean hd := (h.clean hd).trans hsaved
  origin := h.origin.trans (Set.union_subset_union_left _ hsaved)

variable {s s' : Store ι α}

omit [DecidableEq ι] in
theorem Sound.initial (h : ∀ i, s.copies i = none) (hp : ∀ i, s.promised i = ∅) : Sound s where
  copy i c hc := by
    rw [h i] at hc
    cases hc
  kept i x hx := by
    rw [hp i] at hx
    cases hx

theorem update_eq_some {β : Type*} {f : ι → Option β} {i j : ι} {b : Option β} {c : β} :
    Function.update f i b j = some c ↔ (j = i ∧ b = some c) ∨ (j ≠ i ∧ f j = some c) := by
  by_cases hj : j = i
  · subst hj
    simp
  · simp [hj]

/-- **A step keeps the store sound.** -/
theorem Step.sound (h : Step s s') (hs : Sound s) : Sound s' := by
  cases h with
  | @opened i hnone =>
    refine ⟨?_, ?_⟩
    · intro j c hc
      rcases update_eq_some.1 hc with ⟨rfl, h⟩ | ⟨-, hc⟩
      · cases h
        exact ⟨le_rfl, fun _ => subset_rfl, fun _ => subset_rfl, Set.subset_union_left⟩
      · exact hs.copy j c hc
    · intro j x hx
      rcases hs.kept j x hx with hsaved | ⟨c, hc, hin⟩
      · exact Or.inl hsaved
      · refine Or.inr ⟨c, update_eq_some.2 (Or.inr ⟨?_, hc⟩), hin⟩
        rintro rfl
        rw [hnone] at hc
        cases hc
  | @edited i c c' new hcopy hbase hitems hdirty =>
    have hold := hs.copy i c hcopy
    refine ⟨?_, ?_⟩
    · intro j d hd
      rcases update_eq_some.1 hd with ⟨rfl, h⟩ | ⟨hj, hd⟩
      · cases h
        simp only [Function.update_self]
        refine ⟨hbase ▸ hold.based, ?_, ?_, ?_⟩
        · intro hcur
          rw [hitems]
          exact (hold.current (hbase ▸ hcur)).trans Set.subset_union_left
        · intro hclean
          obtain ⟨hc, hnew⟩ := hdirty hclean
          rw [hitems]
          exact Set.union_subset (hold.clean hc) (hnew.trans (hold.clean hc))
        · rw [hitems, ← Set.union_assoc]
          exact Set.union_subset_union_left _ hold.origin
      · simp only [Function.update_of_ne hj]
        exact hs.copy j d hd
    · intro j x hx
      by_cases hj : j = i
      · subst hj
        simp only [Function.update_self] at hx
        rcases hx with hx | hx
        · rcases hs.kept j x hx with hsaved | ⟨d, hd, hin⟩
          · exact Or.inl hsaved
          · rw [hcopy] at hd
            cases hd
            exact Or.inr ⟨c', Function.update_self .., hitems ▸ Or.inl hin⟩
        · exact Or.inr ⟨c', Function.update_self .., hitems ▸ Or.inr hx⟩
      · simp only [Function.update_of_ne hj] at hx
        rcases hs.kept j x hx with hsaved | ⟨d, hd, hin⟩
        · exact Or.inl hsaved
        · exact Or.inr ⟨d, update_eq_some.2 (Or.inr ⟨hj, hd⟩), hin⟩
  | @saved i c hcopy hbase =>
    -- the copy is current, so nothing that is saved is lost
    have hgrows : s.saved ⊆ c.items := (hs.copy i c hcopy).current hbase
    refine ⟨?_, ?_⟩
    · intro j d hd
      rcases update_eq_some.1 hd with ⟨rfl, h⟩ | ⟨hj, hd⟩
      · cases h
        exact ⟨le_rfl, fun _ => subset_rfl, fun _ => subset_rfl, Set.subset_union_left⟩
      · exact (hs.copy j d hd).superseded hgrows
    · intro j x hx
      rcases hs.kept j x hx with hsaved | ⟨d, hd, hin⟩
      · exact Or.inl (hgrows hsaved)
      · by_cases hj : j = i
        · subst hj
          rw [hcopy] at hd
          cases hd
          exact Or.inl hin
        · exact Or.inr ⟨d, update_eq_some.2 (Or.inr ⟨hj, hd⟩), hin⟩
  | @closed i c hcopy hitems =>
    refine ⟨?_, ?_⟩
    · intro j d hd
      rcases update_eq_some.1 hd with ⟨-, h⟩ | ⟨-, hd⟩
      · cases h
      · exact hs.copy j d hd
    · intro j x hx
      rcases hs.kept j x hx with hsaved | ⟨d, hd, hin⟩
      · exact Or.inl hsaved
      · by_cases hj : j = i
        · subst hj
          rw [hcopy] at hd
          cases hd
          exact Or.inl (hitems hin)
        · exact Or.inr ⟨d, update_eq_some.2 (Or.inr ⟨hj, hd⟩), hin⟩

/-- **Nor do several steps.** -/
theorem Sound.steps (hs : Sound s) (h : Relation.ReflTransGen Step s s') : Sound s' := by
  induction h with
  | refl => exact hs
  | tail _ hstep ih => exact hstep.sound ih

end Replica
