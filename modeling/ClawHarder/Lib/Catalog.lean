import Mathlib.Data.List.Nodup
import Mathlib.Logic.Function.Basic

/-!
# Catalogs of a partial map

A list of entries is a catalog of a partial map when each entry describes a point of the
map, each point has an entry, and no key occurs twice. The key of an entry is the name
of the point that it describes.

* `Catalog.remove`, `Catalog.replace`, `Catalog.add`: **the catalog of an updated map.**
-/

structure Catalog {P B E K : Type*} (Describes : P → B → E → Prop) (key : E → K)
    (m : P → Option B) (entries : List E) : Prop where
  complete : ∀ p b, m p = some b → ∃ e ∈ entries, Describes p b e
  sound : ∀ e ∈ entries, ∃ p b, m p = some b ∧ Describes p b e
  once : (entries.map key).Nodup

namespace Catalog

variable {P B E K : Type*} {Describes : P → B → E → Prop} {key : E → K} {m : P → Option B}
  {entries : List E} {p : P} {b : B} {new : E}

theorem nil : Catalog Describes key (fun _ => none) [] where
  complete _ _ h := by cases h
  sound _ h := by cases h
  once := List.nodup_nil

variable (name : P → K)

theorem point_of_key (h : Catalog Describes key m entries)
    (hkey : ∀ p b e, Describes p b e → key e = name p)
    (hinj : ∀ q b, m q = some b → name q = name p → q = p) {e : E} (he : e ∈ entries)
    (hp : key e = name p) : ∃ b, m p = some b ∧ Describes p b e := by
  obtain ⟨q, b, hq, hdesc⟩ := h.sound e he
  have hqp : q = p := hinj q b hq ((hkey q b e hdesc).symm.trans hp)
  exact ⟨b, hqp ▸ hq, hqp ▸ hdesc⟩

variable [DecidableEq P] [DecidableEq K]

theorem remove (h : Catalog Describes key m entries)
    (hkey : ∀ p b e, Describes p b e → key e = name p)
    (hinj : ∀ q b, m q = some b → name q = name p → q = p) :
    Catalog Describes key (Function.update m p none)
      (entries.filter fun e => key e ≠ name p) where
  complete q b hq := by
    have hne : q ≠ p := by
      rintro rfl
      rw [Function.update_self] at hq
      cases hq
    rw [Function.update_of_ne hne] at hq
    obtain ⟨e, he, hdesc⟩ := h.complete q b hq
    refine ⟨e, List.mem_filter.2 ⟨he, decide_eq_true ?_⟩, hdesc⟩
    rw [hkey q b e hdesc]
    exact fun heq => hne (hinj q b hq heq)
  sound e he := by
    obtain ⟨he, hother⟩ := List.mem_filter.1 he
    obtain ⟨q, b, hq, hdesc⟩ := h.sound e he
    have hne : q ≠ p := by
      rintro rfl
      exact of_decide_eq_true hother (hkey q b e hdesc)
    exact ⟨q, b, (Function.update_of_ne hne ..).trans hq, hdesc⟩
  once := h.once.sublist (List.filter_sublist.map key)

theorem replace (h : Catalog Describes key m entries)
    (hkey : ∀ p b e, Describes p b e → key e = name p)
    (hinj : ∀ q b, m q = some b → name q = name p → q = p) (hnew : Describes p b new)
    (hfound : ∃ e ∈ entries, key e = name p) :
    Catalog Describes key (Function.update m p (some b))
      (entries.map fun e => if key e = name p then new else e) where
  complete q c hq := by
    by_cases hne : q = p
    · subst hne
      rw [Function.update_self] at hq
      cases hq
      obtain ⟨e, he, hname⟩ := hfound
      exact ⟨new, List.mem_map.2 ⟨e, he, if_pos hname⟩, hnew⟩
    · rw [Function.update_of_ne hne] at hq
      obtain ⟨e, he, hdesc⟩ := h.complete q c hq
      have hother : key e ≠ name p := by
        rw [hkey q c e hdesc]
        exact fun heq => hne (hinj q c hq heq)
      exact ⟨e, List.mem_map.2 ⟨e, he, if_neg hother⟩, hdesc⟩
  sound e he := by
    obtain ⟨x, hx, rfl⟩ := List.mem_map.1 he
    by_cases hname : key x = name p
    · rw [if_pos hname]
      exact ⟨p, b, Function.update_self .., hnew⟩
    · rw [if_neg hname]
      obtain ⟨q, c, hq, hdesc⟩ := h.sound x hx
      have hne : q ≠ p := by
        rintro rfl
        exact hname (hkey q c x hdesc)
      exact ⟨q, c, (Function.update_of_ne hne ..).trans hq, hdesc⟩
  once := by
    have hsame : (entries.map fun e => if key e = name p then new else e).map key =
        entries.map key := by
      rw [List.map_map]
      refine List.map_congr_left fun e _ => ?_
      show key (if key e = name p then new else e) = key e
      split
      · rename_i hname
        rw [hname, hkey p b new hnew]
      · rfl
    rw [hsame]
    exact h.once

omit [DecidableEq K] in
theorem add (h : Catalog Describes key m entries)
    (hkey : ∀ p b e, Describes p b e → key e = name p) (hnew : Describes p b new)
    (hfree : ∀ e ∈ entries, key e ≠ name p) :
    Catalog Describes key (Function.update m p (some b)) (entries ++ [new]) where
  complete q c hq := by
    by_cases hne : q = p
    · subst hne
      rw [Function.update_self] at hq
      cases hq
      exact ⟨new, by simp, hnew⟩
    · rw [Function.update_of_ne hne] at hq
      obtain ⟨e, he, hdesc⟩ := h.complete q c hq
      exact ⟨e, List.mem_append_left _ he, hdesc⟩
  sound e he := by
    rcases List.mem_append.1 he with he | he
    · obtain ⟨q, c, hq, hdesc⟩ := h.sound e he
      have hne : q ≠ p := by
        rintro rfl
        exact hfree e he (hkey q c e hdesc)
      exact ⟨q, c, (Function.update_of_ne hne ..).trans hq, hdesc⟩
    · rw [List.mem_singleton.1 he]
      exact ⟨p, b, Function.update_self .., hnew⟩
  once := by
    rw [List.map_append, List.map_singleton]
    refine List.nodup_append.2 ⟨h.once, List.nodup_singleton _, ?_⟩
    intro k hk k' hk'
    obtain ⟨e, he, rfl⟩ := List.mem_map.1 hk
    rw [List.mem_singleton.1 hk', hkey p b new hnew]
    exact hfree e he

end Catalog
