import ClawHarder.Spec.EventLog

/-!
# Merging identity traits

The same `merge_identity_trait` merges a proposal and replays a confirmation.

* `merge_again`: a second merge of the same value into a list trait changes nothing.
* `unites_iff`: **a mergeable trait is merged as a set exactly when
  `normalize_identity_value` makes a list of it**: the value of the other one, `reinforced_symbols`,
  is taken apart into characters.
-/

namespace ClawHarder.EventLog

open PyText (lit codePoint)

/-- **What is there stays in front, and each other item comes once behind it.** -/
theorem foldl_combine (items new : List PyText) :
    ∃ added, new.foldl combine items = items ++ added ∧ added.Nodup ∧
      ∀ x, x ∈ added ↔ x ∈ new ∧ x ∉ items := by
  induction new generalizing items with
  | nil => exact ⟨[], (List.append_nil items).symm, List.nodup_nil, by simp⟩
  | cons y new ih =>
    rw [List.foldl_cons]
    by_cases hy : y ∈ items
    · have hkeep : combine items y = items := if_pos hy
      obtain ⟨added, hfold, hnodup, hmem⟩ := ih items
      refine ⟨added, by rw [hkeep, hfold], hnodup, fun x => ?_⟩
      rw [hmem, List.mem_cons]
      constructor
      · rintro ⟨hx, hout⟩
        exact ⟨.inr hx, hout⟩
      · rintro ⟨rfl | hx, hout⟩
        · exact absurd hy hout
        · exact ⟨hx, hout⟩
    · have happend : combine items y = items ++ [y] := if_neg hy
      obtain ⟨added, hfold, hnodup, hmem⟩ := ih (items ++ [y])
      have hfresh : y ∉ added := fun h => ((hmem y).1 h).2 (by simp)
      refine ⟨y :: added, by rw [happend, hfold, List.append_assoc, List.singleton_append],
        List.nodup_cons.2 ⟨hfresh, hnodup⟩, fun x => ?_⟩
      rw [List.mem_cons, hmem, List.mem_cons, List.mem_append, List.mem_singleton]
      by_cases hx : x = y
      · subst hx
        exact iff_of_true (.inl rfl) ⟨.inl rfl, hy⟩
      · rw [or_iff_right hx, or_iff_right hx, or_iff_left hx]

theorem foldl_combine_of_subset {items new : List PyText} (h : ∀ x ∈ new, x ∈ items) :
    new.foldl combine items = items := by
  induction new with
  | nil => rfl
  | cons y new ih =>
    have hkeep : combine items y = items := if_pos (h y List.mem_cons_self)
    rw [List.foldl_cons, hkeep]
    exact ih fun x hx => h x (List.mem_cons_of_mem y hx)

theorem length_le_foldl_combine (items new : List PyText) :
    items.length ≤ (new.foldl combine items).length := by
  obtain ⟨added, hfold, -, -⟩ := foldl_combine items new
  rw [hfold, List.length_append]
  omega

variable {b : PyBuiltins} {trait : PyText}

theorem mergeIdentityTrait_mergeable (h : (traitConfig trait).merge = true)
    (existing new : PyValue) :
    mergeIdentityTrait b trait existing new =
      .list (((normalizedItems b trait new).foldl combine
        (normalizedItems b trait existing)).map .str) := by
  unfold mergeIdentityTrait
  rw [if_pos h]

theorem listItems_stripped (v : PyValue) :
    ∀ x ∈ listItems b v, PyText.strip x = x ∧ x ≠ [] := by
  have hfilter : ∀ texts : List PyText,
      ∀ x ∈ (texts.map PyText.strip).filter (· ≠ []), PyText.strip x = x ∧ x ≠ [] := by
    intro texts x hx
    obtain ⟨hmem, hne⟩ := List.mem_filter.1 hx
    obtain ⟨t, -, rfl⟩ := List.mem_map.1 hmem
    exact ⟨PyText.strip_strip t, of_decide_eq_true hne⟩
  intro x hx
  cases v with
  | str t => exact hfilter _ x hx
  | list items =>
    have hmap : items.map (fun v => PyText.strip (Py.str b v)) =
        (items.map (Py.str b)).map PyText.strip := by
      rw [List.map_map]
      rfl
    simp only [listItems, hmap] at hx
    exact hfilter _ x hx
  | none => cases hx
  | bool v => cases hx
  | int n => cases hx
  | float r => cases hx
  | dict members => cases hx

theorem listItems_list {texts : List PyText} (h : ∀ x ∈ texts, PyText.strip x = x ∧ x ≠ []) :
    listItems b (.list (texts.map .str)) = texts := by
  have hmap : (texts.map PyValue.str).map (fun v => PyText.strip (Py.str b v)) = texts := by
    rw [List.map_map]
    refine (List.map_congr_left fun x hx => ?_).trans (List.map_id texts)
    exact (h x hx).1
  simp only [listItems, hmap]
  exact List.filter_eq_self.2 fun x hx => decide_eq_true (h x hx).2

theorem normalizedItems_of_mem (htrait : trait ∈ listTraits) (v : PyValue) :
    normalizedItems b trait v = listItems b v := if_pos htrait

/-- **A second merge of the same value changes nothing.** -/
theorem merge_again (hmerge : (traitConfig trait).merge = true) (htrait : trait ∈ listTraits)
    (existing new : PyValue) :
    mergeIdentityTrait b trait (mergeIdentityTrait b trait existing new) new =
      mergeIdentityTrait b trait existing new := by
  simp only [mergeIdentityTrait_mergeable hmerge, normalizedItems_of_mem htrait]
  obtain ⟨added, hfold, -, hmem⟩ := foldl_combine (listItems b existing) (listItems b new)
  rw [hfold]
  have hcanonical : ∀ x ∈ listItems b existing ++ added, PyText.strip x = x ∧ x ≠ [] := by
    intro x hx
    rcases List.mem_append.1 hx with hx | hx
    · exact listItems_stripped existing x hx
    · exact listItems_stripped new x ((hmem x).1 hx).1
  have hsubset : ∀ x ∈ listItems b new, x ∈ listItems b existing ++ added := by
    intro x hx
    by_cases hin : x ∈ listItems b existing
    · exact List.mem_append_left added hin
    · exact List.mem_append_right _ ((hmem x).2 ⟨hx, hin⟩)
  rw [listItems_list hcanonical, foldl_combine_of_subset hsubset]

/-- `str` of a list: the items in brackets, each as its `repr`, which is never empty. -/
structure ListRepr (b : PyBuiltins) where
  itemRepr : PyValue → PyText
  itemRepr_ne_nil : ∀ v, itemRepr v ≠ []
  reprOf_list : ∀ items, b.reprOf (.list items) =
    codePoint '[' :: (PyText.join (lit ", ") (items.map itemRepr) ++ [codePoint ']'])

theorem length_le_join (sep : PyText) {parts : List PyText} (h : ∀ p ∈ parts, p ≠ []) :
    parts.length ≤ (PyText.join sep parts).length := by
  unfold PyText.join
  induction parts with
  | nil => exact Nat.zero_le _
  | cons p parts ih =>
    have hp := List.length_pos_of_ne_nil (h p List.mem_cons_self)
    have hrest := ih fun q hq => h q (List.mem_cons_of_mem p hq)
    cases parts with
    | nil =>
      rw [List.intercalate_singleton, List.length_singleton]
      exact hp
    | cons q parts =>
      rw [List.intercalate_cons_cons, List.length_append, List.length_append, List.length_cons]
      omega

theorem ListRepr.length_lt (r : ListRepr b) (items : List PyValue) :
    items.length < (PyText.strip (Py.str b (.list items))).length := by
  have hstr : Py.str b (.list items) = b.reprOf (.list items) := rfl
  have hparts : ∀ p ∈ items.map r.itemRepr, p ≠ [] := by
    intro p hp
    obtain ⟨v, -, rfl⟩ := List.mem_map.1 hp
    exact r.itemRepr_ne_nil v
  have hjoin := length_le_join (lit ", ") hparts
  have hopen : PyText.isSpace (codePoint '[') = false := by decide
  have hclose : PyText.isSpace (codePoint ']') = false := by decide
  have hstrip : ∀ inner : PyText, PyText.strip (codePoint '[' :: (inner ++ [codePoint ']'])) =
      codePoint '[' :: (inner ++ [codePoint ']']) := by
    intro inner
    unfold PyText.strip
    rw [List.dropWhile_cons_of_neg (by rw [hopen]; exact Bool.false_ne_true), ← List.cons_append,
      List.rdropWhile_concat_neg _ _ _ (by rw [hclose]; exact Bool.false_ne_true)]
  rw [hstr, r.reprOf_list, hstrip, List.length_cons, List.length_append]
  rw [List.length_map] at hjoin
  omega

/-- A trait is merged as a set: what is there stays in front, what is new comes once behind it,
and a second merge changes nothing. -/
structure Unites (b : PyBuiltins) (trait : PyText) (existing new : PyValue) : Prop where
  union : ∃ added : List PyText,
    mergeIdentityTrait b trait existing new =
      .list ((listItems b existing ++ added).map .str) ∧
    added.Nodup ∧ ∀ x, x ∈ added ↔ x ∈ listItems b new ∧ x ∉ listItems b existing
  again : mergeIdentityTrait b trait (mergeIdentityTrait b trait existing new) new =
    mergeIdentityTrait b trait existing new

theorem not_again (r : ListRepr b) (hmerge : (traitConfig trait).merge = true)
    (htrait : trait ∉ listTraits) (existing new : PyValue) :
    mergeIdentityTrait b trait (mergeIdentityTrait b trait existing new) new ≠
      mergeIdentityTrait b trait existing new := by
  intro hagain
  rw [mergeIdentityTrait_mergeable hmerge existing new] at hagain
  set merged := ((normalizedItems b trait new).foldl combine
    (normalizedItems b trait existing)).map PyValue.str with hmerged
  rw [mergeIdentityTrait_mergeable hmerge] at hagain
  have hitems : normalizedItems b trait (.list merged) =
      (PyText.strip (Py.str b (.list merged))).map fun c => [c] := if_neg htrait
  have hlength := congrArg List.length (PyValue.list.inj hagain)
  have hgrow := length_le_foldl_combine (normalizedItems b trait (.list merged))
    (normalizedItems b trait new)
  have hlonger := r.length_lt merged
  rw [hitems, List.length_map] at hgrow
  rw [List.length_map, hitems] at hlength
  omega

/-- **A mergeable trait is merged as a set exactly when it is one that
`normalize_identity_value` makes a list of.** -/
theorem unites_iff {b : PyBuiltins} (r : ListRepr b) {trait : PyText}
    (hmerge : (traitConfig trait).merge = true) (existing new : PyValue) :
    Unites b trait existing new ↔ trait ∈ listTraits := by
  constructor
  · intro h
    by_contra htrait
    exact not_again r hmerge htrait existing new h.again
  · intro htrait
    have hagain := merge_again (b := b) hmerge htrait existing new
    obtain ⟨added, hfold, hnodup, hmem⟩ := foldl_combine (listItems b existing) (listItems b new)
    refine ⟨⟨added, ?_, hnodup, hmem⟩, hagain⟩
    rw [mergeIdentityTrait_mergeable hmerge, normalizedItems_of_mem htrait,
      normalizedItems_of_mem htrait, hfold]

/-- The `repr` of a text without quotes and escapes. -/
def plainRepr : PyValue → PyText
  | .str s => codePoint '\'' :: (s ++ [codePoint '\''])
  | _ => lit "..."

def plainBuiltins : PyBuiltins where
  float _ := .error .typeError
  intOfFloat _ := .error .valueError
  intOfText _ := .error .valueError
  reprOf
    | .list items =>
      codePoint '[' :: (PyText.join (lit ", ") (items.map plainRepr) ++ [codePoint ']'])
    | _ => lit "..."
  dictOfPairs _ := .error .typeError
  sameKey _ _ := false
  round3 v := v
  oneMinus v := v
  now := lit "0.0"

def plainListRepr : ListRepr plainBuiltins where
  itemRepr := plainRepr
  itemRepr_ne_nil v := by
    cases v with
    | str s => exact List.cons_ne_nil _ _
    | _ =>
      have hdots : lit "..." ≠ [] := by decide
      exact hdots
  reprOf_list _ := rfl

theorem values_united :
    Unites plainBuiltins (lit "values") (.list [.str (lit "care")]) (.str (lit "care, clarity")) ↔
      lit "values" ∈ listTraits :=
  unites_iff plainListRepr (by decide) _ _

theorem symbols_apart :
    ¬Unites plainBuiltins (lit "reinforced_symbols") (.list [.str (lit "spiral")])
      (.str (lit "mirror")) :=
  fun h => not_again plainListRepr (by decide) (by decide) _ _ h.again

end ClawHarder.EventLog
