import Mathlib.Data.List.Infix

/-!
# Replacing every occurrence of a word

`replaceAll old new` is Python's `str.replace`: from left to right, each occurrence of a word
by another one. A word is marked when it begins with two letters that come together nowhere
else in it, even at its end; letters are compared through `fold`. Marked words do not overlap.

* `replaceAll_of_not_infix`: a text without the word is left as it is.
* `infix_replaceAll_iff`: **the marked words of the new text are those of the old one but the
  one that is replaced.**
-/

namespace List

variable {α β : Type*} {old new : List α}

section Loop

variable [DecidableEq α]

/-- The loop of `replaceAll`, which has still to skip some letters of a word that it found. -/
def replaceFrom (old new : List α) (skip : ℕ) : List α → List α
  | [] => []
  | c :: s =>
    match skip with
    | skip + 1 => replaceFrom old new skip s
    | 0 =>
      if old.isPrefixOf (c :: s) then new ++ replaceFrom old new (old.length - 1) s
      else c :: replaceFrom old new 0 s

/-- `s.replace(old, new)` -/
def replaceAll (old new s : List α) : List α := replaceFrom old new 0 s

theorem replaceFrom_eq (skip : ℕ) (s : List α) :
    replaceFrom old new skip s = replaceAll old new (s.drop skip) := by
  induction skip generalizing s with
  | zero => rfl
  | succ skip ih =>
    cases s with
    | nil => rfl
    | cons c s => exact ih s

theorem replaceAll_found (hold : old ≠ []) (s : List α) :
    replaceAll old new (old ++ s) = new ++ replaceAll old new s := by
  cases old with
  | nil => exact absurd rfl hold
  | cons c old =>
    have hfound : (c :: old).isPrefixOf (c :: (old ++ s)) = true :=
      isPrefixOf_iff_prefix.2 (prefix_append (c :: old) s)
    unfold replaceAll
    rw [cons_append, replaceFrom, if_pos hfound, replaceFrom_eq]
    have hdrop : (old ++ s).drop ((c :: old).length - 1) = s := by
      rw [length_cons, Nat.add_sub_cancel, drop_left]
    rw [hdrop]
    rfl

theorem replaceAll_cons {c : α} {s : List α} (h : ¬old <+: c :: s) :
    replaceAll old new (c :: s) = c :: replaceAll old new s := by
  have hnot : ¬old.isPrefixOf (c :: s) = true := fun hpre => h (List.isPrefixOf_iff_prefix.1 hpre)
  unfold replaceAll
  rw [replaceFrom, if_neg hnot]

/-- The induction along the loop. -/
theorem replaceAll_induct {P : List α → Prop} (hold : old ≠ []) (nil : P [])
    (found : ∀ s, P s → P (old ++ s)) (cons : ∀ c s, ¬old <+: c :: s → P s → P (c :: s))
    (s : List α) : P s := by
  induction hn : s.length using Nat.strong_induction_on generalizing s with
  | h n ih =>
    by_cases hpre : old <+: s
    · obtain ⟨t, rfl⟩ := hpre
      have hlength : 0 < old.length := length_pos_iff.2 hold
      rw [length_append] at hn
      exact found t (ih t.length (by omega) t rfl)
    · cases s with
      | nil => exact nil
      | cons c s =>
        rw [length_cons] at hn
        exact cons c s hpre (ih s.length (by omega) s rfl)

theorem replaceAll_of_not_infix (hold : old ≠ []) {s : List α} (h : ¬old <:+: s) :
    replaceAll old new s = s := by
  induction s using replaceAll_induct hold with
  | nil => rfl
  | found s _ => exact absurd (prefix_append old s).isInfix h
  | cons c s hpre ih => rw [replaceAll_cons hpre, ih fun hin => h (infix_cons hin)]

end Loop

section Marked

variable (fold : α → β) (i j : β)

/-- The two marks do not come together, and would not if `j` came next. -/
structure Unmarked (u : List α) : Prop where
  inside : ¬[i, j] <:+: u.map fold
  last : (u.map fold).getLast? ≠ some i

structure MarkedWord (w : List α) : Prop where
  starts : [i, j] <+: w.map fold
  tail : Unmarked fold i j w.tail

variable {fold i j}

theorem Unmarked.of_cons {c : α} {u : List α} (h : Unmarked fold i j (c :: u)) :
    Unmarked fold i j u where
  inside hin := h.inside (by rw [map_cons]; exact infix_cons hin)
  last := by
    cases u with
    | nil => exact fun hlast => by cases hlast
    | cons d u =>
      have hlast := h.last
      rw [map_cons, map_cons, getLast?_cons_cons] at hlast
      rwa [map_cons]

theorem Unmarked.not_starts {u x : List α} (h : Unmarked fold i j u) (hu : u ≠ []) :
    ¬[i, j] <+: (u ++ x).map fold := by
  intro hstarts
  cases u with
  | nil => exact hu rfl
  | cons c u =>
    cases u with
    | nil =>
      rw [singleton_append, map_cons] at hstarts
      have hc : fold c = i := (cons_prefix_cons.1 hstarts).1.symm
      exact h.last (by rw [map_singleton, hc]; rfl)
    | cons d u =>
      rw [cons_append, cons_append, map_cons, map_cons] at hstarts
      obtain ⟨hc, hstarts⟩ := cons_prefix_cons.1 hstarts
      obtain ⟨hd, -⟩ := cons_prefix_cons.1 hstarts
      refine h.inside ?_
      rw [map_cons, map_cons, ← hc, ← hd]
      exact (prefix_append [i, j] (u.map fold)).isInfix

theorem MarkedWord.ne_nil {w : List α} (h : MarkedWord fold i j w) : w ≠ [] := by
  rintro rfl
  have hstarts := h.starts
  rw [map_nil, prefix_nil] at hstarts
  cases hstarts

theorem MarkedWord.starts_append {w : List α} (h : MarkedWord fold i j w) (x : List α) :
    [i, j] <+: (w ++ x).map fold := by
  rw [map_append]
  exact h.starts.trans (prefix_append _ _)

theorem infix_unmarked_append {w v : List α} (hw : MarkedWord fold i j w)
    (hv : Unmarked fold i j v) (x : List α) : w <:+: v ++ x ↔ w <:+: x := by
  induction v with
  | nil => exact Iff.rfl
  | cons c v ih =>
    rw [cons_append, infix_cons_iff, ih hv.of_cons]
    refine or_iff_right fun hpre => hv.not_starts (x := x) (cons_ne_nil c v) ?_
    rw [cons_append]
    exact hw.starts.trans (hpre.map fold)

theorem infix_marked_append {w v : List α} (hw : MarkedWord fold i j w)
    (hv : MarkedWord fold i j v) (x : List α) : w <:+: v ++ x ↔ w <+: v ++ x ∨ w <:+: x := by
  cases v with
  | nil => exact absurd rfl hv.ne_nil
  | cons c v =>
    have htail : Unmarked fold i j v := hv.tail
    rw [cons_append, infix_cons_iff, infix_unmarked_append hw htail]

variable [DecidableEq α]

theorem prefix_replaceAll_iff {u : List α} (hu : Unmarked fold i j u)
    (hold : MarkedWord fold i j old) (hnew : MarkedWord fold i j new) (s : List α) :
    u <+: replaceAll old new s ↔ u <+: s := by
  induction s using replaceAll_induct hold.ne_nil generalizing u with
  | nil => exact Iff.rfl
  | found s _ =>
    have hnot : ∀ {v : List α}, MarkedWord fold i j v → ∀ x, u ≠ [] → ¬u <+: v ++ x := by
      rintro v hv x hne ⟨rest, hrest⟩
      refine hu.not_starts (x := rest) hne ?_
      rw [hrest]
      exact hv.starts_append x
    rw [replaceAll_found hold.ne_nil]
    by_cases hne : u = []
    · subst hne
      exact iff_of_true nil_prefix nil_prefix
    · exact iff_of_false (hnot hnew _ hne) (hnot hold s hne)
  | cons c s hpre ih =>
    rw [replaceAll_cons hpre]
    cases u with
    | nil => exact iff_of_true nil_prefix nil_prefix
    | cons d u => rw [cons_prefix_cons, cons_prefix_cons, ih hu.of_cons]

/-- **The marked words of the new text are those of the old one but the one that is
replaced.** -/
theorem infix_replaceAll_iff {w : List α} (hw : MarkedWord fold i j w)
    (hold : MarkedWord fold i j old) (hnew : MarkedWord fold i j new)
    (hclash : ∀ x, ¬w <+: new ++ x) (hsame : ∀ x, w <+: old ++ x → w = old) (s : List α) :
    w <:+: replaceAll old new s ↔ w <:+: s ∧ w ≠ old := by
  induction s using replaceAll_induct hold.ne_nil with
  | nil =>
    have hnil : ¬w <:+: [] := fun hin => hw.ne_nil (infix_nil.1 hin)
    exact iff_of_false hnil fun hand => hnil hand.1
  | found s ih =>
    rw [replaceAll_found hold.ne_nil, infix_marked_append hw hnew,
      infix_marked_append hw hold, or_iff_right (hclash _), ih]
    constructor
    · exact fun ⟨hin, hne⟩ => ⟨.inr hin, hne⟩
    · rintro ⟨hpre | hin, hne⟩
      · exact absurd (hsame s hpre) hne
      · exact ⟨hin, hne⟩
  | cons c s hpre ih =>
    have hhead : w <+: c :: replaceAll old new s ↔ w <+: c :: s := by
      cases w with
      | nil => exact absurd rfl hw.ne_nil
      | cons d w =>
        have htail : Unmarked fold i j w := hw.tail
        rw [cons_prefix_cons, cons_prefix_cons, prefix_replaceAll_iff htail hold hnew]
    have hother : w <+: c :: s → w ≠ old := fun hin heq => hpre (heq ▸ hin)
    rw [replaceAll_cons hpre, infix_cons_iff, infix_cons_iff, hhead, ih]
    constructor
    · rintro (hin | ⟨hin, hne⟩)
      · exact ⟨.inl hin, hother hin⟩
      · exact ⟨.inr hin, hne⟩
    · rintro ⟨hin | hin, hne⟩
      · exact .inl hin
      · exact .inr ⟨hin, hne⟩

end Marked

end List
