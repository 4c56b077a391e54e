import Mathlib.Data.List.Chain
import Mathlib.Data.List.DropRight

/-!
# Words of a text

The words of a text are the longest stretches without blanks.

* `words_append`: the words of two texts with a blank between them.
* `words_joined`: **joined words are read back**, where none is empty or has a blank.
* `tidy_joined_iff`: texts without blanks, joined by a blank, have no blank at an end and no two
  side by side exactly when there is at most one of them or none is empty.
-/

namespace Words

variable {α : Type*} (blank : α → Bool)

def words (s : List α) : List (List α) := (s.splitOnP blank).filter fun w => !w.isEmpty

/-- No blank at an end, and no two of the blank `sep` side by side. -/
structure Tidy (sep : α) (s : List α) : Prop where
  leading : ∀ c ∈ s.head?, blank c = false
  trailing : ∀ c ∈ s.getLast?, blank c = false
  single : s.IsChain fun a b => ¬(a = sep ∧ b = sep)

variable {blank}

theorem words_nil : words blank ([] : List α) = [] := rfl

variable {c : α}

theorem words_append (hc : blank c = true) (s t : List α) :
    words blank (s ++ c :: t) = words blank s ++ words blank t := by
  rw [words, List.splitOnP_append_cons _ _ hc, List.filter_append]
  rfl

theorem words_cons (hc : blank c = true) (s : List α) :
    words blank (c :: s) = words blank s := words_append hc [] s

theorem words_concat (hc : blank c = true) (s : List α) :
    words blank (s ++ [c]) = words blank s := by
  rw [words_append hc, words_nil, List.append_nil]

variable {w : List α}

theorem words_word (hne : w ≠ []) (hw : ∀ c ∈ w, blank c = false) :
    words blank w = [w] := by
  rw [words, List.splitOnP_eq_singleton hw]
  simp [hne]

theorem words_word_cons (hne : w ≠ []) (hw : ∀ c ∈ w, blank c = false)
    (hc : blank c = true) (s : List α) : words blank (w ++ c :: s) = w :: words blank s := by
  rw [words_append hc, words_word hne hw]
  rfl

theorem words_dropWhile (s : List α) : words blank (s.dropWhile blank) = words blank s := by
  induction s with
  | nil => rfl
  | cons c s ih =>
    by_cases hc : blank c = true
    · rw [List.dropWhile_cons_of_pos hc, words_cons hc, ih]
    · rw [List.dropWhile_cons_of_neg hc]

theorem words_rdropWhile (s : List α) : words blank (s.rdropWhile blank) = words blank s := by
  induction s using List.reverseRecOn with
  | nil => rfl
  | append_singleton s c ih =>
    by_cases hc : blank c = true
    · rw [List.rdropWhile_concat_pos _ _ _ hc, words_concat hc, ih]
    · rw [List.rdropWhile_concat_neg _ _ _ hc]

theorem mem_of_splitOnP {s : List α} (h : w ∈ s.splitOnP blank) :
    ∀ c ∈ w, blank c = false ∧ c ∈ s := by
  induction s generalizing w with
  | nil =>
    obtain rfl := List.mem_singleton.1 h
    simp
  | cons a s ih =>
    have hlater : ∀ w ∈ s.splitOnP blank, ∀ c ∈ w, blank c = false ∧ c ∈ a :: s :=
      fun w hw c hc => ⟨(ih hw c hc).1, List.mem_cons_of_mem a (ih hw c hc).2⟩
    rw [List.splitOnP_cons_eq_if_modifyHead] at h
    by_cases ha : blank a = true
    · rw [if_pos ha] at h
      rcases List.mem_cons.1 h with rfl | h
      · simp
      · exact hlater w h
    · rw [if_neg ha] at h
      cases hsplit : s.splitOnP blank with
      | nil => exact absurd hsplit (List.splitOnP_ne_nil blank s)
      | cons first rest =>
        rw [hsplit, List.modifyHead_cons] at h
        rw [hsplit, List.forall_mem_cons] at hlater
        rcases List.mem_cons.1 h with rfl | h
        · rw [List.forall_mem_cons]
          exact ⟨⟨Bool.eq_false_iff.2 ha, List.mem_cons_self⟩, hlater.1⟩
        · exact hlater.2 w h

theorem mem_words {s : List α} (h : w ∈ words blank s) :
    w ≠ [] ∧ ∀ c ∈ w, blank c = false ∧ c ∈ s := by
  obtain ⟨hsplit, hne⟩ := List.mem_filter.1 h
  exact ⟨by simpa using hne, mem_of_splitOnP hsplit⟩

theorem exists_word (hc : blank c = false) (s : List α) :
    ∃ w r, c :: s = w ++ r ∧ w ≠ [] ∧ (∀ a ∈ w, blank a = false) ∧
      (r = [] ∨ ∃ b r', r = b :: r' ∧ blank b = true) := by
  refine ⟨(c :: s).takeWhile fun a => !blank a, (c :: s).dropWhile fun a => !blank a,
    (List.takeWhile_append_dropWhile).symm, ?_, fun a ha => ?_, ?_⟩
  · rw [List.takeWhile_cons_of_pos (by simp [hc])]
    exact List.cons_ne_nil _ _
  · simpa using List.mem_takeWhile_imp ha
  · cases hrest : (c :: s).dropWhile fun a => !blank a with
    | nil => exact .inl rfl
    | cons b r' =>
      have hb := List.head?_dropWhile_not (fun a => !blank a) (c :: s)
      rw [hrest] at hb
      exact .inr ⟨b, r', rfl, by simpa using hb⟩

theorem exists_mem_words {s : List α} (hmem : c ∈ s) (hc : blank c = false) :
    ∃ w ∈ words blank s, c ∈ w := by
  induction hlength : s.length using Nat.strongRecOn generalizing s with
  | ind n ih =>
    subst hlength
    cases s with
    | nil => cases hmem
    | cons a s =>
      by_cases ha : blank a = true
      · have hne : c ≠ a := by
          rintro rfl
          exact absurd hc (by simp [ha])
        rw [words_cons ha]
        exact ih _ (Nat.lt_succ_self _) (List.mem_of_ne_of_mem hne hmem) rfl
      · obtain ⟨w, r, hsplit, hne, hw, hrest⟩ := exists_word (Bool.eq_false_iff.2 ha) s
        rw [hsplit] at hmem ih ⊢
        rcases hrest with rfl | ⟨b, r, rfl, hb⟩
        · rw [List.append_nil] at hmem ⊢
          exact ⟨w, by rw [words_word hne hw]; exact List.mem_singleton_self w, hmem⟩
        · rw [words_word_cons hne hw hb]
          rcases List.mem_append.1 hmem with hmem | hmem
          · exact ⟨w, List.mem_cons_self, hmem⟩
          · have hne : c ≠ b := by
              rintro rfl
              exact absurd hc (by simp [hb])
            have hlength : r.length < (w ++ b :: r).length := by simp; omega
            obtain ⟨v, hv, hcv⟩ := ih _ hlength (List.mem_of_ne_of_mem hne hmem) rfl
            exact ⟨v, List.mem_cons_of_mem w hv, hcv⟩

variable {sep : α} {ws : List (List α)}

/-- **Joined words are read back.** -/
theorem words_joined (hsep : blank sep = true)
    (hws : ∀ w ∈ ws, w ≠ [] ∧ ∀ c ∈ w, blank c = false) :
    words blank ([sep].intercalate ws) = ws := by
  induction ws with
  | nil => rfl
  | cons w ws ih =>
    rw [List.forall_mem_cons] at hws
    obtain ⟨hne, hw⟩ := hws.1
    cases ws with
    | nil => rw [List.intercalate_singleton, words_word hne hw]
    | cons w' ws =>
      rw [List.intercalate_cons_cons, List.append_assoc, List.singleton_append,
        words_word_cons hne hw hsep, ih hws.2]

theorem mem_joined (h : c ∈ [sep].intercalate ws) :
    c = sep ∨ ∃ w ∈ ws, c ∈ w := by
  induction ws with
  | nil => cases h
  | cons w ws ih =>
    cases ws with
    | nil =>
      rw [List.intercalate_singleton] at h
      exact .inr ⟨w, List.mem_singleton_self w, h⟩
    | cons w' ws =>
      rw [List.intercalate_cons_cons, List.append_assoc, List.mem_append, List.singleton_append,
        List.mem_cons] at h
      rcases h with h | h | h
      · exact .inr ⟨w, List.mem_cons_self, h⟩
      · exact .inl h
      · rcases ih h with h | ⟨v, hv, h⟩
        · exact .inl h
        · exact .inr ⟨v, List.mem_cons_of_mem w hv, h⟩

theorem subset_joined (hw : w ∈ ws) :
    w ⊆ [sep].intercalate ws := by
  induction ws with
  | nil => cases hw
  | cons v ws ih =>
    cases ws with
    | nil =>
      obtain rfl := List.mem_singleton.1 hw
      rw [List.intercalate_singleton]
      exact List.Subset.refl w
    | cons v' ws =>
      rw [List.intercalate_cons_cons]
      intro c hc
      rcases List.mem_cons.1 hw with rfl | hw
      · exact List.mem_append_left _ (List.mem_append_left _ hc)
      · exact List.mem_append_right _ (ih hw hc)

theorem joined_append {vs : List (List α)} (hws : ws ≠ []) (hvs : vs ≠ []) :
    [sep].intercalate (ws ++ vs) = [sep].intercalate ws ++ sep :: [sep].intercalate vs := by
  induction ws with
  | nil => exact absurd rfl hws
  | cons w ws ih =>
    cases ws with
    | nil =>
      rw [List.singleton_append, List.intercalate_cons_of_ne_nil hvs, List.intercalate_singleton,
        List.append_assoc, List.singleton_append]
    | cons w' ws =>
      rw [List.cons_append, List.cons_append, List.intercalate_cons_cons, ← List.cons_append,
        ih (List.cons_ne_nil _ _), List.intercalate_cons_cons, List.append_assoc, List.append_assoc,
        List.append_assoc]

theorem filter_joined {p : α → Bool} (hsep : p sep = true) (ws : List (List α)) :
    ([sep].intercalate ws).filter p = [sep].intercalate (ws.map (List.filter p)) := by
  induction ws with
  | nil => rfl
  | cons w ws ih =>
    cases ws with
    | nil => rw [List.intercalate_singleton, List.map_singleton, List.intercalate_singleton]
    | cons w' ws =>
      rw [List.intercalate_cons_cons, List.filter_append, List.filter_append, ih,
        List.filter_cons_of_pos hsep, List.filter_nil]
      exact List.intercalate_cons_cons.symm

theorem tidy_nil (sep : α) : Tidy blank sep [] := ⟨by simp, by simp, .nil⟩

theorem tidy_word (hsep : blank sep = true)
    (hw : ∀ c ∈ w, blank c = false) : Tidy blank sep w := by
  refine ⟨fun c hc => hw c (List.mem_of_mem_head? hc), fun c hc => hw c (List.mem_of_mem_getLast? hc),
    ?_⟩
  have hne : ∀ c ∈ w, c ≠ sep := by
    rintro c hc rfl
    exact absurd (hw c hc) (by simp [hsep])
  refine List.Pairwise.isChain (List.Pairwise.imp_of_mem ?_ (List.pairwise_of_forall fun _ _ => trivial))
  rintro a b ha - - ⟨rfl, -⟩
  exact hne a ha rfl

theorem Tidy.cons_word (hsep : blank sep = true) {s : List α} (hne : w ≠ [])
    (hw : ∀ c ∈ w, blank c = false) (hs : Tidy blank sep s) (hs' : s ≠ []) :
    Tidy blank sep (w ++ sep :: s) := by
  have hword := tidy_word hsep hw
  refine ⟨fun c hc => ?_, fun c hc => ?_, ?_⟩
  · rw [List.head?_append_of_ne_nil _ hne] at hc
    exact hword.leading c hc
  · rw [List.getLast?_append_of_ne_nil _ (List.cons_ne_nil _ _), List.getLast?_cons_of_ne_nil hs'] at hc
    exact hs.trailing c hc
  · refine List.isChain_append.2 ⟨hword.single, List.isChain_cons.2 ⟨?_, hs.single⟩, ?_⟩
    · rintro c hc ⟨-, rfl⟩
      exact absurd (hs.leading c hc) (by simp [hsep])
    · rintro c hc - - ⟨rfl, -⟩
      exact absurd (hword.trailing c hc) (by simp [hsep])

theorem joined_ne_nil (hne : ws ≠ []) (hws : ∀ w ∈ ws, w ≠ []) :
    [sep].intercalate ws ≠ [] := by
  cases ws with
  | nil => exact absurd rfl hne
  | cons w ws =>
    have hw := hws w List.mem_cons_self
    cases ws with
    | nil => rwa [List.intercalate_singleton]
    | cons w' ws =>
      rw [List.intercalate_cons_cons]
      simp

/-- **Texts without blanks, joined by a blank, are tidy exactly when there is at most one or none
is empty.** -/
theorem tidy_joined_iff (hsep : blank sep = true)
    (hws : ∀ w ∈ ws, ∀ c ∈ w, blank c = false) :
    Tidy blank sep ([sep].intercalate ws) ↔ ws.length ≤ 1 ∨ ∀ w ∈ ws, w ≠ [] := by
  constructor
  · intro htidy
    by_contra hnot
    rw [not_or] at hnot
    obtain ⟨hlength, hempty⟩ := hnot
    have hmem : [] ∈ ws := by
      by_contra hmem
      exact hempty fun w hw heq => hmem (heq ▸ hw)
    obtain ⟨before, after, rfl⟩ := List.append_of_mem hmem
    rw [List.length_append, List.length_cons] at hlength
    by_cases hafter : after = []
    · -- the empty text is the last one
      subst hafter
      have hbefore : before ≠ [] := by
        rintro rfl
        simp at hlength
      rw [joined_append hbefore (List.cons_ne_nil _ _), List.intercalate_singleton] at htidy
      have hlast := htidy.trailing sep (by simp)
      rw [hsep] at hlast
      cases hlast
    · by_cases hbefore : before = []
      · subst hbefore
        rw [List.nil_append, List.intercalate_cons_of_ne_nil hafter] at htidy
        have hfirst := htidy.leading sep rfl
        rw [hsep] at hfirst
        cases hfirst
      · rw [joined_append hbefore (List.cons_ne_nil _ _), List.intercalate_cons_of_ne_nil hafter]
          at htidy
        obtain ⟨-, hpair, -⟩ := List.isChain_append.1 htidy.single
        obtain ⟨hnot, -⟩ := List.isChain_cons.1 hpair
        exact hnot sep rfl ⟨rfl, rfl⟩
  · rintro (hlength | hnonempty)
    · rcases ws with _ | ⟨w, _ | ⟨w', ws⟩⟩
      · exact tidy_nil sep
      · rw [List.intercalate_singleton]
        exact tidy_word hsep (hws w (List.mem_singleton_self w))
      · simp at hlength
    · induction ws with
      | nil => exact tidy_nil sep
      | cons w ws ih =>
        rw [List.forall_mem_cons] at hws hnonempty
        by_cases hlast : ws = []
        · rw [hlast, List.intercalate_singleton]
          exact tidy_word hsep hws.1
        · rw [List.intercalate_cons_of_ne_nil hlast, List.append_assoc, List.singleton_append]
          exact (ih hws.2 hnonempty.2).cons_word hsep hnonempty.1 hws.1
            (joined_ne_nil hlast hnonempty.2)

end Words
