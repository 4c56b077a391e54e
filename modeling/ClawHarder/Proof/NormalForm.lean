import Mathlib.Tactic.IntervalCases
import ClawHarder.Lib.Words
import ClawHarder.Spec.Strategies

/-!
# Normalized texts

Controls are removed after blanks are collapsed, so a word of controls alone leaves its blanks.

* `normText_idem`: normalizing a tidy text again changes nothing.
* `norm_normalForm_iff`: **when normalization gives a normal form.**
-/

namespace ClawHarder.Strategies

open CommandQueue (isBlank)
open Words

/-- `toLowerCase` leaves what it has made as it is, in whatever order the characters stand. -/
structure LowerCase (lower : String → String) : Prop where
  stable : ∀ s t : String, (∀ c ∈ t.toList, c ∈ (lower s).toList ∨ c = ' ') → lower t = t

def trim (s : List Char) : List Char := (s.dropWhile isBlank).rdropWhile isBlank

theorem collapse_word {w : List Char} (hw : ∀ c ∈ w, isBlank c = false) (inside : Bool)
    (s : List Char) :
    collapse inside (w ++ s) = w ++ collapse (if w = [] then inside else false) s := by
  induction w generalizing inside with
  | nil => rfl
  | cons c w ih =>
    rw [List.forall_mem_cons] at hw
    rw [List.cons_append, collapse, hw.1, if_neg Bool.false_ne_true, ih hw.2]
    simp

theorem collapse_blank {c : Char} (hc : isBlank c = true) (s : List Char) :
    collapse true (c :: s) = collapse true s := by
  rw [collapse, hc, if_pos rfl, if_pos rfl]

theorem collapse_eq {s : List Char} (hlast : ∀ c ∈ s.getLast?, isBlank c = false) :
    collapse true s = [' '].intercalate (words isBlank s) := by
  induction hlength : s.length using Nat.strongRecOn generalizing s with
  | ind n ih =>
    subst hlength
    cases s with
    | nil => rfl
    | cons c s =>
      by_cases hc : isBlank c = true
      · have hlast' : ∀ d ∈ s.getLast?, isBlank d = false := by
          intro d hd
          refine hlast d ?_
          rw [List.getLast?_cons, hd]
          rfl
        rw [collapse_blank hc, words_cons hc]
        exact ih _ (Nat.lt_succ_self _) hlast' rfl
      · obtain ⟨w, r, hsplit, hne, hw, hrest⟩ := exists_word (Bool.eq_false_iff.2 hc) s
        rw [hsplit] at hlast ih ⊢
        rw [collapse_word hw, if_neg hne]
        rcases hrest with rfl | ⟨b, r, rfl, hb⟩
        · rw [List.append_nil, words_word hne hw, List.intercalate_singleton, collapse,
            List.append_nil]
        · -- behind the blank there is another word
          have hend : r ≠ [] := by
            rintro rfl
            exact absurd (hlast b (by simp)) (by simp [hb])
          have hlast' : ∀ d ∈ r.getLast?, isBlank d = false := by
            intro d hd
            refine hlast d ?_
            rw [List.getLast?_append_of_ne_nil _ (List.cons_ne_nil _ _), List.getLast?_cons, hd]
            rfl
          have hlength : r.length < (w ++ b :: r).length := by simp; omega
          have hmore : words isBlank r ≠ [] := by
            have hgetLast := List.getLast?_eq_some_getLast hend
            obtain ⟨v, hv, -⟩ := exists_mem_words (List.getLast_mem hend) (hlast' _ hgetLast)
            exact List.ne_nil_of_mem hv
          rw [collapse, if_pos hb, if_neg Bool.false_ne_true, ih _ hlength hlast' rfl,
            words_word_cons hne hw hb, List.intercalate_cons_of_ne_nil hmore, List.append_assoc,
            List.singleton_append]

theorem trim_last {s : List Char} : ∀ c ∈ (trim s).getLast?, isBlank c = false := by
  intro c hc
  have hne : trim s ≠ [] := by
    intro hnil
    rw [hnil] at hc
    cases hc
  have hlast := List.rdropWhile_last_not isBlank (s.dropWhile isBlank) hne
  rw [List.getLast?_eq_some_getLast hne] at hc
  obtain rfl := Option.some.inj hc
  exact Bool.eq_false_iff.2 hlast

theorem trim_head {s : List Char} : ∀ c ∈ (trim s).head?, isBlank c = false := by
  intro c hc
  have hprefix : trim s <+: s.dropWhile isBlank := List.rdropWhile_prefix isBlank _
  have hhead : (s.dropWhile isBlank).head? = some c := by
    obtain ⟨rest, hrest⟩ := hprefix
    rw [← hrest, List.head?_append, hc]
    rfl
  have hnot := List.head?_dropWhile_not isBlank s
  rw [hhead] at hnot
  simpa using hnot

/-- **A trimmed text is collapsed to its words.** -/
theorem collapse_trim (s : List Char) :
    collapse false (trim s) = [' '].intercalate (words isBlank s) := by
  have hinside : collapse false (trim s) = collapse true (trim s) := by
    cases htrim : trim s with
    | nil => rfl
    | cons c t =>
      have hc := trim_head (s := s) c (by rw [htrim]; rfl)
      rw [collapse, collapse, hc]
      rfl
  rw [hinside, collapse_eq trim_last, trim, words_rdropWhile, words_dropWhile]

def isControl (c : Char) : Bool := c.toNat ≤ 0x1F || (0x7F ≤ c.toNat && c.toNat ≤ 0x9F)

def kept (lower : String → String) (s : String) : List (List Char) :=
  (words isBlank (lower s).toList).map fun w => w.filter fun c => 0x1F < c.toNat

theorem toList_normText (lower : String → String) (s : String) :
    (normText lower s).toList = [' '].intercalate (kept lower s) := by
  rw [normText, String.toList_ofList]
  show (collapse false (trim (lower s).toList)).filter _ = _
  rw [collapse_trim, filter_joined (by decide)]
  rfl

theorem kept_blank {lower : String → String} {s : String} {w : List Char} (hw : w ∈ kept lower s) :
    ∀ c ∈ w, isBlank c = false ∧ 0x1F < c.toNat ∧ c ∈ (lower s).toList := by
  obtain ⟨v, hv, rfl⟩ := List.mem_map.1 hw
  intro c hc
  obtain ⟨hcv, hvisible⟩ := List.mem_filter.1 hc
  obtain ⟨hblank, hmem⟩ := (mem_words hv).2 c hcv
  exact ⟨hblank, of_decide_eq_true hvisible, hmem⟩

theorem normText_idem {lower : String → String} (hlower : LowerCase lower) {s : String}
    (h : (kept lower s).length ≤ 1 ∨ ∀ w ∈ kept lower s, w ≠ []) :
    normText lower (normText lower s) = normText lower s := by
  obtain ⟨K, hK⟩ : ∃ K, K = kept lower s := ⟨_, rfl⟩
  rw [← hK] at h
  have hkept : ∀ w ∈ K, ∀ c ∈ w, isBlank c = false ∧ 0x1F < c.toNat ∧ c ∈ (lower s).toList :=
    hK ▸ fun w hw => kept_blank hw
  have htext : (normText lower s).toList = [' '].intercalate K := hK ▸ toList_normText lower s
  have hlowered : lower (normText lower s) = normText lower s := by
    refine hlower.stable s _ fun c hc => ?_
    rw [htext] at hc
    rcases mem_joined hc with rfl | ⟨w, hw, hcw⟩
    · exact .inr rfl
    · exact .inl (hkept w hw c hcw).2.2
  have hagain : (normText lower (normText lower s)).toList = [' '].intercalate
      ((words isBlank ([' '].intercalate K)).map (List.filter fun c => 0x1F < c.toNat)) := by
    rw [toList_normText, kept, hlowered, htext]
  have hsame : [' '].intercalate ((words isBlank ([' '].intercalate K)).map
      (List.filter fun c => 0x1F < c.toNat)) = [' '].intercalate K := by
    by_cases hnonempty : ∀ w ∈ K, w ≠ []
    · have hwords : words isBlank ([' '].intercalate K) = K :=
        words_joined (by decide) fun w hw => ⟨hnonempty w hw, fun c hc => (hkept w hw c hc).1⟩
      have hvisible : K.map (List.filter fun c => 0x1F < c.toNat) = K := by
        conv_rhs => rw [← List.map_id K]
        refine List.map_congr_left fun w hw => List.filter_eq_self.2 fun c hc => ?_
        exact decide_eq_true (hkept w hw c hc).2.1
      rw [hwords, hvisible]
    · -- the only text that is kept is empty
      have hlength := h.resolve_right hnonempty
      rcases K with _ | ⟨w, _ | ⟨w', K⟩⟩
      · rfl
      · have hw : w = [] := by simpa using hnonempty
        subst hw
        rfl
      · simp at hlength
  rw [← String.toList_inj, hagain, hsame, htext]

theorem isBlank_second {c : Char} (h : 0x7F ≤ c.toNat ∧ c.toNat ≤ 0x9F) : isBlank c = false := by
  obtain ⟨hlow, hhigh⟩ := h
  have hseparate : c.toNat ∉ [0x20, 0xA0, 0x1680, 0x2028, 0x2029, 0x202F, 0x205F, 0x3000, 0xFEFF] := by
    simp only [List.mem_cons, List.not_mem_nil, or_false]
    omega
  simp only [isBlank, List.contains_eq_mem, hseparate, decide_false, Bool.or_false,
    Bool.or_eq_false_iff, Bool.and_eq_false_iff, decide_eq_false_iff_not]
  omega

/-- **When normalization gives a normal form**: no word is made of control characters alone, unless
it is the only one, and the controls behind ASCII do not occur. -/
theorem norm_normalForm_iff {N : Type} [JsNumber N] {lower : String → String}
    (hlower : LowerCase lower) (s : String) :
    (∃ n, norm lower (some (.str s : Json N)) = some n ∧ norm lower (some (.str n : Json N)) = some n ∧
      Tidy isBlank ' ' n.toList ∧ ∀ c ∈ n.toList, isControl c = false) ↔
    ((words isBlank (lower s).toList).length ≤ 1 ∨
      ∀ w ∈ words isBlank (lower s).toList, ∃ c ∈ w, 0x1F < c.toNat) ∧
    ∀ c ∈ (lower s).toList, ¬(0x7F ≤ c.toNat ∧ c.toNat ≤ 0x9F) := by
  have hnorm : ∀ t : String, norm lower (some (.str t : Json N)) = some (normText lower t) :=
    fun t => rfl
  have htidy : Tidy isBlank ' ' (normText lower s).toList ↔
      (words isBlank (lower s).toList).length ≤ 1 ∨
        ∀ w ∈ words isBlank (lower s).toList, ∃ c ∈ w, 0x1F < c.toNat := by
    rw [toList_normText, tidy_joined_iff (by decide) fun w hw c hc => (kept_blank hw c hc).1, kept,
      List.length_map, List.forall_mem_map]
    refine or_congr_right (forall₂_congr fun w hw => ?_)
    rw [ne_eq, List.filter_eq_nil_iff]
    simp
  have hcontrol : (∀ c ∈ (normText lower s).toList, isControl c = false) ↔
      ∀ c ∈ (lower s).toList, ¬(0x7F ≤ c.toNat ∧ c.toNat ≤ 0x9F) := by
    rw [toList_normText]
    constructor
    · intro hall c hc hsecond
      have hblank := isBlank_second hsecond
      obtain ⟨w, hw, hcw⟩ := exists_mem_words hc hblank
      have hmem : c ∈ w.filter fun c => 0x1F < c.toNat :=
        List.mem_filter.2 ⟨hcw, decide_eq_true (by omega)⟩
      have hnot := hall c (subset_joined (List.mem_map_of_mem hw) hmem)
      simp [isControl, hsecond] at hnot
    · intro hall c hc
      rcases mem_joined hc with rfl | ⟨w, hw, hcw⟩
      · decide
      · obtain ⟨-, hvisible, hmem⟩ := kept_blank hw c hcw
        have hnot := hall c hmem
        simp only [isControl, Bool.or_eq_false_iff, Bool.and_eq_false_iff, decide_eq_false_iff_not]
        omega
  constructor
  · rintro ⟨n, hn, -, htidyn, hcontroln⟩
    rw [hnorm] at hn
    obtain rfl := Option.some.inj hn
    exact ⟨htidy.1 htidyn, hcontrol.1 hcontroln⟩
  · rintro ⟨hwords, hsecond⟩
    have htidys := htidy.2 hwords
    have hkept := htidys
    rw [toList_normText, tidy_joined_iff (by decide) fun w hw c hc => (kept_blank hw c hc).1] at hkept
    refine ⟨normText lower s, hnorm s, ?_, htidys, hcontrol.2 hsecond⟩
    rw [hnorm, normText_idem hlower hkept]

def lowerLetter (c : Char) : Char :=
  if 0x41 ≤ c.toNat ∧ c.toNat ≤ 0x5A then Char.ofNat (c.toNat + 0x20) else c

theorem lowerLetter_idem (c : Char) : lowerLetter (lowerLetter c) = lowerLetter c := by
  unfold lowerLetter
  by_cases hc : 0x41 ≤ c.toNat ∧ c.toNat ≤ 0x5A
  · have hcode : (Char.ofNat (c.toNat + 0x20)).toNat = c.toNat + 0x20 := by
      obtain ⟨hlow, hhigh⟩ := hc
      interval_cases c.toNat <;> rfl
    rw [if_pos hc, hcode, if_neg (by omega)]
  · rw [if_neg hc, if_neg hc]

def asciiLower (s : String) : String := String.ofList (s.toList.map lowerLetter)

theorem asciiLower_lowers : LowerCase asciiLower := by
  constructor
  intro s t h
  have hsame : t.toList.map lowerLetter = t.toList := by
    conv_rhs => rw [← List.map_id t.toList]
    refine List.map_congr_left fun c hc => ?_
    rcases h c hc with hmem | rfl
    · rw [asciiLower, String.toList_ofList] at hmem
      obtain ⟨d, -, rfl⟩ := List.mem_map.1 hmem
      exact lowerLetter_idem d
    · rfl
  rw [asciiLower, hsame, String.ofList_toList]

theorem greeting_normalForm :
    (∃ n, norm asciiLower (some (.str " Hello \t World" : Json ℚ)) = some n ∧
      norm asciiLower (some (.str n : Json ℚ)) = some n ∧ Tidy isBlank ' ' n.toList ∧
        ∀ c ∈ n.toList, isControl c = false) ↔
    ((words isBlank (asciiLower " Hello \t World").toList).length ≤ 1 ∨
      ∀ w ∈ words isBlank (asciiLower " Hello \t World").toList, ∃ c ∈ w, 0x1F < c.toNat) ∧
    ∀ c ∈ (asciiLower " Hello \t World").toList, ¬(0x7F ≤ c.toNat ∧ c.toNat ≤ 0x9F) :=
  norm_normalForm_iff asciiLower_lowers " Hello \t World"

theorem control_leaves_blank :
    ¬∀ (lower : String → String) (s : String), LowerCase lower →
      ∃ n, norm lower (some (.str s : Json ℚ)) = some n ∧
        norm lower (some (.str n : Json ℚ)) = some n ∧ Tidy isBlank ' ' n.toList ∧
          ∀ c ∈ n.toList, isControl c = false := by
  intro h
  obtain ⟨n, hn, -, htidy, -⟩ := h asciiLower "\x00 a" asciiLower_lowers
  have hnorm : norm asciiLower (some (.str "\x00 a" : Json ℚ)) = some " a" := by decide
  obtain rfl := Option.some.inj (hn.symm.trans hnorm)
  exact absurd (htidy.leading ' ' (by decide)) (by decide)

end ClawHarder.Strategies
