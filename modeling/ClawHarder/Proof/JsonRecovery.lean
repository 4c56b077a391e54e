import ClawHarder.Lib.PyJsonShape
import ClawHarder.Spec.ModelText

/-!
# Recovering JSON from a model's text

`parseJson_prose`: **a list or a dictionary that is written between prose is recovered**, by
reading the whole text when nothing but white space stands around it, and otherwise by the
scanner, which skips every text that is written (`skips_dumps`).
-/

namespace ClawHarder.ModelText

open PyText (lit codePoint strip)
open PyJson

def Pair (opening closing : CodePoint) : Prop :=
  (opening = codePoint '[' ∧ closing = codePoint ']') ∨
    (opening = codePoint '\x7b' ∧ closing = codePoint '\x7d')

def Skips (opening closing : CodePoint) (t : PyText) : Prop :=
  ∀ (depth : ℤ) (r : PyText), 1 ≤ depth →
    scanBalanced opening closing depth false false (t ++ r) =
      (scanBalanced opening closing depth false false r).map (t ++ ·)

def SkipsBody (opening closing : CodePoint) (t : PyText) : Prop :=
  ∀ (depth : ℤ) (r : PyText), scanBalanced opening closing depth true false (t ++ r) =
    (scanBalanced opening closing depth true false r).map (t ++ ·)

section Scanner

variable {opening closing : CodePoint}

theorem skips_char {c : CodePoint} (hquote : c ≠ codePoint '"') (hopening : c ≠ opening)
    (hclosing : c ≠ closing) (depth : ℤ) (r : PyText) :
    scanBalanced opening closing depth false false (c :: r) =
      (scanBalanced opening closing depth false false r).map (c :: ·) := by
  simp [scanBalanced, hquote, hopening, hclosing]

theorem skips_append {t u : PyText} (ht : Skips opening closing t) (hu : Skips opening closing u) :
    Skips opening closing (t ++ u) := by
  intro depth r hdepth
  rw [List.append_assoc, ht depth _ hdepth, hu depth r hdepth, Option.map_map]
  simp only [Function.comp_def, List.append_assoc]

theorem skipsBody_append {t u : PyText} (ht : SkipsBody opening closing t)
    (hu : SkipsBody opening closing u) : SkipsBody opening closing (t ++ u) := by
  intro depth r
  rw [List.append_assoc, ht depth, hu depth r, Option.map_map]
  simp only [Function.comp_def, List.append_assoc]

theorem skips_plain (hpair : Pair opening closing) (t : PyText) (ht : Plain t) :
    Skips opening closing t := by
  have hchar : ∀ c, isPlain c = true → c ≠ codePoint '"' ∧ c ≠ opening ∧ c ≠ closing := by
    rintro c hc
    refine ⟨?_, ?_, ?_⟩
    · rintro rfl
      cases hc
    · rintro rfl
      obtain ⟨rfl, -⟩ | ⟨rfl, -⟩ := hpair <;> cases hc
    · rintro rfl
      obtain ⟨-, rfl⟩ | ⟨-, rfl⟩ := hpair <;> cases hc
  intro depth r _
  induction t with
  | nil => simp
  | cons c t ih =>
    obtain ⟨hquote, hopening, hclosing⟩ := hchar c (ht c (List.mem_cons_self ..))
    have hrest := ih fun d hd => ht d (List.mem_cons_of_mem _ hd)
    rw [List.cons_append, skips_char hquote hopening hclosing, hrest, Option.map_map]
    rfl

theorem skipsBody_literal (s : PyText) : SkipsBody opening closing (s.flatMap escapeChar) := by
  refine body_induct (P := SkipsBody opening closing) ?_ ?_ ?_ ?_ s
  · intro depth r
    simp
  · exact fun t u => skipsBody_append
  · intro c hquote hback depth r
    simp [scanBalanced, hquote, hback]
  · intro e depth r
    simp [scanBalanced, Option.map_map, Function.comp_def]

theorem skips_quote (s : PyText) : Skips opening closing (quote s) := by
  intro depth r _
  have hquote : codePoint '"' ≠ codePoint '\\' := by decide
  have hbody : scanBalanced opening closing depth true false
      (s.flatMap escapeChar ++ codePoint '"' :: r) = _ := skipsBody_literal s depth _
  have hopen : scanBalanced opening closing depth false false (quote s ++ r) =
      (scanBalanced opening closing depth true false
        (s.flatMap escapeChar ++ codePoint '"' :: r)).map (codePoint '"' :: ·) := by
    simp [quote, scanBalanced]
  have hclose : scanBalanced opening closing depth true false (codePoint '"' :: r) =
      (scanBalanced opening closing depth false false r).map (codePoint '"' :: ·) := by
    simp [scanBalanced, hquote]
  rw [hopen, hbody, hclose, Option.map_map, Option.map_map]
  simp [quote, Function.comp_def]

theorem skips_nest {t : PyText} (hne : opening ≠ closing) (hopening : opening ≠ codePoint '"')
    (hclosing : closing ≠ codePoint '"') (ht : Skips opening closing t) :
    Skips opening closing (opening :: (t ++ [closing])) := by
  intro depth r hdepth
  have hinner := ht (depth + 1) (closing :: r) (by omega)
  have hopen : scanBalanced opening closing depth false false
      (opening :: (t ++ [closing]) ++ r) =
        (scanBalanced opening closing (depth + 1) false false (t ++ closing :: r)).map
          (opening :: ·) := by
    simp [scanBalanced, hopening]
  have hclose : scanBalanced opening closing (depth + 1) false false (closing :: r) =
      (scanBalanced opening closing depth false false r).map (closing :: ·) := by
    have hstill : ¬depth = 0 := by omega
    have hback : depth + 1 - 1 = depth := by omega
    simp only [scanBalanced, Bool.false_eq_true, if_false, and_false, if_neg hclosing,
      if_neg hne.symm, if_true, hback, if_neg hstill]
  rw [hopen, hinner, hclose, Option.map_map, Option.map_map]
  simp [Function.comp_def]

theorem skips_other {t : PyText} {a b : CodePoint}
    (ha : a ≠ codePoint '"' ∧ a ≠ opening ∧ a ≠ closing)
    (hb : b ≠ codePoint '"' ∧ b ≠ opening ∧ b ≠ closing) (ht : Skips opening closing t) :
    Skips opening closing (a :: (t ++ [b])) := by
  intro depth r hdepth
  have hinner := ht depth (b :: r) hdepth
  rw [List.cons_append, skips_char ha.1 ha.2.1 ha.2.2, List.append_assoc]
  simp only [List.cons_append, List.nil_append]
  rw [hinner, skips_char hb.1 hb.2.1 hb.2.2, Option.map_map, Option.map_map]
  simp [Function.comp_def]

theorem skips_list (hpair : Pair opening closing) (t : PyText) (ht : Skips opening closing t) :
    Skips opening closing (codePoint '[' :: (t ++ [codePoint ']'])) := by
  obtain ⟨rfl, rfl⟩ | ⟨rfl, rfl⟩ := hpair
  · exact skips_nest (by decide) (by decide) (by decide) ht
  · exact skips_other (by decide) (by decide) ht

theorem skips_dict (hpair : Pair opening closing) (t : PyText) (ht : Skips opening closing t) :
    Skips opening closing (codePoint '\x7b' :: (t ++ [codePoint '\x7d'])) := by
  obtain ⟨rfl, rfl⟩ | ⟨rfl, rfl⟩ := hpair
  · exact skips_other (by decide) (by decide) ht
  · exact skips_nest (by decide) (by decide) (by decide) ht

theorem scanBalanced_nest {t : PyText} (hpair : Pair opening closing)
    (ht : Skips opening closing t) (r : PyText) :
    scanBalanced opening closing 0 false false (opening :: (t ++ [closing]) ++ r) =
      some (opening :: (t ++ [closing])) := by
  have hinner := ht 1 (closing :: r) (by omega)
  have hdistinct : opening ≠ codePoint '"' ∧ closing ≠ codePoint '"' ∧ closing ≠ opening := by
    obtain ⟨rfl, rfl⟩ | ⟨rfl, rfl⟩ := hpair <;> decide
  have hopen : scanBalanced opening closing 0 false false (opening :: (t ++ [closing]) ++ r) =
      (scanBalanced opening closing 1 false false (t ++ closing :: r)).map (opening :: ·) := by
    simp [scanBalanced, hdistinct.1]
  have hclose : scanBalanced opening closing 1 false false (closing :: r) = some [closing] := by
    simp [scanBalanced, hdistinct.2]
  rw [hopen, hinner, hclose]
  rfl

end Scanner

variable {floatRepr : PyText → PyText}

theorem dumps_nest {v : PyValue} (hv : Encodable floatRepr v) (hcontainer : isContainer v = true) :
    ∃ opening closing t, Pair opening closing ∧ Skips opening closing t ∧
      dumps v = opening :: (t ++ [closing]) := by
  have hinner : ∀ {opening closing : CodePoint}, Pair opening closing →
      ∃ t, Skips opening closing t ∧ (dumps v = codePoint '[' :: (t ++ [codePoint ']']) ∨
        dumps v = codePoint '\x7b' :: (t ++ [codePoint '\x7d'])) := fun hpair =>
    container_induct (P := Skips _ _) (skips_plain hpair) (fun _ _ => skips_append) skips_quote
      (skips_list hpair) (skips_dict hpair) hv hcontainer
  cases v with
  | list items =>
    have hpair : Pair (codePoint '[') (codePoint ']') := .inl ⟨rfl, rfl⟩
    obtain ⟨t, ht, h | h⟩ := hinner hpair
    · exact ⟨_, _, t, hpair, ht, h⟩
    · exact absurd (List.cons.inj h).1 (by decide)
  | dict members =>
    have hpair : Pair (codePoint '\x7b') (codePoint '\x7d') := .inr ⟨rfl, rfl⟩
    obtain ⟨t, ht, h | h⟩ := hinner hpair
    · exact absurd (List.cons.inj h).1 (by decide)
    · exact ⟨_, _, t, hpair, ht, h⟩
  | _ => cases hcontainer

def Prose (t : PyText) : Prop := ∀ c ∈ t, c ∉ lit "[]\x7b\x7d\x60\""

theorem Prose.ne {t : PyText} (ht : Prose t) {c : CodePoint} (hc : c ∈ t) :
    isOpening c = false ∧ c ≠ codePoint '"' ∧ c ≠ codePoint '\x60' := by
  have hout := ht c hc
  refine ⟨Bool.eq_false_iff.2 fun hopening => hout ?_, ?_, ?_⟩
  · simp only [isOpening, Bool.or_eq_true, decide_eq_true_eq] at hopening
    obtain rfl | rfl := hopening <;> decide
  · rintro rfl
    exact hout (by decide)
  · rintro rfl
    exact hout (by decide)

theorem strip_around {d : PyText} {a b : CodePoint} {t : PyText} (hd : d = a :: (t ++ [b]))
    (ha : PyText.isSpace a = false) (hb : PyText.isSpace b = false) (before after : PyText) :
    strip (before ++ (d ++ after)) =
      before.dropWhile PyText.isSpace ++ (d ++ after.rdropWhile PyText.isSpace) := by
  have hleft : (before ++ (d ++ after)).dropWhile PyText.isSpace =
      before.dropWhile PyText.isSpace ++ (d ++ after) := by
    rw [List.dropWhile_append]
    split
    next h =>
      rw [List.isEmpty_iff.1 h, List.nil_append, hd]
      exact List.dropWhile_cons_of_neg (by rw [ha]; exact Bool.false_ne_true)
    next => rfl
  have hlast : d = a :: t ++ [b] := hd
  have hright : ∀ w : PyText, (w ++ (d ++ after)).rdropWhile PyText.isSpace =
      w ++ (d ++ after.rdropWhile PyText.isSpace) := by
    intro w
    unfold List.rdropWhile
    rw [List.reverse_append, List.reverse_append, List.append_assoc, List.dropWhile_append]
    split
    next h =>
      rw [List.isEmpty_iff.1 h, hlast]
      simp [hb]
    next =>
      simp [List.append_assoc]
  unfold strip
  rw [hleft, hright]

theorem Pair.not_space {opening closing : CodePoint} (h : Pair opening closing) :
    PyText.isSpace opening = false ∧ PyText.isSpace closing = false := by
  obtain ⟨rfl, rfl⟩ | ⟨rfl, rfl⟩ := h
  · exact ⟨rfl, rfl⟩
  · exact ⟨rfl, rfl⟩

theorem space_of_isSpace {c : CodePoint} (h : PyText.isSpace c = false) : isSpace c = false := by
  refine Bool.eq_false_iff.2 fun hspace => ?_
  have hc : c.val = 32 ∨ c.val = 9 ∨ c.val = 10 ∨ c.val = 13 := by
    simpa [isSpace, or_assoc] using hspace
  have hsmall : (9 ≤ c.val && c.val ≤ 13) || (28 ≤ c.val && c.val ≤ 32) := by
    simp only [Bool.or_eq_true, Bool.and_eq_true, decide_eq_true_eq]
    omega
  have htrue : PyText.isSpace c = true := by
    unfold PyText.isSpace
    simp only [hsmall, Bool.true_or]
  rw [h] at htrue
  cases htrue

theorem dropWhile_prose {before : PyText} (hbefore : Prose before) {opening : CodePoint}
    (hopening : isOpening opening = true) (t : PyText) :
    (before ++ opening :: t).dropWhile (fun c => !isOpening c) = opening :: t := by
  have hall : before.dropWhile (fun c => !isOpening c) = [] := by
    refine List.dropWhile_eq_nil_iff.2 fun c hc => ?_
    rw [(hbefore.ne hc).1]
    rfl
  rw [List.dropWhile_append, hall]
  simp [hopening]

theorem extract_prose {v : PyValue} (hv : Encodable floatRepr v) (hcontainer : isContainer v = true)
    {before : PyText} (hbefore : Prose before) (after : PyText) :
    extractBalancedJsonValue (before ++ (dumps v ++ after)) = some (dumps v) := by
  obtain ⟨opening, closing, t, hpair, ht, hd⟩ := dumps_nest hv hcontainer
  have hopening : isOpening opening = true := by obtain ⟨rfl, -⟩ | ⟨rfl, -⟩ := hpair <;> rfl
  have hclosing : (if opening = codePoint '[' then codePoint ']' else codePoint '\x7d') = closing := by
    obtain ⟨rfl, rfl⟩ | ⟨rfl, rfl⟩ := hpair <;> rfl
  have hscan := scanBalanced_nest hpair ht after
  unfold extractBalancedJsonValue
  rw [hd, List.cons_append, dropWhile_prose hbefore hopening]
  simp only [hclosing]
  exact hscan

theorem loads_prose {v : PyValue} (hv : Encodable floatRepr v) (hcontainer : isContainer v = true)
    {c : CodePoint} {before : PyText} (hbefore : Prose (c :: before))
    (hspace : PyText.isSpace c = false) (after : PyText) :
    loads floatRepr (c :: before ++ (dumps v ++ after)) = none := by
  obtain ⟨opening, closing, t, hpair, -, hd⟩ := dumps_nest hv hcontainer
  obtain ⟨hopening, hquote, -⟩ := hbefore.ne (List.mem_cons_self ..)
  have hne : ∀ b, isOpening b = true → c ≠ b := by
    rintro b hb rfl
    rw [hopening] at hb
    cases hb
  have hmem : opening ∈ c :: (before ++ (dumps v ++ after)) := by simp [hd]
  have hbracket : isPlain opening = false ∧ isSpace opening = false := by
    obtain ⟨rfl, -⟩ | ⟨rfl, -⟩ := hpair <;> exact ⟨rfl, rfl⟩
  exact loads_none (space_of_isSpace hspace) hquote (hne _ rfl) (hne _ rfl) hbracket hmem

/-- **A list or a dictionary that is written between prose is recovered.** The prose before it
has no bracket, brace, backtick or double quote; any text may follow. -/
theorem parseJson_prose {v : PyValue} (hv : Encodable floatRepr v)
    (hcontainer : isContainer v = true) {before : PyText} (hbefore : Prose before)
    (after : PyText) : parseJsonValue floatRepr (before ++ dumps v ++ after) = v := by
  obtain ⟨opening, closing, t, hpair, -, hd⟩ := dumps_nest hv hcontainer
  have hstrip := strip_around hd hpair.not_space.1 hpair.not_space.2 before after
  have hleft : Prose (before.dropWhile PyText.isSpace) :=
    fun c hc => hbefore c ((List.dropWhile_suffix _).subset hc)
  have hextract := extract_prose hv hcontainer hleft (after.rdropWhile PyText.isSpace)
  have hread := loads_dumps hv hcontainer
  set left := before.dropWhile PyText.isSpace with hdef
  set right := after.rdropWhile PyText.isSpace
  -- the text does not begin with a fence
  have hfence : ¬lit "```" <+: left ++ (dumps v ++ right) := by
    intro hpre
    obtain ⟨u, hu⟩ := hpre
    have hhead : (left ++ (dumps v ++ right)).head? = some (codePoint '\x60') := by
      rw [← hu]
      rfl
    cases hl : left with
    | nil =>
      rw [hl, hd] at hhead
      have hopening : opening = codePoint '\x60' := Option.some.inj hhead
      obtain ⟨h, -⟩ | ⟨h, -⟩ := hpair
      · exact absurd (h.symm.trans hopening) (by decide)
      · exact absurd (h.symm.trans hopening) (by decide)
    | cons c l =>
      rw [hl] at hhead hleft
      exact (hleft.ne (List.mem_cons_self ..)).2.2 (Option.some.inj hhead)
  have hstripped : strip (stripMarkdownFences (before ++ dumps v ++ after)) =
      left ++ (dumps v ++ right) := by
    unfold stripMarkdownFences
    rw [List.append_assoc, hstrip]
    simp only [if_neg fun h : lit "```" <+: left ++ (dumps v ++ right) ∧ _ => hfence h.1]
    rw [← hstrip, PyText.strip_strip]
  unfold parseJsonValue
  simp only [hstripped, hextract, hread, Option.getD_some]
  cases hl : left with
  | nil =>
    rw [List.nil_append, loads_append hv hcontainer]
    by_cases hempty : (skipSpace right).isEmpty = true
    · rw [if_pos hempty]
    · rw [if_neg hempty]
  | cons c l =>
    have hspace : PyText.isSpace c = false := by
      have hhead := List.head?_dropWhile_not PyText.isSpace before
      rw [← hdef, hl] at hhead
      simpa using hhead
    rw [hl] at hleft
    rw [loads_prose hv hcontainer hleft hspace]

def sampleValue : PyValue := .dict [(lit "a\\\"]", .list [.int (-3), .str (lit "\x7b\"")])]

theorem sample_recovered :
    parseJsonValue id (lit "Here it is: " ++ dumps sampleValue ++ lit ". [done]") = sampleValue := by
  refine parseJson_prose ?_ rfl ?_ _
  · refine .dict (by simp) (fun m hm => ?_) (fun m hm => ?_)
    · rw [List.mem_singleton.1 hm]
      unfold Unsplit
      decide
    · rw [List.mem_singleton.1 hm]
      refine .list fun v hv => ?_
      simp only [List.mem_cons, List.not_mem_nil, or_false] at hv
      obtain rfl | rfl := hv
      · exact .int _
      · refine .str ?_
        unfold Unsplit
        decide
  · intro c hc
    have hall : (lit "Here it is: ").all (fun c => decide (c ∉ lit "[]\x7b\x7d\x60\"")) = true := by
      decide
    exact of_decide_eq_true (List.all_eq_true.1 hall c hc)

end ClawHarder.ModelText
