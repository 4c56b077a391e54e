import ClawHarder.Lib.PyJsonRead

/-!
# The shape of what `json.dumps` writes

* `dumps_induct`: **a property of plain texts and of literals that brackets and joining keep is
  one of every text that is written.**
-/

namespace PyJson

open PyText (lit codePoint)

variable {floatRepr : PyText → PyText}

def isPlain (c : CodePoint) : Bool :=
  isDigit c || (65 ≤ c.val && c.val ≤ 90) || (97 ≤ c.val && c.val ≤ 122) || c = codePoint '+' ||
    c = codePoint '-' || c = codePoint '.' || c = codePoint ',' || c = codePoint ':' ||
    c = codePoint ' '

def Plain (t : PyText) : Prop := ∀ c ∈ t, isPlain c = true

theorem plain_of_all {t : PyText} (h : t.all isPlain = true) : Plain t := List.all_eq_true.1 h

theorem Plain.append {t u : PyText} (ht : Plain t) (hu : Plain u) : Plain (t ++ u) :=
  fun c hc => (List.mem_append.1 hc).elim (ht c) (hu c)

theorem plain_digits (t : PyText) : Plain (t.takeWhile isDigit) := by
  intro c hc
  have hdigit : isDigit c = true := List.mem_takeWhile_imp hc
  unfold isPlain
  rw [hdigit]
  rfl

theorem scanSign_consumed {signs : PyText} (hsigns : Plain signs) (s : PyText) :
    s = (scanSign signs s).1 ++ (scanSign signs s).2 ∧ Plain (scanSign signs s).1 := by
  cases s with
  | nil => exact ⟨rfl, by simp [scanSign, Plain]⟩
  | cons c s =>
    by_cases hc : c ∈ signs
    · simpa [scanSign, hc, Plain] using hsigns c hc
    · simp [scanSign, hc, Plain]

theorem scanInt_consumed {s digits r : PyText} (h : scanInt s = some (digits, r)) :
    s = digits ++ r ∧ Plain digits := by
  cases s with
  | nil => cases h
  | cons c s =>
    unfold scanInt at h
    simp only at h
    split at h
    next hzero =>
      cases h
      refine ⟨rfl, fun d hd => ?_⟩
      rw [List.mem_singleton.1 hd, hzero]
      rfl
    split at h
    next =>
      cases h
      exact ⟨(List.takeWhile_append_dropWhile ..).symm, plain_digits _⟩
    next => cases h

theorem scanFraction_consumed (s : PyText) :
    s = (scanFraction s).1 ++ (scanFraction s).2 ∧ Plain (scanFraction s).1 := by
  cases s with
  | nil => exact ⟨rfl, by simp [scanFraction, Plain]⟩
  | cons c s =>
    unfold scanFraction
    simp only
    split
    next h =>
      refine ⟨?_, ?_⟩
      · rw [List.cons_append, List.takeWhile_append_dropWhile]
      · intro d hd
        rcases List.mem_cons.1 hd with rfl | hd
        · rw [h.1]
          rfl
        · exact plain_digits s d hd
    next => simp [Plain]

theorem scanExponent_consumed (s : PyText) :
    s = (scanExponent s).1 ++ (scanExponent s).2 ∧ Plain (scanExponent s).1 := by
  cases s with
  | nil => exact ⟨rfl, by simp [scanExponent, Plain]⟩
  | cons c s =>
    have hsigns : Plain (lit "+-") := plain_of_all rfl
    obtain ⟨hs, hsign⟩ := scanSign_consumed hsigns s
    unfold scanExponent
    simp only
    split
    next h =>
      refine ⟨?_, ?_⟩
      · simp only [List.cons_append, List.append_assoc, List.takeWhile_append_dropWhile]
        rw [← hs]
      · intro d hd
        rcases List.mem_append.1 hd with hd | hd
        · rcases List.mem_cons.1 hd with rfl | hd
          · rcases h.1 with rfl | rfl <;> rfl
          · exact hsign d hd
        · exact plain_digits _ d hd
    next => simp [Plain]

theorem scanNumber_consumed {s r : PyText} {v : PyValue}
    (h : scanNumber floatRepr s = some (v, r)) : ∃ t, s = t ++ r ∧ Plain t := by
  have hminus : Plain (lit "-") := plain_of_all rfl
  obtain ⟨hs, hsign⟩ := scanSign_consumed hminus s
  unfold scanNumber at h
  simp only [Option.bind_eq_bind] at h
  cases hscan : scanInt (scanSign (lit "-") s).2 with
  | none => simp [hscan] at h
  | some p =>
    obtain ⟨digits, u⟩ := p
    obtain ⟨hu, hdigits⟩ := scanInt_consumed hscan
    obtain ⟨hw, hfraction⟩ := scanFraction_consumed u
    obtain ⟨hr, hexponent⟩ := scanExponent_consumed (scanFraction u).2
    have hrest : (scanExponent (scanFraction u).2).2 = r := by
      rw [hscan] at h
      simp only [Option.bind_some] at h
      split at h
      · cases h
        rfl
      · cases h
        rfl
    refine ⟨(scanSign (lit "-") s).1 ++ (digits ++ ((scanFraction u).1 ++
      (scanExponent (scanFraction u).2).1)), ?_, ?_⟩
    · rw [← hrest, List.append_assoc, List.append_assoc, List.append_assoc, ← hr, ← hw, ← hu, ← hs]
    · exact hsign.append (hdigits.append (hfraction.append hexponent))

theorem scanAtom_consumed {s r : PyText} {v : PyValue}
    (h : scanAtom floatRepr s = some (v, r)) : ∃ t, s = t ++ r ∧ Plain t := by
  unfold scanAtom at h
  split at h
  next k hk =>
    cases h
    have hplain : ∀ k ∈ constants, k.1.all isPlain = true := by decide
    have hmem := List.mem_of_find?_eq_some hk
    have hpre : k.1.isPrefixOf s = true := List.find?_some (p := fun k : PyText × PyValue => k.1.isPrefixOf s) hk
    obtain ⟨u, rfl⟩ := List.isPrefixOf_iff_prefix.1 hpre
    refine ⟨k.1, by rw [List.drop_left], fun c hc => List.all_eq_true.1 (hplain k hmem) c hc⟩
  next => exact scanNumber_consumed h

/-- **A text that begins with neither bracket nor quote is not read when it holds a bracket.** -/
theorem loads_none {c b : CodePoint} {s : PyText} (hspace : isSpace c = false)
    (hquote : c ≠ codePoint '"') (hbrace : c ≠ codePoint '\x7b') (hbracket : c ≠ codePoint '[')
    (hb : isPlain b = false ∧ isSpace b = false) (hmem : b ∈ c :: s) :
    loads floatRepr (c :: s) = none := by
  have hskip : skipSpace (c :: s) = c :: s :=
    List.dropWhile_cons_of_neg (by rw [hspace]; exact Bool.false_ne_true)
  unfold loads
  split
  · rfl
  rw [hskip, List.length_cons, Nat.mul_add, scanOnce_atom hquote hbrace hbracket]
  split
  next v r h =>
    obtain ⟨t, ht, hplain⟩ := scanAtom_consumed h
    rw [ht] at hmem
    have hrest : b ∈ r := by
      rcases List.mem_append.1 hmem with hbt | hbr
      · rw [hplain b hbt] at hb
        cases hb.1
      · exact hbr
    have hleft : ¬(skipSpace r).isEmpty = true := by
      intro hempty
      have hall := List.dropWhile_eq_nil_iff.1 (List.isEmpty_iff.1 hempty) b hrest
      rw [hb.2] at hall
      cases hall
    rw [if_neg hleft]
  next => rfl

theorem body_induct {P : PyText → Prop} (nil : P []) (append : ∀ t u, P t → P u → P (t ++ u))
    (raw : ∀ c, c ≠ codePoint '"' → c ≠ codePoint '\\' → P [c])
    (escape : ∀ e, P [codePoint '\\', e]) (s : PyText) : P (s.flatMap escapeChar) := by
  have hdigit : ∀ n, n < 16 → P [hexDigit n] := by
    have hall : ∀ n < 16, hexDigit n ≠ codePoint '"' ∧ hexDigit n ≠ codePoint '\\' := by decide
    exact fun n hn => raw _ (hall n hn).1 (hall n hn).2
  have hhex : ∀ n, P (escapeHex n) := by
    intro n
    have hdigits := append _ _ (hdigit (n / 4096 % 16) (by omega))
      (append _ _ (hdigit (n / 256 % 16) (by omega))
        (append _ _ (hdigit (n / 16 % 16) (by omega)) (hdigit (n % 16) (by omega))))
    exact append _ _ (escape (codePoint 'u')) hdigits
  have hchar : ∀ c, P (escapeChar c) := by
    intro c
    unfold escapeChar
    split
    · exact escape _
    split
    · exact escape _
    split
    · exact escape _
    split
    · exact escape _
    split
    · exact escape _
    split
    · exact escape _
    split
    · exact escape _
    split
    next hquote hback _ _ _ _ _ _ => exact raw c hquote hback
    split
    · exact hhex _
    · exact append _ _ (hhex _) (hhex _)
  induction s with
  | nil => exact nil
  | cons c s ih =>
    rw [List.flatMap_cons]
    exact append _ _ (hchar c) ih

section Shape

variable {P : PyText → Prop} (plain : ∀ t, Plain t → P t)
  (append : ∀ t u, P t → P u → P (t ++ u))
include plain append

theorem items_induct {items : List PyValue} (h : ∀ v ∈ items, P (dumps v)) :
    P (dumpsItems items) ∧ P ((dumpsItems items).drop 2) := by
  have hcomma : P (lit ", ") := plain _ (plain_of_all rfl)
  induction items with
  | nil => exact ⟨plain _ (plain_of_all rfl), plain _ (plain_of_all rfl)⟩
  | cons v vs ih =>
    have hrest := (ih fun w hw => h w (List.mem_cons_of_mem _ hw)).1
    have hv := h v (List.mem_cons_self ..)
    exact ⟨append _ _ (append _ _ hcomma hv) hrest, append _ _ hv hrest⟩

theorem members_induct {members : PyDict} (hkeys : ∀ m ∈ members, P (quote m.1))
    (h : ∀ m ∈ members, P (dumps m.2)) :
    P (dumpsMembers members) ∧ P ((dumpsMembers members).drop 2) := by
  have hcomma : P (lit ", ") := plain _ (plain_of_all rfl)
  have hcolon : P (lit ": ") := plain _ (plain_of_all rfl)
  induction members with
  | nil => exact ⟨plain _ (plain_of_all rfl), plain _ (plain_of_all rfl)⟩
  | cons m ms ih =>
    have hrest := (ih (fun w hw => hkeys w (List.mem_cons_of_mem _ hw))
      fun w hw => h w (List.mem_cons_of_mem _ hw)).1
    have hkey := hkeys m (List.mem_cons_self ..)
    have hm := h m (List.mem_cons_self ..)
    refine ⟨?_, ?_⟩
    · exact append _ _ (append _ _ (append _ _ (append _ _ hcomma hkey) hcolon) hm) hrest
    · exact append _ _ (append _ _ (append _ _ hkey hcolon) hm) hrest

variable (literal : ∀ s, P (quote s))
  (list : ∀ t, P t → P (codePoint '[' :: (t ++ [codePoint ']'])))
  (dict : ∀ t, P t → P (codePoint '\x7b' :: (t ++ [codePoint '\x7d'])))
include literal list dict

/-- **A property of every text that is written.** -/
theorem dumps_induct {v : PyValue} (hv : Encodable floatRepr v) : P (dumps v) := by
  have hnumber : ∀ {t : PyText} {w : PyValue}, scanNumber floatRepr t = some (w, []) → P t := by
    intro t w ht
    obtain ⟨u, hu, hplain⟩ := scanNumber_consumed ht
    rw [hu, List.append_nil]
    exact plain u hplain
  induction v using induct with
  | none => exact plain _ (plain_of_all rfl)
  | bool b =>
    cases b with
    | true => exact plain _ (plain_of_all rfl)
    | false => exact plain _ (plain_of_all rfl)
  | int n => exact hnumber (scanNumber_int n)
  | float repr =>
    cases hv with
    | finite h =>
      rw [dumps, floatText_finite h]
      exact hnumber h
    | special h =>
      simp only [List.mem_cons, List.not_mem_nil, or_false] at h
      obtain rfl | rfl | rfl := h
      · exact plain _ (plain_of_all rfl)
      · exact plain _ (plain_of_all rfl)
      · exact plain _ (plain_of_all rfl)
  | str s => exact literal s
  | list items ih =>
    have hitems := fun w hw => ih w hw (hv.items w hw)
    exact list _ (items_induct plain append hitems).2
  | dict members ih =>
    have hmembers := fun m hm => ih m hm (hv.members.2 m hm)
    exact dict _ (members_induct plain append (fun m _ => literal m.1) hmembers).2

theorem container_induct {v : PyValue} (hv : Encodable floatRepr v)
    (hcontainer : isContainer v = true) :
    ∃ t, P t ∧ (dumps v = codePoint '[' :: (t ++ [codePoint ']']) ∨
      dumps v = codePoint '\x7b' :: (t ++ [codePoint '\x7d'])) := by
  have hall : ∀ {w : PyValue}, Encodable floatRepr w → P (dumps w) :=
    fun hw => dumps_induct plain append literal list dict hw
  cases v with
  | list items =>
    exact ⟨_, (items_induct plain append fun w hw => hall (hv.items w hw)).2, .inl rfl⟩
  | dict members =>
    have hmembers := fun m hm => hall (hv.members.2 m hm)
    exact ⟨_, (members_induct plain append (fun m _ => literal m.1) hmembers).2, .inr rfl⟩
  | _ => cases hcontainer

end Shape

end PyJson
