import ClawHarder.Lib.PyCodec

/-!
# The lines of a text

`splitKeepends` takes a text apart at its ends of lines. `lines_induct` is the induction over
lines: nothing, a last line without an end, or a line and what is behind it.

* `splitKeepends_append`: **lines that are ended in front of another text stay apart from it.**
* `splitKeepends_joined`: of a text that is not, the last line goes on in the first of the other.
* `splitKeepends_universalNewlines`: newlines are translated line by line.
-/

namespace PyText

inductive LineEnd : PyText → PyText → Prop where
  | crlf (rest : PyText) : LineEnd [13, 10] rest
  | one {c : CodePoint} {rest : PyText} (hbreak : isLineBreak c = true)
      (hsingle : ¬(c.val = 13 ∧ ∃ d more, rest = d :: more ∧ d.val = 10)) : LineEnd [c] rest

def Unbroken (t : PyText) : Prop := ∀ c ∈ t, isLineBreak c = false

variable {t : PyText}

theorem splitKeepends_unbroken (ht : Unbroken t) (hne : t ≠ []) :
    splitKeepends t = [t] := by
  induction t with
  | nil => exact absurd rfl hne
  | cons c t ih =>
    have hc := ht c (List.mem_cons_self ..)
    have hrest : Unbroken t := fun d hd => ht d (List.mem_cons_of_mem _ hd)
    rw [splitKeepends.eq_def]
    simp only [hc, Bool.false_eq_true, if_false]
    cases t with
    | nil => rfl
    | cons d t => rw [ih hrest (List.cons_ne_nil _ _)]

theorem splitKeepends_line {body e rest : PyText} (hbody : Unbroken body) (he : LineEnd e rest) :
    splitKeepends (body ++ e ++ rest) = (body ++ e) :: splitKeepends rest := by
  induction body with
  | nil =>
    rw [List.nil_append]
    cases he with
    | crlf => rfl
    | @one c _ hbreak hsingle =>
      rw [List.singleton_append, splitKeepends.eq_def]
      simp only [hbreak, if_true]
      cases rest with
      | nil => rfl
      | cons d more =>
        have hnot : ¬(c.val = 13 ∧ d.val = 10) := fun h => hsingle ⟨h.1, d, more, rfl, h.2⟩
        simp only [if_neg hnot]
  | cons c body ih =>
    have hc := hbody c (List.mem_cons_self ..)
    have hrest := ih fun d hd => hbody d (List.mem_cons_of_mem _ hd)
    rw [List.cons_append, List.cons_append, splitKeepends.eq_def]
    simp only [hc, Bool.false_eq_true, if_false]
    rw [hrest]

theorem line_cases (t : PyText) : t = [] ∨ (t ≠ [] ∧ Unbroken t) ∨
    ∃ body e rest, Unbroken body ∧ LineEnd e rest ∧ t = body ++ e ++ rest := by
  induction t with
  | nil => exact .inl rfl
  | cons c t ih =>
    by_cases hc : isLineBreak c = true
    · right
      right
      by_cases hcrlf : c.val = 13 ∧ ∃ d more, t = d :: more ∧ d.val = 10
      · obtain ⟨hreturn, d, more, rfl, hfeed⟩ := hcrlf
        have hc' : c = 13 := Fin.ext hreturn
        have hd' : d = 10 := Fin.ext hfeed
        subst hc' hd'
        exact ⟨[], [13, 10], more, fun c hc => absurd hc List.not_mem_nil, .crlf more, rfl⟩
      · exact ⟨[], [c], t, fun c hc => absurd hc List.not_mem_nil, .one hc hcrlf, rfl⟩
    · have hfalse : isLineBreak c = false := by simpa using hc
      right
      obtain rfl | ⟨-, hunbroken⟩ | ⟨body, e, rest, hbody, he, rfl⟩ := ih
      · exact .inl ⟨List.cons_ne_nil _ _, fun d hd => (List.mem_singleton.1 hd) ▸ hfalse⟩
      · exact .inl ⟨List.cons_ne_nil _ _, List.forall_mem_cons.2 ⟨hfalse, hunbroken⟩⟩
      · exact .inr ⟨c :: body, e, rest, List.forall_mem_cons.2 ⟨hfalse, hbody⟩, he, rfl⟩

theorem LineEnd.ne_nil {e rest : PyText} (he : LineEnd e rest) : e ≠ [] := by
  cases he <;> simp

/-- Induction over the lines. -/
theorem lines_induct {P : PyText → Prop} (nil : P [])
    (last : ∀ t, t ≠ [] → Unbroken t → P t)
    (line : ∀ body e rest, Unbroken body → LineEnd e rest → P rest → P (body ++ e ++ rest))
    (t : PyText) : P t := by
  induction hn : t.length using Nat.strong_induction_on generalizing t with
  | _ n ih =>
    obtain rfl | ⟨hne, hunbroken⟩ | ⟨body, e, rest, hbody, he, rfl⟩ := line_cases t
    · exact nil
    · exact last t hne hunbroken
    · have hpos := List.length_pos_of_ne_nil he.ne_nil
      have hshort : rest.length < n := by
        rw [← hn]
        simp only [List.length_append]
        omega
      exact line body e rest hbody he (ih _ hshort rest rfl)

theorem flatten_splitKeepends (t : PyText) : (splitKeepends t).flatten = t := by
  induction t using lines_induct with
  | nil => rfl
  | last t hne hunbroken => simp [splitKeepends_unbroken hunbroken hne]
  | line body e rest hbody he ih => rw [splitKeepends_line hbody he, List.flatten_cons, ih]

theorem splitKeepends_eq_nil : splitKeepends t = [] ↔ t = [] := by
  constructor
  · intro h
    rw [← flatten_splitKeepends t, h]
    rfl
  · rintro rfl
    rfl

/-- The text ends its last line in front of the other, which does not begin with the second half
of its end. -/
def EndsLine (t u : PyText) : Prop :=
  t = [] ∨ ∃ c, t.getLast? = some c ∧ isLineBreak c = true ∧
    ¬(c.val = 13 ∧ ∃ d more, u = d :: more ∧ d.val = 10)

theorem LineEnd.getLast {e rest : PyText} (he : LineEnd e rest) :
    ∃ c, e.getLast? = some c ∧ isLineBreak c = true ∧ (c.val = 13 → e = [c]) := by
  cases he with
  | crlf => exact ⟨10, rfl, rfl, fun h => absurd h (by decide)⟩
  | @one c _ hbreak _ => exact ⟨c, rfl, hbreak, fun _ => rfl⟩

theorem LineEnd.append {e rest u : PyText} (he : LineEnd e rest)
    (h : rest = [] → EndsLine e u) : LineEnd e (rest ++ u) := by
  cases he with
  | crlf => exact .crlf _
  | @one c _ hbreak hsingle =>
    refine .one hbreak ?_
    cases rest with
    | cons d more =>
      rintro ⟨hc, x, y, heq, hx⟩
      obtain ⟨rfl, rfl⟩ := List.cons.inj heq
      exact hsingle ⟨hc, d, more, rfl, hx⟩
    | nil =>
      obtain hnil | ⟨x, hx, -, hnot⟩ := h rfl
      · cases hnil
      · cases hx
        exact hnot

theorem endsLine_append {a rest u : PyText} (hne : rest ≠ []) :
    EndsLine (a ++ rest) u ↔ EndsLine rest u := by
  unfold EndsLine
  rw [List.getLast?_append_of_ne_nil a hne]
  simp [hne]

/-- **Lines that are ended in front of another text stay apart from it.** -/
theorem splitKeepends_append {u : PyText} (h : EndsLine t u) :
    splitKeepends (t ++ u) = splitKeepends t ++ splitKeepends u := by
  induction t using lines_induct with
  | nil => rfl
  | last t hne hunbroken =>
    obtain rfl | ⟨c, hc, hbreak, -⟩ := h
    · exact absurd rfl hne
    · have hfalse := hunbroken c (List.mem_of_getLast? hc)
      rw [hbreak] at hfalse
      cases hfalse
  | line body e rest hbody he ih =>
    have hends : LineEnd e (rest ++ u) := by
      refine he.append ?_
      rintro rfl
      rw [List.append_nil] at h
      exact (endsLine_append he.ne_nil).1 h
    rw [splitKeepends_line hbody he, List.append_assoc, splitKeepends_line hbody hends]
    by_cases hrest : rest = []
    · subst hrest
      rfl
    · rw [ih ((endsLine_append hrest).1 h), List.cons_append]

theorem splitKeepends_joined {u : PyText} (h : ¬EndsLine t u) :
    ∃ front last, splitKeepends t = front ++ [last] ∧ last ≠ [] ∧
      ∀ first more, splitKeepends u = first :: more →
        splitKeepends (t ++ u) = front ++ (last ++ first) :: more := by
  induction t using lines_induct with
  | nil => exact absurd (.inl rfl) h
  | last t hne hunbroken =>
    refine ⟨[], t, splitKeepends_unbroken hunbroken hne, hne, fun first more hu => ?_⟩
    have happend : ∀ body : PyText, Unbroken body → Unbroken (t ++ body) :=
      fun body hbody => List.forall_mem_append.2 ⟨hunbroken, hbody⟩
    obtain rfl | ⟨hne', hu'⟩ | ⟨body, e, rest, hbody, he, rfl⟩ := line_cases u
    · cases hu
    · rw [splitKeepends_unbroken hu' hne'] at hu
      obtain ⟨rfl, rfl⟩ := List.cons.inj hu
      exact splitKeepends_unbroken (happend _ hu') (by simp [hne])
    · rw [splitKeepends_line hbody he] at hu
      obtain ⟨rfl, rfl⟩ := List.cons.inj hu
      have hline := splitKeepends_line (happend body hbody) he
      simpa [List.append_assoc] using hline
  | line body e rest hbody he ih =>
    by_cases hrest : rest = []
    · -- a carriage return in front of a line feed
      subst hrest
      obtain ⟨c, hc, hbreak, hreturn⟩ := he.getLast
      rw [List.append_nil] at h
      have hnot : c.val = 13 ∧ ∃ d more, u = d :: more ∧ d.val = 10 := by
        by_contra hno
        exact h ((endsLine_append he.ne_nil).2 (.inr ⟨c, hc, hbreak, hno⟩))
      obtain ⟨hval, d, more, rfl, hd⟩ := hnot
      have hc' : c = 13 := Fin.ext hval
      have hd' : d = 10 := Fin.ext hd
      have he' : e = [13] := hc' ▸ hreturn hval
      subst he' hd'
      refine ⟨[], body ++ [13], ?_, by simp, fun first rest hu => ?_⟩
      · rw [splitKeepends_line hbody he]
        rfl
      · have hfeed : LineEnd [10] more := .one rfl fun h => absurd h.1 (by decide)
        have hempty : Unbroken [] := fun c hc => absurd hc List.not_mem_nil
        have hfirst := splitKeepends_line hempty hfeed
        rw [List.nil_append, List.singleton_append] at hfirst
        rw [hfirst] at hu
        obtain ⟨rfl, rfl⟩ := List.cons.inj hu
        have hline := splitKeepends_line hbody (.crlf more)
        simpa [List.append_assoc] using hline
    · obtain ⟨front, last, hsplit, hlast, hjoin⟩ :=
        ih fun hends => h ((endsLine_append hrest).2 hends)
      refine ⟨(body ++ e) :: front, last, ?_, hlast, fun first more hu => ?_⟩
      · rw [splitKeepends_line hbody he, hsplit, List.cons_append]
      · have hends : LineEnd e (rest ++ u) := he.append fun hnil => absurd hnil hrest
        rw [List.append_assoc, splitKeepends_line hbody hends, hjoin first more hu,
          List.cons_append]

theorem encodable_iff :
    (encodeUtf8 t).isSome = true ↔ ∀ c ∈ t, (encodePoint c).isSome = true := by
  induction t with
  | nil => simp [encodeUtf8]
  | cons c t ih =>
    rw [List.forall_mem_cons, ← ih, encodeUtf8]
    cases encodePoint c <;> cases encodeUtf8 t <;> simp

theorem encodeUtf8_inj {u : PyText} (ht : (encodeUtf8 t).isSome = true)
    (h : encodeUtf8 t = encodeUtf8 u) : t = u := by
  obtain ⟨bytes, hbytes⟩ := Option.isSome_iff_exists.1 ht
  have hdecode := decodeUtf8_encodeUtf8 hbytes
  rw [h] at hbytes
  rw [decodeUtf8_encodeUtf8 hbytes] at hdecode
  exact (Option.some.inj hdecode).symm

def NoReturn (t : PyText) : Prop := ∀ c ∈ t, c.val ≠ 13

instance (t : PyText) : Decidable (NoReturn t) := inferInstanceAs (Decidable (∀ c ∈ t, _))

theorem universalNewlines_append (ht : NoReturn t) (rest : PyText) :
    universalNewlines (t ++ rest) = t ++ universalNewlines rest := by
  induction t with
  | nil => rfl
  | cons c t ih =>
    have hc := ht c (List.mem_cons_self ..)
    have hrest := ih fun d hd => ht d (List.mem_cons_of_mem _ hd)
    rw [List.cons_append, universalNewlines.eq_def]
    simp only [if_neg hc, hrest, List.cons_append]

theorem mem_universalNewlines {c : CodePoint} (hc : c ∈ universalNewlines t) :
    c.val ≠ 13 ∧ (c = 10 ∨ c ∈ t) := by
  induction t using universalNewlines.induct with
  | case1 => cases hc
  | case2 d hd =>
    rw [universalNewlines.eq_def] at hc
    simp only [if_pos hd, List.mem_singleton] at hc
    subst hc
    exact ⟨by decide, .inl rfl⟩
  | case3 d hd e rest he ih =>
    rw [universalNewlines.eq_def] at hc
    simp only [if_pos hd, if_pos he, List.mem_cons] at hc
    obtain rfl | hc := hc
    · exact ⟨by decide, .inl rfl⟩
    · exact ⟨(ih hc).1, (ih hc).2.imp_right fun h => by simp [h]⟩
  | case4 d hd e rest he ih =>
    rw [universalNewlines.eq_def] at hc
    simp only [if_pos hd, if_neg he, List.mem_cons] at hc
    obtain rfl | hc := hc
    · exact ⟨by decide, .inl rfl⟩
    · exact ⟨(ih hc).1, (ih hc).2.imp_right fun h => List.mem_cons_of_mem _ h⟩
  | case5 d rest hd ih =>
    rw [universalNewlines.eq_def] at hc
    simp only [if_neg hd, List.mem_cons] at hc
    obtain rfl | hc := hc
    · exact ⟨hd, .inr (List.mem_cons_self ..)⟩
    · exact ⟨(ih hc).1, (ih hc).2.imp_right fun h => List.mem_cons_of_mem _ h⟩

theorem universalNewlines_eq_self : universalNewlines t = t ↔ NoReturn t := by
  constructor
  · intro h c hc
    rw [← h] at hc
    exact (mem_universalNewlines hc).1
  · intro h
    have happend := universalNewlines_append h []
    rw [List.append_nil] at happend
    rw [happend]
    exact List.append_nil t

theorem Unbroken.noReturn (ht : Unbroken t) : NoReturn t := by
  intro c hc hval
  have hbreak : isLineBreak c = true := by
    simp [isLineBreak, hval]
  rw [ht c hc] at hbreak
  cases hbreak

theorem universalNewlines_end {e rest : PyText} (he : LineEnd e rest) :
    universalNewlines (e ++ rest) = universalNewlines e ++ universalNewlines rest ∧
      LineEnd (universalNewlines e) (universalNewlines rest) := by
  have hfeed : ∀ t, LineEnd [10] t := fun t => .one rfl fun h => absurd h.1 (by decide)
  cases he with
  | crlf => exact ⟨rfl, hfeed _⟩
  | @one c _ hbreak hsingle =>
    by_cases hreturn : c.val = 13
    · have hc : c = 13 := Fin.ext hreturn
      subst hc
      refine ⟨?_, hfeed _⟩
      cases rest with
      | nil => rfl
      | cons d more =>
        have hd : ¬d.val = 10 := fun h => hsingle ⟨rfl, d, more, rfl, h⟩
        rw [List.singleton_append, universalNewlines.eq_def]
        simp only [hreturn, if_true, if_neg hd]
        rfl
    · have hsame : universalNewlines [c] = [c] := by
        refine universalNewlines_eq_self.2 fun d hd => ?_
        rw [List.mem_singleton.1 hd]
        exact hreturn
      have happend : NoReturn [c] := fun d hd => (List.mem_singleton.1 hd) ▸ hreturn
      rw [hsame]
      exact ⟨universalNewlines_append happend rest, .one hbreak fun h => hreturn h.1⟩

/-- **Newlines are translated line by line.** -/
theorem splitKeepends_universalNewlines (t : PyText) :
    splitKeepends (universalNewlines t) = (splitKeepends t).map universalNewlines := by
  induction t using lines_induct with
  | nil => rfl
  | last t hne hunbroken =>
    have hsame : universalNewlines t = t := universalNewlines_eq_self.2 hunbroken.noReturn
    rw [hsame, splitKeepends_unbroken hunbroken hne, List.map_singleton, hsame]
  | line body e rest hbody he ih =>
    obtain ⟨htext, hend⟩ := universalNewlines_end he
    have hline : universalNewlines (body ++ e) = body ++ universalNewlines e :=
      universalNewlines_append hbody.noReturn e
    have hwhole : universalNewlines (body ++ e ++ rest) =
        body ++ universalNewlines e ++ universalNewlines rest := by
      rw [List.append_assoc, universalNewlines_append hbody.noReturn, htext, List.append_assoc]
    rw [hwhole, splitKeepends_line hbody hend, splitKeepends_line hbody he, List.map_cons, ih, hline]

theorem LineEnd.endsLine {e rest : PyText} (he : LineEnd e rest) : EndsLine e rest := by
  refine .inr ?_
  cases he with
  | crlf => exact ⟨10, rfl, rfl, fun h => absurd h.1 (by decide)⟩
  | @one c _ hbreak hsingle => exact ⟨c, rfl, hbreak, hsingle⟩

theorem endsLine_front {x : PyText} (hx : x ≠ []) (y : PyText) :
    EndsLine t (x ++ y) ↔ EndsLine t x := by
  cases x with
  | nil => exact absurd rfl hx
  | cons d x => simp [EndsLine]

theorem LineEnd.of_front {e x y : PyText} (he : LineEnd e (x ++ y)) : LineEnd e x := by
  obtain rfl | hx := eq_or_ne x []
  · generalize ([] : PyText) ++ y = rest at he
    cases he with
    | crlf => exact .crlf _
    | one hbreak => exact .one hbreak (by rintro ⟨-, d, more, heq, -⟩; cases heq)
  · generalize hrest : x ++ y = rest at he
    cases he with
    | crlf => exact .crlf _
    | one hbreak hsingle =>
      refine .one hbreak ?_
      rintro ⟨hc, d, more, rfl, hd⟩
      exact hsingle ⟨hc, d, more ++ y, hrest.symm, hd⟩

theorem splitKeepends_take (t : PyText) (k : ℕ) :
    splitKeepends ((splitKeepends t).take k).flatten = (splitKeepends t).take k ∧
      splitKeepends ((splitKeepends t).drop k).flatten = (splitKeepends t).drop k ∧
      (k < (splitKeepends t).length →
        EndsLine ((splitKeepends t).take k).flatten ((splitKeepends t).drop k).flatten) := by
  induction t using lines_induct generalizing k with
  | nil => simp [splitKeepends]
  | last t hne hunbroken =>
    have hlines := splitKeepends_unbroken hunbroken hne
    rw [hlines]
    cases k with
    | zero => simp [splitKeepends, hlines, EndsLine]
    | succ k => simp [splitKeepends, hlines]
  | line body e rest hbody he ih =>
    rw [splitKeepends_line hbody he]
    cases k with
    | zero =>
      have hwhole : (body ++ e) ++ (splitKeepends rest).flatten = body ++ e ++ rest := by
        rw [flatten_splitKeepends]
      refine ⟨rfl, ?_, fun _ => .inl rfl⟩
      rw [List.drop_zero, List.flatten_cons, hwhole, splitKeepends_line hbody he]
    | succ k =>
      obtain ⟨htake, hdrop, hends⟩ := ih k
      have hrest : ((splitKeepends rest).take k).flatten ++ ((splitKeepends rest).drop k).flatten =
          rest := by
        rw [← List.flatten_append, List.take_append_drop, flatten_splitKeepends]
      rw [List.take_succ_cons, List.drop_succ_cons, List.flatten_cons, List.length_cons]
      have hfront : LineEnd e ((splitKeepends rest).take k).flatten := by
        rw [← hrest] at he
        exact he.of_front
      refine ⟨?_, hdrop, fun hk => ?_⟩
      · rw [splitKeepends_line hbody hfront, htake]
      · by_cases hnil : ((splitKeepends rest).take k).flatten = []
        · rw [hnil, List.append_nil, endsLine_append he.ne_nil]
          rw [hnil, List.nil_append] at hrest
          rw [hrest]
          exact he.endsLine
        · rw [endsLine_append hnil]
          exact hends (by omega)

theorem mem_splitKeepends {l : PyText} (hl : l ∈ splitKeepends t) :
    ∃ body e, Unbroken body ∧ l = body ++ e ∧ l ≠ [] ∧ (e = [] ∨ ∃ rest, LineEnd e rest) := by
  induction t using lines_induct with
  | nil => cases hl
  | last t hne hunbroken =>
    rw [splitKeepends_unbroken hunbroken hne, List.mem_singleton] at hl
    subst hl
    exact ⟨l, [], hunbroken, (List.append_nil l).symm, hne, .inl rfl⟩
  | line body e rest hbody he ih =>
    rw [splitKeepends_line hbody he] at hl
    obtain rfl | hl := List.mem_cons.1 hl
    · exact ⟨body, e, hbody, rfl, by simp [he.ne_nil], .inr ⟨rest, he⟩⟩
    · exact ih hl

/-- What stands in front of a translated line gives the line only if it restores the carriage
return of an empty one. -/
theorem restored_iff {l last : PyText} (hl : l ∈ splitKeepends t) (hlast : last ≠ []) :
    last ++ universalNewlines l = l ↔ l = [13, 10] ∧ last = [13] := by
  constructor
  · intro h
    obtain ⟨body, e, hbody, rfl, -, he⟩ := mem_splitKeepends hl
    rw [universalNewlines_append hbody.noReturn] at h
    have hlength := congrArg List.length h
    have hpos := List.length_pos_of_ne_nil hlast
    simp only [List.length_append] at hlength
    obtain rfl | ⟨rest, he⟩ := he
    · have hzero : (universalNewlines []).length = 0 := rfl
      rw [hzero, List.length_nil] at hlength
      omega
    · cases he with
      | one hbreak hsingle =>
        have hone : ∀ c : CodePoint, (universalNewlines [c]).length = 1 := by
          intro c
          rw [universalNewlines.eq_def]
          by_cases hc : c.val = 13 <;> simp [hc, universalNewlines]
        rw [hone, List.length_singleton] at hlength
        omega
      | crlf =>
        have hfeed : universalNewlines [13, 10] = [10] := rfl
        rw [hfeed] at h hlength
        obtain ⟨d, rfl⟩ : ∃ d, last = [d] := List.length_eq_one_iff.1 (by simp at hlength; omega)
        have hshift : d :: body = body ++ [13] := by
          have happend : (d :: body) ++ [10] = (body ++ [13]) ++ [10] := by simpa using h
          exact List.append_cancel_right happend
        cases body with
        | nil =>
          cases hshift
          exact ⟨rfl, rfl⟩
        | cons c body =>
          -- the line would have the carriage return before its end
          have hmem : (13 : CodePoint) ∈ c :: body := by
            have hends := congrArg List.getLast? hshift
            rw [List.getLast?_cons_cons, List.getLast?_append_of_ne_nil _ (by simp)] at hends
            exact List.mem_of_getLast? hends
          have hfalse := hbody 13 hmem
          cases hfalse
  · rintro ⟨rfl, rfl⟩
    rfl

theorem universalNewlines_ne_nil (ht : t ≠ []) : universalNewlines t ≠ [] := by
  intro hnil
  have hlines := splitKeepends_universalNewlines t
  rw [hnil] at hlines
  exact ht (splitKeepends_eq_nil.1 (List.map_eq_nil_iff.1 hlines.symm))

theorem map_universalNewlines {lines : List PyText} :
    lines.map universalNewlines = lines ↔ ∀ l ∈ lines, NoReturn l := by
  induction lines with
  | nil => simp
  | cons l lines ih =>
    rw [List.map_cons, List.cons_eq_cons, ih, universalNewlines_eq_self, List.forall_mem_cons]

end PyText
