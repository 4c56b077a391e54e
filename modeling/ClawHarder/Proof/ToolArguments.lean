import ClawHarder.Proof.JsonRecovery

/-!
# Decoding the arguments of a tool call

`arguments_undone_iff`: **the arguments are decoded as they were encoded exactly when their text
holds no fenced object**, such as a string with three backticks, a pair of braces and three
backticks again.

**When it does.** The object that is found begins inside a string, since backticks stand nowhere
else. From there on the reader takes for strings what stands outside strings, and the other way
round: `mirror_of_wellPlaced`. So a backslash stops it, and no string that it reads has a
backtick (`scanOnce_mirror`). But the arguments have some.
-/

namespace ClawHarder.ModelText

open PyText (lit codePoint strip)
open PyJson

inductive Place where
  | outside
  | inside
  | escaped
  deriving DecidableEq

def Place.next : Place → CodePoint → Place
  | .outside, c => if c = codePoint '"' then .inside else .outside
  | .inside, c =>
    if c = codePoint '"' then .outside else if c = codePoint '\\' then .escaped else .inside
  | .escaped, _ => .inside

def WellPlaced (p : Place) : PyText → Prop
  | [] => True
  | c :: s => (p = .outside → c ≠ codePoint '\\' ∧ c ≠ codePoint '\x60') ∧ WellPlaced (p.next c) s

theorem wellPlaced_append {p : Place} {t u : PyText} (h : WellPlaced p (t ++ u)) :
    WellPlaced (t.foldl Place.next p) u := by
  induction t generalizing p with
  | nil => exact h
  | cons c t ih => exact ih h.2

def Closed (t : PyText) : Prop := ∀ u, WellPlaced .outside u → WellPlaced .outside (t ++ u)

variable {c : CodePoint}

theorem closed_char (hquote : c ≠ codePoint '"') (hback : c ≠ codePoint '\\')
    (htick : c ≠ codePoint '\x60') {t : PyText} (ht : WellPlaced .outside t) :
    WellPlaced .outside (c :: t) := by
  refine ⟨fun _ => ⟨hback, htick⟩, ?_⟩
  have hnext : Place.outside.next c = .outside := if_neg hquote
  rwa [hnext]

theorem closed_plain (t : PyText) (ht : Plain t) : Closed t := by
  intro u hu
  induction t with
  | nil => exact hu
  | cons c t ih =>
    have hc := ht c (List.mem_cons_self ..)
    refine closed_char ?_ ?_ ?_ (ih fun d hd => ht d (List.mem_cons_of_mem _ hd))
    · rintro rfl
      cases hc
    · rintro rfl
      cases hc
    · rintro rfl
      cases hc

theorem closed_append (t u : PyText) (ht : Closed t) (hu : Closed u) : Closed (t ++ u) := by
  intro w hw
  rw [List.append_assoc]
  exact ht _ (hu w hw)

theorem closed_quote (s : PyText) : Closed (quote s) := by
  have hbody : ∀ u, WellPlaced .inside u → WellPlaced .inside (s.flatMap escapeChar ++ u) := by
    refine body_induct (P := fun t => ∀ u, WellPlaced .inside u → WellPlaced .inside (t ++ u))
      ?_ ?_ ?_ ?_ s
    · exact fun u hu => hu
    · intro t u ht hu w hw
      rw [List.append_assoc]
      exact ht _ (hu w hw)
    · intro c hquote hback u hu
      refine ⟨fun h => absurd h (by decide), ?_⟩
      have hnext : Place.inside.next c = .inside := by simp [Place.next, hquote, hback]
      rwa [hnext]
    · intro e u hu
      refine ⟨fun h => absurd h (by decide), fun h => absurd h (by decide), hu⟩
  intro u hu
  have hclose : WellPlaced .inside (codePoint '"' :: u) :=
    ⟨fun h => absurd h (by decide), hu⟩
  have htext : quote s ++ u = codePoint '"' :: (s.flatMap escapeChar ++ codePoint '"' :: u) := by
    simp [quote]
  rw [htext]
  exact ⟨fun _ => by decide, hbody _ hclose⟩

theorem closed_nest {a b : CodePoint}
    (ha : a ≠ codePoint '"' ∧ a ≠ codePoint '\\' ∧ a ≠ codePoint '\x60')
    (hb : b ≠ codePoint '"' ∧ b ≠ codePoint '\\' ∧ b ≠ codePoint '\x60') {t : PyText}
    (ht : Closed t) : Closed (a :: (t ++ [b])) := by
  intro u hu
  rw [List.cons_append, List.append_assoc]
  exact closed_char ha.1 ha.2.1 ha.2.2 (ht _ (closed_char hb.1 hb.2.1 hb.2.2 hu))

variable {floatRepr : PyText → PyText}

variable {v : PyValue}

theorem wellPlaced_dumps (hv : Encodable floatRepr v) :
    WellPlaced .outside (dumps v) := by
  have hclosed : Closed (dumps v) := dumps_induct closed_plain closed_append closed_quote
    (fun t ht => closed_nest (by decide) (by decide) ht)
    (fun t ht => closed_nest (by decide) (by decide) ht) hv
  have hnil := hclosed [] trivial
  rwa [List.append_nil] at hnil

/-- What a reader meets that takes strings for what is outside them. What it takes for a string
has no backslash and no backtick; a backslash elsewhere stops it. -/
def Mirror (inString : Bool) : PyText → Prop
  | [] => True
  | c :: s =>
    if c = codePoint '"' then Mirror (!inString) s
    else if inString then c ≠ codePoint '\\' ∧ c ≠ codePoint '\x60' ∧ Mirror true s
    else c ≠ codePoint '\\' → Mirror false s

variable {s : PyText}

theorem mirror_quote {inString : Bool} :
    Mirror inString (codePoint '"' :: s) ↔ Mirror (!inString) s := by simp [Mirror]

theorem mirror_string (hquote : c ≠ codePoint '"') :
    Mirror true (c :: s) ↔ c ≠ codePoint '\\' ∧ c ≠ codePoint '\x60' ∧ Mirror true s := by
  simp [Mirror, hquote]

theorem mirror_outside (hquote : c ≠ codePoint '"') :
    Mirror false (c :: s) ↔ (c ≠ codePoint '\\' → Mirror false s) := by simp [Mirror, hquote]

/-- **From inside a string, a reader takes strings for what is outside them.** -/
theorem mirror_of_wellPlaced :
    (WellPlaced .inside s → Mirror false s) ∧ (WellPlaced .outside s → Mirror true s) := by
  induction s with
  | nil => exact ⟨fun _ => trivial, fun _ => trivial⟩
  | cons c s ih =>
    by_cases hquote : c = codePoint '"'
    · subst hquote
      exact ⟨fun h => mirror_quote.2 (ih.2 h.2), fun h => mirror_quote.2 (ih.1 h.2)⟩
    · constructor
      · rintro ⟨-, hnext⟩
        refine (mirror_outside hquote).2 fun hback => ih.1 ?_
        rwa [Place.next, if_neg hquote, if_neg hback] at hnext
      · rintro ⟨hchar, hnext⟩
        refine (mirror_string hquote).2 ⟨(hchar rfl).1, (hchar rfl).2, ih.2 ?_⟩
        rwa [Place.next, if_neg hquote] at hnext

theorem mirror_of_append {inString : Bool} {t u : PyText} (h : Mirror inString (t ++ u)) :
    Mirror inString t := by
  induction t generalizing inString with
  | nil => trivial
  | cons c t ih =>
    rw [List.cons_append] at h
    by_cases hquote : c = codePoint '"'
    · subst hquote
      exact mirror_quote.2 (ih (mirror_quote.1 h))
    · cases inString with
      | true =>
        obtain ⟨hback, htick, hrest⟩ := (mirror_string hquote).1 h
        exact (mirror_string hquote).2 ⟨hback, htick, ih hrest⟩
      | false =>
        exact (mirror_outside hquote).2 fun hback => ih ((mirror_outside hquote).1 h hback)

theorem mirror_drop {t u : PyText}
    (ht : ∀ c ∈ t, c ≠ codePoint '"' ∧ c ≠ codePoint '\\') (h : Mirror false (t ++ u)) :
    Mirror false u := by
  induction t with
  | nil => exact h
  | cons c t ih =>
    obtain ⟨hquote, hback⟩ := ht c (List.mem_cons_self ..)
    exact ih (fun d hd => ht d (List.mem_cons_of_mem _ hd)) ((mirror_outside hquote).1 h hback)

theorem mirror_skipSpace (h : Mirror false s) : Mirror false (skipSpace s) := by
  have hsplit : s = s.takeWhile isSpace ++ skipSpace s :=
    (List.takeWhile_append_dropWhile ..).symm
  rw [hsplit] at h
  refine mirror_drop (fun c hc => ?_) h
  have hspace : isSpace c = true := List.mem_takeWhile_imp hc
  constructor
  · rintro rfl
    cases hspace
  · rintro rfl
    cases hspace

theorem scanString_mirror {str r : PyText} (h : Mirror true s)
    (hread : scanString none s = some (str, r)) :
    codePoint '\x60' ∉ str ∧ Mirror false r := by
  induction s generalizing str with
  | nil => cases hread
  | cons c s ih =>
    rw [scanString.eq_def] at hread
    by_cases hquote : c = codePoint '"'
    · subst hquote
      simp only [if_true, Option.some.injEq, Prod.mk.injEq] at hread
      obtain ⟨rfl, rfl⟩ := hread
      exact ⟨by simp [pending], mirror_quote.1 h⟩
    · obtain ⟨hback, hchar, hrestMirror⟩ := (mirror_string hquote).1 h
      simp only [if_neg hquote, if_neg hback] at hread
      split at hread
      · cases hread
      cases hrest : scanString none s with
      | none => simp [hrest] at hread
      | some p =>
        simp only [hrest, Option.bind_eq_bind, Option.bind_some, Option.pure_def, pending,
          Option.map_none, Option.toList_none, List.nil_append, Option.some.injEq,
          Prod.mk.injEq] at hread
        obtain ⟨rfl, rfl⟩ := hread
        obtain ⟨htick, hmirror⟩ := ih hrestMirror hrest
        refine ⟨fun hmem => ?_, hmirror⟩
        rcases List.mem_cons.1 hmem with heq | hmem
        · exact hchar heq.symm
        · exact htick hmem

inductive TickFree : PyValue → Prop
  | none : TickFree .none
  | bool (b : Bool) : TickFree (.bool b)
  | int (n : ℤ) : TickFree (.int n)
  | float (repr : PyText) : TickFree (.float repr)
  | str {s : PyText} : codePoint '\x60' ∉ s → TickFree (.str s)
  | list {items : List PyValue} : (∀ v ∈ items, TickFree v) → TickFree (.list items)
  | dict {members : PyDict} : (∀ m ∈ members, codePoint '\x60' ∉ m.1) →
    (∀ m ∈ members, TickFree m.2) → TickFree (.dict members)

theorem TickFree.members {d : PyDict} (h : TickFree (.dict d)) :
    ∀ m ∈ d, codePoint '\x60' ∉ m.1 ∧ TickFree m.2 := by
  cases h with
  | dict hkeys hvalues => exact fun m hm => ⟨hkeys m hm, hvalues m hm⟩

theorem mem_set {k : PyText} {d : PyDict} {m : PyText × PyValue}
    (hm : m ∈ PyValue.set k v d) : m = (k, v) ∨ m ∈ d := by
  induction d with
  | nil => exact .inl (List.mem_singleton.1 hm)
  | cons n d ih =>
    rw [PyValue.set] at hm
    split at hm
    · rcases List.mem_cons.1 hm with heq | hrest
      · exact .inl heq
      · exact .inr (List.mem_cons_of_mem _ (List.mem_filter.1 hrest).1)
    · rcases List.mem_cons.1 hm with heq | hrest
      · exact .inr (heq ▸ List.mem_cons_self ..)
      · exact (ih hrest).imp id (List.mem_cons_of_mem _)

theorem mem_dictOf {ms : PyDict} {m : PyText × PyValue} (hm : m ∈ dictOf ms) : m ∈ ms := by
  have hall : ∀ d : PyDict, m ∈ ms.foldl (fun d m => PyValue.set m.1 m.2 d) d → m ∈ d ∨ m ∈ ms := by
    clear hm
    induction ms with
    | nil => exact fun d hd => .inl hd
    | cons n ms ih =>
      intro d hd
      rcases ih _ hd with hset | hrest
      · rcases mem_set hset with heq | hd
        · exact .inr (heq ▸ List.mem_cons_self ..)
        · exact .inl hd
      · exact .inr (List.mem_cons_of_mem _ hrest)
  rcases hall [] hm with hnil | hms
  · cases hnil
  · exact hms

theorem scanNext_mirror {close : CodePoint} {r : PyText} {more : Bool}
    (hclose : close ≠ codePoint '"' ∧ close ≠ codePoint '\\') (h : Mirror false s)
    (hread : scanNext close s = some (more, r)) : Mirror false r := by
  have hskip := mirror_skipSpace h
  unfold scanNext at hread
  cases hs : skipSpace s with
  | nil => simp [hs] at hread
  | cons c t =>
    rw [hs] at hskip
    simp only [hs] at hread
    split at hread
    next hc =>
      cases hread
      subst hc
      exact (mirror_outside hclose.1).1 hskip hclose.2
    split at hread
    next hc =>
      cases hread
      subst hc
      exact mirror_skipSpace ((mirror_outside (by decide)).1 hskip (by decide))
    next => cases hread

theorem scanKey_mirror {k r : PyText} (h : Mirror false s) (hread : scanKey s = some (k, r)) :
    codePoint '\x60' ∉ k ∧ Mirror false r := by
  cases s with
  | nil => cases hread
  | cons q s =>
    unfold scanKey at hread
    simp only at hread
    split at hread
    next hq =>
      subst hq
      cases hkey : scanString none s with
      | none => simp [hkey] at hread
      | some p =>
        obtain ⟨hfree, hrest⟩ := scanString_mirror (mirror_quote.1 h) hkey
        have hskip := mirror_skipSpace hrest
        simp only [hkey, Option.bind_eq_bind, Option.bind_some] at hread
        cases hs : skipSpace p.2 with
        | nil => simp [hs] at hread
        | cons c t =>
          rw [hs] at hskip
          simp only [hs] at hread
          split at hread
          next hc =>
            cases hread
            subst hc
            exact ⟨hfree, mirror_skipSpace ((mirror_outside (by decide)).1 hskip (by decide))⟩
          next => cases hread
    next => cases hread

theorem scanAtom_mirror {r : PyText} (h : Mirror false s)
    (hread : scanAtom floatRepr s = some (v, r)) : TickFree v ∧ Mirror false r := by
  obtain ⟨t, ht, hplain⟩ := scanAtom_consumed hread
  refine ⟨?_, mirror_drop (fun c hc => ?_) (ht ▸ h)⟩
  · unfold scanAtom at hread
    split at hread
    next k hk =>
      cases hread
      have hmem := List.mem_of_find?_eq_some hk
      simp only [constants, List.mem_cons, List.not_mem_nil, or_false] at hmem
      obtain rfl | rfl | rfl | rfl | rfl | rfl := hmem
      · exact .none
      · exact .bool _
      · exact .bool _
      · exact .float _
      · exact .float _
      · exact .float _
    next =>
      unfold scanNumber at hread
      simp only [Option.bind_eq_bind] at hread
      cases hint : scanInt (scanSign (lit "-") s).2 with
      | none => simp [hint] at hread
      | some p =>
        simp only [hint, Option.bind_some] at hread
        split at hread
        · cases hread
          exact .int _
        · cases hread
          exact .float _
  · have hc := hplain c hc
    constructor
    · rintro rfl
      cases hc
    · rintro rfl
      cases hc

theorem mirror_bracket
    (hc : c ≠ codePoint '"' ∧ c ≠ codePoint '\\') (h : Mirror false (c :: s)) :
    Mirror false (skipSpace s) := mirror_skipSpace ((mirror_outside hc.1).1 h hc.2)

theorem mirror_tail
    (hc : c ≠ codePoint '"' ∧ c ≠ codePoint '\\') (h : Mirror false s) (hs : s.head? = some c) :
    Mirror false s.tail := by
  cases s with
  | nil => cases hs
  | cons d s =>
    obtain rfl : d = c := Option.some.inj hs
    exact (mirror_outside hc.1).1 h hc.2

/-- **What is read from inside a string has no backtick.** -/
theorem scan_mirror (fuel : ℕ) :
    (∀ s v r, Mirror false s → scanOnce floatRepr fuel s = some (v, r) →
      TickFree v ∧ Mirror false r) ∧
    (∀ s vs r, Mirror false s → scanItems floatRepr fuel s = some (vs, r) →
      (∀ v ∈ vs, TickFree v) ∧ Mirror false r) ∧
    ∀ s ms r, Mirror false s → scanMembers floatRepr fuel s = some (ms, r) →
      (∀ m ∈ ms, codePoint '\x60' ∉ m.1 ∧ TickFree m.2) ∧ Mirror false r := by
  induction fuel with
  | zero =>
    exact ⟨fun _ _ _ _ h => (by cases h), fun _ _ _ _ h => (by cases h),
      fun _ _ _ _ h => (by cases h)⟩
  | succ fuel ih =>
    obtain ⟨ihOnce, ihItems, ihMembers⟩ := ih
    refine ⟨?_, ?_, ?_⟩
    · intro s v r h hread
      cases s with
      | nil => cases hread
      | cons c s =>
        rw [scanOnce] at hread
        split at hread
        next hc =>
          subst hc
          cases hstr : scanString none s with
          | none => simp [hstr] at hread
          | some p =>
            rw [hstr] at hread
            cases hread
            obtain ⟨hfree, hrest⟩ := scanString_mirror (mirror_quote.1 h) hstr
            exact ⟨.str hfree, hrest⟩
        split at hread
        next hc =>
          subst hc
          have hinner := mirror_bracket (by decide) h
          split at hread
          next hempty =>
            cases hread
            exact ⟨.dict (by simp) (by simp), mirror_tail (by decide) hinner hempty⟩
          next =>
            cases hms : scanMembers floatRepr fuel (skipSpace s) with
            | none => simp [hms] at hread
            | some p =>
              rw [hms] at hread
              cases hread
              obtain ⟨hfree, hrest⟩ := ihMembers _ _ _ hinner hms
              exact ⟨.dict (fun m hm => (hfree m (mem_dictOf hm)).1)
                fun m hm => (hfree m (mem_dictOf hm)).2, hrest⟩
        split at hread
        next hc =>
          subst hc
          have hinner := mirror_bracket (by decide) h
          split at hread
          next hempty =>
            cases hread
            exact ⟨.list (by simp), mirror_tail (by decide) hinner hempty⟩
          next =>
            cases hvs : scanItems floatRepr fuel (skipSpace s) with
            | none => simp [hvs] at hread
            | some p =>
              rw [hvs] at hread
              cases hread
              obtain ⟨hfree, hrest⟩ := ihItems _ _ _ hinner hvs
              exact ⟨.list hfree, hrest⟩
        next => exact scanAtom_mirror h hread
    · intro s vs r h hread
      rw [scanItems] at hread
      obtain ⟨⟨v, t⟩, hv, hread⟩ := Option.bind_eq_some_iff.1 hread
      obtain ⟨⟨more, u⟩, hnext, hread⟩ := Option.bind_eq_some_iff.1 hread
      obtain ⟨hfree, ht⟩ := ihOnce _ _ _ h hv
      have hu := scanNext_mirror (by decide) ht hnext
      split at hread
      next =>
        obtain ⟨⟨ws, w⟩, hws, hread⟩ := Option.bind_eq_some_iff.1 hread
        cases hread
        obtain ⟨hfrees, hw⟩ := ihItems _ _ _ hu hws
        exact ⟨List.forall_mem_cons.2 ⟨hfree, hfrees⟩, hw⟩
      next =>
        cases hread
        exact ⟨List.forall_mem_singleton.2 hfree, hu⟩
    · intro s ms r h hread
      rw [scanMembers] at hread
      obtain ⟨⟨k, t⟩, hk, hread⟩ := Option.bind_eq_some_iff.1 hread
      obtain ⟨⟨v, u⟩, hv, hread⟩ := Option.bind_eq_some_iff.1 hread
      obtain ⟨⟨more, w⟩, hnext, hread⟩ := Option.bind_eq_some_iff.1 hread
      obtain ⟨hkey, ht⟩ := scanKey_mirror h hk
      obtain ⟨hfree, hu⟩ := ihOnce _ _ _ ht hv
      have hw := scanNext_mirror (by decide) hu hnext
      split at hread
      next =>
        obtain ⟨⟨ns, x⟩, hns, hread⟩ := Option.bind_eq_some_iff.1 hread
        cases hread
        obtain ⟨hfrees, hx⟩ := ihMembers _ _ _ hw hns
        exact ⟨List.forall_mem_cons.2 ⟨⟨hkey, hfree⟩, hfrees⟩, hx⟩
      next =>
        cases hread
        exact ⟨List.forall_mem_singleton.2 ⟨hkey, hfree⟩, hw⟩

theorem eq_of_behind {word t r : PyText} (h : behind word t = some r) : t = word ++ r := by
  unfold behind at h
  split at h
  next hpre =>
    cases h
    obtain ⟨u, rfl⟩ := List.isPrefixOf_iff_prefix.1 hpre
    rw [List.drop_left]
  next => cases h

theorem untilFence_ends {t : PyText} (h : untilFence s = some t) :
    (∃ u, t = u ++ [codePoint '\x7d']) ∧ ∃ rest, s = t ++ rest := by
  induction s generalizing t with
  | nil => cases h
  | cons c s ih =>
    rw [untilFence] at h
    split at h
    next hc =>
      cases h
      exact ⟨⟨[], by rw [hc.1]; rfl⟩, s, rfl⟩
    next =>
      obtain ⟨u, hu, rfl⟩ := Option.map_eq_some_iff.1 h
      obtain ⟨⟨w, hw⟩, rest, hrest⟩ := ih hu
      exact ⟨⟨c :: w, by rw [hw]; rfl⟩, rest, by rw [hrest]; rfl⟩

def Unquoted (t : PyText) : Prop := ∀ c ∈ t, c ≠ codePoint '"' ∧ c ≠ codePoint '\\'

theorem unquoted_spaces (t : PyText) : Unquoted (t.takeWhile PyText.isSpace) := by
  intro c hc
  have hspace : PyText.isSpace c = true := List.mem_takeWhile_imp hc
  constructor
  · rintro rfl
    cases hspace
  · rintro rfl
    cases hspace

theorem fencedAt_shape {g : PyText} (h : fencedAt s = some g) :
    ∃ m rest t, s = lit "```" ++ (m ++ (g ++ rest)) ∧ Unquoted m ∧
      g = codePoint '\x7b' :: (t ++ [codePoint '\x7d']) := by
  unfold fencedAt at h
  obtain ⟨u, hu, h⟩ := Option.bind_eq_some_iff.1 h
  have hword : ∃ w, u = w ++ (behind (lit "json") u).getD u ∧ Unquoted w := by
    cases hjson : behind (lit "json") u with
    | none => exact ⟨[], rfl, by simp [Unquoted]⟩
    | some v =>
      refine ⟨lit "json", eq_of_behind hjson, ?_⟩
      have hall : (lit "json").all (fun c =>
          decide (c ≠ codePoint '"' ∧ c ≠ codePoint '\\')) = true := rfl
      exact fun c hc => of_decide_eq_true (List.all_eq_true.1 hall c hc)
  obtain ⟨w, hw, hunquoted⟩ := hword
  set v := (behind (lit "json") u).getD u
  have hspaces : v = v.takeWhile PyText.isSpace ++ v.dropWhile PyText.isSpace :=
    (List.takeWhile_append_dropWhile ..).symm
  cases hdrop : v.dropWhile PyText.isSpace with
  | nil => simp [hdrop] at h
  | cons c x =>
    simp only [hdrop] at h
    split at h
    next hc =>
      obtain ⟨t, ht, rfl⟩ := Option.map_eq_some_iff.1 h
      obtain ⟨⟨y, hy⟩, rest, hrest⟩ := untilFence_ends ht
      refine ⟨w ++ v.takeWhile PyText.isSpace, rest, y, ?_, ?_, by rw [hc, hy]⟩
      · have htail : v.dropWhile PyText.isSpace = c :: t ++ rest := by rw [hdrop, hrest]; rfl
        rw [eq_of_behind hu, List.append_assoc, ← htail, ← hspaces, ← hw]
      · intro d hd
        exact (List.mem_append.1 hd).elim (hunquoted d) (unquoted_spaces v d)
    next => cases h

theorem fencedObject_found {g : PyText} (h : fencedObject s = some g) :
    ∃ a u, s = a ++ u ∧ fencedAt u = some g := by
  induction s with
  | nil => cases h
  | cons c s ih =>
    rw [fencedObject] at h
    rcases Option.or_eq_some_iff.1 h with hat | ⟨-, hrest⟩
    · exact ⟨[], c :: s, rfl, hat⟩
    · obtain ⟨a, u, rfl, hu⟩ := ih hrest
      exact ⟨c :: a, u, rfl, hu⟩

theorem inside_unquoted {m : PyText} (hm : Unquoted m) : m.foldl Place.next .inside = .inside := by
  induction m with
  | nil => rfl
  | cons c m ih =>
    obtain ⟨hquote, hback⟩ := hm c (List.mem_cons_self ..)
    have hnext : Place.inside.next c = .inside := by simp [Place.next, hquote, hback]
    rw [List.foldl_cons, hnext]
    exact ih fun d hd => hm d (List.mem_cons_of_mem _ hd)

/-- **A fenced object that is found begins inside a string.** -/
theorem fencedObject_mirror {t g : PyText} (ht : WellPlaced .outside t)
    (h : fencedObject t = some g) : Mirror false g := by
  obtain ⟨a, u, rfl, hu⟩ := fencedObject_found h
  obtain ⟨m, rest, x, rfl, hm, -⟩ := fencedAt_shape hu
  have hplace := wellPlaced_append ht
  have hinside : (lit "```").foldl Place.next (a.foldl Place.next .outside) = .inside := by
    cases hstate : a.foldl Place.next .outside with
    | outside =>
      rw [hstate] at hplace
      exact absurd rfl (hplace.1 rfl).2
    | inside => rfl
    | escaped => rfl
  have hmiddle := wellPlaced_append hplace
  rw [hinside] at hmiddle
  have hgroup := wellPlaced_append hmiddle
  rw [inside_unquoted hm] at hgroup
  exact mirror_of_append (mirror_of_wellPlaced.1 hgroup)

theorem tick_of_escape (h : codePoint '\x60' ∈ s.flatMap escapeChar) :
    codePoint '\x60' ∈ s := by
  obtain ⟨c, hc, hmem⟩ := List.mem_flatMap.1 h
  have hdigit : ∀ n, n < 16 → hexDigit n ≠ codePoint '\x60' := by decide
  have hhex : ∀ n, codePoint '\x60' ∉ escapeHex n := by
    intro n hn
    simp only [escapeHex, List.mem_cons, List.not_mem_nil, or_false] at hn
    obtain h | h | h | h | h | h := hn
    · exact absurd h (by decide)
    · exact absurd h (by decide)
    · exact hdigit _ (by omega) h.symm
    · exact hdigit _ (by omega) h.symm
    · exact hdigit _ (by omega) h.symm
    · exact hdigit _ (by omega) h.symm
  unfold escapeChar at hmem
  split at hmem
  · exact absurd hmem (by decide)
  split at hmem
  · exact absurd hmem (by decide)
  split at hmem
  · exact absurd hmem (by decide)
  split at hmem
  · exact absurd hmem (by decide)
  split at hmem
  · exact absurd hmem (by decide)
  split at hmem
  · exact absurd hmem (by decide)
  split at hmem
  · exact absurd hmem (by decide)
  split at hmem
  · rwa [List.mem_singleton.1 hmem]
  split at hmem
  · exact absurd hmem (hhex _)
  · rcases List.mem_append.1 hmem with h | h
    · exact absurd h (hhex _)
    · exact absurd h (hhex _)

theorem tick_of_quote (h : codePoint '\x60' ∈ quote s) : codePoint '\x60' ∈ s := by
  unfold quote at h
  rcases List.mem_cons.1 h with heq | h
  · exact absurd heq (by decide)
  rcases List.mem_append.1 h with h | h
  · exact tick_of_escape h
  · exact absurd h (by decide)

theorem tick_not_plain {t : PyText} (ht : Plain t) : codePoint '\x60' ∉ t := by
  intro hmem
  have hplain := ht _ hmem
  cases hplain

theorem tick_not_mem_dumps (hv : Encodable floatRepr v) (hfree : TickFree v) :
    codePoint '\x60' ∉ dumps v := by
  have hnumber : ∀ {t : PyText} {w : PyValue}, scanNumber floatRepr t = some (w, []) →
      codePoint '\x60' ∉ t := by
    intro t w ht
    obtain ⟨u, hu, hplain⟩ := scanNumber_consumed ht
    rw [hu, List.append_nil]
    exact tick_not_plain hplain
  have happend : ∀ t u : PyText, codePoint '\x60' ∉ t → codePoint '\x60' ∉ u →
      codePoint '\x60' ∉ t ++ u :=
    fun t u ht hu hmem => (List.mem_append.1 hmem).elim ht hu
  have hnest : ∀ (a b : CodePoint) (t : PyText), codePoint '\x60' ≠ a → codePoint '\x60' ≠ b →
      codePoint '\x60' ∉ t → codePoint '\x60' ∉ a :: (t ++ [b]) := by
    intro a b t ha hb ht
    simp [ha, hb, ht]
  induction v using induct with
  | none => decide
  | bool b => cases b <;> decide
  | int n => exact hnumber (scanNumber_int n)
  | float repr =>
    cases hv with
    | finite h =>
      rw [dumps, floatText_finite h]
      exact hnumber h
    | special h =>
      simp only [List.mem_cons, List.not_mem_nil, or_false] at h
      obtain rfl | rfl | rfl := h <;> decide
  | str s =>
    cases hfree with
    | str hs => exact fun h => hs (tick_of_quote h)
  | list items ih =>
    cases hfree with
    | list hfrees =>
      have hitems : ∀ v ∈ items, codePoint '\x60' ∉ dumps v :=
        fun v hmem => ih v hmem (hv.items v hmem) (hfrees v hmem)
      have hinner := (items_induct (P := (codePoint '\x60' ∉ ·)) (fun _ => tick_not_plain) happend
        hitems).2
      exact hnest _ _ _ (by decide) (by decide) hinner
  | dict members ih =>
    have hfrees := hfree.members
    have hmembers : ∀ m ∈ members, codePoint '\x60' ∉ dumps m.2 :=
      fun m hm => ih m hm (hv.members.2 m hm) (hfrees m hm).2
    have hkeys : ∀ m ∈ members, codePoint '\x60' ∉ quote m.1 :=
      fun m hm h => (hfrees m hm).1 (tick_of_quote h)
    have hinner := (members_induct (P := (codePoint '\x60' ∉ ·)) (fun _ => tick_not_plain) happend
      hkeys hmembers).2
    exact hnest _ _ _ (by decide) (by decide) hinner

theorem loads_mirror (h : Mirror false s)
    (hread : loads floatRepr s = some v) : TickFree v := by
  unfold loads at hread
  split at hread
  · cases hread
  split at hread
  next w r hscan =>
    split at hread
    · cases hread
      exact ((scan_mirror _).1 _ _ _ (mirror_skipSpace h) hscan).1
    · cases hread
  next => cases hread

theorem strip_nest {a b : CodePoint} (ha : PyText.isSpace a = false)
    (hb : PyText.isSpace b = false) (t : PyText) : strip (a :: (t ++ [b])) = a :: (t ++ [b]) := by
  have hstrip := strip_around rfl ha hb (t := t) [] []
  simpa [List.rdropWhile] using hstrip

def Undone (floatRepr : PyText → PyText) (d : PyDict) : Prop :=
  normalizeToolArguments floatRepr (.str (dumps (.dict d))) = (d, [])

theorem normalize_fenced {text g : PyText} (hblank : strip text ≠ [])
    (hfenced : fencedObject (strip text) = some g) (hstrip : strip g = g) {d : PyDict}
    (h : normalizeArgumentText floatRepr text = (d, [])) :
    ∃ parsed, loads floatRepr g = some (.dict parsed) ∧ stripEmptyKeys parsed = d := by
  unfold normalizeArgumentText at h
  simp only [if_neg hblank, hfenced, Option.map_some, Option.getD_some, hstrip] at h
  split at h
  next parsed hparsed =>
    cases h
    exact ⟨parsed, hparsed, rfl⟩
  next =>
    split at h
    · split at h
      · cases h
      · cases h
    · cases h

/-- **Arguments with keys that are not blank are decoded as they were encoded exactly when no
fenced object is found in their text.** -/
theorem arguments_undone_iff {d : PyDict} (hd : Encodable floatRepr (.dict d))
    (hkeys : ∀ m ∈ d, strip m.1 ≠ []) :
    Undone floatRepr d ↔ fencedObject (dumps (.dict d)) = none := by
  have hstrip : strip (dumps (.dict d)) = dumps (.dict d) := strip_nest rfl rfl _
  have hblank : strip (dumps (.dict d)) ≠ [] := by
    rw [hstrip]
    exact List.cons_ne_nil _ _
  constructor
  · intro hundone
    cases hfenced : fencedObject (dumps (.dict d)) with
    | none => rfl
    | some g =>
      obtain ⟨a, u, htext, hu⟩ := fencedObject_found hfenced
      obtain ⟨m, rest, t, hshape, -, hg⟩ := fencedAt_shape hu
      have hsame : strip g = g := by
        rw [hg]
        exact strip_nest rfl rfl t
      obtain ⟨parsed, hparsed, rfl⟩ := normalize_fenced hblank (by rwa [hstrip]) hsame hundone
      have hfree := (loads_mirror (fencedObject_mirror (wellPlaced_dumps hd) hfenced)
        hparsed).members
      have hmem : ∀ m ∈ stripEmptyKeys parsed, m ∈ parsed :=
        fun m hm => (List.mem_filter.1 hm).1
      have hnone := tick_not_mem_dumps hd (.dict (fun m hm => (hfree m (hmem m hm)).1)
        fun m hm => (hfree m (hmem m hm)).2)
      refine absurd ?_ hnone
      rw [htext, hshape]
      simp [lit]
  · intro hfenced
    have hread : loads floatRepr (dumps (.dict d)) = some (.dict d) := loads_dumps hd rfl
    have hkeep : stripEmptyKeys d = d := by
      refine List.filter_eq_self.2 fun m hm => ?_
      simp [hkeys m hm]
    unfold Undone normalizeToolArguments normalizeArgumentText
    simp only [hstrip, hfenced, Option.map_none, Option.getD_none, hread, hkeep]
    exact if_neg (List.cons_ne_nil _ _)

def oneArgument (text : String) : PyDict := [(lit "a", .str (lit text))]

theorem encodable_oneArgument {text : String} (h : Unsplit (lit text)) :
    Encodable floatRepr (.dict (oneArgument text)) := by
  refine .dict (by simp [oneArgument]) (fun m hm => ?_) (fun m hm => ?_)
  · rw [List.mem_singleton.1 hm]
    exact List.isChain_singleton _
  · rw [List.mem_singleton.1 hm]
    exact .str h

theorem braces_undone : Undone id (oneArgument "a \x7b b") ↔
    fencedObject (dumps (.dict (oneArgument "a \x7b b"))) = none := by
  refine arguments_undone_iff (encodable_oneArgument ?_) fun m hm => ?_
  · unfold Unsplit
    decide
  · rw [List.mem_singleton.1 hm]
    decide

theorem fenced_braces_lost : ¬Undone id (oneArgument "```\x7b\x7d```") := by
  intro hundone
  have hempty : (normalizeToolArguments id
      (.str (dumps (.dict (oneArgument "```\x7b\x7d```"))))).1.isEmpty = true := by decide
  unfold Undone at hundone
  rw [hundone] at hempty
  cases hempty

end ClawHarder.ModelText
