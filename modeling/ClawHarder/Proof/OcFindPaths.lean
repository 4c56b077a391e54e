import ClawHarder.Proof.OcFind

/-!
# Where the paths of `findOcPaths` lead

`OcNode.reach` follows the texts of a path as the resolvers do.

* `reach_printed`: **what the search prints on a way leads to the places on it**, where each label
  is read as its key.
* `reach_literal`: **literals lead to the place that they match.**
-/

namespace ClawHarder.OcPaths

open Glob

theorem utf16_toString (n : ℕ) : utf16 (toString n) = (Nat.toDigits 10 n).map Char.toNat := by
  have hdigits : ∀ c ∈ Nat.toDigits 10 n, c.toNat < 0x10000 := by
    intro c hc
    have hdigit := Nat.isDigit_of_mem_toDigits (by decide) (by decide) hc
    have hbounds : 48 ≤ c.toNat ∧ c.toNat ≤ 57 := Char.isDigit_iff_toNat.1 hdigit
    omega
  show (Nat.repr n).toList.flatMap _ = _
  rw [Nat.toList_repr, ← List.flatMap_pure_eq_map]
  refine List.flatMap_congr fun c hc => ?_
  rw [if_pos (hdigits c hc)]
  rfl

theorem isDigit_of_toString {n c : ℕ} (hc : c ∈ utf16 (toString n)) : isDigit c = true := by
  rw [utf16_toString] at hc
  obtain ⟨digit, hdigit, rfl⟩ := List.mem_map.1 hc
  have hten := Nat.isDigit_of_mem_toDigits (by decide) (by decide) hdigit
  have hbounds := Char.isDigit_iff_toNat.1 hten
  rw [isDigit, Bool.and_eq_true, decide_eq_true_eq, decide_eq_true_eq]
  exact hbounds

theorem toString_ne_nil (n : ℕ) : utf16 (toString n) ≠ [] := by
  rw [utf16_toString]
  simp [Nat.toDigits_ne_nil]

theorem decimal?_toString (n : ℕ) : decimal? (utf16 (toString n)) = some n := by
  have hread : Nat.ofDigitChars 10 (Nat.toDigits 10 n) 0 = n := Nat.ofDigitChars_ten_toDigits
  have hdigits : (utf16 (toString n)).any (fun c => !isDigit c) = false := by
    rw [List.any_eq_false]
    intro c hc
    simp [isDigit_of_toString hc]
  rw [Nat.ofDigitChars_eq_foldl] at hread
  rw [decimal?, hdigits, decide_eq_false (toString_ne_nil n), Bool.false_or,
    if_neg Bool.false_ne_true, utf16_toString, List.foldl_map]
  exact congrArg some hread

theorem unquote_toString (n : ℕ) : unquoteSeg (utf16 (toString n)) = utf16 (toString n) := by
  refine unquoteSeg_of_not _ ?_
  rw [← Bool.not_eq_true]
  intro hquoted
  obtain ⟨body, hbody⟩ := isQuotedSeg_iff.1 hquoted
  have hdigit := isDigit_of_toString (n := n) (c := quote) (by rw [hbody]; simp)
  exact absurd hdigit (by decide)

theorem pickLine_lineText {N : Type} {ast : JsonlAst N}
    (hlines : (ast.lines.map JsonlLine.line).Nodup) {l : JsonlLine N} (hl : l ∈ ast.lines) :
    pickLine ast (lineText l.line) = some l := by
  have hne : lineText l.line ≠ posLast := by
    intro heq
    have hhead : some 0x4C = posLast.head? := congrArg List.head? heq
    exact absurd hhead (by decide)
  have haddress : lineAddress (lineText l.line) = some l.line := by
    rw [lineText, lineAddress, if_pos rfl, decimal?_toString]
  rw [pickLine, if_neg hne, haddress]
  exact find_distinct hlines hl

section Reach

variable {J : Js}

/-- Where sub-segments lead from a value, or from a line that holds none. -/
def reachValue (J : Js) (v? : Option (JsoncValue J.Num)) (texts : List Units) :
    Option (List EditSegment) :=
  match v? with
  | some v => resolveEditSegments J v (texts.map unquoteSeg)
  | none => if texts = [] then some [] else none

def OcNode.reach (J : Js) : OcNode J.Num → List Units → Option (List EditSegment)
  | .value v?, texts => reachValue J v? texts
  | .file _, [] => some []
  | .file ast, addr :: texts => (pickLine ast addr).bind fun line =>
      (reachValue J (lineValue? line) texts).map (.index line.line :: ·)

def Label.printedText (l : Label) : Units := l.text.toOption.getD []

/-- The label is printed by a sub-segment that is read as its key, and not as a pattern or a
token. -/
def Label.Printable (l : Label) : Prop :=
  ∃ t, l.text = .ok t ∧ nesting.Piece dot t ∧ isPatternSub t = false ∧ unquoteSeg t ≠ [] ∧
    unquoteSeg t ≠ posLast ∧ ∀ key, l.edge = .key key → unquoteSeg t = key

theorem Label.Printable.text {l : Label} (h : l.Printable) : l.text = .ok l.printedText := by
  obtain ⟨t, ht, -⟩ := h
  rw [printedText, ht]
  rfl

theorem Label.Printable.spec {l : Label} (h : l.Printable) :
    nesting.Piece dot l.printedText ∧ isPatternSub l.printedText = false ∧
      unquoteSeg l.printedText ≠ [] ∧ unquoteSeg l.printedText ≠ posLast ∧
        ∀ key, l.edge = .key key → unquoteSeg l.printedText = key := by
  have htext := h.text
  obtain ⟨t, ht, hspec⟩ := h
  obtain rfl := Except.ok.inj (ht.symm.trans htext)
  exact hspec

variable {line : Option ℕ}

theorem resolve_object {entries : List (JsoncEntry (JsoncValue J.Num))}
    (hkeys : (entries.map JsoncEntry.key).Nodup) {e : JsoncEntry (JsoncValue J.Num)}
    (he : e ∈ entries) (hne : e.key ≠ []) (hlast : e.key ≠ posLast) (segs : List Units) :
    resolveEditSegments J (.object entries line) (e.key :: segs) =
      (resolveEditSegments J e.value segs).map (.key e.key :: ·) := by
  have hpositional : isPositionalSeg e.key = false := decide_eq_false hlast
  have hfind := find_distinct hkeys he
  rw [resolveEditSegments, if_neg hne]
  simp only [hpositional, Bool.false_eq_true, if_false, hfind]

theorem resolve_array {items : List (JsoncValue J.Num)} {seg : Units} {idx : ℕ}
    {item : JsoncValue J.Num} (hidx : J.index? (J.number seg) = some idx)
    (hitem : items[idx]? = some item) (hne : seg ≠ []) (hlast : seg ≠ posLast)
    (segs : List Units) :
    resolveEditSegments J (.array items line) (seg :: segs) =
      (resolveEditSegments J item segs).map (.index idx :: ·) := by
  have hpositional : isPositionalSeg seg = false := decide_eq_false hlast
  have hlt : idx < items.length := (List.getElem?_eq_some_iff.1 hitem).1
  rw [resolveEditSegments, if_neg hne]
  simp only [hpositional, Bool.false_eq_true, if_false, itemIndex?_of hidx hlt, hitem]

def IsPart (J : Js) (value : Units) (n : OcNode J.Num) (p : Label × OcNode J.Num) : Prop :=
  p ∈ n.parts J ∨ n.lastPart J = some p ∨ n.named J value = some p

variable {value : Units} {p : Label × OcNode J.Num}

theorem object_part {entries : List (JsoncEntry (JsoncValue J.Num))}
    (h : IsPart J value (.value (some (.object entries line))) p) :
    ∃ e ∈ entries, p.1.edge = .key e.key ∧ p.2 = .value (some e.value) := by
  rcases h with h | h | h
  · obtain ⟨m, hm, rfl⟩ := List.mem_map.1 h
    obtain ⟨e, he, rfl⟩ := List.mem_map.1 hm
    exact ⟨e, he, rfl, rfl⟩
  · obtain ⟨e, he, rfl⟩ := Option.map_eq_some_iff.1 h
    exact ⟨e, List.mem_of_getLast? he, rfl, rfl⟩
  · obtain ⟨e, he, rfl⟩ := Option.map_eq_some_iff.1 h
    exact ⟨e, List.mem_of_find?_eq_some he, rfl, rfl⟩

theorem array_part (hJ : J.Numerals) {items : List (JsoncValue J.Num)}
    (hlength : items.length < 2 ^ 32)
    (h : IsPart J value (.value (some (.array items line))) p) :
    ∃ idx item, items[idx]? = some item ∧ p.1.edge = .index idx ∧ p.2 = .value (some item) ∧
      J.index? (J.number (unquoteSeg p.1.printedText)) = some idx := by
  have hnumeral : ∀ idx < items.length,
      J.index? (J.number (unquoteSeg (utf16 (toString idx)))) = some idx := by
    intro idx hidx
    rw [unquote_toString]
    exact hJ.index idx (hidx.trans hlength)
  rcases h with h | h | h
  · obtain ⟨m, hm, rfl⟩ := List.mem_map.1 h
    obtain ⟨⟨item, idx⟩, hitem, rfl⟩ := List.mem_map.1 hm
    have hget := List.mem_zipIdx_iff_getElem?.1 hitem
    exact ⟨idx, item, hget, rfl, rfl, hnumeral idx (List.getElem?_eq_some_iff.1 hget).1⟩
  · obtain ⟨item, hitem, rfl⟩ := Option.map_eq_some_iff.1 h
    rw [List.getLast?_eq_getElem?] at hitem
    exact ⟨_, item, hitem, rfl, rfl, hnumeral _ (List.getElem?_eq_some_iff.1 hitem).1⟩
  · obtain ⟨idx, hidx, h⟩ := Option.bind_eq_some_iff.1 h
    obtain ⟨item, hitem, rfl⟩ := Option.map_eq_some_iff.1 h
    exact ⟨idx, item, hitem, rfl, rfl, (Option.filter_eq_some_iff.1 hidx).1⟩

theorem file_part {ast : JsonlAst J.Num} (hlines : (ast.lines.map JsonlLine.line).Nodup)
    (h : IsPart J value (.file ast) p) :
    ∃ l, p.1.edge = .index l.line ∧ p.2 = .value (lineValue? l) ∧
      pickLine ast p.1.printedText = some l := by
  rcases h with h | h | h
  · obtain ⟨m, hm, rfl⟩ := List.mem_map.1 h
    obtain ⟨l, hl, rfl⟩ := List.mem_map.1 hm
    exact ⟨l, rfl, rfl, pickLine_lineText hlines (List.mem_of_mem_filter hl)⟩
  · obtain ⟨l, hl, rfl⟩ := Option.map_eq_some_iff.1 h
    exact ⟨l, rfl, rfl,
      pickLine_lineText hlines (List.mem_reverse.1 (List.mem_of_find?_eq_some hl))⟩
  · obtain ⟨m, hm, rfl⟩ := Option.map_eq_some_iff.1 h
    obtain ⟨l, hl, rfl⟩ := Option.map_eq_some_iff.1 hm
    refine ⟨l, rfl, rfl, ?_⟩
    by_cases hvalue : isValueLine l = true
    · simp only [Label.printedText, hvalue, if_true]
      exact pickLine_lineText hlines (mem_of_pickLine hl)
    · simp only [Label.printedText, hvalue]
      exact hl

theorem reach_nil (n : OcNode J.Num) : n.reach J [] = some [] := by
  rcases n with ast | _ | v
  · rfl
  · rfl
  · show resolveEditSegments J v [] = some []
    rw [resolveEditSegments]

variable {subs : List SlotSub} {n : OcNode J.Num}

/-- **What is printed for the labels of a way leads to the places on it.** -/
theorem reach_printed (hJ : J.Numerals)
    (hn : n.Distinct) {way : List (Slot × Label)}
    (hway : (forest J).Matches (glob J subs) n way) (hprint : ∀ l ∈ way, l.2.Printable) :
    n.reach J (way.map fun l => l.2.printedText) = some (edges Label.edge way) := by
  have hstep : ∀ (value : Units) (n : OcNode J.Num), n.Distinct → ∀ p, IsPart J value n p →
      ∀ labels : List Label,
        ((∀ l ∈ labels, l.Printable) →
          p.2.reach J (labels.map Label.printedText) = some (labels.map Label.edge)) →
        (∀ l ∈ p.1 :: labels, l.Printable) →
          n.reach J ((p.1 :: labels).map Label.printedText) =
            some ((p.1 :: labels).map Label.edge) := by
    intro value n hn p hp labels hlabels hprint
    rw [List.forall_mem_cons] at hprint
    have hrest := hlabels hprint.2
    obtain ⟨-, -, hne, hlast, hkey⟩ := hprint.1.spec
    rcases n with ast | _ | v
    · obtain ⟨l, hedge, hnode, hpick⟩ := file_part hn.1 hp
      rw [hnode] at hrest
      have hrest : reachValue J (lineValue? l) (labels.map Label.printedText) =
          some (labels.map Label.edge) := hrest
      rw [List.map_cons, List.map_cons, OcNode.reach, hpick, Option.bind_some, hrest, hedge]
      rfl
    · rcases hp with hp | hp | hp <;> cases hp
    · cases hn v rfl with
      | object hkeys hvalues =>
        obtain ⟨e, he, hedge, hnode⟩ := object_part hp
        rw [hnode] at hrest
        rw [hkey e.key hedge] at hne hlast
        have hrest : resolveEditSegments J e.value
            ((labels.map Label.printedText).map unquoteSeg) = some (labels.map Label.edge) := hrest
        rw [List.map_cons, List.map_cons, OcNode.reach, reachValue, List.map_cons,
          hkey e.key hedge, resolve_object hkeys he hne hlast, hedge, hrest]
        rfl
      | array hlength hitems =>
        obtain ⟨idx, item, hitem, hedge, hnode, hidx⟩ := array_part hJ hlength hp
        rw [hnode] at hrest
        have hrest : resolveEditSegments J item
            ((labels.map Label.printedText).map unquoteSeg) = some (labels.map Label.edge) := hrest
        rw [List.map_cons, List.map_cons, OcNode.reach, reachValue, List.map_cons,
          resolve_array hidx hitem hne hlast, hedge, hrest]
        rfl
      | string => rcases hp with hp | hp | hp <;> cases hp
      | number => rcases hp with hp | hp | hp <;> cases hp
      | boolean => rcases hp with hp | hp | hp <;> cases hp
      | null => rcases hp with hp | hp | hp <;> cases hp
  have hlabels := of_matches (forest J) (D := OcNode.Distinct)
    (R := fun n labels => (∀ l ∈ labels, l.Printable) →
      n.reach J (labels.map Label.printedText) = some (labels.map Label.edge))
    (fun n _ _ => reach_nil n)
    (fun n hn p hp => ⟨proper_parts.kept n hn p hp, hstep [] n hn p (.inl hp)⟩)
    (g := glob J subs) (fun sub hsub select' hselect n hn p hp => ?_) hn hway
  · have hprint' : ∀ l ∈ way.map Prod.snd, l.Printable := by
      intro l hl
      obtain ⟨m, hm, rfl⟩ := List.mem_map.1 hl
      exact hprint m hm
    have hreach := hlabels hprint'
    simpa only [List.map_map, Function.comp_def, edges] using hreach
  · obtain ⟨s, -, rfl⟩ := List.mem_map.1 hsub
    obtain ⟨value, -, hvalue⟩ := List.mem_map.1 hselect
    have hkept := (proper_glob subs _ hsub select' hselect).kept n hn p hp
    unfold globAlt at hvalue
    split_ifs at hvalue
    obtain rfl := Alt.step.inj hvalue
    exact ⟨hkept, hstep value n hn p (mem_select hp)⟩

/-- A sub-segment that names a part, and that the resolvers do not read as `$last`. -/
def Literal (sub : SlotSub) : Prop :=
  needsExpansion sub = false ∧ unquoteSeg sub.value ≠ posLast

theorem reach_empty {value : Units} (hempty : unquoteSeg value = []) (v? : Option (JsoncValue J.Num))
    (texts : List Units) : (OcNode.value v?).reach J (value :: texts) = none := by
  cases v? with
  | none => rfl
  | some v =>
    show resolveEditSegments J v (unquoteSeg value :: _) = none
    rw [hempty, resolveEditSegments, if_pos rfl]

theorem reach_named {value : Units} (hlast : unquoteSeg value ≠ posLast)
    (hvalue : ∀ v?, n = .value v? → unquoteSeg value ≠ []) (texts : List Units) :
    n.reach J (value :: texts) = (n.named J value).bind fun p =>
      (p.2.reach J texts).map (p.1.edge :: ·) := by
  have hpositional : isPositionalSeg (unquoteSeg value) = false := decide_eq_false hlast
  rcases n with ast | _ | v
  · rw [OcNode.reach, OcNode.named, jsonlLookup, Option.map_map, Option.bind_map]
    rfl
  · rfl
  · have hne := hvalue _ rfl
    show resolveEditSegments J v (unquoteSeg value :: _) = _
    cases v with
    | object entries line =>
      rw [resolveEditSegments, if_neg hne]
      simp only [hpositional, Bool.false_eq_true, if_false, OcNode.named, Option.bind_map]
      cases hfind : entries.find? fun e => e.key = unquoteSeg value with
      | none => rfl
      | some e =>
        have hkey : e.key = unquoteSeg value := by simpa using List.find?_some hfind
        rw [← hkey]
        rfl
    | array items line =>
      rw [resolveEditSegments, if_neg hne]
      simp only [hpositional, Bool.false_eq_true, if_false, OcNode.named]
      cases itemIndex? J (unquoteSeg value) items.length with
      | none => rfl
      | some idx =>
        simp only [Option.bind_some]
        cases items[idx]? <;> rfl
    | string v line => rw [resolveEditSegments, if_neg hne]; rfl
    | number v line => rw [resolveEditSegments, if_neg hne]; rfl
    | boolean v line => rw [resolveEditSegments, if_neg hne]; rfl
    | null line => rw [resolveEditSegments, if_neg hne]; rfl

theorem text_of_named {value : Units} {v? : Option (JsoncValue J.Num)} {p : Label × OcNode J.Num}
    (h : (OcNode.value v?).named J value = some p) : p.1.text = .ok value := by
  rcases v? with _ | (⟨entries, line⟩ | ⟨items, line⟩ | _ | _ | _ | _)
  case some.object =>
    obtain ⟨e, -, rfl⟩ := Option.map_eq_some_iff.1 h
    rfl
  case some.array =>
    obtain ⟨idx, -, h⟩ := Option.bind_eq_some_iff.1 h
    obtain ⟨item, -, rfl⟩ := Option.map_eq_some_iff.1 h
    rfl
  all_goals cases h

theorem matches_literal {s : SlotSub} (hs : Literal s)
    {way : List (Slot × Label)} :
    (forest J).Matches (glob J (s :: subs)) n way ↔ ∃ p, n.named J s.value = some p ∧
      ∃ way', (forest J).Matches (glob J subs) p.2 way' ∧ (s.slot, p.1) :: way' = way := by
  have hplain := hs.1
  simp only [needsExpansion, Bool.or_eq_false_iff, decide_eq_false_iff_not] at hplain
  obtain ⟨⟨⟨⟨hsingle, hdeep⟩, hpositional⟩, hunion⟩, hpredicate⟩ := hplain
  have hselect : select J s.value n = (n.named J s.value).toList := by
    simp [select, hpredicate, hsingle, hpositional]
  have hglob : glob J (s :: subs) = ⟨s.slot, [.step (select J s.value)]⟩ :: glob J subs := by
    rw [glob, List.map_cons, globSub, alternatives_single hunion, List.map_singleton, globAlt,
      if_neg hdeep]
    rfl
  rw [hglob]
  constructor
  · rintro ⟨alt, halt, h⟩
    obtain rfl := List.mem_singleton.1 halt
    obtain ⟨p, hp, hbehind⟩ := h
    rw [hselect] at hp
    exact ⟨p, Option.mem_toList.1 hp, hbehind⟩
  · rintro ⟨p, hp, hbehind⟩
    refine ⟨_, List.mem_singleton_self _, p, ?_, hbehind⟩
    rw [hselect]
    exact Option.mem_toList.2 hp

/-- **Literals lead to the place that they match.** -/
theorem reach_literal (h : ∀ s ∈ subs, Literal s)
    (hprint : ∀ way, (forest J).Matches (glob J subs) n way → ∀ l ∈ way, l.2.Printable)
    {loc : List EditSegment} :
    n.reach J (subs.map SlotSub.value) = some loc ↔
      ∃ way, (forest J).Matches (glob J subs) n way ∧ edges Label.edge way = loc := by
  induction subs generalizing n loc with
  | nil =>
    rw [List.map_nil, reach_nil, Option.some.injEq]
    constructor
    · rintro rfl
      exact ⟨[], rfl, rfl⟩
    · rintro ⟨way, rfl, rfl⟩
      rfl
  | cons s subs ih =>
    rw [List.forall_mem_cons] at h
    have hbehind : ∀ p, n.named J s.value = some p → ∀ way,
        (forest J).Matches (glob J subs) p.2 way → ∀ l ∈ way, l.2.Printable := by
      intro p hp way hway l hl
      exact hprint _ ((matches_literal h.1).2 ⟨p, hp, way, hway, rfl⟩) l (List.mem_cons_of_mem _ hl)
    rw [List.map_cons]
    by_cases hempty : unquoteSeg s.value = [] ∧ ∃ v?, n = .value v?
    · -- the resolvers take no empty key, and none is printed
      obtain ⟨hempty, v?, rfl⟩ := hempty
      rw [reach_empty hempty]
      refine iff_of_false (fun heq => by cases heq) ?_
      rintro ⟨way, hway, -⟩
      obtain ⟨p, hp, way', -, rfl⟩ := (matches_literal h.1).1 hway
      have hlabel := hprint _ hway _ List.mem_cons_self
      have htext := hlabel.text.symm.trans (text_of_named hp)
      have hne := hlabel.spec.2.2.1
      rw [Except.ok.inj htext] at hne
      exact hne hempty
    · have hvalue : ∀ v?, n = .value v? → unquoteSeg s.value ≠ [] :=
        fun v? hv heq => hempty ⟨heq, v?, hv⟩
      rw [reach_named h.1.2 hvalue, Option.bind_eq_some_iff]
      constructor
      · rintro ⟨p, hp, hreach⟩
        obtain ⟨loc', hloc', rfl⟩ := Option.map_eq_some_iff.1 hreach
        obtain ⟨way, hway, rfl⟩ := (ih h.2 (hbehind p hp)).1 hloc'
        exact ⟨_, (matches_literal h.1).2 ⟨p, hp, way, hway, rfl⟩, rfl⟩
      · rintro ⟨way, hway, rfl⟩
        obtain ⟨p, hp, way', hway', rfl⟩ := (matches_literal h.1).1 hway
        refine ⟨p, hp, ?_⟩
        rw [(ih h.2 (hbehind p hp)).2 ⟨way', hway', rfl⟩]
        rfl

end Reach

end ClawHarder.OcPaths
