import ClawHarder.Spec.MarkdownChunks

/-!
# Fence spans

* `parse_separated`, `parse_within`: the spans of a text are in order with at least one unit
  between them, and each lies in the text and starts with its line, which is not empty and has no
  newline.
* `findFenceSpanAt_iff`: **the binary search finds the span that an index is inside of.**
-/

namespace ClawHarder.MarkdownChunks

open OcPaths (Units isSpace)

def Separated (spans : List FenceSpan) : Prop := spans.Pairwise fun a b => a.stop < b.start

def joined (lines : List Units) : Units := [newline].intercalate lines

theorem joined_cons_length (line : Units) (lines : List Units) :
    (joined (line :: lines)).length =
      line.length + if lines = [] then 0 else 1 + (joined lines).length := by
  cases lines with
  | nil => simp [joined, List.intercalate]
  | cons next lines =>
    simp [joined, List.intercalate]
    omega

theorem joined_splitOn (text : Units) : joined (text.splitOn newline) = text :=
  List.intercalate_splitOn newline

theorem matchFence_lengths {line indent marker : Units} (h : matchFence line = some (indent, marker)) :
    3 ≤ marker.length ∧ indent.length + marker.length ≤ line.length := by
  unfold matchFence at h
  simp only at h
  split at h
  · cases h
  next c rest hrest =>
    split at h
    next hok =>
      cases h
      simp only [Bool.and_eq_true, decide_eq_true_eq] at hok
      have hlen := congrArg List.length hrest
      have hle : (rest.takeWhile fun d => d = c).length ≤ rest.length :=
        (List.takeWhile_sublist _).length_le
      have hindent : (line.takeWhile fun c => c = space).length ≤ line.length :=
        (List.takeWhile_sublist _).length_le
      rw [List.length_drop, List.length_cons] at hlen
      refine ⟨hok.1.2, ?_⟩
      rw [List.length_cons]
      omega
    · cases h

theorem matchFence_head {line : Units} {m : Units × Units} (h : matchFence line = some m) :
    ∃ c rest, line = c :: rest ∧ c ≠ newline := by
  cases line with
  | nil => simp [matchFence] at h
  | cons c rest =>
    refine ⟨c, rest, rfl, ?_⟩
    rintro rfl
    simp [matchFence, backtick, tilde, newline, space] at h

def Opens (text : Units) (start : ℕ) (line : Units) : Prop :=
  ∃ c rest, line = c :: rest ∧ c ≠ newline ∧ text[start]? = some c

def OpenFence.Before (text : Units) (f : OpenFence) (offset : ℕ) : Prop :=
  Opens text f.start f.openLine ∧ matchFence f.openLine = some (f.indent, f.marker) ∧
    f.start + f.openLine.length < offset

def FenceSpan.Within (text : Units) (f : FenceSpan) (start stop : ℕ) : Prop :=
  Opens text f.start f.openLine ∧ matchFence f.openLine = some (f.indent, f.marker) ∧
    start ≤ f.start ∧ f.start + f.openLine.length ≤ f.stop ∧ f.stop ≤ stop

def firstStart (offset : ℕ) : Option OpenFence → ℕ
  | none => offset
  | some f => f.start

variable {text : Units} {offset : ℕ}

theorem OpenFence.Before.mono {f : OpenFence} {offset' : ℕ}
    (h : f.Before text offset) (hle : offset ≤ offset') : f.Before text offset' :=
  ⟨h.1, h.2.1, lt_of_lt_of_le h.2.2 hle⟩

theorem scanLine_spec {line : Units} {openFence : Option OpenFence}
    (hline : ∀ c rest, line = c :: rest → text[offset]? = some c)
    (hopen : ∀ f ∈ openFence, f.Before text offset) :
    ((scanLine offset line openFence).2 = none ∧
      (∀ f ∈ (scanLine offset line openFence).1, f.Before text (offset + line.length + 1)) ∧
      firstStart offset openFence ≤
        firstStart (offset + line.length + 1) (scanLine offset line openFence).1) ∨
    ∃ f, openFence = some f ∧
      scanLine offset line openFence = (none, some (f.span (offset + line.length))) := by
  have hkeep : ∀ f ∈ openFence, f.Before text (offset + line.length + 1) :=
    fun f hf => (hopen f hf).mono (by omega)
  unfold scanLine
  cases hmatch : matchFence line with
  | none =>
    refine .inl ⟨rfl, hkeep, ?_⟩
    cases openFence with
    | none => simp [firstStart]; omega
    | some f => exact le_rfl
  | some m =>
    obtain ⟨c, rest, hcons, hc⟩ := matchFence_head hmatch
    cases openFence with
    | none =>
      refine .inl ⟨rfl, ?_, le_rfl⟩
      rintro f ⟨⟩
      exact ⟨⟨c, rest, hcons, hc, hline c rest hcons⟩, hmatch, by simp⟩
    | some g =>
      simp only
      split
      · exact .inr ⟨g, rfl, rfl⟩
      · refine .inl ⟨rfl, ?_, le_rfl⟩
        rintro f ⟨⟩
        exact hkeep g rfl

variable {lines : List Units}

theorem joined_cons_get {line : Units} {c : ℕ} {rest : Units}
    (h : line = c :: rest) : (joined (line :: lines))[0]? = some c := by
  subst h
  cases lines <;> simp [joined, List.intercalate]

theorem joined_cons_drop {line : Units} (hne : lines ≠ []) :
    (joined (line :: lines)).drop (line.length + 1) = joined lines := by
  obtain ⟨next, lines, rfl⟩ := List.exists_cons_of_ne_nil hne
  simp [joined, List.intercalate, List.drop_append]

/-- The lines that are left at an offset. Behind the last line the offset is past the end. -/
def LinesAt (text : Units) (offset : ℕ) : List Units → Prop
  | [] => offset = text.length + 1
  | lines => offset ≤ text.length ∧ text.drop offset = joined lines

theorem LinesAt.tail {text line : Units} {lines : List Units} {offset : ℕ}
    (h : LinesAt text offset (line :: lines)) : LinesAt text (offset + line.length + 1) lines := by
  obtain ⟨hoffset, htext⟩ := h
  have hlen : text.length - offset = (joined (line :: lines)).length := by
    rw [← htext, List.length_drop]
  rw [joined_cons_length] at hlen
  cases lines with
  | nil =>
    simp only [↓reduceIte, Nat.add_zero] at hlen
    show offset + line.length + 1 = text.length + 1
    omega
  | cons next lines =>
    simp only [reduceCtorEq, ↓reduceIte] at hlen
    refine ⟨by omega, ?_⟩
    have hdrop : (joined (line :: next :: lines)).drop (line.length + 1) = joined (next :: lines) :=
      joined_cons_drop (by simp)
    rw [← hdrop, ← htext, List.drop_drop]
    congr 1

theorem LinesAt.le
    (h : LinesAt text offset lines) : offset ≤ text.length + 1 := by
  cases lines with
  | nil => exact le_of_eq h
  | cons line lines => have := h.1; omega

theorem LinesAt.head {c : ℕ} {rest : Units}
    (h : LinesAt text offset ((c :: rest) :: lines)) : text[offset]? = some c := by
  have h0 : (joined ((c :: rest) :: lines))[0]? = some c := joined_cons_get rfl
  rwa [← h.2, List.getElem?_drop] at h0

/-- The invariant of the loop of `parseFenceSpans`, by induction on the lines. -/
theorem scanLines_spec
    {openFence : Option OpenFence} (htext : LinesAt text offset lines)
    (hopen : ∀ f ∈ openFence, f.Before text offset) :
    (∀ f ∈ (scanLines offset openFence lines).2, f.Before text (text.length + 1) ∧
      firstStart offset openFence ≤ f.start ∧
      ∀ a ∈ (scanLines offset openFence lines).1, a.stop < f.start) ∧
    Separated (scanLines offset openFence lines).1 ∧
    ∀ a ∈ (scanLines offset openFence lines).1,
      a.Within text (firstStart offset openFence) text.length := by
  induction lines generalizing offset openFence with
  | nil =>
    have hoffset : offset = text.length + 1 := htext
    subst hoffset
    refine ⟨fun f hf => ⟨hopen f hf, ?_, by simp [scanLines]⟩, .nil, by simp [scanLines]⟩
    have hf : openFence = some f := hf
    simp [hf, firstStart]
  | cons line lines ih =>
    have hrest := htext.tail
    simp only [scanLines]
    have hline : ∀ c rest, line = c :: rest → text[offset]? = some c :=
      fun c rest hcons => (hcons ▸ htext).head
    rcases scanLine_spec hline hopen with ⟨hnone, hafter, hfirst⟩ | ⟨g, rfl, hg⟩
    · -- the line closes nothing
      obtain ⟨hlast, hsep, hin⟩ := ih hrest hafter
      simp only [hnone, Option.toList_none, List.nil_append]
      refine ⟨fun f hf => ?_, hsep, fun a ha => ?_⟩
      · obtain ⟨hbefore, hle, hall⟩ := hlast f hf
        exact ⟨hbefore, hfirst.trans hle, hall⟩
      · obtain ⟨hopens, hmarker, hstart, hlen, hstop⟩ := hin a ha
        exact ⟨hopens, hmarker, hfirst.trans hstart, hlen, hstop⟩
    · -- the line closes the open fence, and what comes starts behind the line
      simp only [hg, Option.toList_some, List.singleton_append]
      have hclosed : ∀ f ∈ (none : Option OpenFence), f.Before text (offset + line.length + 1) := nofun
      obtain ⟨hlast, hsep, hin⟩ := ih hrest hclosed
      obtain ⟨hopens, hmarker, hbefore⟩ := hopen g rfl
      have hend := hrest.le
      refine ⟨fun f hf => ?_, List.pairwise_cons.2 ⟨fun a ha => ?_, hsep⟩, fun a ha => ?_⟩
      · obtain ⟨hb, hle, hall⟩ := hlast f hf
        simp only [firstStart] at hle ⊢
        refine ⟨hb, by omega, fun a ha => ?_⟩
        rcases List.mem_cons.1 ha with rfl | ha
        · simp [OpenFence.span]; omega
        · exact hall a ha
      · have := (hin a ha).2.2.1
        simp only [firstStart, OpenFence.span] at this ⊢
        omega
      · rcases List.mem_cons.1 ha with rfl | ha
        · exact ⟨hopens, hmarker, le_rfl, by simp [OpenFence.span]; omega, by simp [OpenFence.span]; omega⟩
        · obtain ⟨ho, hm, hstart, hlen, hstop⟩ := hin a ha
          simp only [firstStart] at hstart ⊢
          exact ⟨ho, hm, by omega, hlen, hstop⟩

theorem linesAt_splitOn (text : Units) : LinesAt text 0 (text.splitOn newline) := by
  have hne : text.splitOn newline ≠ [] := List.splitOnP_ne_nil _ text
  obtain ⟨line, lines, hlines⟩ := List.exists_cons_of_ne_nil hne
  rw [hlines]
  exact ⟨Nat.zero_le _, by rw [← hlines, joined_splitOn, List.drop_zero]⟩

theorem parse_spec (text : Units) :
    Separated (parseFenceSpans text) ∧ ∀ f ∈ parseFenceSpans text, f.Within text 0 text.length := by
  have hclosed : ∀ f ∈ (none : Option OpenFence), f.Before text 0 := nofun
  obtain ⟨hlast, hsep, hin⟩ := scanLines_spec (linesAt_splitOn text) hclosed
  simp only [parseFenceSpans]
  cases hopen : (scanLines 0 none (text.splitOn newline)).2 with
  | none => simpa using ⟨hsep, hin⟩
  | some f =>
    obtain ⟨⟨hopens, hmarker, hbefore⟩, -, hall⟩ := hlast f hopen
    simp only [Option.map_some, Option.toList_some]
    refine ⟨List.pairwise_append.2 ⟨hsep, List.pairwise_singleton _ _, ?_⟩, ?_⟩
    · intro a ha b hb
      rw [List.mem_singleton.1 hb]
      exact hall a ha
    · intro a ha
      rcases List.mem_append.1 ha with ha | ha
      · exact hin a ha
      · rw [List.mem_singleton.1 ha]
        exact ⟨hopens, hmarker, Nat.zero_le _, by simp [OpenFence.span]; omega, le_rfl⟩

theorem parse_separated (text : Units) : Separated (parseFenceSpans text) := (parse_spec text).1

theorem parse_within {f : FenceSpan} (hf : f ∈ parseFenceSpans text) :
    f.Within text 0 text.length := (parse_spec text).2 f hf

def FenceSpan.Inside (f : FenceSpan) (index : ℕ) : Prop := f.start < index ∧ index < f.stop

instance (f : FenceSpan) (index : ℕ) : Decidable (f.Inside index) :=
  inferInstanceAs (Decidable (_ ∧ _))

theorem Separated.lt {spans : List FenceSpan} (hsep : Separated spans) {i j : ℕ}
    {a b : FenceSpan} (hij : i < j) (ha : spans[i]? = some a) (hb : spans[j]? = some b) :
    a.stop < b.start := by
  obtain ⟨hi, rfl⟩ := List.getElem?_eq_some_iff.1 ha
  obtain ⟨hj, rfl⟩ := List.getElem?_eq_some_iff.1 hb
  exact List.pairwise_iff_getElem.1 hsep i j hi hj hij

/-- What the loop of the search finds is the span with the index inside that is between the bounds.
By induction on their distance. -/
theorem searchSpan_iff {spans : List FenceSpan} (hsep : Separated spans)
    (hle : ∀ f ∈ spans, f.start ≤ f.stop) {index low high : ℕ} (hhigh : high ≤ spans.length)
    {f : FenceSpan} :
    searchSpan spans index low high = some f ↔
      f.Inside index ∧ ∃ i, low ≤ i ∧ i < high ∧ spans[i]? = some f := by
  induction hn : high - low using Nat.strong_induction_on generalizing low high with
  | _ n ih =>
    unfold searchSpan
    split
    next hlt =>
      have hmid : (low + (high - 1)) / 2 < high := by omega
      have hlow : low ≤ (low + (high - 1)) / 2 := by omega
      obtain ⟨span, hspan⟩ : ∃ span, spans[(low + (high - 1)) / 2]? = some span :=
        ⟨_, List.getElem?_eq_getElem (by omega)⟩
      have hspanle := hle span (List.mem_of_getElem? hspan)
      generalize (low + (high - 1)) / 2 = mid at hmid hlow hspan
      simp only [hspan]
      split
      next hleft =>
        -- a span from the middle on starts at the index or behind it
        rw [ih (mid - low) (by omega) (by omega) rfl]
        refine and_congr_right fun hin => exists_congr fun i => ?_
        constructor
        · rintro ⟨h1, h2, h3⟩
          exact ⟨h1, by omega, h3⟩
        · rintro ⟨h1, -, h3⟩
          refine ⟨h1, ?_, h3⟩
          by_contra hge
          obtain ⟨hin1, hin2⟩ := hin
          rcases eq_or_lt_of_le (not_lt.1 hge) with rfl | hgt
          · rw [hspan, Option.some.injEq] at h3
            subst h3
            omega
          · have := hsep.lt hgt hspan h3
            omega
      next hleft =>
        split
        next hright =>
          -- a span up to the middle stops at the index or before it
          rw [ih (high - (mid + 1)) (by omega) hhigh rfl]
          refine and_congr_right fun hin => exists_congr fun i => ?_
          constructor
          · rintro ⟨h1, h2, h3⟩
            exact ⟨by omega, h2, h3⟩
          · rintro ⟨-, h2, h3⟩
            refine ⟨?_, h2, h3⟩
            by_contra hle'
            obtain ⟨hin1, hin2⟩ := hin
            rcases eq_or_lt_of_le (show i ≤ mid by omega) with rfl | hgt
            · rw [hspan, Option.some.injEq] at h3
              subst h3
              omega
            · have := hsep.lt hgt h3 hspan
              have := hle f (List.mem_of_getElem? h3)
              omega
        next hright =>
          constructor
          · rintro ⟨⟩
            exact ⟨⟨by omega, by omega⟩, mid, hlow, hmid, hspan⟩
          · rintro ⟨⟨hin1, hin2⟩, i, h1, h2, h3⟩
            -- another span with the index inside would be behind or before this one
            rcases Nat.lt_trichotomy i mid with hi | rfl | hi
            · have := hsep.lt hi h3 hspan
              omega
            · rw [← hspan, h3]
            · have := hsep.lt hi hspan h3
              omega
    next hge =>
      simp only [reduceCtorEq, false_iff, not_and, not_exists]
      intro _ i h1 h2
      omega

/-- **The search finds the span of the text that the index is inside of.** -/
theorem findFenceSpanAt_iff {index : ℕ} {f : FenceSpan} :
    findFenceSpanAt (parseFenceSpans text) index = some f ↔
      f ∈ parseFenceSpans text ∧ f.Inside index := by
  have hle : ∀ f ∈ parseFenceSpans text, f.start ≤ f.stop := by
    intro f hf
    obtain ⟨-, -, -, hlen, -⟩ := parse_within hf
    omega
  rw [findFenceSpanAt, searchSpan_iff (parse_separated text) hle le_rfl, and_comm,
    List.mem_iff_getElem?]
  refine and_congr_left fun _ => exists_congr fun i => ?_
  constructor
  · rintro ⟨-, -, h⟩
    exact h
  · intro h
    exact ⟨Nat.zero_le i, (List.getElem?_eq_some_iff.1 h).1, h⟩

/-- **The binary search finds what a look at each span finds**, since the spans of a text are in order
and apart. -/
theorem findFenceSpanAt_linear (text : Units) (index : ℕ) :
    findFenceSpanAt (parseFenceSpans text) index =
      (parseFenceSpans text).find? fun f => decide (f.Inside index) := by
  cases hfind : (parseFenceSpans text).find? fun f => decide (f.Inside index) with
  | some f =>
    have hmem := List.mem_of_find?_eq_some hfind
    have hinside := List.find?_some hfind
    exact findFenceSpanAt_iff.2 ⟨hmem, of_decide_eq_true hinside⟩
  | none =>
    rw [List.find?_eq_none] at hfind
    rw [Option.eq_none_iff_forall_ne_some]
    intro f hf
    obtain ⟨hmem, hinside⟩ := findFenceSpanAt_iff.1 hf
    exact hfind f hmem (decide_eq_true hinside)

end ClawHarder.MarkdownChunks
