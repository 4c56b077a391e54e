import ClawHarder.Spec.MarkdownIR

/-!
# The marks of chunks

A chunk's marks are its characters with the styles and links they have.

* `marks_slice`, `marks_merge`: **a slice of formatted text has the marks of its place, and two
  chunks that are merged have the marks of the one and then of the other.** The second needs the
  spans of each style and of each link in the order of their starts.
* `pendingLoop_spec`, `coalesce_visible`: what the two loops keep.
-/

namespace ClawHarder.MarkdownIRs

open OcPaths (Units isSpace trim)
open MarkdownChunks (slice)
open Marks (Span valuesAt)

abbrev Mark := ℕ × Set MarkdownStyle × Set Units

def marks (ir : MarkdownIR) : List Mark :=
  Marks.marked ir.text fun i => (valuesAt ir.styles i, valuesAt ir.links i)

def seen (l : List Mark) : List Mark := l.filter fun m => !isSpace m.1

def visible (ir : MarkdownIR) : List Mark := seen (marks ir)

def Blank (s : Units) : Prop := ∀ c ∈ s, isSpace c = true

theorem length_marks (ir : MarkdownIR) : (marks ir).length = ir.text.length := by
  simp [marks, Marks.marked]

theorem map_fst_marks (ir : MarkdownIR) : (marks ir).map Prod.fst = ir.text := by
  refine List.ext_getElem (by simp [length_marks]) fun i hi hi' => ?_
  simp [marks, Marks.marked]

theorem seen_blank {l : List Mark} (h : Blank (l.map Prod.fst)) : seen l = [] := by
  rw [seen, List.filter_eq_nil_iff]
  intro m hm
  simpa using h m.1 (List.mem_map_of_mem hm)

theorem spanBefore_start {a b : MarkdownStyleSpan} (h : spanBefore a b = true) :
    a.start ≤ b.start := by
  unfold spanBefore at h
  split at h
  · simpa using le_of_lt (of_decide_eq_true h)
  next hne =>
    have := not_not.1 hne
    omega

theorem spanBefore_trans {a b c : MarkdownStyleSpan} (hab : spanBefore a b = true)
    (hbc : spanBefore b c = true) : spanBefore a c = true := by
  unfold spanBefore at *
  split_ifs at * <;> simp only [decide_eq_true_eq] at * <;> omega

theorem spanBefore_total (a b : MarkdownStyleSpan) :
    (spanBefore a b || spanBefore b a) = true := by
  unfold spanBefore
  rw [Bool.or_eq_true]
  split_ifs <;> simp only [decide_eq_true_eq] at * <;> omega

theorem inOrder_sorted (spans : List MarkdownStyleSpan) :
    Marks.InOrder (spans.mergeSort spanBefore) := by
  have hsorted : (spans.mergeSort spanBefore).Pairwise fun a b => spanBefore a b = true := by
    apply List.pairwise_mergeSort
    · intro a b c hab hbc
      exact spanBefore_trans hab hbc
    · exact spanBefore_total
  refine hsorted.imp ?_
  intro a b h _
  exact spanBefore_start h

theorem joinsSorted_touch (prev span : MarkdownStyleSpan) (h : joinsSorted prev span = true) :
    prev.value = span.value ∧ span.start ≤ prev.stop := by
  simp only [joinsSorted, Bool.and_eq_true, Bool.or_eq_true, decide_eq_true_eq] at h
  obtain ⟨hvalue, hlt | ⟨heq, -⟩⟩ := h
  · exact ⟨hvalue, hlt.le⟩
  · exact ⟨hvalue, heq.le⟩

theorem valuesAt_mergeStyleSpans (spans : List MarkdownStyleSpan) (i : ℕ) :
    valuesAt (mergeStyleSpans spans) i = valuesAt spans i := by
  rw [mergeStyleSpans, Marks.valuesAt_merge joinsSorted_touch (inOrder_sorted spans)]
  exact Marks.valuesAt_perm (List.mergeSort_perm _ _) i

theorem valuesAt_sliceStyleSpans (spans : List MarkdownStyleSpan) {start stop i : ℕ}
    (hi : start + i < stop) :
    valuesAt (sliceStyleSpans spans start stop) i = valuesAt spans (start + i) := by
  unfold sliceStyleSpans
  split
  next h =>
    rw [List.length_eq_zero_iff.1 h]
    simp [valuesAt]
  · rw [valuesAt_mergeStyleSpans, Marks.valuesAt_slice spans hi]

theorem sliceStyleSpans_spec (spans : List MarkdownStyleSpan) (start stop : ℕ) :
    Marks.InOrder (sliceStyleSpans spans start stop) ∧
      Marks.Within (stop - start) (sliceStyleSpans spans start stop) := by
  unfold sliceStyleSpans
  split
  · exact ⟨.nil, nofun⟩
  · refine ⟨Marks.inOrder_merge (inOrder_sorted _), Marks.within_merge fun s hs => ?_⟩
    exact Marks.within_slice spans start stop s (List.mem_mergeSort.1 hs)

/-- **A slice has the marks of its place.** -/
theorem marks_slice (ir : MarkdownIR) (start stop : ℕ) :
    marks (sliceMarkdownIR ir start stop) = Cuts.slice (marks ir) start stop := by
  unfold marks
  rw [Marks.marked_slice]
  refine Marks.marked_congr fun i hi => ?_
  have hlt : start + i < stop := by
    have := Cuts.slice_length ir.text start stop
    change i < (Cuts.slice ir.text start stop).length at hi
    omega
  simp only [sliceMarkdownIR, sliceLinkSpans, valuesAt_sliceStyleSpans _ hlt,
    Marks.valuesAt_slice _ hlt]

structure Sound (ir : MarkdownIR) : Prop where
  styles_order : Marks.InOrder ir.styles
  links_order : Marks.InOrder ir.links
  styles_within : Marks.Within ir.text.length ir.styles
  links_within : Marks.Within ir.text.length ir.links

variable {ir : MarkdownIR}

theorem sound_slice (hlinks : Marks.InOrder ir.links) {start stop : ℕ}
    (hstop : stop ≤ ir.text.length) : Sound (sliceMarkdownIR ir start stop) := by
  have hlen : (slice ir.text start stop).length = stop - start := by
    have := Cuts.slice_length ir.text start stop
    change (Cuts.slice ir.text start stop).length = _
    omega
  obtain ⟨horder, hin⟩ := sliceStyleSpans_spec ir.styles start stop
  refine ⟨horder, Marks.inOrder_slice hlinks _ _, ?_, ?_⟩ <;> simp only [sliceMarkdownIR, hlen]
  · exact hin
  · exact Marks.within_slice _ _ _

theorem Sound.merge {left right : MarkdownIR} (hl : Sound left) (hr : Sound right) :
    Sound (mergeMarkdownIRChunks left right) := by
  refine ⟨?_, ?_, ?_, ?_⟩ <;> simp only [mergeMarkdownIRChunks, List.length_append]
  · exact Marks.inOrder_merge
      (Marks.inOrder_append_shift hl.styles_order hl.styles_within hr.styles_order)
  · exact Marks.inOrder_merge
      (Marks.inOrder_append_shift hl.links_order hl.links_within hr.links_order)
  · exact Marks.within_merge (Marks.within_append_shift hl.styles_within hr.styles_within)
  · exact Marks.within_merge (Marks.within_append_shift hl.links_within hr.links_within)

def PreservedBreaks.UpTo (n : ℕ) (b : PreservedBreaks) : Prop :=
  ∀ found ∈ [b.lastOutsideParenNewlineBreak, b.lastOutsideParenWhitespaceBreak,
    b.lastOutsideParenWhitespaceRunStart, b.lastAnyNewlineBreak, b.lastAnyWhitespaceBreak,
    b.lastAnyWhitespaceRunStart], ∀ i ∈ found, i ≤ n

theorem scanPreserved_upTo {n : ℕ} {b : PreservedBreaks} (h : b.UpTo n) (text : Units)
    (start : ℕ) {index : ℕ} (hindex : index < n) : (scanPreserved text start b index).UpTo n := by
  have hsucc : ∀ i ∈ some (index + 1), i ≤ n := by
    rintro i ⟨⟩
    exact hindex
  have hself : ∀ i ∈ some index, i ≤ n := by
    rintro i ⟨⟩
    exact hindex.le
  simp only [PreservedBreaks.UpTo, List.forall_mem_cons] at h
  obtain ⟨h1, h2, h3, h4, h5, h6, -⟩ := h
  simp only [scanPreserved]
  split_ifs <;> simp only [PreservedBreaks.UpTo, List.forall_mem_cons] <;>
    exact ⟨by assumption, by assumption, by assumption, by assumption, by assumption, by assumption,
      by simp⟩

theorem resolveWhitespaceBreak_spec {text : Units} {start i n : ℕ} {runStart : Option ℕ}
    (hlt : start < i) (hle : i ≤ n) (hrun : ∀ j ∈ runStart, j ≤ n) :
    start < resolveWhitespaceBreak text start i runStart ∧
      resolveWhitespaceBreak text start i runStart ≤ n := by
  unfold resolveWhitespaceBreak
  cases runStart with
  | none => exact ⟨hlt, hle⟩
  | some j =>
    have hj := hrun j rfl
    simp only
    split_ifs <;> omega

theorem pickPreserved_spec {text : Units} {start n : ℕ} (hlt : start < n) {b : PreservedBreaks}
    (h : b.UpTo n) :
    start < pickPreserved text start n b ∧ pickPreserved text start n b ≤ n := by
  simp only [PreservedBreaks.UpTo, List.forall_mem_cons] at h
  obtain ⟨h1, h2, h3, h4, h5, h6, -⟩ := h
  unfold pickPreserved
  split
  next i hi =>
    obtain ⟨hmem, hstart⟩ := Option.filter_eq_some_iff.1 hi
    exact ⟨of_decide_eq_true hstart, h1 i hmem⟩
  split
  next i hi =>
    obtain ⟨hmem, hstart⟩ := Option.filter_eq_some_iff.1 hi
    exact resolveWhitespaceBreak_spec (of_decide_eq_true hstart) (h2 i hmem) h3
  split
  next i hi =>
    obtain ⟨hmem, hstart⟩ := Option.filter_eq_some_iff.1 hi
    exact ⟨of_decide_eq_true hstart, h4 i hmem⟩
  split
  next i hi =>
    obtain ⟨hmem, hstart⟩ := Option.filter_eq_some_iff.1 hi
    exact resolveWhitespaceBreak_spec (of_decide_eq_true hstart) (h5 i hmem) h6
  · exact ⟨hlt, le_rfl⟩

theorem splitIndex_spec {text : Units} {start limit : ℕ} (hstart : start < text.length)
    (hlimit : 0 < limit) :
    start < findMarkdownIRPreservedSplitIndex text start limit ∧
      findMarkdownIRPreservedSplitIndex text start limit ≤ min text.length (start + limit) := by
  simp only [findMarkdownIRPreservedSplitIndex]
  split
  next hend => exact ⟨hstart, hend⟩
  next hend =>
    apply pickPreserved_spec (by omega)
    apply List.foldlRecOn
    · simp [PreservedBreaks.UpTo]
    · intro b hb index hindex
      have := (List.mem_range'_1.1 hindex).2
      exact scanPreserved_upTo hb text start (by omega)

def IsSlice (ir c : MarkdownIR) : Prop :=
  ∃ start stop, start < stop ∧ stop ≤ ir.text.length ∧ c = sliceMarkdownIR ir start stop

theorem IsSlice.length_pos {c : MarkdownIR} (h : IsSlice ir c) : 0 < c.text.length := by
  obtain ⟨start, stop, hlt, hle, rfl⟩ := h
  have := Cuts.slice_length ir.text start stop
  change 0 < (Cuts.slice ir.text start stop).length
  omega

theorem IsSlice.sound {c : MarkdownIR} (hlinks : Marks.InOrder ir.links) (h : IsSlice ir c) :
    Sound c := by
  obtain ⟨start, stop, -, hle, rfl⟩ := h
  exact sound_slice hlinks hle

theorem preserveLoop_spec {limit : ℕ} (hlimit : 0 < limit) {turns cursor : ℕ}
    (hcursor : cursor ≤ ir.text.length) (hturns : ir.text.length - cursor < turns) :
    ∃ split, preserveLoop ir limit turns cursor = some split ∧ (∀ c ∈ split, IsSlice ir c) ∧
      split.flatMap marks = (marks ir).drop cursor := by
  induction turns generalizing cursor with
  | zero => omega
  | succ turns ih =>
    rw [preserveLoop]
    by_cases hend : ir.text.length ≤ cursor
    · refine ⟨[], if_pos hend, nofun, ?_⟩
      rw [List.drop_eq_nil_of_le (by rwa [length_marks])]
      rfl
    · obtain ⟨hlt, hle⟩ := splitIndex_spec (not_le.1 hend) hlimit
      rw [if_neg hend]
      simp only
      generalize findMarkdownIRPreservedSplitIndex ir.text cursor limit = stop at hlt hle
      obtain ⟨split, hsplit, hall, hmarks⟩ := ih (show stop ≤ ir.text.length by omega) (by omega)
      refine ⟨_, by rw [hsplit, Option.map_some], ?_, ?_⟩
      · rw [List.forall_mem_cons]
        exact ⟨⟨cursor, stop, hlt, by omega, rfl⟩, hall⟩
      · rw [List.flatMap_cons, hmarks, marks_slice, Cuts.drop_eq_slice_append _ hlt.le]

theorem splitPreserve_spec {limit : ℕ} (hlimit : 0 < limit)
    (hlong : limit < ir.text.length) :
    ∃ split, splitMarkdownIRPreserveWhitespace ir limit = some split ∧ (∀ c ∈ split, IsSlice ir c) ∧
      split.flatMap marks = marks ir ∧ 2 ≤ split.length := by
  have hne : ir.text ≠ [] := List.ne_nil_of_length_pos (by omega)
  obtain ⟨hlt, hle⟩ := splitIndex_spec (show 0 < ir.text.length by omega) hlimit
  have hstop : findMarkdownIRPreservedSplitIndex ir.text 0 limit < ir.text.length := by omega
  obtain ⟨rest, hrest, hall, hmarks⟩ :=
    preserveLoop_spec hlimit hstop.le (show ir.text.length - _ < ir.text.length by omega)
  refine ⟨_ :: rest, ?_, List.forall_mem_cons.2 ⟨⟨0, _, hlt, hstop.le, rfl⟩, hall⟩, ?_, ?_⟩
  · simp only [splitMarkdownIRPreserveWhitespace]
    rw [if_neg hne, max_eq_right hlimit, if_neg (not_le.2 hlong), preserveLoop,
      if_neg (by omega)]
    simp only
    rw [hrest, Option.map_some]
  · rw [List.flatMap_cons, hmarks, marks_slice, ← Cuts.drop_eq_slice_append _ hlt.le, List.drop_zero]
  · -- what is behind the first slice has marks
    have hrestne : rest ≠ [] := by
      rintro rfl
      have := congrArg List.length hmarks
      rw [List.length_drop, length_marks, List.flatMap_nil, List.length_nil] at this
      omega
    have := List.length_pos_iff.2 hrestne
    rw [List.length_cons]
    omega

section

variable {fits : MarkdownIR → Bool}

theorem largestFrom_spec (fits : MarkdownIR → Bool) (chunk : MarkdownIR) (n : ℕ) :
    largestFrom fits chunk n ≤ n ∧
      (largestFrom fits chunk n = 0 → ∀ k, 0 < k → k ≤ n →
        fits (sliceMarkdownIR chunk 0 k) = false) := by
  induction n with
  | zero => exact ⟨le_rfl, fun _ k hk hk' => by omega⟩
  | succ n ih =>
    rw [largestFrom]
    split
    · exact ⟨le_rfl, fun h => absurd h (Nat.succ_ne_zero n)⟩
    next hno =>
      refine ⟨ih.1.trans (Nat.le_succ n), fun h k hk hk' => ?_⟩
      rcases Nat.lt_or_ge n k with hlt | hge
      · obtain rfl : k = n + 1 := by omega
        exact Bool.eq_false_of_not_eq_true hno
      · exact ih.2 h k hk hge

def NoPrefixFits (fits : MarkdownIR → Bool) (chunk : MarkdownIR) : Prop :=
  ∀ k, 0 < k → k < chunk.text.length → fits (sliceMarkdownIR chunk 0 k) = false

variable {chunk : MarkdownIR}

theorem splitByRendered_spec (fits : MarkdownIR → Bool)
    (hlong : 1 < chunk.text.length) :
    ∃ split, splitMarkdownIRByRenderedLimit fits chunk = some split ∧
      ((split.length ≤ 1 ∧ NoPrefixFits fits chunk) ∨
        (2 ≤ split.length ∧ (∀ c ∈ split, IsSlice chunk c) ∧ split.flatMap marks = marks chunk)) := by
  obtain ⟨hle, hzero⟩ :=
    largestFrom_spec fits chunk (chunk.text.length - 1)
  simp only [splitMarkdownIRByRenderedLimit, findLargestChunkTextLengthWithinRenderedLimit,
    if_neg (not_le.2 hlong)]
  generalize largestFrom fits chunk (chunk.text.length - 1) = n at *
  by_cases hn : n = 0
  · refine ⟨[chunk], if_pos hn, .inl ⟨le_rfl, fun k hk hk' => hzero hn k hk (by omega)⟩⟩
  · rw [if_neg hn]
    obtain ⟨split, hsplit, hall, hmarks, hlen⟩ :=
      splitPreserve_spec (show 0 < n by omega) (show n < chunk.text.length by omega)
    rw [hsplit, Option.map_some]
    refine ⟨_, rfl, .inr ?_⟩
    split
    · exact ⟨hlen, hall, hmarks⟩
    · refine ⟨le_rfl, ?_, ?_⟩
      · intro c hc
        rcases List.mem_pair.1 hc with rfl | rfl
        · exact ⟨0, n, by omega, by omega, rfl⟩
        · exact ⟨n, _, by omega, le_rfl, rfl⟩
      · have hdrop : Cuts.slice (marks chunk) n chunk.text.length = (marks chunk).drop n := by
          rw [Cuts.slice, ← length_marks, List.take_length]
        simp only [List.flatMap_cons, List.flatMap_nil, List.append_nil, marks_slice, hdrop]
        rw [← Cuts.drop_eq_slice_append _ (Nat.zero_le n), List.drop_zero]

def Limited (fits : MarkdownIR → Bool) (chunk : MarkdownIR) : Prop :=
  fits chunk = true ∨ chunk.text.length ≤ 1 ∨ NoPrefixFits fits chunk

/-- More turns than this the loop over the pending chunks does not take. -/
def weight (chunks : List MarkdownIR) : ℕ := (chunks.map fun c => 2 * c.text.length - 1).sum

def totalLength (chunks : List MarkdownIR) : ℕ := (chunks.map fun c => c.text.length).sum

theorem length_flatMap_marks (chunks : List MarkdownIR) :
    (chunks.flatMap marks).length = totalLength chunks := by
  simp [List.length_flatMap, length_marks, totalLength]

variable {chunks : List MarkdownIR}

theorem weight_add_length (hne : ∀ c ∈ chunks, 0 < c.text.length) :
    weight chunks + chunks.length = 2 * totalLength chunks := by
  induction chunks with
  | nil => rfl
  | cons c chunks ih =>
    obtain ⟨hc, hrest⟩ := List.forall_mem_cons.1 hne
    have := ih hrest
    simp only [weight, totalLength, List.map_cons, List.sum_cons, List.length_cons] at this ⊢
    omega

/-- **The loop over the pending chunks ends; it keeps the marks, and no chunk it finalizes is too
long where a prefix is not.** A chunk that it did not get is a slice. By induction on the turns. -/
theorem pendingLoop_spec (fits : MarkdownIR → Bool) {turns : ℕ} {pending : List MarkdownIR}
    (hne : ∀ c ∈ pending, 0 < c.text.length) (hturns : weight pending < turns) :
    ∃ finalized, pendingLoop fits turns pending = some finalized ∧
      finalized.flatMap marks = pending.flatMap marks ∧
      (∀ c ∈ finalized, 0 < c.text.length ∧ Limited fits c) ∧
      ((∀ c ∈ pending, Marks.InOrder c.links) → ∀ c ∈ finalized, c ∈ pending ∨ Sound c) := by
  induction turns generalizing pending with
  | zero => omega
  | succ turns ih =>
    cases pending with
    | nil => exact ⟨[], rfl, rfl, nofun, nofun⟩
    | cons chunk pending =>
      obtain ⟨hchunk, hpending⟩ := List.forall_mem_cons.1 hne
      have hweight : weight (chunk :: pending) = 2 * chunk.text.length - 1 + weight pending := rfl
      have hfinal : Limited fits chunk → ∃ finalized,
          (pendingLoop fits turns pending).map (chunk :: ·) =
            some finalized ∧
          finalized.flatMap marks = (chunk :: pending).flatMap marks ∧
          (∀ c ∈ finalized, 0 < c.text.length ∧ Limited fits c) ∧
          ((∀ c ∈ chunk :: pending, Marks.InOrder c.links) →
            ∀ c ∈ finalized, c ∈ chunk :: pending ∨ Sound c) := by
        intro hlimited
        obtain ⟨rest, hrest, hmarks, hall, hsound⟩ := ih hpending (by omega)
        refine ⟨chunk :: rest, by rw [hrest, Option.map_some], ?_, ?_, fun hlinks c hc => ?_⟩
        · rw [List.flatMap_cons, List.flatMap_cons, hmarks]
        · exact List.forall_mem_cons.2 ⟨⟨hchunk, hlimited⟩, hall⟩
        · rcases List.mem_cons.1 hc with rfl | hc
          · exact .inl List.mem_cons_self
          · rcases hsound (List.forall_mem_cons.1 hlinks).2 c hc with hmem | hsound
            · exact .inl (List.mem_cons_of_mem _ hmem)
            · exact .inr hsound
      rw [pendingLoop]
      split
      next hfits =>
        simp only [Bool.or_eq_true, decide_eq_true_eq] at hfits
        exact hfinal (hfits.imp_right .inl)
      next hlong =>
        simp only [Bool.or_eq_true, decide_eq_true_eq, not_or, not_le] at hlong
        obtain ⟨split, hsplit, ⟨hone, hno⟩ | ⟨htwo, hslices, hmarks⟩⟩ :=
          splitByRendered_spec fits hlong.2
        · simp only [hsplit, if_pos hone]
          exact hfinal (.inr (.inr hno))
        · simp only [hsplit, if_neg (show ¬split.length ≤ 1 by omega)]
          -- the slices are as long as the chunk, and there are two of them
          have hsplitne : ∀ c ∈ split, 0 < c.text.length := fun c hc => (hslices c hc).length_pos
          have hless : weight (split ++ pending) < turns := by
            have htotal := congrArg List.length hmarks
            rw [length_flatMap_marks, length_marks] at htotal
            have hadd := weight_add_length hsplitne
            have happ : weight (split ++ pending) = weight split + weight pending := by
              simp [weight]
            omega
          obtain ⟨finalized, hloop, hkeep, hall, hsound⟩ :=
            ih (List.forall_mem_append.2 ⟨hsplitne, hpending⟩) hless
          refine ⟨finalized, hloop, ?_, hall, fun hlinks c hc => ?_⟩
          · rw [hkeep, List.flatMap_append, hmarks, List.flatMap_cons]
          · obtain ⟨hchunklinks, hpendinglinks⟩ := List.forall_mem_cons.1 hlinks
            have hsplitsound : ∀ c ∈ split, Sound c := fun c hc => (hslices c hc).sound hchunklinks
            have hnew : ∀ c ∈ split ++ pending, Marks.InOrder c.links :=
              List.forall_mem_append.2 ⟨fun c hc => (hsplitsound c hc).links_order, hpendinglinks⟩
            rcases hsound hnew c hc with hmem | hsound
            · rcases List.mem_append.1 hmem with hmem | hmem
              · exact .inr (hsplitsound c hmem)
              · exact .inl (List.mem_cons_of_mem _ hmem)
            · exact .inr hsound

def Part (chunk m : MarkdownIR) : Prop := m = chunk ∨ IsSlice chunk m

theorem splitBetween_cases (fits : MarkdownIR → Bool) (prev next chunk : MarkdownIR) {n : ℕ} (hn : n < chunk.text.length) :
    splitBetween fits prev next chunk n = (prev, next) ∨
      ∃ m m', IsSlice chunk m ∧ IsSlice chunk m' ∧
        splitBetween fits prev next chunk n =
          (mergeMarkdownIRChunks prev m, mergeMarkdownIRChunks m' next) ∧
        fits (mergeMarkdownIRChunks prev m) = true ∧
        fits (mergeMarkdownIRChunks m' next) = true := by
  induction n with
  | zero => exact .inl rfl
  | succ n ih =>
    rw [splitBetween]
    split
    next hfits =>
      obtain ⟨hprev, hnext⟩ := Bool.and_eq_true_iff.1 hfits
      exact .inr ⟨_, _, ⟨0, n + 1, by omega, hn.le, rfl⟩, ⟨n + 1, _, hn, le_rfl, rfl⟩, rfl, hprev,
        hnext⟩
    · exact ih (by omega)

/-- What becomes of a neighbour of a chunk of white space: it stays, or a part of the chunk is joined
to it and the two fit. -/
def Absorbed (fits : MarkdownIR → Bool) (join : MarkdownIR → MarkdownIR → MarkdownIR)
    (chunk : MarkdownIR) (old new : Option MarkdownIR) : Prop :=
  new = old ∨ ∃ c m, old = some c ∧ Part chunk m ∧ new = some (join c m) ∧ fits (join c m) = true

theorem absorbBetween_spec (prev next : Option MarkdownIR)
    (hchunk : 0 < chunk.text.length) :
    Absorbed fits mergeMarkdownIRChunks chunk prev (absorbBetween fits prev next chunk).1 ∧
      Absorbed fits (fun n m => mergeMarkdownIRChunks m n) chunk next
        (absorbBetween fits prev next chunk).2 := by
  cases prev with
  | none => exact ⟨.inl rfl, .inl rfl⟩
  | some p =>
    cases next with
    | none => exact ⟨.inl rfl, .inl rfl⟩
    | some n =>
      have hlast : chunk.text.length - 1 < chunk.text.length := by omega
      simp only [absorbBetween]
      rcases splitBetween_cases fits p n chunk hlast with h | ⟨m, m', hm, hm', h, hp, hn⟩ <;> rw [h]
      · exact ⟨.inl rfl, .inl rfl⟩
      · exact ⟨.inr ⟨p, m, rfl, .inr hm, rfl, hp⟩, .inr ⟨n, m', rfl, .inr hm', rfl, hn⟩⟩

theorem absorb_spec (fits : MarkdownIR → Bool) (prev next : Option MarkdownIR)
    (hchunk : 0 < chunk.text.length) :
    Absorbed fits mergeMarkdownIRChunks chunk prev (absorb fits prev next chunk).1 ∧
      Absorbed fits (fun n m => mergeMarkdownIRChunks m n) chunk next
        (absorb fits prev next chunk).2 := by
  simp only [absorb]
  split
  next merged hmerged =>
    obtain ⟨hmap, hfits⟩ := Option.filter_eq_some_iff.1 hmerged
    obtain ⟨p, hp, rfl⟩ := Option.map_eq_some_iff.1 hmap
    exact ⟨.inr ⟨p, chunk, hp, .inl rfl, rfl, hfits⟩, .inl rfl⟩
  split
  next merged hmerged =>
    obtain ⟨hmap, hfits⟩ := Option.filter_eq_some_iff.1 hmerged
    obtain ⟨n, hn, rfl⟩ := Option.map_eq_some_iff.1 hmap
    exact ⟨.inl rfl, .inr ⟨n, chunk, hn, .inl rfl, rfl, hfits⟩⟩
  · exact absorbBetween_spec prev next hchunk

theorem coalesceLoop_cons_blank {coalesced : List MarkdownIR}
    (h : trim chunk.text = []) :
    coalesceLoop fits coalesced (chunk :: chunks) =
      coalesceLoop fits
        (setHead coalesced
          (absorb fits coalesced.head? chunks.head? chunk).1)
        (setHead chunks
          (absorb fits coalesced.head? chunks.head? chunk).2) := by
  rw [coalesceLoop, if_neg (not_not.2 h)]

theorem coalesceLoop_cons {coalesced : List MarkdownIR}
    (h : trim chunk.text ≠ []) :
    coalesceLoop fits coalesced (chunk :: chunks) =
      coalesceLoop fits (chunk :: coalesced) chunks := by
  rw [coalesceLoop, if_pos h]

theorem blank_of_trim {s : Units} (h : trim s = []) : Blank s := by
  have hdrop : ∀ c ∈ s.dropWhile isSpace, isSpace c = true := List.rdropWhile_eq_nil_iff.1 h
  refine List.dropWhile_eq_nil_iff.1 (List.eq_nil_iff_forall_not_mem.2 fun c hc => ?_)
  have hne : s.dropWhile isSpace ≠ [] := List.ne_nil_of_mem hc
  have hhead := List.head_dropWhile_not isSpace hne
  rw [hdrop _ (List.head_mem hne)] at hhead
  cases hhead

theorem visible_part {m : MarkdownIR} (h : trim chunk.text = []) (hm : Part chunk m) :
    visible m = [] := by
  have hblank : Blank m.text := by
    rcases hm with rfl | ⟨start, stop, -, -, rfl⟩
    · exact blank_of_trim h
    · exact fun c hc => blank_of_trim h c (List.mem_of_mem_take (List.mem_of_mem_drop hc))
  exact seen_blank (by rwa [map_fst_marks])

/-- What holds of parts of chunks, and more that holds of two that are merged and fit. -/
structure Closed (fits : MarkdownIR → Bool) (P Q : MarkdownIR → Prop) : Prop where
  weaken : ∀ c, P c → Q c
  pos : ∀ c, Q c → 0 < c.text.length
  part : ∀ c m, Q c → IsSlice c m → Q m
  merge : ∀ l r, Q l → Q r → fits (mergeMarkdownIRChunks l r) = true →
    P (mergeMarkdownIRChunks l r)

theorem Absorbed.setHead {P Q : MarkdownIR → Prop} (h : Closed fits P Q)
    {join : MarkdownIR → MarkdownIR → MarkdownIR}
    (hjoin : ∀ c m, Q c → Q m → fits (join c m) = true → P (join c m))
    (hvisible : ∀ c m, Sound c → Sound m → visible m = [] → visible (join c m) = visible c) (hblank : trim chunk.text = []) (hchunk : Q chunk) (hall : ∀ c ∈ chunks, P c) {new : Option MarkdownIR}
    (hnew : Absorbed fits join chunk chunks.head? new) :
    (∀ c ∈ setHead chunks new, P c) ∧
      ((∀ c, Q c → Sound c) → (setHead chunks new).map visible = chunks.map visible) := by
  cases chunks with
  | nil => exact ⟨hall, fun _ => rfl⟩
  | cons first rest =>
    obtain ⟨hfirst, hrest⟩ := List.forall_mem_cons.1 hall
    rcases hnew with rfl | ⟨c, m, hc, hm, rfl, hfits⟩
    · exact ⟨hall, fun _ => rfl⟩
    · cases hc
      have hpart : Q m := by
        rcases hm with rfl | hm
        · exact hchunk
        · exact h.part chunk m hchunk hm
      refine ⟨List.forall_mem_cons.2 ⟨hjoin first m (h.weaken first hfirst) hpart hfits, hrest⟩,
        fun hsound => ?_⟩
      have hjoined := hvisible first m (hsound _ (h.weaken first hfirst)) (hsound m hpart)
        (visible_part hblank hm)
      exact congrArg (· :: rest.map visible) hjoined

end

end ClawHarder.MarkdownIRs
