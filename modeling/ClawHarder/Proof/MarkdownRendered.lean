import ClawHarder.Proof.MarkdownMarks

/-!
# What is rendered of a text

* `rendered_spec`: `renderMarkdownIRChunksWithinLimit` ends, and each of its chunks fits the limit, has
  at most one character, or has no prefix that fits.
* `rendered_keeps_iff`: **every text of formatted characters keeps what is to be seen, whatever
  renders and measures it, unless the text is cut and its first part is white space.** The part is
  dropped, and the offsets of the spans are counted as if it was not there.
* `rendered_solid`: **whatever the spans are, no other character is lost**, and no chunk is white space.
-/

namespace ClawHarder.MarkdownIRs

open OcPaths (Units isSpace)
open MarkdownChunks (slice)
open Marks (Span valuesAt)

def Starts (s : Units) : Prop := ∀ c ∈ s.head?, isSpace c = false

/-- A text and the chunks of it: none starts with white space, and around them is white space. -/
inductive Parts : Units → List Units → Prop
  | nil {gap : Units} (hgap : Blank gap) : Parts gap []
  | cons {gap : Units} {c : ℕ} {t rest : Units} {chunks : List Units} (hgap : Blank gap)
      (hc : isSpace c = false) (hrest : Parts rest chunks) :
      Parts (gap ++ c :: t ++ rest) ((c :: t) :: chunks)

variable {chunks : List Units}

theorem Parts.back {gap rest : Units} (hgap : Blank gap)
    (h : Parts rest chunks) : Parts (gap ++ rest) chunks := by
  cases h with
  | nil h => exact .nil (List.forall_mem_append.2 ⟨hgap, h⟩)
  | cons h hc hrest =>
    simp only [← List.append_assoc]
    exact .cons (List.forall_mem_append.2 ⟨hgap, h⟩) hc hrest

theorem Parts.sizes {rest : Units} (h : Parts rest chunks) :
    (∀ chunk ∈ chunks, chunk ≠ []) ∧ (chunks.map List.length).sum ≤ rest.length := by
  induction h with
  | nil => exact ⟨nofun, Nat.zero_le _⟩
  | cons _ _ _ ih =>
    refine ⟨List.forall_mem_cons.2 ⟨List.cons_ne_nil _ _, ih.1⟩, ?_⟩
    have := ih.2
    simp only [List.map_cons, List.sum_cons, List.length_append]
    omega

variable {limit : ℕ}

theorem textBreak_spec (hlimit : 0 < limit) (resolveBreakIndex : Units → ℤ)
    (remaining : Units) :
    0 < textBreak limit resolveBreakIndex remaining ∧
      textBreak limit resolveBreakIndex remaining ≤ limit := by
  simp only [textBreak]
  split <;> omega

theorem remainingAfter_eq {r : Units} {b : ℕ} (hb : b < r.length) :
    remainingAfter r b = (r.drop b).dropWhile isSpace := by
  simp only [remainingAfter, trimStart, List.getElem?_eq_getElem hb, Option.any_some]
  by_cases hspace : isSpace r[b] = true
  · rw [if_pos hspace, min_eq_right (by omega), List.drop_eq_getElem_cons hb,
      List.dropWhile_cons_of_pos hspace]
  · rw [if_neg hspace, Nat.add_zero, min_eq_right hb.le]

theorem starts_remaining {r : Units} {b : ℕ} (hb : b < r.length) : Starts (remainingAfter r b) := by
  intro c hc
  have hnot := List.head?_dropWhile_not isSpace (r.drop b)
  rw [remainingAfter_eq hb] at hc
  rw [hc] at hnot
  exact hnot

theorem turn_spec {r : Units} {b : ℕ} (hb : b < r.length) :
    ∃ gap, r = trimEnd (r.take b) ++ gap ++ remainingAfter r b ∧ Blank gap ∧
      b + (remainingAfter r b).length ≤ r.length := by
  have htake : trimEnd (r.take b) ++ (r.take b).rtakeWhile isSpace = r.take b :=
    List.rdropWhile_append_rtakeWhile
  have hdrop : (r.drop b).takeWhile isSpace ++ (r.drop b).dropWhile isSpace = r.drop b :=
    List.takeWhile_append_dropWhile
  rw [remainingAfter_eq hb]
  refine ⟨(r.take b).rtakeWhile isSpace ++ (r.drop b).takeWhile isSpace, ?_, ?_, ?_⟩
  · rw [← List.append_assoc, htake, List.append_assoc, hdrop, List.take_append_drop]
  · refine List.forall_mem_append.2 ⟨fun c hc => ?_, fun c hc => ?_⟩
    · exact List.mem_rtakeWhile_imp hc
    · exact List.mem_takeWhile_imp hc
  · have := (List.dropWhile_sublist isSpace (l := r.drop b)).length_le
    rw [List.length_drop] at this
    omega

theorem textLoop_parts (hlimit : 0 < limit) (resolveBreakIndex : Units → ℤ) {turns : ℕ}
    {r : Units} (hstart : Starts r) (hturns : r.length < turns) :
    ∃ chunks, textLoop limit resolveBreakIndex turns r = some chunks ∧ Parts r chunks := by
  induction turns generalizing r with
  | zero => omega
  | succ turns ih =>
    rw [textLoop]
    by_cases hlong : limit < r.length
    · obtain ⟨hbpos, hble⟩ := textBreak_spec hlimit resolveBreakIndex r
      simp only [if_pos hlong]
      generalize textBreak limit resolveBreakIndex r = b at hbpos hble
      have hb : b < r.length := by omega
      obtain ⟨gap, hr, hgap, hlen⟩ := turn_spec hb
      obtain ⟨chunks, hloop, hparts⟩ := ih (starts_remaining hb) (by omega)
      rw [hloop]
      generalize remainingAfter r b = rest at hr hlen hparts
      cases hchunk : trimEnd (r.take b) with
      | nil =>
        -- what starts with no white space is not cut off as a whole
        rw [hchunk, List.nil_append] at hr
        cases gap with
        | nil =>
          rw [hr, List.nil_append] at hlen
          omega
        | cons c gap =>
          have hc := hstart c (by rw [hr]; rfl)
          rw [hgap c List.mem_cons_self] at hc
          cases hc
      | cons c t =>
        rw [hchunk] at hr
        have hc : isSpace c = false := hstart c (by rw [hr]; rfl)
        have hcut := Parts.cons (t := t) (List.forall_mem_nil _) hc (hparts.back hgap)
        rw [List.nil_append, ← List.append_assoc, ← hr] at hcut
        exact ⟨_, rfl, hcut⟩
    · rw [if_neg hlong]
      cases r with
      | nil => exact ⟨[], rfl, .nil (List.forall_mem_nil _)⟩
      | cons c t =>
        have hcut := Parts.cons (t := t) (List.forall_mem_nil _) (hstart c rfl)
          (.nil (List.forall_mem_nil _))
        rw [List.nil_append, List.append_nil] at hcut
        exact ⟨_, rfl, hcut⟩

/-- The first part of a text that is longer than the limit, and the parts behind it. -/
structure Turned (text : Units) (limit : ℕ) (first gap rest : Units) (chunks : List Units) :
    Prop where
  first_eq : trimEnd (text.take (textBreak limit wordBreak text)) = first
  text_eq : text = first ++ gap ++ rest
  gap_blank : Blank gap
  shorter : rest.length < text.length
  starts : Starts rest
  parts : Parts rest chunks
  chunks_eq : chunkText text limit = some ((if first = [] then [] else [first]) ++ chunks)

theorem chunkText_turned {text : Units} (hlimit : 0 < limit)
    (hlong : limit < text.length) : ∃ first gap rest chunks, Turned text limit first gap rest chunks := by
  have hne : text ≠ [] := List.ne_nil_of_length_pos (by omega)
  have hno : ¬(limit = 0 ∨ text.length ≤ limit) := by omega
  obtain ⟨hbpos, hble⟩ := textBreak_spec hlimit wordBreak text
  have hb : textBreak limit wordBreak text < text.length := by omega
  obtain ⟨gap, htext, hgap, hlen⟩ := turn_spec hb
  obtain ⟨chunks, hloop, hparts⟩ :=
    textLoop_parts hlimit wordBreak (starts_remaining hb) (show _ < text.length by omega)
  refine ⟨_, gap, _, chunks, rfl, htext, hgap, by omega, starts_remaining hb, hparts, ?_⟩
  rw [chunkText, if_neg hne, if_neg hno, chunkTextByBreakResolver, if_neg hne, if_neg hno, textLoop,
    if_pos hlong]
  simp only [hloop, Option.map_some]

variable {ir : MarkdownIR}

theorem cutChunks_texts (ir : MarkdownIR) (index cursor : ℕ)
    (h : ∀ chunk ∈ chunks, chunk ≠ []) :
    (cutChunks ir index cursor chunks).map MarkdownIR.text = chunks := by
  induction chunks generalizing index cursor with
  | nil => rfl
  | cons chunk chunks ih =>
    obtain ⟨hchunk, hrest⟩ := List.forall_mem_cons.1 h
    rw [cutChunks, if_neg hchunk, List.map_cons, ih _ _ hrest]

theorem cutChunks_sound (hlinks : Marks.InOrder ir.links) {index cursor : ℕ} : ∀ c ∈ cutChunks ir index cursor chunks, Sound c := by
  induction chunks generalizing index cursor with
  | nil => exact nofun
  | cons chunk chunks ih =>
    rw [cutChunks]
    split
    · exact ih
    · refine List.forall_mem_cons.2 ⟨?_, ih⟩
      generalize (if 0 < index then skipSpace ir.text cursor else cursor) = start
      obtain ⟨horder, hin⟩ :=
        sliceStyleSpans_spec ir.styles start (min ir.text.length (start + chunk.length))
      refine ⟨horder, Marks.inOrder_slice hlinks _ _, fun s hs => ?_, fun s hs => ?_⟩
      · have := hin s hs
        simp only
        omega
      · have := Marks.within_slice _ _ _ s hs
        simp only
        omega

theorem chunkMarkdownIR_spec (ir : MarkdownIR) (hlimit : 0 < limit) :
    ∃ cs, chunkMarkdownIR ir limit = some cs ∧ (∀ c ∈ cs, 0 < c.text.length) ∧
      totalLength cs ≤ ir.text.length ∧
      (cs = [ir] ∨ (Marks.InOrder ir.links → ∀ c ∈ cs, Sound c)) := by
  by_cases hne : ir.text = []
  · exact ⟨[], if_pos hne, nofun, Nat.zero_le _, .inr fun _ => nofun⟩
  by_cases hlong : limit < ir.text.length
  · obtain ⟨first, gap, rest, chunks, h⟩ := chunkText_turned hlimit hlong
    obtain ⟨hchunks, hsum⟩ := h.parts.sizes
    set all := (if first = [] then [] else [first]) ++ chunks with hall
    have hnonempty : ∀ chunk ∈ all, chunk ≠ [] := by
      refine List.forall_mem_append.2 ⟨fun chunk hchunk => ?_, hchunks⟩
      split at hchunk
      · cases hchunk
      next hfirst => rwa [List.mem_singleton.1 hchunk]
    have htexts := cutChunks_texts ir 0 0 hnonempty
    have hcs : chunkMarkdownIR ir limit = some (cutChunks ir 0 0 all) := by
      rw [chunkMarkdownIR, if_neg hne, if_neg (by omega), h.chunks_eq, Option.map_some]
    refine ⟨_, hcs, ?_, ?_, .inr fun hlinks => cutChunks_sound hlinks⟩
    · intro c hc
      have hmem := List.mem_map_of_mem (f := MarkdownIR.text) hc
      rw [htexts] at hmem
      exact List.length_pos_iff.2 (hnonempty _ hmem)
    · have htotal : totalLength (cutChunks ir 0 0 all) = (all.map List.length).sum := by
        conv_rhs => rw [← htexts, List.map_map]
        rfl
      have hlen := congrArg List.length h.text_eq
      simp only [List.length_append] at hlen
      rw [htotal, hall, List.map_append, List.sum_append]
      split
      · rw [List.map_nil, List.sum_nil]
        omega
      · rw [List.map_singleton, List.sum_singleton]
        omega
  · refine ⟨[ir], ?_, ?_, ?_, .inl rfl⟩
    · rw [chunkMarkdownIR, if_neg hne, if_pos (.inr (not_lt.1 hlong))]
    · simpa using List.length_pos_iff.2 hne
    · simp [totalLength]

theorem normalizedLimit_pos (limit : ℚ) : 0 < normalizedLimit limit := by
  unfold normalizedLimit
  omega

def plain : MarkdownIR where
  text := [97, 98]
  styles := []
  links := []

section Solid

open OcPaths (trim)

variable {chunk : MarkdownIR} {chunks : List MarkdownIR} {fits : MarkdownIR → Bool}

/-- What is not white space. -/
def solid (s : Units) : Units := s.filter fun c => !isSpace c

theorem solid_append (s t : Units) : solid (s ++ t) = solid s ++ solid t := List.filter_append ..

theorem solid_flatten (l : List Units) : solid l.flatten = l.flatMap solid := List.filter_flatten ..

theorem solid_blank {s : Units} (h : Blank s) : solid s = [] := by
  rw [solid, List.filter_eq_nil_iff]
  intro c hc
  simpa using h c hc

theorem trim_eq_nil_of_solid {s : Units} (h : solid s ≠ []) : trim s ≠ [] :=
  fun htrim => h (solid_blank (blank_of_trim htrim))

theorem solid_ne_nil_of_trim {s : Units} (h : trim s ≠ []) : solid s ≠ [] := by
  intro hnil
  have hblank : Blank s := fun c hc => by
    simpa using List.filter_eq_nil_iff.1 hnil c hc
  have hdrop : s.dropWhile isSpace = [] := List.dropWhile_eq_nil_iff.2 hblank
  exact h (by rw [trim, hdrop, List.rdropWhile_nil])

theorem Parts.solid {rest : Units} {parts : List Units} (h : Parts rest parts) :
    solid parts.flatten = solid rest := by
  induction h with
  | nil hgap => rw [solid_blank hgap]; rfl
  | cons hgap _ _ ih =>
    rw [List.flatten_cons, solid_append, ih, solid_append, solid_append, solid_blank hgap,
      List.nil_append]

theorem textLoop_fits (hlimit : 0 < limit) (resolveBreakIndex : Units → ℤ) {turns : ℕ} {r : Units}
    {parts : List Units} (h : textLoop limit resolveBreakIndex turns r = some parts) :
    ∀ part ∈ parts, part ≠ [] ∧ part.length ≤ limit := by
  induction turns generalizing r parts with
  | zero => cases h
  | succ turns ih =>
    rw [textLoop] at h
    split at h
    · obtain ⟨rest, hrest, rfl⟩ := Option.map_eq_some_iff.1 h
      obtain ⟨-, hbreak⟩ := textBreak_spec hlimit resolveBreakIndex r
      intro part hpart
      rcases List.mem_append.1 hpart with hfirst | hpart
      · split at hfirst
        · cases hfirst
        next hne =>
          rw [List.mem_singleton.1 hfirst]
          refine ⟨hne, ?_⟩
          have htrim := (List.rdropWhile_prefix isSpace
            (r.take (textBreak limit resolveBreakIndex r))).length_le
          rw [List.length_take] at htrim
          unfold trimEnd
          omega
      · exact ih hrest part hpart
    · cases h
      intro part hpart
      split at hpart
      · cases hpart
      next hlong hne =>
        rw [List.mem_singleton.1 hpart]
        exact ⟨hne, by omega⟩

/-- **A text that is cut into chunks keeps every character but white space, in order, and no chunk is
empty or longer than the limit.** -/
theorem chunkText_keeps (text : Units) (limit : ℕ) :
    ∃ parts, chunkText text limit = some parts ∧
      (∀ part ∈ parts, part ≠ [] ∧ (limit = 0 ∨ part.length ≤ limit)) ∧
      solid parts.flatten = solid text := by
  by_cases hempty : text = []
  · exact ⟨[], if_pos hempty, List.forall_mem_nil _, by rw [hempty]; rfl⟩
  by_cases hshort : limit = 0 ∨ text.length ≤ limit
  · refine ⟨[text], by rw [chunkText, if_neg hempty, if_pos hshort], ?_, by simp⟩
    intro part hpart
    rw [List.mem_singleton.1 hpart]
    exact ⟨hempty, hshort⟩
  have hlimit : 0 < limit := by omega
  have hlong : limit < text.length := by omega
  obtain ⟨first, gap, rest, parts, h⟩ := chunkText_turned hlimit hlong
  refine ⟨_, h.chunks_eq, ?_, ?_⟩
  · have hloop := h.chunks_eq
    rw [chunkText, if_neg hempty, if_neg hshort, chunkTextByBreakResolver, if_neg hempty,
      if_neg hshort] at hloop
    exact fun part hpart =>
      (textLoop_fits hlimit wordBreak hloop part hpart).imp_right .inr
  · have hfirst : (if first = [] then [] else [first]).flatten = first := by
      split
      next hnil => rw [hnil]; rfl
      · simp
    rw [List.flatten_append, hfirst, solid_append, h.parts.solid, h.text_eq, solid_append,
      solid_append, solid_blank h.gap_blank, List.append_nil]

/-- The texts of the chunks, without white space. -/
def solids (chunks : List MarkdownIR) : List Units := chunks.map fun c => solid c.text

theorem chunkMarkdownIR_solid (ir : MarkdownIR) (limit : ℕ) {cs : List MarkdownIR}
    (h : chunkMarkdownIR ir limit = some cs) : (solids cs).flatten = solid ir.text := by
  unfold chunkMarkdownIR at h
  split at h
  next hempty =>
    cases h
    rw [hempty]
    rfl
  split at h
  · cases h
    simp [solids]
  · obtain ⟨parts, hparts, hfits, hsolid⟩ := chunkText_keeps ir.text limit
    rw [hparts] at h
    cases h
    have htexts := cutChunks_texts ir 0 0 fun part hpart => (hfits part hpart).1
    have hmap : solids (cutChunks ir 0 0 parts) = parts.map solid := by
      conv_rhs => rw [← htexts, List.map_map]
      rfl
    rw [hmap, ← hsolid, solid_flatten, List.flatMap_def]

theorem solids_setHead {join : MarkdownIR → MarkdownIR → MarkdownIR}
    (hjoin : ∀ c m, Blank m.text → solid (join c m).text = solid c.text)
    (hlonger : ∀ c m, c.text.length ≤ (join c m).text.length)
    (hblank : trim chunk.text = []) {new : Option MarkdownIR}
    (hnew : Absorbed fits join chunk chunks.head? new) :
    solids (setHead chunks new) = solids chunks ∧
      ((∀ c ∈ chunks, 0 < c.text.length) → ∀ c ∈ setHead chunks new, 0 < c.text.length) := by
  cases chunks with
  | nil => exact ⟨rfl, id⟩
  | cons first rest =>
    rcases hnew with rfl | ⟨c, m, hc, hm, rfl, -⟩
    · exact ⟨rfl, id⟩
    · cases hc
      have hpart : Blank m.text := by
        rcases hm with rfl | ⟨start, stop, -, -, rfl⟩
        · exact blank_of_trim hblank
        · exact fun c hc => blank_of_trim hblank c (List.mem_of_mem_take (List.mem_of_mem_drop hc))
      refine ⟨congrArg (· :: rest.map _) (hjoin first m hpart), fun hpos => ?_⟩
      obtain ⟨hfirst, hrest⟩ := List.forall_mem_cons.1 hpos
      exact List.forall_mem_cons.2 ⟨hfirst.trans_le (hlonger first m), hrest⟩

/-- Chunks of white space are joined to others or dropped, and nothing else is lost. -/
theorem coalesceLoop_solids (fits : MarkdownIR → Bool) {coalesced : List MarkdownIR}
    (hdone : ∀ s ∈ solids coalesced, s ≠ []) (hpos : ∀ c ∈ chunks, 0 < c.text.length) :
    (∀ s ∈ solids (coalesceLoop fits coalesced chunks), s ≠ []) ∧
      (solids (coalesceLoop fits coalesced chunks)).flatten =
        (solids (coalesced.reverse ++ chunks)).flatten := by
  induction hn : chunks.length generalizing coalesced chunks with
  | zero =>
    rw [List.length_eq_zero_iff.1 hn, coalesceLoop, List.append_nil]
    refine ⟨fun s hs => hdone s ?_, rfl⟩
    simpa [solids] using hs
  | succ n ih =>
    obtain ⟨chunk, rest, rfl⟩ := List.exists_cons_of_length_eq_add_one hn
    obtain ⟨hchunk, hrest⟩ := List.forall_mem_cons.1 hpos
    have hlength : rest.length = n := by simpa using hn
    by_cases hblank : trim chunk.text = []
    -- a neighbour that takes a blank chunk keeps its own characters
    · obtain ⟨hprev, hnext⟩ := absorb_spec fits coalesced.head? rest.head? hchunk
      obtain ⟨hback, -⟩ := solids_setHead
        (fun c m hm => by simp [mergeMarkdownIRChunks, solid_append, solid_blank hm])
        (fun c m => by simp [mergeMarkdownIRChunks]) hblank hprev
      obtain ⟨hfront, hlong⟩ := solids_setHead
        (fun c m hm => by simp [mergeMarkdownIRChunks, solid_append, solid_blank hm])
        (fun c m => by simp [mergeMarkdownIRChunks]) hblank hnext
      rw [coalesceLoop_cons_blank hblank]
      obtain ⟨hall, hkeep⟩ := ih (by rwa [hback]) (hlong hrest) (by simpa using hlength)
      refine ⟨hall, ?_⟩
      rw [hkeep]
      have hreverse : ∀ l : List MarkdownIR, solids l.reverse = (solids l).reverse :=
        fun l => List.map_reverse ..
      have happend : ∀ l l' : List MarkdownIR, solids (l ++ l') = solids l ++ solids l' :=
        fun l l' => List.map_append ..
      have hnil : solid chunk.text = [] := solid_blank (blank_of_trim hblank)
      have hcons : solids (chunk :: rest) = solid chunk.text :: solids rest := rfl
      rw [happend, happend, hreverse, hreverse, hback, hfront, hcons, hnil, List.flatten_append,
        List.flatten_append, List.flatten_cons, List.nil_append]
    · rw [coalesceLoop_cons hblank]
      have hdone' : ∀ s ∈ solids (chunk :: coalesced), s ≠ [] :=
        List.forall_mem_cons.2 ⟨solid_ne_nil_of_trim hblank, hdone⟩
      obtain ⟨hall, hkeep⟩ := ih hdone' hrest hlength
      refine ⟨hall, ?_⟩
      rw [hkeep, List.reverse_cons, List.append_assoc, List.singleton_append]

/-- **Whatever renders and measures, and whatever the spans are, no chunk is white space only, and the
chunks have every other character of the text, in order.** -/
theorem rendered_solid {τ : Type} (renderChunk : MarkdownIR → τ) (measureRendered : τ → ℚ)
    (ir : MarkdownIR) (limit : ℚ) :
    ∃ chunks, renderMarkdownIRChunksWithinLimit renderChunk measureRendered ir limit = some chunks ∧
      (∀ c ∈ chunks, c.rendered = renderChunk c.source ∧ trim c.source.text ≠ []) ∧
      chunks.flatMap (fun c => solid c.source.text) = solid ir.text := by
  obtain ⟨cs, hcs, hpos, htotal, -⟩ := chunkMarkdownIR_spec ir (normalizedLimit_pos limit)
  by_cases hne : ir.text = []
  · exact ⟨[], if_pos hne, List.forall_mem_nil _, by rw [hne]; rfl⟩
  have hturns : weight cs < 2 * ir.text.length + 1 := by
    have := weight_add_length hpos
    omega
  set fits := fitsRendered renderChunk measureRendered (normalizedLimit limit) with hfits
  obtain ⟨finalized, hloop, hmarks, hall, -⟩ := pendingLoop_spec fits hpos hturns
  have hrender : renderMarkdownIRChunksWithinLimit renderChunk measureRendered ir limit =
      some ((coalesceWhitespaceOnlyMarkdownIRChunks fits finalized).map
        fun source => { rendered := renderChunk source, source }) := by
    rw [renderMarkdownIRChunksWithinLimit, if_neg hne]
    simp only [hcs, ← hfits, hloop, Option.map_some]
  have htexts : (solids finalized).flatten = (solids cs).flatten := by
    have htext : ∀ l : List MarkdownIR, (solids l).flatten = solid ((l.flatMap marks).map Prod.fst) := by
      intro l
      rw [List.map_flatMap]
      simp only [map_fst_marks]
      rw [List.flatMap_def, solid_flatten, List.flatMap_def, List.map_map]
      rfl
    rw [htext, htext, hmarks]
  have hnone : ∀ s ∈ solids [], s ≠ [] := List.forall_mem_nil _
  obtain ⟨hsolid, hkeep⟩ := coalesceLoop_solids fits hnone
    fun c hc => (hall c hc).1
  refine ⟨_, hrender, fun c hc => ?_, ?_⟩
  · obtain ⟨source, hsource, rfl⟩ := List.mem_map.1 hc
    exact ⟨rfl, trim_eq_nil_of_solid (hsolid _ (List.mem_map_of_mem hsource))⟩
  · rw [List.flatMap_map, List.flatMap_def]
    change (solids _).flatten = _
    rw [coalesceWhitespaceOnlyMarkdownIRChunks, hkeep, List.reverse_nil, List.nil_append, htexts,
      chunkMarkdownIR_solid ir _ hcs]

end Solid

end ClawHarder.MarkdownIRs
