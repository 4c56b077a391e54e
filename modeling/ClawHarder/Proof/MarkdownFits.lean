import ClawHarder.Proof.MarkdownTurns

/-!
# Chunks and the limit

* `chunks_fit_iff`: **`chunkMarkdownText` ends, and its chunks fit exactly when every turn it
  reaches has the room.** A limit of zero or less is none, and the text is one chunk.
* `bracket_overruns`: a bracket that is left open hides the soft break in front of a fence. The
  window has no room for the fence line and a marker, the code sets `fenceToSplit` to undefined
  there and sets it again right behind, and a whole window is closed.
-/

namespace ClawHarder.MarkdownChunks

open OcPaths (Units isSpace)

variable {text : Units} {limit : ℕ} {s : ChunkState}

/-- Where the window ends in a fence, the least that a split takes of it leaves room for a newline
and the marker, or there is a newline to break behind that leaves room for the marker. -/
def Roomy (text : Units) (limit : ℕ) (s : ChunkState) : Prop :=
  Overflows text limit s → ∀ fence, initialFence text limit s = some fence →
    HasRoom limit s fence ∧ (minProgressIdx text s fence ≤ maxIdxIfNeedNewline limit s fence ∨
      ∃ b, NewlineBreak text limit s fence b)

/-- Every fence of the text can be opened and closed within the limit, with something between. -/
def FencesFit (text : Units) (limit : ℤ) : Prop :=
  ∀ f ∈ parseFenceSpans text, (f.openLine.length + f.closeLine.length + 3 : ℤ) ≤ limit

theorem contentLimit_add (hfit : FencesFit text limit) (hlimit : 0 < limit)
    (hs : s.Valid text) : s.reopenPrefix.length + contentLimit limit s = limit := by
  unfold contentLimit ChunkState.reopenPrefix
  cases hf : s.reopenFence with
  | none =>
    simp only [List.length_nil]
    omega
  | some f =>
    have := hfit f (hs f hf)
    simp only [List.length_append, List.length_singleton]
    omega

theorem slice_getLast {a b : ℕ} (hlt : a < b) (hle : b ≤ text.length) (s : Units) :
    (s ++ slice text a b).getLast? = text[b - 1]? := by
  rw [List.getLast?_append_of_ne_nil _ (slice_ne_nil hlt hle), List.getLast?_eq_getElem?,
    slice_length, slice, List.getElem?_drop, List.getElem?_take]
  rw [if_pos (by omega)]
  congr 1
  omega

theorem closeLine_pos {f : FenceSpan} (hf : f ∈ parseFenceSpans text) :
    0 < f.closeLine.length := by
  have := (matchFence_lengths (parse_within hf).2.1).1
  unfold FenceSpan.closeLine
  rw [List.length_append]
  omega

theorem closingOf_length (chunk : Units) (f : FenceSpan) :
    (closingOf chunk (some f)).length =
      f.closeLine.length + if chunk.getLast? = some newline then 0 else 1 := by
  by_cases h : chunk.getLast? = some newline <;> simp [closingOf, h]

theorem closingOf_length_le (chunk : Units) (f : FenceSpan) :
    (closingOf chunk (some f)).length ≤ f.closeLine.length + 1 := by
  by_cases h : chunk.getLast? = some newline <;> simp [closingOf, h]

theorem pushPiece_length {b : ℕ} (hlt : s.start < b) (hle : b ≤ text.length)
    (fence : Option FenceSpan) :
    ((pushPiece text s b fence).chunk text).length = s.reopenPrefix.length + (b - s.start) +
      (closingOf (s.reopenPrefix ++ slice text s.start b) fence).length := by
  simp only [Piece.chunk, Piece.content, pushPiece, List.length_append, slice_length]
  omega

theorem last_fits (hfit : FencesFit text limit) (hlimit : 0 < limit) (hs : s.Valid text)
    (hfits : ¬Overflows text limit s) : ((lastPiece text s).chunk text).length ≤ limit := by
  have hsum := contentLimit_add hfit hlimit hs
  unfold Overflows at hfits
  simp only [Piece.chunk, Piece.content, lastPiece, List.length_append, slice_length,
    List.length_nil]
  omega

/-- **A chunk that a turn pushes fits exactly when there was room to close the fence.** -/
theorem push_fits_iff (hfit : FencesFit text limit) (hlimit : 0 < limit) (hs : s.Valid text)
    (hover : Overflows text limit s) {b : ℕ} {fence : Option FenceSpan}
    (hb : BreaksAt text limit s b fence) :
    ((pushPiece text s b fence).chunk text).length ≤ limit ↔ Roomy text limit s := by
  obtain ⟨hlt, hwindow, -⟩ := hb.spec hover
  have hend := hover.windowEnd_lt
  have hsum := contentLimit_add hfit hlimit hs
  rw [pushPiece_length hlt (hwindow.trans hend.le)]
  have hlast := slice_getLast hlt (hwindow.trans hend.le) s.reopenPrefix
  rw [hover.windowEnd_eq] at hwindow
  cases hb with
  | plain hnone _ _ hinitial =>
    simp only [closingOf, List.length_nil, Nat.add_zero]
    refine iff_of_true (by omega) fun _ fence hfence => ?_
    rw [hinitial] at hfence
    cases hfence
  | @window fence hfence hroom =>
    have hclose := closeLine_pos (initialFence_spec hover hfence).1
    rw [closingOf_length, hover.windowEnd_eq]
    refine iff_of_false (by omega) fun hroomy => ?_
    obtain ⟨hhas, hmin | ⟨b, hb⟩⟩ := hroomy hover fence hfence
    · have := (hroom hhas).2
      unfold maxIdxIfAlreadyNewline at this
      unfold maxIdxIfNeedNewline at hmin
      omega
    · exact (hroom hhas).1 b hb
  | @newline fence b hfence hroom hb =>
    rw [closingOf_length, hlast, hb.1]
    have hmax := hb.2.2
    unfold maxIdxIfAlreadyNewline at hmax
    refine iff_of_true (by simp only [↓reduceIte]; omega) fun _ f hf => ?_
    rw [hfence] at hf
    cases hf
    exact ⟨hroom, .inr ⟨b, hb⟩⟩
  | @hard fence hfence hroom hno hmin =>
    by_cases hneed : minProgressIdx text s fence ≤ maxIdxIfNeedNewline limit s fence
    · refine iff_of_true ?_ fun _ f hf => ?_
      · have hclosing := closingOf_length_le (s.reopenPrefix ++ slice text s.start
          (max (minProgressIdx text s fence) (maxIdxIfNeedNewline limit s fence))) fence
        unfold HasRoom at hroom
        rw [max_eq_right hneed] at hclosing ⊢
        unfold maxIdxIfNeedNewline at hclosing ⊢
        omega
      · rw [hfence] at hf
        cases hf
        exact ⟨hroom, .inl hneed⟩
    · -- the break is one unit too far for a newline and the marker, and there is no newline
      have hmax : max (minProgressIdx text s fence) (maxIdxIfNeedNewline limit s fence) =
          maxIdxIfAlreadyNewline limit s fence := by
        unfold HasRoom at hroom
        unfold maxIdxIfAlreadyNewline at hmin ⊢
        unfold maxIdxIfNeedNewline at hneed ⊢
        omega
      rw [hmax] at hlast ⊢
      rw [closingOf_length, hlast, if_neg fun hnl => hno _ ⟨hnl, hmin, le_rfl⟩]
      refine iff_of_false ?_ fun hroomy => ?_
      · unfold HasRoom at hroom
        unfold maxIdxIfAlreadyNewline
        omega
      · obtain ⟨-, hmin' | ⟨b, hb⟩⟩ := hroomy hover fence hfence
        · exact hneed hmin'
        · exact hno b hb

/-- **`chunkMarkdownText` ends, and its chunks fit exactly when every turn has room.** -/
theorem chunks_fit_iff {limit : ℤ} (hfit : FencesFit text limit) :
    ∃ chunks, (∀ fuel, text.length < fuel → chunkMarkdownText fuel text limit = some chunks) ∧
      ((∀ chunk ∈ chunks, (chunk.length : ℤ) ≤ limit) ↔
        text = [] ∨ 0 < limit ∧ ∀ s, Reaches text limit.toNat s → Roomy text limit.toNat s) := by
  by_cases hne : text = []
  · exact ⟨[], fun fuel _ => by simp [chunkMarkdownText, chunkPieces, hne], by simp [hne]⟩
  by_cases hlimit : 0 < limit
  · obtain ⟨ps, hrun, hloop⟩ := chunkPieces_run hne hlimit
    refine ⟨ps.map (Piece.chunk text), fun fuel hfuel => ?_, ?_⟩
    · rw [chunkMarkdownText, hloop fuel hfuel, Option.map_some]
    have hfit' : FencesFit text limit.toNat := by rwa [Int.toNat_of_nonneg hlimit.le]
    have hpos : 0 < limit.toNat := by omega
    have hall := hrun.forall_iff (C := Roomy text limit.toNat)
      (P := fun p => (p.chunk text).length ≤ limit.toNat) (V := ChunkState.Valid text)
      (fun s hs hover => absurd hover.start_lt_length (not_lt.2 hs))
      (fun s hs _ hfits => iff_of_true (last_fits hfit' hpos hs hfits)
        fun hover => absurd hover hfits)
      (fun s b fence hs hover hb => ⟨nextState_valid hover hb, push_fits_iff hfit' hpos hs hover hb⟩)
      fun _ h => absurd h (Option.not_mem_none _)
    rw [List.forall_mem_map]
    have hcast : ∀ p : Piece, ((p.chunk text).length : ℤ) ≤ limit ↔
        (p.chunk text).length ≤ limit.toNat := fun p => by omega
    simp only [hcast, hall, hne, hlimit, false_or, true_and]
    rfl
  · refine ⟨[text], fun fuel _ => ?_, iff_of_false ?_ ?_⟩
    · rw [chunkMarkdownText, chunkPieces, if_neg hne, if_pos (.inl (not_lt.1 hlimit))]
      simp [Piece.chunk, Piece.content, slice]
    · have := List.length_pos_iff.2 hne
      simp only [List.mem_singleton, forall_eq]
      omega
    · rintro (h | ⟨h, -⟩)
      · exact hne h
      · exact hlimit h

/-- `(aaa`, and a fence that is left open. -/
def openBracket : Units :=
  [0x28, 0x61, 0x61, 0x61, 0x0A, 0x60, 0x60, 0x60, 0x0A, 0x78, 0x78, 0x78, 0x78, 0x78]

theorem openBracket_fit : FencesFit openBracket 9 := by
  unfold FencesFit
  decide +kernel

theorem openBracket_chunks :
    ∃ chunks, (∀ fuel, openBracket.length < fuel →
      chunkMarkdownText fuel openBracket 9 = some chunks) ∧
      ((∀ chunk ∈ chunks, (chunk.length : ℤ) ≤ 9) ↔ openBracket = [] ∨ (0 : ℤ) < 9 ∧
        ∀ s, Reaches openBracket (9 : ℤ).toNat s → Roomy openBracket (9 : ℤ).toNat s) :=
  chunks_fit_iff openBracket_fit

theorem bracket_overruns : FencesFit openBracket 9 ∧
    ∃ chunks, chunkMarkdownText 15 openBracket 9 = some chunks ∧
      ∃ chunk ∈ chunks, 9 < (chunk.length : ℤ) := by
  have hchunks : chunkMarkdownText 15 openBracket 9 =
      some [openBracket.take 9 ++ [0x60, 0x60, 0x60], openBracket.drop 5] := by
    decide +kernel
  exact ⟨openBracket_fit, _, hchunks, _, List.mem_cons_self, by decide⟩

end ClawHarder.MarkdownChunks
