import ClawHarder.Lib.Cuts
import ClawHarder.Proof.MarkdownTurns

/-!
# What is kept of a text

* `gap_deletable_iff`: what a turn skips is white space outside of the fences, unless it breaks on
  white space of one.
* `chunks_keep_iff`: **`chunkMarkdownText` drops nothing but white space outside of the fences and
  leaves none open exactly when no turn breaks on white space of a fence and every turn reads its
  lines as the text does.**
-/

namespace ClawHarder.MarkdownChunks

open OcPaths (Units isSpace)

def markerStep (marker : Option Units) (line : Units) : Option Units :=
  match matchFence line with
  | none => marker
  | some (_, found) =>
    match marker with
    | none => some found
    | some m => if m.head? = found.head? ∧ m.length ≤ found.length then none else some m

def markerAfter (marker : Option Units) (text : Units) : Option Units :=
  (text.splitOn newline).foldl markerStep marker

theorem scanLine_marker (offset : ℕ) (line : Units) (openFence : Option OpenFence) :
    (scanLine offset line openFence).1.map OpenFence.marker =
      markerStep (openFence.map OpenFence.marker) line := by
  unfold scanLine markerStep
  cases matchFence line with
  | none => rfl
  | some m =>
    cases openFence with
    | none => rfl
    | some f =>
      by_cases hcloses : f.marker.head? = m.2.head? ∧ f.marker.length ≤ m.2.length <;>
        simp [OpenFence.markerChar, hcloses]

theorem scanLines_marker (offset : ℕ) (lines : List Units) (openFence : Option OpenFence) :
    (scanLines offset openFence lines).2.map OpenFence.marker =
      lines.foldl markerStep (openFence.map OpenFence.marker) := by
  induction lines generalizing offset openFence with
  | nil => rfl
  | cons line lines ih =>
    simp only [scanLines, List.foldl_cons]
    rw [ih, scanLine_marker]

def Closed (text : Units) : Prop := (scanLines 0 none (text.splitOn newline)).2 = none

theorem closed_iff (text : Units) : Closed text ↔ markerAfter none text = none := by
  rw [Closed, markerAfter, ← Option.map_none (f := OpenFence.marker), ← scanLines_marker 0,
    Option.map_none, Option.map_eq_none_iff]

theorem markerAfter_append (marker : Option Units) (s t : Units) :
    markerAfter marker (s ++ newline :: t) = markerAfter (markerAfter marker s) t := by
  unfold markerAfter
  simp only [List.splitOn_eq_splitOnP]
  rw [List.splitOnP_append_cons (p := (· == newline)) s t (beq_self_eq_true newline),
    List.foldl_append]

theorem markerAfter_line {line : Units} (hline : newline ∉ line) (marker : Option Units) :
    markerAfter marker line = markerStep marker line := by
  unfold markerAfter
  rw [List.splitOn_eq_singleton hline]
  rfl

theorem matchFence_shape {line indent marker : Units}
    (h : matchFence line = some (indent, marker)) :
    ∃ k n c rest, indent = List.replicate k space ∧ marker = List.replicate n c ∧
      line = indent ++ marker ++ rest ∧ k ≤ 3 ∧ 3 ≤ n ∧ (c = backtick ∨ c = tilde) ∧
      newline ∉ rest := by
  unfold matchFence at h
  simp only at h
  split at h
  · cases h
  next c rest hrest =>
    split at h
    next hok =>
      cases h
      simp only [Bool.and_eq_true, Bool.or_eq_true, decide_eq_true_eq] at hok
      obtain ⟨⟨⟨hc, hk⟩, hn⟩, hno⟩ := hok
      have hindent := List.eq_replicate_of_mem (a := space) (l := line.takeWhile fun c => c = space)
        fun d hd => by simpa using List.mem_takeWhile_imp hd
      have hmarker := List.eq_replicate_of_mem (a := c) (l := c :: rest.takeWhile fun d => d = c)
        fun d hd => by
          rcases List.mem_cons.1 hd with rfl | hd
          · rfl
          · simpa using List.mem_takeWhile_imp hd
      refine ⟨_, _, c, rest.dropWhile fun d => d = c, hindent, hmarker, ?_, hk, hn, hc, ?_⟩
      · rw [List.append_assoc, List.cons_append, List.takeWhile_append_dropWhile, ← hrest,
          List.prefix_iff_eq_append.1 (List.takeWhile_prefix _)]
      · intro hmem
        have hany : (rest.dropWhile fun d => decide (d = c)).any isTerminator = true :=
          List.any_eq_true.2 ⟨newline, hmem, by decide⟩
        simp [hany] at hno
    · cases h

theorem matchFence_replicate {k n c : ℕ} (hk : k ≤ 3) (hn : 3 ≤ n) (hc : c = backtick ∨ c = tilde) :
    matchFence (List.replicate k space ++ List.replicate n c) =
      some (List.replicate k space, List.replicate n c) := by
  have hspace : c ≠ space := by rcases hc with rfl | rfl <;> decide
  obtain ⟨n, rfl⟩ : ∃ m, n = m + 1 := ⟨n - 1, by omega⟩
  rw [List.replicate_succ]
  have hindent : (List.replicate k space ++ c :: List.replicate n c).takeWhile
      (fun c => decide (c = space)) = List.replicate k space := by
    rw [List.takeWhile_append_of_pos (by simp [List.mem_replicate])]
    simp [hspace]
  have hmarker : (List.replicate n c).takeWhile (fun d => decide (d = c)) = List.replicate n c := by
    rw [List.takeWhile_replicate]
    simp
  have hdrop : (List.replicate k space ++ c :: List.replicate n c).drop k =
      c :: List.replicate n c := List.drop_left' (List.length_replicate ..)
  unfold matchFence
  simp only [hindent, List.length_replicate, hdrop, hmarker]
  simp [hc, hk, show 2 ≤ n by omega]

section

variable {text : Units} {f : FenceSpan} (hf : f ∈ parseFenceSpans text)

include hf

theorem matchFence_openLine : matchFence f.openLine = some (f.indent, f.marker) :=
  (parse_within hf).2.1

theorem openLine_line : newline ∉ f.openLine := by
  obtain ⟨k, n, c, rest, hindent, hmarker, hline, -, -, hc, hrest⟩ :=
    matchFence_shape (matchFence_openLine hf)
  have hne : c ≠ newline := by rcases hc with rfl | rfl <;> decide
  rw [hline, hindent, hmarker]
  simp [List.mem_replicate, hne.symm, hrest, show newline ≠ space by decide]

theorem matchFence_closeLine : matchFence f.closeLine = some (f.indent, f.marker) := by
  obtain ⟨k, n, c, rest, hindent, hmarker, -, hk, hn, hc, -⟩ :=
    matchFence_shape (matchFence_openLine hf)
  rw [FenceSpan.closeLine, hindent, hmarker]
  exact matchFence_replicate hk hn hc

theorem closeLine_line : newline ∉ f.closeLine := by
  obtain ⟨k, n, c, rest, hindent, hmarker, -, -, -, hc, -⟩ :=
    matchFence_shape (matchFence_openLine hf)
  have hne : c ≠ newline := by rcases hc with rfl | rfl <;> decide
  rw [FenceSpan.closeLine, hindent, hmarker]
  simp [List.mem_replicate, hne.symm, show newline ≠ space by decide]

theorem markerStep_closeLine (marker : Option Units) :
    markerStep marker f.closeLine = none ↔
      ∃ m ∈ marker, m.head? = f.marker.head? ∧ m.length ≤ f.marker.length := by
  unfold markerStep
  rw [matchFence_closeLine hf]
  cases marker with
  | none => simp
  | some m => simp

end

variable {text : Units} {limit : ℕ} {s : ChunkState}

/-- The lines of the content leave open the fence that the code takes to be open at the break. -/
def Balanced (text : Units) (s : ChunkState) (b : ℕ) (fence : Option FenceSpan) : Prop :=
  match fence with
  | none => markerAfter (s.reopenFence.map FenceSpan.marker) (slice text s.start b) = none
  | some f => ∃ m ∈ markerAfter (s.reopenFence.map FenceSpan.marker) (slice text s.start b),
      m.head? = f.marker.head? ∧ m.length ≤ f.marker.length

theorem markerAfter_reopen (hs : s.Valid text) (t : Units) :
    markerAfter none (s.reopenPrefix ++ t) = markerAfter (s.reopenFence.map FenceSpan.marker) t := by
  unfold ChunkState.reopenPrefix
  cases hf : s.reopenFence with
  | none => rfl
  | some f =>
    have hmem := hs f hf
    simp only [List.append_assoc, List.singleton_append, Option.map_some]
    rw [markerAfter_append, markerAfter_line (openLine_line hmem), markerStep,
      matchFence_openLine hmem]

theorem markerAfter_closing {f : FenceSpan} (hf : f ∈ parseFenceSpans text) (marker : Option Units)
    {content : Units} (hne : content ≠ []) (s : Units) :
    markerAfter marker (content ++ closingOf (s ++ content) (some f)) =
      markerStep (markerAfter marker content) f.closeLine := by
  simp only [closingOf]
  rw [List.getLast?_append_of_ne_nil _ hne]
  split
  next hlast =>
    obtain ⟨front, rfl⟩ := List.getLast?_eq_some_iff.1 hlast
    rw [List.append_assoc, List.singleton_append, markerAfter_append, markerAfter_append,
      markerAfter_line (closeLine_line hf)]
    rfl
  next hlast => rw [markerAfter_append, markerAfter_line (closeLine_line hf)]

variable {fence : Option FenceSpan}

/-- **The chunk of a turn has no open fence exactly when its lines leave open what they should.** -/
theorem push_closed_iff (hs : s.Valid text) (hover : Overflows text limit s) {b : ℕ} (hb : BreaksAt text limit s b fence) :
    Closed ((pushPiece text s b fence).chunk text) ↔ Balanced text s b fence := by
  obtain ⟨hlt, hwindow, hfind⟩ := hb.spec hover
  have hne := slice_ne_nil hlt (hwindow.trans hover.windowEnd_lt.le)
  rw [closed_iff]
  simp only [Piece.chunk, Piece.content, pushPiece, List.append_assoc]
  rw [markerAfter_reopen hs]
  cases fence with
  | none => simp [closingOf, Balanced]
  | some f =>
    have hmem := (findFenceSpanAt_iff.1 hfind).1
    rw [markerAfter_closing hmem _ hne, markerStep_closeLine hmem]
    rfl

def InFence (text : Units) (i : ℕ) : Prop := ∃ f ∈ parseFenceSpans text, f.start ≤ i ∧ i < f.stop

def Deletable (text : Units) (i : ℕ) : Prop := text[i]?.any isSpace = true ∧ ¬InFence text i

theorem skipped_newline {n i : ℕ} (hn : n ≤ i) (hi : i < skipLeadingNewlines text n) :
    text[i]? = some newline := by
  unfold skipLeadingNewlines at hi
  obtain ⟨t, ht⟩ := List.takeWhile_prefix (l := text.drop n) fun c => decide (c = newline)
  have hlt : i - n < ((text.drop n).takeWhile fun c => decide (c = newline)).length := by omega
  have hget : text[i]? = ((text.drop n).takeWhile fun c => decide (c = newline))[i - n]? := by
    have happ : (((text.drop n).takeWhile fun c => decide (c = newline)) ++ t)[i - n]? =
        ((text.drop n).takeWhile fun c => decide (c = newline))[i - n]? :=
      List.getElem?_append_left hlt
    rw [← happ, ht, List.getElem?_drop]
    congr 1
    omega
  rw [hget, List.getElem?_eq_getElem hlt]
  simpa using List.mem_takeWhile_imp (List.getElem_mem hlt)

/-- **What a turn skips is white space outside of the fences, unless it breaks on some inside.** -/
theorem gap_deletable_iff (hover : Overflows text limit s) {b : ℕ}
    (hb : BreaksAt text limit s b fence) :
    (∀ i, b ≤ i → i < nextStart text b fence → Deletable text i) ↔
      ¬(text[b]?.any isSpace = true ∧ InFence text b) := by
  obtain ⟨hlt, hwindow, hfind⟩ := hb.spec hover
  have hend := hover.windowEnd_lt
  constructor
  · rintro hall ⟨hspace, hin⟩
    refine (hall b le_rfl ?_).2 hin
    have hskip := skipLeadingNewlines_spec (min_le_left text.length (b + 1))
    simp only [nextStart, hspace, ↓reduceIte]
    split <;> omega
  · intro hok i hbi hi
    simp only [nextStart] at hi
    set n := min text.length (b + if text[b]?.any isSpace then 1 else 0) with hn
    rcases Nat.lt_or_ge i n with hin | hni
    · -- the separator
      have hspace : text[b]?.any isSpace = true := by
        by_contra hno
        simp only [hno, ↓reduceIte] at hn
        omega
      obtain rfl : i = b := by
        simp only [hspace, ↓reduceIte] at hn
        omega
      exact ⟨hspace, fun hfence => hok ⟨hspace, hfence⟩⟩
    · -- a newline behind a break that is in no fence
      cases fence with
      | some f =>
        simp only [Option.isSome_some, ↓reduceIte] at hi
        omega
      | none =>
        simp only [Option.isSome_none, Bool.false_eq_true, ↓reduceIte] at hi
        have hnl := skipped_newline hni hi
        refine ⟨by rw [hnl]; decide, ?_⟩
        rintro ⟨f, hf, hstart, hstop⟩
        obtain ⟨⟨c, rest, -, hc, hget⟩, -⟩ := parse_within hf
        -- the block starts with no newline, so it starts before what is skipped
        have hbefore : f.start < n := by
          by_contra hge
          have hfirst := skipped_newline (not_lt.1 hge) (lt_of_le_of_lt hstart hi)
          rw [hget] at hfirst
          exact hc (Option.some.inj hfirst)
        by_cases hspace : text[b]?.any isSpace = true
        · simp only [hspace, ↓reduceIte] at hn
          exact hok ⟨hspace, f, hf, by omega, by omega⟩
        · simp only [hspace, Bool.false_eq_true, ↓reduceIte] at hn
          have hinside := findFenceSpanAt_iff.2 ⟨hf, show f.Inside b from ⟨by omega, by omega⟩⟩
          rw [hfind] at hinside
          cases hinside

def Piece.cut (p : Piece) : ℕ × ℕ := (p.start, p.stop)

/-- A turn breaks on no white space of a fence, and where text is left its chunk is balanced. -/
def Keeps (text : Units) (limit : ℕ) (s : ChunkState) : Prop :=
  Overflows text limit s → ∀ b fence, breakAt text limit s = some (b, fence) →
    ¬(text[b]?.any isSpace = true ∧ InFence text b) ∧
      (nextStart text b fence < text.length → Balanced text s b fence)

variable {ps : List Piece}

theorem Run.ordered (hrun : Run text limit s ps) :
    Cuts.Ordered text.length s.start (ps.map Piece.cut) := by
  induction hrun with
  | done _ => trivial
  | last hstart _ => exact ⟨le_rfl, hstart.le, le_rfl, trivial⟩
  | @push s b fence ps hover hb _ _ _ ih =>
    obtain ⟨hlt, hwindow, -⟩ := hb.spec hover
    have hend := hover.windowEnd_lt
    have hle : b ≤ text.length := by omega
    exact ⟨le_rfl, hlt.le, hle, ih.mono (nextStart_spec hle fence).1⟩

/-- What is not in a piece from the start on is deletable, and the chunks but the last are closed. -/
def Kept (text : Units) (start : ℕ) (ps : List Piece) : Prop :=
  (∀ i, start ≤ i → i < text.length → Cuts.inCut (ps.map Piece.cut) i = false →
    Deletable text i) ∧ ∀ p ∈ ps.dropLast, Closed (p.chunk text)

theorem kept_push (hs : s.Valid text) (hover : Overflows text limit s) {b : ℕ} (hb : BreaksAt text limit s b fence)
    (hbreak : breakAt text limit s = some (b, fence))
    (hrun : Run text limit (nextState text b fence) ps) :
    Kept text s.start (pushPiece text s b fence :: ps) ↔
      Keeps text limit s ∧ Kept text (nextStart text b fence) ps := by
  obtain ⟨hlt, hwindow, -⟩ := hb.spec hover
  have hend := hover.windowEnd_lt
  obtain ⟨hnext, hnext'⟩ := nextStart_spec (show b ≤ text.length by omega) fence
  have hempty : ps = [] ↔ text.length ≤ nextStart text b fence := by
    cases hrun with
    | done hstart => exact iff_of_true rfl hstart
    | last hstart _ => exact iff_of_false nofun (not_le.2 hstart)
    | push hover' _ _ _ _ => exact iff_of_false nofun (not_le.2 hover'.start_lt_length)
  have hkeeps : Keeps text limit s ↔ (∀ i, b ≤ i → i < nextStart text b fence → Deletable text i) ∧
      (nextStart text b fence < text.length → Balanced text s b fence) := by
    rw [gap_deletable_iff hover hb]
    refine ⟨fun h => h hover b fence hbreak, fun h _ b' fence' hb' => ?_⟩
    rw [hbreak] at hb'
    cases hb'
    exact h
  have hchunks : (∀ p ∈ (pushPiece text s b fence :: ps).dropLast, Closed (p.chunk text)) ↔
      (nextStart text b fence < text.length → Balanced text s b fence) ∧
        ∀ p ∈ ps.dropLast, Closed (p.chunk text) := by
    by_cases hps : ps = []
    · simp [hps, hempty.1 hps]
    · rw [List.dropLast_cons_of_ne_nil hps, List.forall_mem_cons, push_closed_iff hs hover hb]
      have := not_le.1 (mt hempty.2 hps)
      simp [this]
  -- a position is in the piece, in the gap, or behind the next start
  have hgaps : (∀ i, s.start ≤ i → i < text.length →
      Cuts.inCut ((pushPiece text s b fence :: ps).map Piece.cut) i = false → Deletable text i) ↔
      (∀ i, b ≤ i → i < nextStart text b fence → Deletable text i) ∧
        ∀ i, nextStart text b fence ≤ i → i < text.length →
          Cuts.inCut (ps.map Piece.cut) i = false → Deletable text i := by
    have hcut : ∀ i, Cuts.inCut ((pushPiece text s b fence :: ps).map Piece.cut) i =
        (decide (s.start ≤ i ∧ i < b) || Cuts.inCut (ps.map Piece.cut) i) :=
      fun i => Cuts.inCut_cons _ _ _ i
    simp only [hcut, Bool.or_eq_false_iff, decide_eq_false_iff_not]
    constructor
    · refine fun h => ⟨fun i hi hi' => ?_, fun i hi hi' hno => ?_⟩
      · exact h i (by omega) (by omega) ⟨by omega, hrun.ordered.inCut_of_lt hi'⟩
      · exact h i (by omega) hi' ⟨by omega, hno⟩
    · rintro ⟨h1, h2⟩ i hi hi' ⟨hno, hno'⟩
      rcases Nat.lt_or_ge i (nextStart text b fence) with hlt' | hge
      · exact h1 i (by omega) hlt'
      · exact h2 i hge hi' hno'
  unfold Kept
  rw [hgaps, hchunks, hkeeps]
  tauto

theorem Run.dropsNone_iff (hrun : Run text limit s ps) (hs : s.Valid text) :
    Kept text s.start ps ↔ ∀ s', ReachesFrom text limit s s' → Keeps text limit s' := by
  induction hrun with
  | @done s hstart =>
    rw [forall_reachesFrom_of_stuck fun s' h => absurd h.1 (not_lt.2 hstart)]
    refine iff_of_true ⟨fun i hi hi' => by omega, by simp⟩ fun hover => ?_
    exact absurd hover.start_lt_length (not_lt.2 hstart)
  | @last s hstart hfits =>
    rw [forall_reachesFrom_of_stuck]
    · refine iff_of_true ⟨fun i hi hi' hno => ?_, by simp⟩ fun hover => absurd hover hfits
      rw [List.map_singleton, Piece.cut, Cuts.inCut_cons] at hno
      simp [lastPiece, hi, hi'] at hno
    · rintro s' ⟨-, p, hp⟩
      rw [chunkTurn_last hstart hfits] at hp
      cases hp
  | @push s b fence ps hover hb hbreak hturn hrun ih =>
    rw [kept_push hs hover hb hbreak hrun,
      forall_reachesFrom_of_push hover.start_lt_length hturn, ← ih (nextState_valid hover hb)]
    rfl

/-- The text with nothing deleted but white space outside of the fences. -/
def LosesNothing (text : Units) (ps : List Piece) : Prop :=
  (ps.map (Piece.content text)).flatten = Cuts.kept text (ps.map Piece.cut) ∧
    ∀ i < text.length, Cuts.inCut (ps.map Piece.cut) i = false → Deletable text i

theorem keeps_all_iff (h : Cuts.Ordered text.length 0 (ps.map Piece.cut)) :
    (LosesNothing text ps ∧ ∀ chunk ∈ (ps.map (Piece.chunk text)).dropLast, Closed chunk) ↔
      Kept text 0 ps := by
  have hflatten : (ps.map (Piece.content text)).flatten = Cuts.kept text (ps.map Piece.cut) := by
    rw [← Cuts.slices_eq_kept h, List.map_map]
    rfl
  simp only [LosesNothing, hflatten, true_and, Kept, Nat.zero_le, true_implies,
    ← List.map_dropLast, List.forall_mem_map]

/-- **`chunkMarkdownText` keeps the text and its fences exactly when every turn does.** -/
theorem chunks_keep_iff (text : Units) (limit : ℤ) :
    ∃ ps, (∀ fuel, text.length < fuel → chunkPieces fuel text limit = some ps ∧
      chunkMarkdownText fuel text limit = some (ps.map (Piece.chunk text))) ∧
      ((LosesNothing text ps ∧ ∀ chunk ∈ (ps.map (Piece.chunk text)).dropLast, Closed chunk) ↔
        limit ≤ 0 ∨ ∀ s, Reaches text limit.toNat s → Keeps text limit.toNat s) := by
  have hchunks : ∀ ps, (∀ fuel, text.length < fuel → chunkPieces fuel text limit = some ps) →
      ∀ fuel, text.length < fuel → chunkPieces fuel text limit = some ps ∧
        chunkMarkdownText fuel text limit = some (ps.map (Piece.chunk text)) := by
    intro ps hps fuel hfuel
    rw [chunkMarkdownText, hps fuel hfuel]
    exact ⟨rfl, rfl⟩
  by_cases hne : text = []
  · subst hne
    have hrun : Run [] limit.toNat { start := 0, reopenFence := none } [] := .done (Nat.zero_le _)
    refine ⟨[], hchunks _ fun fuel _ => by simp [chunkPieces], ?_⟩
    rw [keeps_all_iff hrun.ordered, hrun.dropsNone_iff fun _ h => absurd h (Option.not_mem_none _)]
    have : ∀ s, Reaches [] limit.toNat s → Keeps [] limit.toNat s := by
      intro s _ hover
      exact absurd hover.start_lt_length (Nat.not_lt_zero _)
    exact iff_of_true this (.inr this)
  by_cases hlimit : 0 < limit
  · obtain ⟨ps, hrun, hloop⟩ := chunkPieces_run hne hlimit
    refine ⟨ps, hchunks ps hloop, ?_⟩
    rw [keeps_all_iff hrun.ordered, hrun.dropsNone_iff fun _ h => absurd h (Option.not_mem_none _), or_iff_right (not_le.2 hlimit)]
    rfl
  · refine ⟨[{ reopenPrefix := [], start := 0, stop := text.length }],
      hchunks _ fun fuel _ => ?_, ?_⟩
    · rw [chunkPieces, if_neg hne, if_pos (.inl (not_lt.1 hlimit))]
    · have hordered : Cuts.Ordered text.length 0 [(0, text.length)] :=
        ⟨le_rfl, Nat.zero_le _, le_rfl, trivial⟩
      rw [keeps_all_iff hordered]
      refine iff_of_true ⟨fun i _ hi hno => ?_, by simp⟩ (.inl (not_lt.1 hlimit))
      rw [List.map_singleton, Piece.cut, Cuts.inCut_cons] at hno
      simp [hi] at hno

/-- A fenced line that is indented, behind a line that fills a chunk. -/
def indentedLine : Units :=
  [0x60, 0x60, 0x60, 0x0A, 0x61, 0x62, 0x0A, 0x20, 0x20, 0x63, 0x0A, 0x60, 0x60, 0x60]

theorem indent_lost :
    (∀ f ∈ parseFenceSpans indentedLine, f.openLine.length + f.closeLine.length + 3 ≤ 9) ∧
      ∃ ps, chunkPieces 15 indentedLine 9 = some ps ∧ ¬LosesNothing indentedLine ps := by
  have hspans : parseFenceSpans indentedLine =
      [{ start := 0, stop := 14, openLine := [0x60, 0x60, 0x60], marker := [0x60, 0x60, 0x60]
         indent := [] }] := by
    decide
  have hpieces : chunkPieces 15 indentedLine 9 = some
      [{ reopenPrefix := [], start := 0, stop := 5, closing := [0x0A, 0x60, 0x60, 0x60] },
       { reopenPrefix := [0x60, 0x60, 0x60, 0x0A], start := 5, stop := 7
         closing := [0x60, 0x60, 0x60] },
       { reopenPrefix := [0x60, 0x60, 0x60, 0x0A], start := 8, stop := 9
         closing := [0x0A, 0x60, 0x60, 0x60] },
       { reopenPrefix := [0x60, 0x60, 0x60, 0x0A], start := 9, stop := 14 }] := by
    decide +kernel
  refine ⟨by rw [hspans]; decide, _, hpieces, ?_⟩
  rintro ⟨-, hall⟩
  obtain ⟨-, hout⟩ := hall 7 (by decide) (by decide)
  exact hout ⟨_, by rw [hspans]; exact List.mem_singleton_self _, by decide, by decide⟩

end ClawHarder.MarkdownChunks
