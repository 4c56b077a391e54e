import ClawHarder.Proof.FenceSpans
import Mathlib.Logic.Relation

/-!
# Turns of the chunk loop

* `chunkTurn_last`, `chunkTurn_push`: what a turn does.
* `chunkLoop_run`: **the loop ends, and its pieces have a property exactly when the piece of every
  turn it reaches has it.**
-/

namespace ClawHarder.MarkdownChunks

open OcPaths (Units isSpace)

def Breakpoints.All (P : ℕ → Prop) (found : Breakpoints) : Prop :=
  (∀ j ∈ found.lastNewline, P j) ∧ ∀ j ∈ found.lastWhitespace, P j

theorem scanBreakpoint_all {text : Units} {isAllowed : ℕ → Bool} {found : Breakpoints} {i : ℕ}
    {P : ℕ → Prop} (hi : isAllowed i = true → P i) (hfound : found.All P) :
    (scanBreakpoint text isAllowed found i).All P := by
  unfold scanBreakpoint
  split
  · exact hfound
  next hallowed =>
    have hP : P i := hi (by simpa using hallowed)
    simp only
    split_ifs
    · exact hfound
    · exact hfound
    · exact hfound
    · refine ⟨?_, hfound.2⟩
      rintro j ⟨⟩
      exact hP
    · refine ⟨hfound.1, ?_⟩
      rintro j ⟨⟩
      exact hP
    · exact hfound

theorem scanParenAwareBreakpoints_all (text : Units) (start stop : ℕ) (isAllowed : ℕ → Bool) :
    (scanParenAwareBreakpoints text start stop isAllowed).All
      fun j => j < stop ∧ isAllowed j = true := by
  unfold scanParenAwareBreakpoints
  apply List.foldlRecOn
  · exact ⟨nofun, nofun⟩
  · intro found hfound i hi
    obtain ⟨hle, hlt⟩ := List.mem_range'_1.1 hi
    exact scanBreakpoint_all (fun hallowed => ⟨by omega, hallowed⟩) hfound

theorem pickSafeBreakIndex_spec {text : Units} {start stop b : ℕ} {spans : List FenceSpan}
    (h : pickSafeBreakIndex text start stop spans = some b) :
    start < b ∧ b < stop ∧ findFenceSpanAt spans b = none := by
  have hscan := scanParenAwareBreakpoints_all text start stop (isSafeFenceBreak spans)
  simp only [pickSafeBreakIndex, Option.or_eq_some_iff, Option.filter_eq_some_iff,
    decide_eq_true_eq] at h
  rcases h with ⟨hb, hlt⟩ | ⟨-, hb, hlt⟩
  · obtain ⟨hstop, hsafe⟩ := hscan.1 b hb
    exact ⟨hlt, hstop, Option.isNone_iff_eq_none.1 hsafe⟩
  · obtain ⟨hstop, hsafe⟩ := hscan.2 b hb
    exact ⟨hlt, hstop, Option.isNone_iff_eq_none.1 hsafe⟩

theorem lastIndexOf_eq_some {text : Units} {c i j : ℕ} (h : lastIndexOf text c i = some j) :
    j ≤ i ∧ text[j]? = some c ∧ ∀ k, j < k → k ≤ i → text[k]? ≠ some c := by
  induction i with
  | zero =>
    simp only [lastIndexOf] at h
    split at h
    next h0 =>
      cases h
      exact ⟨le_rfl, h0, fun k hk hk' => by omega⟩
    · cases h
  | succ i ih =>
    simp only [lastIndexOf] at h
    split at h
    next h0 =>
      cases h
      exact ⟨le_rfl, h0, fun k hk hk' => by omega⟩
    next h0 =>
      obtain ⟨hle, hj, hno⟩ := ih h
      refine ⟨by omega, hj, fun k hk hk' => ?_⟩
      rcases Nat.lt_or_ge i k with hlt | hge
      · rwa [show k = i + 1 by omega]
      · exact hno k hk hge

theorem lastIndexOf_eq_none {text : Units} {c i : ℕ} (h : lastIndexOf text c i = none) :
    ∀ k ≤ i, text[k]? ≠ some c := by
  induction i with
  | zero =>
    simp only [lastIndexOf] at h
    intro k hk
    obtain rfl : k = 0 := by omega
    exact fun h0 => by simp [h0] at h
  | succ i ih =>
    simp only [lastIndexOf] at h
    split at h
    · cases h
    next h0 =>
      intro k hk
      rcases Nat.lt_or_ge i k with hlt | hge
      · rwa [show k = i + 1 by omega]
      · exact ih h k hge

section

variable (text : Units) (limit : ℕ) (s : ChunkState)

def Overflows : Prop := contentLimit limit s < text.length - s.start

/-- A newline of the text with the break behind it far enough, and with room for the marker. -/
def NewlineBreak (fence : FenceSpan) (b : ℕ) : Prop :=
  text[b - 1]? = some newline ∧ minProgressIdx text s fence ≤ b ∧ b ≤ maxIdxIfAlreadyNewline limit s fence

def HasRoom (fence : FenceSpan) : Prop := fence.closeLine.length + 1 < contentLimit limit s

inductive BreaksAt : ℕ → Option FenceSpan → Prop
  /-- The break is in no fence. -/
  | plain {b} (hnone : findFenceSpanAt (parseFenceSpans text) b = none) (hlt : s.start < b)
      (hwindow : b ≤ windowEnd text limit s) (hinitial : initialFence text limit s = none) :
      BreaksAt b none
  /-- The window ends in a fence, and there is no room to split it. -/
  | window {fence} (hfence : initialFence text limit s = some fence)
      (hroom : HasRoom limit s fence → (∀ b, ¬NewlineBreak text limit s fence b) ∧
        maxIdxIfAlreadyNewline limit s fence < minProgressIdx text s fence) :
      BreaksAt (windowEnd text limit s) (some fence)
  /-- The break is behind a newline of the fence. -/
  | newline {fence b} (hfence : initialFence text limit s = some fence)
      (hroom : HasRoom limit s fence) (hb : NewlineBreak text limit s fence b) :
      BreaksAt b (some fence)
  /-- The break is in a line of the fence. -/
  | hard {fence} (hfence : initialFence text limit s = some fence)
      (hroom : HasRoom limit s fence) (hb : ∀ b, ¬NewlineBreak text limit s fence b)
      (hmin : minProgressIdx text s fence ≤ maxIdxIfAlreadyNewline limit s fence) :
      BreaksAt (max (minProgressIdx text s fence) (maxIdxIfNeedNewline limit s fence)) (some fence)

end

variable {text : Units} {limit : ℕ} {s : ChunkState}

theorem contentLimit_pos : 0 < contentLimit limit s := by
  unfold contentLimit
  omega

theorem Overflows.windowEnd_eq (h : Overflows text limit s) :
    windowEnd text limit s = s.start + contentLimit limit s := by
  unfold Overflows at h
  unfold windowEnd
  omega

theorem Overflows.windowEnd_lt (h : Overflows text limit s) :
    windowEnd text limit s < text.length := by
  rw [h.windowEnd_eq]
  unfold Overflows at h
  omega

theorem Overflows.start_lt (h : Overflows text limit s) : s.start < windowEnd text limit s := by
  have hpos : 0 < contentLimit limit s := contentLimit_pos
  rw [h.windowEnd_eq]
  omega

theorem firstBreak_spec (h : Overflows text limit s) :
    s.start < firstBreak text limit s ∧ firstBreak text limit s ≤ windowEnd text limit s ∧
      ∀ fence, initialFence text limit s = some fence →
        firstBreak text limit s = windowEnd text limit s := by
  unfold initialFence firstBreak
  cases hpick : pickSafeBreakIndex text s.start (windowEnd text limit s) (parseFenceSpans text) with
  | none => exact ⟨h.start_lt, le_rfl, fun _ _ => rfl⟩
  | some b =>
    obtain ⟨hlt, hlt', hnone⟩ := pickSafeBreakIndex_spec hpick
    refine ⟨hlt, hlt'.le, fun fence hfence => ?_⟩
    rw [Option.getD_some, hnone] at hfence
    cases hfence

theorem initialFence_spec (h : Overflows text limit s) {fence : FenceSpan}
    (hfence : initialFence text limit s = some fence) :
    fence ∈ parseFenceSpans text ∧ fence.Inside (windowEnd text limit s) := by
  rw [← (firstBreak_spec h).2.2 fence hfence]
  exact findFenceSpanAt_iff.1 hfence

section

variable (hover : Overflows text limit s) {fence : FenceSpan}
  (hfence : initialFence text limit s = some fence)

include hover hfence

theorem inside_of_minProgress {b : ℕ} (hmin : minProgressIdx text s fence ≤ b)
    (hwindow : b ≤ windowEnd text limit s) : fence.Inside b ∧ s.start < b := by
  obtain ⟨hmem, -, hstop⟩ := initialFence_spec hover hfence
  have hend := (parse_within hmem).2.2.2.2
  have hlt := hover.windowEnd_lt
  unfold minProgressIdx at hmin
  refine ⟨⟨?_, ?_⟩, ?_⟩ <;> omega

theorem findFenceSpanAt_inside {b : ℕ} (hin : fence.Inside b) :
    (findFenceSpanAt (parseFenceSpans text) b) = some fence :=
  findFenceSpanAt_iff.2 ⟨(initialFence_spec hover hfence).1, hin⟩

theorem pickedNewline_spec (hroom : HasRoom limit s fence) :
    (∃ b, pickedNewline text limit s fence = some (some b) ∧ NewlineBreak text limit s fence b) ∨
    (pickedNewline text limit s fence = some none ∧ ∀ b, ¬NewlineBreak text limit s fence b) := by
  have hstart : s.start + 1 ≤ minProgressIdx text s fence := by
    have := hover.windowEnd_lt
    have := hover.start_lt
    unfold minProgressIdx
    omega
  have hmax : maxIdxIfAlreadyNewline limit s fence ≤ windowEnd text limit s := by
    rw [hover.windowEnd_eq]
    unfold maxIdxIfAlreadyNewline
    omega
  have hfrom : max s.start (maxIdxIfAlreadyNewline limit s fence - 1) =
      maxIdxIfAlreadyNewline limit s fence - 1 := by
    unfold HasRoom at hroom
    unfold maxIdxIfAlreadyNewline
    omega
  have hpos : 0 < maxIdxIfAlreadyNewline limit s fence := by
    unfold HasRoom at hroom
    unfold maxIdxIfAlreadyNewline
    omega
  unfold pickedNewline NewlineBreak
  rw [hfrom]
  generalize maxIdxIfAlreadyNewline limit s fence = maxIdx at *
  cases hlast : lastIndexOf text newline (maxIdx - 1) with
  | none =>
    refine .inr ⟨rfl, fun b => ?_⟩
    rintro ⟨hb, hmin, hle⟩
    exact lastIndexOf_eq_none hlast (b - 1) (by omega) hb
  | some i =>
    obtain ⟨hi, hnl, hno⟩ := lastIndexOf_eq_some hlast
    -- a newline further back is not far enough either
    have hback : i + 1 < minProgressIdx text s fence → ∀ b,
        ¬(text[b - 1]? = some newline ∧ minProgressIdx text s fence ≤ b ∧ b ≤ maxIdx) := by
      rintro hlt b ⟨hb, hmin, hle⟩
      exact hno (b - 1) (by omega) (by omega) hb
    simp only [pickNewline]
    split
    next hlt => exact .inr ⟨rfl, hback (by omega)⟩
    next hge =>
      split
      next hlt => exact .inr ⟨rfl, hback hlt⟩
      next hmin =>
        obtain ⟨hin, -⟩ := inside_of_minProgress hover hfence (not_lt.1 hmin) (by omega)
        rw [findFenceSpanAt_inside hover hfence hin]
        refine .inl ⟨i + 1, by simp, by simpa using hnl, not_lt.1 hmin, by omega⟩

theorem fencedBreak_breaks :
    ∃ b, fencedBreak text limit s fence = some b ∧ BreaksAt text limit s b (some fence) := by
  unfold fencedBreak
  split
  next hsmall =>
    exact ⟨_, rfl, .window hfence fun hroom => absurd hroom (not_lt.2 hsmall)⟩
  next hlarge =>
    have hroom : HasRoom limit s fence := not_le.1 hlarge
    rcases pickedNewline_spec hover hfence hroom with ⟨b, hpick, hb⟩ | ⟨hpick, hno⟩
    · rw [hpick]
      exact ⟨b, rfl, .newline hfence hroom hb⟩
    · simp only [hpick]
      split
      next hlt => exact ⟨_, rfl, .window hfence fun _ => ⟨hno, hlt⟩⟩
      next hge => exact ⟨_, rfl, .hard hfence hroom hno (not_lt.1 hge)⟩

end

theorem BreaksAt.spec (hover : Overflows text limit s) {b : ℕ} {fence : Option FenceSpan}
    (hb : BreaksAt text limit s b fence) :
    s.start < b ∧ b ≤ windowEnd text limit s ∧
      findFenceSpanAt (parseFenceSpans text) b = fence := by
  cases hb with
  | plain hnone hlt hwindow _ => exact ⟨hlt, hwindow, hnone⟩
  | window hfence _ =>
    exact ⟨hover.start_lt, le_rfl, findFenceSpanAt_iff.2 (initialFence_spec hover hfence)⟩
  | @newline fence b hfence _ hb =>
    obtain ⟨-, hmin, hmax⟩ := hb
    have hwindow : b ≤ windowEnd text limit s := by
      rw [hover.windowEnd_eq]
      unfold maxIdxIfAlreadyNewline at hmax
      omega
    obtain ⟨hin, hlt⟩ := inside_of_minProgress hover hfence hmin hwindow
    exact ⟨hlt, hwindow, findFenceSpanAt_inside hover hfence hin⟩
  | @hard fence hfence _ _ hmin =>
    have hwindow : max (minProgressIdx text s fence) (maxIdxIfNeedNewline limit s fence) ≤
        windowEnd text limit s := by
      rw [hover.windowEnd_eq]
      unfold maxIdxIfAlreadyNewline at hmin
      unfold maxIdxIfNeedNewline
      omega
    obtain ⟨hin, hlt⟩ := inside_of_minProgress hover hfence (le_max_left _ _) hwindow
    exact ⟨hlt, hwindow, findFenceSpanAt_inside hover hfence hin⟩

theorem breakAt_breaks (hover : Overflows text limit s) :
    ∃ b fence, breakAt text limit s = some (b, fence) ∧ BreaksAt text limit s b fence := by
  unfold breakAt
  cases hinitial : initialFence text limit s with
  | none =>
    obtain ⟨hlt, hle, -⟩ := firstBreak_spec hover
    exact ⟨_, _, rfl, .plain hinitial hlt hle hinitial⟩
  | some fence =>
    obtain ⟨b, hb, hbreaks⟩ := fencedBreak_breaks hover hinitial
    refine ⟨b, some fence, ?_, hbreaks⟩
    -- the fence at the break is the one that the window ends in, whatever branch set the break
    simp [hb, (hbreaks.spec hover).2.2]

def lastPiece (text : Units) (s : ChunkState) : Piece :=
  { reopenPrefix := s.reopenPrefix, start := s.start, stop := text.length }

def pushPiece (text : Units) (s : ChunkState) (b : ℕ) (fence : Option FenceSpan) : Piece :=
  { reopenPrefix := s.reopenPrefix, start := s.start, stop := b
    closing := closingOf (s.reopenPrefix ++ slice text s.start b) fence }

theorem slice_length {a b : ℕ} : (slice text a b).length = min b text.length - a := by
  simp [slice]

theorem slice_ne_nil {a b : ℕ} (hlt : a < b) (hle : b ≤ text.length) : slice text a b ≠ [] := by
  intro h
  have := congrArg List.length h
  rw [slice_length, List.length_nil] at this
  omega

theorem chunkTurn_last (hstart : s.start < text.length) (hfits : ¬Overflows text limit s) :
    chunkTurn text limit s = some (.last (lastPiece text s)) := by
  have hne := slice_ne_nil hstart le_rfl
  unfold chunkTurn
  rw [if_pos (not_lt.1 hfits)]
  simp [lastPiece, Piece.chunk, Piece.content, hne]

theorem chunkTurn_push (hover : Overflows text limit s) :
    ∃ b fence, BreaksAt text limit s b fence ∧ breakAt text limit s = some (b, fence) ∧
      chunkTurn text limit s = some (.push (pushPiece text s b fence)
        { start := nextStart text b fence, reopenFence := fence }) := by
  obtain ⟨b, fence, hb, hbreaks⟩ := breakAt_breaks hover
  obtain ⟨hlt, hle, -⟩ := hbreaks.spec hover
  have hne := slice_ne_nil hlt (hle.trans hover.windowEnd_lt.le)
  refine ⟨b, fence, hbreaks, hb, ?_⟩
  unfold chunkTurn
  rw [if_neg (not_le.2 hover), hb]
  simp [pushPiece, hne]

theorem skipLeadingNewlines_spec {n : ℕ} (hn : n ≤ text.length) :
    n ≤ skipLeadingNewlines text n ∧ skipLeadingNewlines text n ≤ text.length := by
  have := (List.takeWhile_sublist (l := text.drop n) fun c => decide (c = newline)).length_le
  rw [List.length_drop] at this
  unfold skipLeadingNewlines
  omega

theorem nextStart_spec {b : ℕ} (hb : b ≤ text.length) (fence : Option FenceSpan) :
    b ≤ nextStart text b fence ∧ nextStart text b fence ≤ text.length := by
  have hmin : b ≤ min text.length (b + if text[b]?.any isSpace then 1 else 0) := by omega
  have hle : min text.length (b + if text[b]?.any isSpace then 1 else 0) ≤ text.length :=
    min_le_left _ _
  have hskip := skipLeadingNewlines_spec hle
  simp only [nextStart]
  split
  · exact ⟨hmin, hle⟩
  · exact ⟨hmin.trans hskip.1, hskip.2⟩

def Pushes (text : Units) (limit : ℕ) (s s' : ChunkState) : Prop :=
  s.start < text.length ∧ ∃ piece, chunkTurn text limit s = some (.push piece s')

abbrev ReachesFrom (text : Units) (limit : ℕ) : ChunkState → ChunkState → Prop :=
  Relation.ReflTransGen (Pushes text limit)

def Reaches (text : Units) (limit : ℕ) (s : ChunkState) : Prop :=
  ReachesFrom text limit { start := 0, reopenFence := none } s

def nextState (text : Units) (b : ℕ) (fence : Option FenceSpan) : ChunkState :=
  { start := nextStart text b fence, reopenFence := fence }

def ChunkState.Valid (text : Units) (s : ChunkState) : Prop :=
  ∀ f ∈ s.reopenFence, f ∈ parseFenceSpans text

theorem nextState_valid (hover : Overflows text limit s) {b : ℕ} {fence : Option FenceSpan}
    (hb : BreaksAt text limit s b fence) : (nextState text b fence).Valid text := by
  intro f hf
  have hfind := (hb.spec hover).2.2
  rw [show fence = some f from hf] at hfind
  exact (findFenceSpanAt_iff.1 hfind).1

inductive Run (text : Units) (limit : ℕ) : ChunkState → List Piece → Prop
  | done {s : ChunkState} (hstart : text.length ≤ s.start) : Run text limit s []
  | last {s : ChunkState} (hstart : s.start < text.length) (hfits : ¬Overflows text limit s) :
      Run text limit s [lastPiece text s]
  | push {s : ChunkState} {b : ℕ} {fence : Option FenceSpan} {ps : List Piece}
      (hover : Overflows text limit s) (hb : BreaksAt text limit s b fence)
      (hbreak : breakAt text limit s = some (b, fence))
      (hturn : chunkTurn text limit s =
        some (.push (pushPiece text s b fence) (nextState text b fence)))
      (hrun : Run text limit (nextState text b fence) ps) :
      Run text limit s (pushPiece text s b fence :: ps)

theorem Overflows.start_lt_length (h : Overflows text limit s) : s.start < text.length :=
  h.start_lt.trans h.windowEnd_lt

/-- **The loop ends**, by induction on what is left of the text. -/
theorem chunkLoop_run (text : Units) (limit : ℕ) (s : ChunkState) :
    ∃ ps, Run text limit s ps ∧
      ∀ fuel, text.length - s.start < fuel → chunkLoop text limit fuel s = some ps := by
  induction hn : text.length - s.start using Nat.strong_induction_on generalizing s with
  | _ n ih =>
    subst hn
    by_cases hstart : text.length ≤ s.start
    · refine ⟨[], .done hstart, fun fuel hfuel => ?_⟩
      obtain ⟨fuel, rfl⟩ := Nat.exists_eq_succ_of_ne_zero (Nat.ne_zero_of_lt hfuel)
      rw [chunkLoop, if_pos hstart]
    by_cases hover : Overflows text limit s
    · obtain ⟨b, fence, hb, hbreak, hturn⟩ := chunkTurn_push hover
      obtain ⟨hlt, hle, -⟩ := hb.spec hover
      have hend := hover.windowEnd_lt
      obtain ⟨hnext, -⟩ := nextStart_spec (show b ≤ text.length by omega) fence
      have hless : text.length - nextStart text b fence < text.length - s.start := by omega
      obtain ⟨ps, hrun, hloop⟩ := ih _ hless (nextState text b fence) rfl
      refine ⟨_, .push hover hb hbreak hturn hrun, fun fuel hfuel => ?_⟩
      obtain ⟨fuel, rfl⟩ := Nat.exists_eq_succ_of_ne_zero (Nat.ne_zero_of_lt hfuel)
      have hrest := hloop fuel (by omega)
      rw [chunkLoop, if_neg hstart, hturn]
      simp [nextState, ← hrest]
    · refine ⟨_, .last (not_le.1 hstart) hover, fun fuel hfuel => ?_⟩
      obtain ⟨fuel, rfl⟩ := Nat.exists_eq_succ_of_ne_zero (Nat.ne_zero_of_lt hfuel)
      rw [chunkLoop, if_neg hstart, chunkTurn_last (not_le.1 hstart) hover]

theorem chunkPieces_run (hne : text ≠ []) {limit : ℤ} (hlimit : 0 < limit) :
    ∃ ps, Run text limit.toNat { start := 0, reopenFence := none } ps ∧
      ∀ fuel, text.length < fuel → chunkPieces fuel text limit = some ps := by
  have hlen : 0 < text.length := List.length_pos_iff.2 hne
  by_cases hshort : (text.length : ℤ) ≤ limit
  · refine ⟨_, .last hlen ?_, fun fuel _ => ?_⟩
    · simp only [Overflows, contentLimit, ChunkState.reopenPrefix, List.length_nil]
      omega
    · rw [chunkPieces, if_neg hne, if_pos (.inr hshort)]
      rfl
  · obtain ⟨ps, hrun, hloop⟩ := chunkLoop_run text limit.toNat { start := 0, reopenFence := none }
    refine ⟨ps, hrun, fun fuel hfuel => ?_⟩
    rw [chunkPieces, if_neg hne, if_neg (not_or.2 ⟨not_le.2 hlimit, hshort⟩)]
    exact hloop fuel hfuel

variable {C : ChunkState → Prop}

theorem forall_reachesFrom_of_stuck (h : ∀ s', ¬Pushes text limit s s') :
    (∀ s', ReachesFrom text limit s s' → C s') ↔ C s := by
  refine ⟨fun hall => hall s .refl, fun hC s' hs' => ?_⟩
  rcases Relation.ReflTransGen.cases_head hs' with rfl | ⟨c, hc, -⟩
  · exact hC
  · exact absurd hc (h c)

theorem forall_reachesFrom_of_push (hstart : s.start < text.length)
    {piece : Piece} {next : ChunkState} (hturn : chunkTurn text limit s = some (.push piece next)) :
    (∀ s', ReachesFrom text limit s s' → C s') ↔
      C s ∧ ∀ s', ReachesFrom text limit next s' → C s' := by
  have hpush : Pushes text limit s next := ⟨hstart, piece, hturn⟩
  refine ⟨fun hall => ⟨hall s .refl, fun s' hs' => hall s' (.head hpush hs')⟩, ?_⟩
  rintro ⟨hC, hall⟩ s' hs'
  rcases Relation.ReflTransGen.cases_head hs' with rfl | ⟨c, ⟨-, p, hp⟩, hc⟩
  · exact hC
  · rw [hturn] at hp
    cases hp
    exact hall s' hc

/-- **A property of the pieces of a run, turn by turn.** What a turn's piece has exactly under a
condition on the state, the pieces of a run have exactly when every state it comes to meets it. -/
theorem Run.forall_iff {P : Piece → Prop} {V : ChunkState → Prop}
    (hdone : ∀ s, text.length ≤ s.start → C s)
    (hlast : ∀ s, V s → s.start < text.length → ¬Overflows text limit s →
      (P (lastPiece text s) ↔ C s))
    (hpush : ∀ s b fence, V s → Overflows text limit s → BreaksAt text limit s b fence →
      V (nextState text b fence) ∧ (P (pushPiece text s b fence) ↔ C s))
    {ps : List Piece} (hrun : Run text limit s ps) (hs : V s) :
    (∀ p ∈ ps, P p) ↔ ∀ s', ReachesFrom text limit s s' → C s' := by
  induction hrun with
  | @done s hstart =>
    rw [forall_reachesFrom_of_stuck fun s' h => absurd h.1 (not_lt.2 hstart)]
    simpa using hdone s hstart
  | @last s hstart hfits =>
    rw [forall_reachesFrom_of_stuck, List.forall_mem_singleton, hlast s hs hstart hfits]
    rintro s' ⟨-, p, hp⟩
    rw [chunkTurn_last hstart hfits] at hp
    cases hp
  | @push s b fence ps hover hb _ hturn hrun ih =>
    obtain ⟨hnext, hiff⟩ := hpush s b fence hs hover hb
    rw [forall_reachesFrom_of_push hover.start_lt_length hturn, List.forall_mem_cons, hiff,
      ih hnext]

end ClawHarder.MarkdownChunks
