import ClawHarder.Proof.RecallSearch
import ClawHarder.Proof.View

/-!
# True line numbers

In each mode the entries that show a line are those of an increasing list of places in
the artifact; what else is shown has the number -1.

* `exec_true`: what each mode shows.
* `recall_true_lines`: **a recall of an intact artifact shows lines by their numbers in
  increasing order, and what a summary or a full recall omits is what its marker says.**
-/

namespace ClawHarder

namespace Recall

variable {H : RecallHost} {config : RecallConfig} {allLines : List String}

/-- Every entry with a positive number is that line, and these numbers increase. -/
structure TrueLines (allLines : List String) (lines : List RecallLine) : Prop where
  text : ∀ e ∈ lines, 0 < e.n → allLines[(e.n - 1).toNat]? = some e.text
  increasing : (shownLines lines).Pairwise fun a b => a.n < b.n

/-- The lines that are shown and those that the marker counts are all lines; without a
marker none is omitted. -/
def Accounted (marker : ℕ → String) (total : ℕ) (lines : List RecallLine) : Prop :=
  ∃ omitted, (shownLines lines).length + omitted = total ∧
    ((omitted = 0 ∧ ∀ e ∈ lines, 0 < e.n) ∨
      lines.filter (fun e => ¬ 0 < e.n) = [⟨-1, marker omitted⟩])

theorem trueLines_of_places {lines : List RecallLine} {places : List ℕ}
    (hsorted : places.Pairwise (· < ·)) (hlt : ∀ c ∈ places, c < allLines.length)
    (h : shownLines lines = places.map (entryAt allLines)) : TrueLines allLines lines where
  text e he hpos := by
    have hshown : e ∈ shownLines lines := List.mem_filter.2 ⟨he, decide_eq_true hpos⟩
    rw [h] at hshown
    obtain ⟨c, hc, rfl⟩ := List.mem_map.1 hshown
    have hplace : ((entryAt allLines c).n - 1).toNat = c := by
      show ((c : ℤ) + 1 - 1).toNat = c
      omega
    rw [hplace, List.getElem?_eq_getElem (hlt c hc)]
    exact congrArg some (List.getD_eq_getElem _ _ (hlt c hc)).symm
  increasing := by
    rw [h, List.pairwise_map]
    refine hsorted.imp fun {a b} hab => ?_
    show (a : ℤ) + 1 < b + 1
    omega

theorem shownLines_entries (places : List ℕ) :
    shownLines (places.map (entryAt allLines)) = places.map (entryAt allLines) := by
  induction places with
  | nil => rfl
  | cons c places ih => rw [List.map_cons, shownLines_entry, ih]

/-- **A slice, numbered from its first place.** -/
theorem numbered_slice (allLines : List String) (start stop : ℕ) :
    numbered (start + 1) ((allLines.take stop).drop start) =
      (List.range' start (min stop allLines.length - start)).map (entryAt allLines) := by
  refine List.ext_getElem (by simp [numbered]) fun i hi hi' => ?_
  rw [List.length_map, List.length_range'] at hi'
  have hlt : start + i < allLines.length := by omega
  simp only [numbered, List.getElem_mapIdx, List.getElem_drop, List.getElem_take, List.getElem_map,
    List.getElem_range', entryAt, RecallLine.mk.injEq]
  refine ⟨by omega, ?_⟩
  rw [Nat.one_mul, List.getD_eq_getElem _ _ hlt]

theorem slice_true (allLines : List String) (start stop : ℕ) :
    TrueLines allLines (numbered (start + 1) ((allLines.take stop).drop start)) := by
  rw [numbered_slice]
  refine trueLines_of_places (List.pairwise_lt_range' ..) (fun c hc => ?_) (shownLines_entries _)
  rw [List.mem_range'_1] at hc
  omega

theorem numbered_take (allLines : List String) (stop : ℕ) :
    numbered 1 (allLines.take stop) =
      (List.range (min stop allLines.length)).map (entryAt allLines) := by
  have hslice := numbered_slice allLines 0 stop
  rw [List.drop_zero, Nat.sub_zero, Nat.cast_zero, zero_add] at hslice
  rw [hslice, List.range_eq_range']

theorem head_true (request : RecallRequest) :
    TrueLines allLines (numbered 1 (headLines config request allLines)) := by
  have hzero : slicePlace allLines.length 0 = 0 := by
    unfold slicePlace
    rw [if_neg (lt_irrefl 0)]
    exact Nat.zero_min _
  have hslice := slice_true allLines 0
    (slicePlace allLines.length (request.endLine.getD config.defaultLines))
  rw [Nat.cast_zero, zero_add] at hslice
  unfold headLines slice
  rw [hzero]
  exact hslice

theorem tail_true (request : RecallRequest) :
    TrueLines allLines (numbered (tailFrom config request allLines + 1)
      (allLines.drop (tailFrom config request allLines))) := by
  have hslice := slice_true allLines (tailFrom config request allLines)
    allLines.length
  rwa [List.take_length] at hslice

theorem range_true (request : RecallRequest) :
    TrueLines allLines (numbered (rangeStart request) (rangeLines request allLines)) := by
  have hstart : 1 ≤ rangeStart request := le_max_left _ _
  unfold rangeLines slice
  dsimp only
  obtain ⟨stop, hstop⟩ : ∃ stop, stop = slicePlace allLines.length
    (min (allLines.length : ℤ) (request.endLine.getD allLines.length)) := ⟨_, rfl⟩
  rw [← hstop]
  by_cases hin : rangeStart request - 1 < allLines.length
  · have hplace : slicePlace allLines.length (rangeStart request - 1) =
        (rangeStart request - 1).toNat := by
      unfold slicePlace
      rw [if_neg (by omega)]
      omega
    have hslice := slice_true allLines (rangeStart request - 1).toNat stop
    have hfirst : (((rangeStart request - 1).toNat : ℕ) : ℤ) + 1 = rangeStart request := by omega
    rw [hfirst] at hslice
    rw [hplace]
    exact hslice
  · -- the window begins after the last line
    have hplace : slicePlace allLines.length (rangeStart request - 1) = allLines.length := by
      unfold slicePlace
      rw [if_neg (by omega)]
      omega
    have hempty : (allLines.take stop).drop allLines.length = [] :=
      List.drop_eq_nil_of_le (List.length_take_le' _ _)
    rw [hplace, hempty]
    have hnone : ∀ c ∈ ([] : List ℕ), c < allLines.length := fun c hc => by cases hc
    exact trueLines_of_places List.Pairwise.nil hnone rfl

theorem search_true (query : String) :
    TrueLines allLines (searchLines H query config allLines).1 := by
  obtain ⟨hidden, hprefix⟩ := shownLines_resultLines H query config allLines
    (shownPlaces H query config allLines) (-2) 0
  obtain ⟨shown, rest, hplaces, hshown, -⟩ := List.map_eq_append_iff.1 hprefix.symm
  have hpart : shown.Sublist (shownPlaces H query config allLines) := by
    rw [hplaces]
    exact List.sublist_append_left shown rest
  refine trueLines_of_places (shownPlaces_sorted.sublist hpart)
    (fun c hc => shownPlaces_lt c (hpart.subset hc)) hshown.symm

theorem prefix_takeCapped (lines : List String) (taken bytes : ℕ) :
    takeCapped config lines taken bytes <+: lines := by
  induction lines generalizing taken bytes with
  | nil => exact List.nil_prefix
  | cons line rest ih =>
    unfold takeCapped
    split
    · exact List.nil_prefix
    · exact (List.prefix_cons_inj line).2 (ih _ _)

theorem markers_around (allLines : List String) (places places' : List ℕ) (marker : RecallLine) (hmarker : marker.n = -1) :
    (places.map (entryAt allLines) ++ [marker] ++ places'.map (entryAt allLines)).filter
      (fun e => ¬ 0 < e.n) = [marker] := by
  have hnone : ∀ cs : List ℕ, (cs.map (entryAt allLines)).filter (fun e => ¬ 0 < e.n) = [] := by
    intro cs
    refine List.filter_eq_nil_iff.2 fun e he => ?_
    obtain ⟨c, -, rfl⟩ := List.mem_map.1 he
    have hpos : 0 < (entryAt allLines c).n := Int.natCast_succ_pos c
    simp [hpos]
  rw [List.filter_append, List.filter_append, hnone, hnone, List.filter_singleton]
  simp [hmarker]

theorem shownLines_around (allLines : List String) (places places' : List ℕ) (marker : RecallLine)
    (hmarker : marker.n = -1) :
    shownLines (places.map (entryAt allLines) ++ [marker] ++ places'.map (entryAt allLines)) =
      (places ++ places').map (entryAt allLines) := by
  have hdrop : shownLines [marker] = [] := by
    unfold shownLines
    rw [List.filter_singleton]
    simp [hmarker]
  rw [shownLines_append, shownLines_append, shownLines_entries, shownLines_entries, hdrop,
    List.append_nil, List.map_append]

theorem accounted_all {marker : ℕ → String} {places : List ℕ} {total : ℕ}
    (h : places.length = total) :
    Accounted marker total (places.map (entryAt allLines)) := by
  refine ⟨0, ?_, Or.inl ⟨rfl, ?_⟩⟩
  · rw [shownLines_entries, List.length_map, h, Nat.add_zero]
  · intro e he
    obtain ⟨c, -, rfl⟩ := List.mem_map.1 he
    exact Int.natCast_succ_pos c

def summaryPlaces (config : RecallConfig) (total : ℕ) : List ℕ × List ℕ :=
  let n := min config.defaultLines (total / 2)
  (List.range n, List.range' (total - n) n)

theorem summaryLines_eq :
    summaryLines config allLines =
      (summaryPlaces config allLines.length).1.map (entryAt allLines) ++
        (if min config.defaultLines (allLines.length / 2) * 2 < allLines.length then
          [⟨-1, summaryMarker
            (allLines.length - min config.defaultLines (allLines.length / 2) * 2)⟩] else []) ++
          (summaryPlaces config allLines.length).2.map (entryAt allLines) := by
  unfold summaryLines summaryPlaces
  dsimp only
  obtain ⟨n, hn⟩ : ∃ n, n = min config.defaultLines (allLines.length / 2) := ⟨_, rfl⟩
  have hhalf : n * 2 ≤ allLines.length := by omega
  have hhead : min n allLines.length = n := by omega
  have hstart : max n (allLines.length - n) = allLines.length - n := by omega
  have htail : allLines.length - (allLines.length - n) = n := by omega
  rw [← hn, hhead, hstart, htail]

theorem summary_true :
    TrueLines allLines (summaryLines config allLines) ∧
      Accounted summaryMarker allLines.length (summaryLines config allLines) := by
  obtain ⟨n, hn⟩ : ∃ n, n = min config.defaultLines (allLines.length / 2) := ⟨_, rfl⟩
  have hhalf : n * 2 ≤ allLines.length := by omega
  have hplaces : summaryPlaces config allLines.length =
      (List.range n, List.range' (allLines.length - n) n) := by
    rw [hn]
    rfl
  have hsorted : (List.range n ++ List.range' (allLines.length - n) n).Pairwise (· < ·) := by
    refine List.pairwise_append.2 ⟨List.pairwise_lt_range, List.pairwise_lt_range' .., ?_⟩
    intro a ha b hb
    rw [List.mem_range] at ha
    rw [List.mem_range'_1] at hb
    omega
  have hlt : ∀ c ∈ List.range n ++ List.range' (allLines.length - n) n, c < allLines.length := by
    intro c hc
    rw [List.mem_append, List.mem_range, List.mem_range'_1] at hc
    omega
  have hlength : (List.range n ++ List.range' (allLines.length - n) n).length = n * 2 := by
    rw [List.length_append, List.length_range, List.length_range']
    omega
  rw [summaryLines_eq, hplaces, ← hn]
  by_cases hgap : n * 2 < allLines.length
  · rw [if_pos hgap]
    have hshown := shownLines_around allLines (List.range n)
      (List.range' (allLines.length - n) n) ⟨-1, summaryMarker (allLines.length - n * 2)⟩ rfl
    refine ⟨trueLines_of_places hsorted hlt hshown, allLines.length - n * 2, ?_, Or.inr ?_⟩
    · rw [hshown, List.length_map, hlength]
      omega
    · exact markers_around _ _ _ _ rfl
  · rw [if_neg hgap, List.append_nil, ← List.map_append]
    exact ⟨trueLines_of_places hsorted hlt (shownLines_entries _),
      accounted_all (by rw [hlength]; omega)⟩

theorem full_true (byteSize : ℕ) :
    TrueLines allLines (fullLines config allLines byteSize) ∧
      Accounted truncationMarker allLines.length (fullLines config allLines byteSize) := by
  have hrange : ∀ k, (List.range (min k allLines.length)).Pairwise (· < ·) :=
    fun k => List.pairwise_lt_range
  have hlt : ∀ k, ∀ c ∈ List.range (min k allLines.length), c < allLines.length := by
    intro k c hc
    rw [List.mem_range] at hc
    omega
  unfold fullLines
  split
  · dsimp only
    obtain ⟨k, hk⟩ : ∃ k, k = (takeCapped config allLines 0 0).length := ⟨_, rfl⟩
    have htaken : takeCapped config allLines 0 0 = allLines.take k := by
      rw [hk]
      exact (List.prefix_iff_eq_take.1 (prefix_takeCapped allLines 0 0))
    have hle : k ≤ allLines.length := by
      rw [hk]
      exact (prefix_takeCapped allLines 0 0).length_le
    have hshown := shownLines_around allLines (List.range (min k allLines.length)) []
      ⟨-1, truncationMarker (allLines.length - k)⟩ rfl
    have hmarkers := markers_around allLines (List.range (min k allLines.length)) []
      ⟨-1, truncationMarker (allLines.length - k)⟩ rfl
    rw [List.map_nil, List.append_nil] at hshown hmarkers
    rw [List.append_nil] at hshown
    rw [← hk, htaken, numbered_take]
    refine ⟨trueLines_of_places (hrange k) (hlt k) hshown, allLines.length - k, ?_,
      Or.inr hmarkers⟩
    rw [hshown, List.length_map, List.length_range]
    omega
  · have hall := numbered_take allLines allLines.length
    rw [List.take_length] at hall
    rw [hall]
    exact ⟨trueLines_of_places (hrange _) (hlt _) (shownLines_entries _),
      accounted_all (by rw [List.length_range, Nat.min_self])⟩

structure Truthful (allLines : List String) (result : RecallResult) : Prop where
  lines : TrueLines allLines result.lines
  total : result.totalLines = allLines.length
  summary : result.mode = .summary → Accounted summaryMarker allLines.length result.lines
  full : result.mode = .full → Accounted truncationMarker allLines.length result.lines

/-- **Each mode is truthful.** -/
theorem exec_true (ref : Reference) (byteSize : ℕ) (request : RecallRequest) :
    Truthful allLines (exec H config ref allLines byteSize request) := by
  obtain ⟨refId, mode, startLine, endLine, query⟩ := request
  cases mode with
  | summary => exact ⟨summary_true.1, rfl, fun _ => summary_true.2, fun h => by cases h⟩
  | head => exact ⟨head_true _, rfl, fun h => (by cases h), fun h => by cases h⟩
  | tail => exact ⟨tail_true _, rfl, fun h => (by cases h), fun h => by cases h⟩
  | range => exact ⟨range_true _, rfl, fun h => (by cases h), fun h => by cases h⟩
  | full =>
    exact ⟨(full_true byteSize).1, rfl, fun h => (by cases h), fun _ => (full_true byteSize).2⟩
  | search => exact ⟨search_true _, rfl, fun h => (by cases h), fun h => by cases h⟩

theorem exec_mode (ref : Reference) (byteSize : ℕ) (request : RecallRequest) :
    (exec H config ref allLines byteSize request).mode = request.mode := by
  obtain ⟨refId, mode, startLine, endLine, query⟩ := request
  cases mode <;> rfl

variable {N : Type} [JsNumber N]

/-- **A recall of an intact artifact shows lines by their numbers in increasing order, and
what a summary or a full recall omits is what its marker says.** -/
theorem recall_true_lines (E : Env N) (H : RecallHost) (config : RecallConfig) (io : Io)
    (request : RecallRequest) (s : Engine N) (hvalid : validateRequest request = none)
    (ref : Reference) (href : s.getReference request.refId = some ref)
    (hread : io.readFails = false) (content : Content)
    (hstored : s.disk.artifacts.get? ref.path = some content)
    (hintact : E.sha256 content.text = ref.contentHash) :
    ∃ result, (recallEvidence E H config io request s).1 = .ok result ∧
      result.mode = request.mode ∧ Truthful (splitLines content.text) result := by
  refine ⟨exec H config ref (splitLines content.text) (jsLength content.text) request, ?_,
    exec_mode _ _ _, exec_true _ _ _⟩
  unfold recallEvidence
  simp only [hvalid, href, hread, hstored, hintact, ne_eq, not_true_eq_false, if_false,
    Bool.false_eq_true]

def noteManager : Engine ℚ :=
  let s := Engine.fresh (Env.plain ℚ) "agent" (Disk.empty ℚ) {}
  { s with
    working := { s.working with references := s.working.references.set "REF_note" noteRef }
    disk := { s.disk with artifacts := s.disk.artifacts.set noteRef.path ⟨"one\ntwo", 7⟩ } }

theorem note_recalled :
    ∃ result,
      (recallEvidence (Env.plain ℚ) caseless {} {} { refId := "REF_note", mode := .full }
        noteManager).1 = .ok result ∧ result.mode = .full ∧ Truthful (splitLines "one\ntwo") result :=
  recall_true_lines (Env.plain ℚ) caseless {} {} { refId := "REF_note", mode := .full } noteManager
    rfl noteRef rfl rfl ⟨"one\ntwo", 7⟩ rfl rfl

end Recall

end ClawHarder
