import Mathlib.Data.List.GetD
import Mathlib.Data.List.Sort
import Mathlib.Tactic.Linarith
import ClawHarder.Spec.Recall

/-!
# Searching an artifact

A search runs twice over the lines. The first loop collects the places near a match; it
stops when there are as many as the allowed matches can have, which is never before the
last of them. The second one stops at the last of the allowed matches, whether or not
there are more.

* `resultLines_open`, `resultLines_capped`: the second loop below the limit and at it.
* `search_complete_iff`: **a search with at most as many matches as are allowed is
  complete just in case there are fewer, or none.**
-/

namespace ClawHarder

namespace Recall

variable {H : RecallHost} {query : String} {config : RecallConfig} {allLines : List String}

variable {set : List ℕ}

theorem mem_addLines {cs : List ℕ} {c : ℕ} :
    c ∈ cs.foldl addLine set ↔ c ∈ set ∨ c ∈ cs := by
  induction cs generalizing set with
  | nil => simp
  | cons d cs ih =>
    have hone : c ∈ addLine set d ↔ c ∈ set ∨ c = d := by
      unfold addLine
      split
      · rename_i hd
        exact ⟨Or.inl, fun h => h.elim id fun heq => heq ▸ hd⟩
      · rw [List.mem_append, List.mem_singleton]
    rw [List.foldl_cons, ih, hone, List.mem_cons, or_assoc]

theorem nodup_addLines (hset : set.Nodup) (cs : List ℕ) :
    (cs.foldl addLine set).Nodup := by
  induction cs generalizing set with
  | nil => exact hset
  | cons d cs ih =>
    refine ih ?_
    unfold addLine
    split
    · exact hset
    · rename_i hd
      exact List.nodup_append.2 ⟨hset, List.nodup_singleton d, fun x hx y hy hxy => by
        rw [hxy, List.mem_singleton.1 hy] at hx
        exact hd hx⟩

theorem length_addLines_le (set cs : List ℕ) :
    (cs.foldl addLine set).length ≤ set.length + cs.length := by
  induction cs generalizing set with
  | nil => exact le_refl _
  | cons d cs ih =>
    have hone : (addLine set d).length ≤ set.length + 1 := by
      unfold addLine
      split
      · omega
      · rw [List.length_append, List.length_singleton]
    have hrest := ih (addLine set d)
    rw [List.foldl_cons, List.length_cons]
    omega

theorem mem_contextOf {ctx total i c : ℕ} (hi : i < total) :
    c ∈ contextOf ctx total i ↔ (i ≤ c + ctx ∧ c ≤ i + ctx) ∧ c < total := by
  unfold contextOf
  rw [List.mem_range'_1]
  omega

theorem length_contextOf_le (ctx total i : ℕ) : (contextOf ctx total i).length ≤ ctx * 2 + 1 := by
  unfold contextOf
  rw [List.length_range']
  omega

theorem matchedLineNums_nodup (rest : List String) (total i : ℕ) (hset : set.Nodup) :
    (matchedLineNums H query config total rest i set).Nodup := by
  induction rest generalizing i set with
  | nil => exact hset
  | cons line rest ih =>
    unfold matchedLineNums
    have hadd := nodup_addLines hset (contextOf config.searchContextLines total i)
    split
    · dsimp only
      split
      · exact hadd
      · exact ih (i + 1) hadd
    · exact ih (i + 1) hset

variable {rest : List String}

theorem matchedLineNums_lt {total i : ℕ} (hi : i + rest.length ≤ total) (hset : ∀ c ∈ set, c < total) :
    ∀ c ∈ matchedLineNums H query config total rest i set, c < total := by
  induction rest generalizing i set with
  | nil => exact hset
  | cons line rest ih =>
    rw [List.length_cons] at hi
    have hlt : i < total := by omega
    have hadd : ∀ c ∈ (contextOf config.searchContextLines total i).foldl addLine set, c < total := by
      intro c hc
      rcases mem_addLines.1 hc with hc | hc
      · exact hset c hc
      · exact ((mem_contextOf hlt).1 hc).2
    unfold matchedLineNums
    split
    · dsimp only
      split
      · exact hadd
      · exact ih (by omega) hadd
    · exact ih (by omega) hset

/-- The place is in the context of a match among these lines, the first of which is at `i`. -/
def NearMatch (H : RecallHost) (query : String) (ctx : ℕ) (rest : List String) (i c : ℕ) : Prop :=
  ∃ j line, rest[j]? = some line ∧ matchesQuery H query line = true ∧ i + j ≤ c + ctx ∧
    c ≤ i + j + ctx

theorem nearMatch_cons {ctx i c : ℕ} {line : String} :
    NearMatch H query ctx (line :: rest) i c ↔
      (matchesQuery H query line = true ∧ i ≤ c + ctx ∧ c ≤ i + ctx) ∨
        NearMatch H query ctx rest (i + 1) c := by
  constructor
  · rintro ⟨j, line', hline', hmatch, hnear⟩
    cases j with
    | zero =>
      obtain rfl : line = line' := by simpa using hline'
      exact Or.inl ⟨hmatch, by omega, by omega⟩
    | succ j =>
      exact Or.inr ⟨j, line', by simpa using hline', hmatch, by omega, by omega⟩
  · rintro (⟨hmatch, hnear⟩ | ⟨j, line', hline', hmatch, hnear⟩)
    · exact ⟨0, line, rfl, hmatch, by omega, by omega⟩
    · exact ⟨j + 1, line', by simpa using hline', hmatch, by omega, by omega⟩

/-- **The first loop collects the context of every match** while the matches that are left
are among the allowed ones. -/
theorem mem_matchedLineNums {total i : ℕ} (hi : i + rest.length ≤ total)
    (hroom : set.length + rest.countP (matchesQuery H query) * (config.searchContextLines * 2 + 1) ≤
      config.searchMaxMatches * (config.searchContextLines * 2 + 1)) (c : ℕ) :
    c ∈ matchedLineNums H query config total rest i set ↔
      c ∈ set ∨ (NearMatch H query config.searchContextLines rest i c ∧ c < total) := by
  obtain ⟨width, hwidth⟩ : ∃ width, width = config.searchContextLines * 2 + 1 := ⟨_, rfl⟩
  induction rest generalizing i set with
  | nil =>
    have hno : ¬ NearMatch H query config.searchContextLines [] i c := by
      rintro ⟨j, line, hline, -⟩
      cases hline
    simp [matchedLineNums, hno]
  | cons line rest ih =>
    rw [List.length_cons] at hi
    have hlt : i < total := by omega
    unfold matchedLineNums
    by_cases hmatch : matchesQuery H query line = true
    · rw [List.countP_cons_of_pos hmatch, ← hwidth, Nat.add_mul, Nat.one_mul] at hroom
      have hlength :=
        length_addLines_le set (contextOf config.searchContextLines total i)
      have hcontext := length_contextOf_le config.searchContextLines total i
      have hmem : c ∈ (contextOf config.searchContextLines total i).foldl addLine set ↔
          c ∈ set ∨ ((i ≤ c + config.searchContextLines ∧ c ≤ i + config.searchContextLines) ∧
            c < total) := by
        rw [mem_addLines, mem_contextOf hlt]
      have hafter : (c ∈ (contextOf config.searchContextLines total i).foldl addLine set ∨
          (NearMatch H query config.searchContextLines rest (i + 1) c ∧ c < total)) ↔
          c ∈ set ∨
            (NearMatch H query config.searchContextLines (line :: rest) i c ∧ c < total) := by
        rw [hmem, nearMatch_cons]
        simp only [hmatch, true_and]
        tauto
      rw [if_pos hmatch]
      dsimp only
      split
      · -- the places are as many as the matches can have: this was the last one
        rename_i hfull
        rw [← hwidth] at hfull
        have hlast : rest.countP (matchesQuery H query) * width = 0 := by omega
        have hnone : rest.countP (matchesQuery H query) = 0 := by
          rcases Nat.mul_eq_zero.1 hlast with h | h
          · exact h
          · omega
        have hno : ¬ NearMatch H query config.searchContextLines rest (i + 1) c := by
          rintro ⟨j, line', hline', hmatch', -⟩
          have hmem' : line' ∈ rest := List.mem_of_getElem? hline'
          exact absurd hmatch' (List.countP_eq_zero.1 hnone line' hmem')
        rw [← hafter]
        simp [hno]
      · rw [ih (by omega) (by rw [← hwidth]; omega), hafter]
    · rw [List.countP_cons_of_neg hmatch] at hroom
      rw [if_neg hmatch, ih (by omega) hroom, nearMatch_cons]
      simp [hmatch]

def shownPlaces (H : RecallHost) (query : String) (config : RecallConfig) (allLines : List String) :
    List ℕ :=
  (matchedLineNums H query config allLines.length allLines 0 []).insertionSort (· ≤ ·)

theorem shownPlaces_sorted : (shownPlaces H query config allLines).Pairwise (· < ·) := by
  have hnodup : (shownPlaces H query config allLines).Nodup :=
    (List.perm_insertionSort _ _).nodup_iff.2 (matchedLineNums_nodup allLines _ 0 List.nodup_nil)
  have hsorted : (shownPlaces H query config allLines).Pairwise (· ≤ ·) :=
    List.pairwise_insertionSort _ _
  exact (hsorted.and hnodup).imp fun h => lt_of_le_of_ne h.1 h.2

theorem shownPlaces_lt : ∀ c ∈ shownPlaces H query config allLines, c < allLines.length := by
  intro c hc
  rw [shownPlaces, (List.perm_insertionSort _ _).mem_iff] at hc
  refine matchedLineNums_lt (by omega) (fun c hc => ?_) c hc
  cases hc

def contextPlaces (H : RecallHost) (query : String) (ctx : ℕ) (allLines : List String) : List ℕ :=
  (List.range allLines.length).filter fun c =>
    (List.range allLines.length).any fun i =>
      matchesQuery H query (allLines.getD i "") && decide (i ≤ c + ctx) && decide (c ≤ i + ctx)

theorem mem_contextPlaces {ctx c : ℕ} : c ∈ contextPlaces H query ctx allLines ↔
    NearMatch H query ctx allLines 0 c ∧ c < allLines.length := by
  unfold contextPlaces
  simp only [List.mem_filter, List.mem_range, List.any_eq_true, Bool.and_eq_true,
    decide_eq_true_iff]
  rw [and_comm]
  refine and_congr_left fun _ => ?_
  constructor
  · rintro ⟨i, hi, ⟨hmatch, hle⟩, hge⟩
    rw [List.getD_eq_getElem _ _ hi] at hmatch
    exact ⟨i, _, List.getElem?_eq_getElem hi, hmatch, by omega, by omega⟩
  · rintro ⟨i, line, hline, hmatch, hle, hge⟩
    obtain ⟨hi, hget⟩ := List.getElem?_eq_some_iff.1 hline
    refine ⟨i, hi, ⟨?_, by omega⟩, by omega⟩
    rw [List.getD_eq_getElem _ _ hi, hget]
    exact hmatch

/-- **With no more matches than are allowed, a search collects every place in the context of
one**, each once and in order. -/
theorem shownPlaces_eq (hcount : allLines.countP (matchesQuery H query) ≤ config.searchMaxMatches) :
    shownPlaces H query config allLines =
      contextPlaces H query config.searchContextLines allLines := by
  have hplaces : (contextPlaces H query config.searchContextLines allLines).Pairwise (· < ·) :=
    List.pairwise_lt_range.filter _
  have hroom := Nat.mul_le_mul_right (config.searchContextLines * 2 + 1) hcount
  refine shownPlaces_sorted.eq_of_mem_iff hplaces fun c => ?_
  rw [shownPlaces, (List.perm_insertionSort _ _).mem_iff, mem_contextPlaces,
    mem_matchedLineNums (by omega) (by rw [List.length_nil]; omega)]
  simp

theorem countP_contextPlaces (ctx : ℕ) :
    (contextPlaces H query ctx allLines).countP
        (fun i => matchesQuery H query (allLines.getD i "")) =
      allLines.countP (matchesQuery H query) := by
  have hlines : (List.range allLines.length).map (fun i => allLines.getD i "") = allLines := by
    refine List.ext_getElem (by simp) fun i hi hi' => ?_
    rw [List.getElem_map, List.getElem_range, List.getD_eq_getElem _ _ hi']
  rw [contextPlaces, List.countP_filter]
  conv_rhs => rw [← hlines, List.countP_map]
  refine List.countP_congr fun i hi => ?_
  rw [List.mem_range] at hi
  simp only [Bool.and_eq_true, List.any_eq_true, List.mem_range, decide_eq_true_iff,
    Function.comp_apply]
  exact ⟨fun h => h.1, fun h => ⟨h, i, hi, ⟨h, by omega⟩, by omega⟩⟩

def shownLines (lines : List RecallLine) : List RecallLine := lines.filter fun e => 0 < e.n

theorem shownLines_append (xs ys : List RecallLine) :
    shownLines (xs ++ ys) = shownLines xs ++ shownLines ys := List.filter_append xs ys

theorem shownLines_entry (i : ℕ) (lines : List RecallLine) :
    shownLines (entryAt allLines i :: lines) = entryAt allLines i :: shownLines lines := by
  have hpos : decide (0 < (entryAt allLines i).n) = true := by
    rw [decide_eq_true_iff]
    exact Int.natCast_succ_pos i
  exact List.filter_cons_of_pos (p := fun e : RecallLine => decide (0 < e.n)) hpos

def separator (prevLine : ℤ) (i : ℕ) : List RecallLine :=
  if prevLine + 1 < i ∧ 0 ≤ prevLine then [⟨-1, "---"⟩] else []

theorem shownLines_separator (prevLine : ℤ) (i : ℕ) : shownLines (separator prevLine i) = [] := by
  unfold separator
  split <;> rfl

theorem head_capMarker (maxMatches : ℕ) : (capMarker maxMatches).toList.head? = some '[' := by
  have hhead : "[Search capped at ".toList.head? = some '[' := by decide +kernel
  unfold capMarker
  rw [String.toList_append, String.toList_append, List.head?_append, List.head?_append, hhead]
  rfl

theorem cap_ne_separator (maxMatches : ℕ) : capMarker maxMatches ≠ "---" := by
  intro h
  have hhead := head_capMarker maxMatches
  rw [h] at hhead
  exact absurd hhead (by decide +kernel)

theorem cap_not_mem_separator (maxMatches : ℕ) (prevLine : ℤ) (i : ℕ) :
    (⟨-1, capMarker maxMatches⟩ : RecallLine) ∉ separator prevLine i := by
  unfold separator
  split
  · rw [List.mem_singleton, RecallLine.mk.injEq]
    exact fun h => cap_ne_separator maxMatches h.2
  · exact List.not_mem_nil

def matchAt (H : RecallHost) (query : String) (allLines : List String) (i : ℕ) : Bool :=
  matchesQuery H query (allLines.getD i "")

def countAt (H : RecallHost) (query : String) (allLines : List String) (i matchCount : ℕ) : ℕ :=
  if matchAt H query allLines i then matchCount + 1 else matchCount

theorem countAt_add_countP (H : RecallHost) (query : String) (allLines : List String)
    (i matchCount : ℕ) (rest : List ℕ) :
    countAt H query allLines i matchCount + rest.countP (matchAt H query allLines) =
      matchCount + (i :: rest).countP (matchAt H query allLines) := by
  unfold countAt
  split
  · rename_i hmatch
    rw [List.countP_cons_of_pos hmatch]
    omega
  · rename_i hmatch
    rw [List.countP_cons_of_neg hmatch]

theorem resultLines_cons (i : ℕ) (rest : List ℕ) (prevLine : ℤ) (matchCount : ℕ) :
    resultLines H query config allLines (i :: rest) prevLine matchCount =
      if config.searchMaxMatches ≤ countAt H query allLines i matchCount then
        (separator prevLine i ++ [entryAt allLines i, ⟨-1, capMarker config.searchMaxMatches⟩],
          countAt H query allLines i matchCount)
      else
        (separator prevLine i ++ entryAt allLines i ::
            (resultLines H query config allLines rest i (countAt H query allLines i matchCount)).1,
          (resultLines H query config allLines rest i (countAt H query allLines i matchCount)).2) :=
  rfl

theorem shownLines_resultLines (H : RecallHost) (query : String) (config : RecallConfig)
    (allLines : List String) (places : List ℕ) (prevLine : ℤ) (matchCount : ℕ) :
    shownLines (resultLines H query config allLines places prevLine matchCount).1 <+:
      places.map (entryAt allLines) := by
  induction places generalizing prevLine matchCount with
  | nil => exact List.nil_prefix
  | cons i rest ih =>
    rw [resultLines_cons]
    split
    · rw [shownLines_append, shownLines_separator, List.nil_append, shownLines_entry,
        List.map_cons, List.prefix_cons_inj]
      exact List.nil_prefix
    · rw [shownLines_append, shownLines_separator, List.nil_append, shownLines_entry,
        List.map_cons, List.prefix_cons_inj]
      exact ih i _

/-- **Below the limit the second loop shows all places.** -/
theorem resultLines_open {places : List ℕ} (prevLine : ℤ) (matchCount : ℕ)
    (h : matchCount + places.countP (matchAt H query allLines) < config.searchMaxMatches) :
    shownLines (resultLines H query config allLines places prevLine matchCount).1 =
        places.map (entryAt allLines) ∧
      (resultLines H query config allLines places prevLine matchCount).2 =
        matchCount + places.countP (matchAt H query allLines) ∧
      (⟨-1, capMarker config.searchMaxMatches⟩ : RecallLine) ∉
        (resultLines H query config allLines places prevLine matchCount).1 := by
  induction places generalizing prevLine matchCount with
  | nil => exact ⟨rfl, rfl, List.not_mem_nil⟩
  | cons i rest ih =>
    have hcount := countAt_add_countP H query allLines i matchCount rest
    obtain ⟨hshown, hnumber, hcap⟩ := ih i
      (countAt H query allLines i matchCount) (by omega)
    have hbelow : ¬ config.searchMaxMatches ≤ countAt H query allLines i matchCount := by omega
    rw [resultLines_cons, if_neg hbelow]
    refine ⟨?_, hnumber.trans hcount, ?_⟩
    · rw [shownLines_append, shownLines_separator, List.nil_append, shownLines_entry, hshown,
        List.map_cons]
    · rw [List.mem_append, List.mem_cons, not_or, not_or]
      refine ⟨cap_not_mem_separator _ _ _, fun heq => ?_, hcap⟩
      have hn : (-1 : ℤ) = i + 1 := congrArg RecallLine.n heq
      omega

/-- **The second loop reports the limit when it reaches it.** -/
theorem resultLines_capped {places : List ℕ} (prevLine : ℤ) (matchCount : ℕ)
    (hbelow : matchCount < config.searchMaxMatches)
    (h : config.searchMaxMatches ≤ matchCount + places.countP (matchAt H query allLines)) :
    (⟨-1, capMarker config.searchMaxMatches⟩ : RecallLine) ∈
      (resultLines H query config allLines places prevLine matchCount).1 := by
  induction places generalizing prevLine matchCount with
  | nil =>
    rw [List.countP_nil] at h
    omega
  | cons i rest ih =>
    have hcount := countAt_add_countP H query allLines i matchCount rest
    rw [resultLines_cons]
    split
    · simp
    · rename_i hnext
      have hrest := ih i (countAt H query allLines i matchCount) (by omega) (by omega)
      exact List.mem_append_right _ (List.mem_cons_of_mem _ hrest)

/-- The result shows the context of every match, each line once and in order, counts the
matches and reports no limit. -/
structure Complete (H : RecallHost) (query : String) (config : RecallConfig)
    (allLines : List String) (result : RecallResult) : Prop where
  lines : shownLines result.lines =
    (contextPlaces H query config.searchContextLines allLines).map (entryAt allLines)
  matchCount : result.matchCount = some (allLines.countP (matchesQuery H query))
  open_ended : (⟨-1, capMarker config.searchMaxMatches⟩ : RecallLine) ∉ result.lines

def searchFor (refId : RefId) (query : String) : RecallRequest :=
  { refId, mode := .search, query := some query }

theorem exec_search (H : RecallHost) (config : RecallConfig) (ref : Reference) (raw query : String)
    (refId : RefId) :
    (exec H config ref (splitLines raw) (jsLength raw) (searchFor refId query)).lines =
        (resultLines H query config (splitLines raw)
          (shownPlaces H query config (splitLines raw)) (-2) 0).1 ∧
      (exec H config ref (splitLines raw) (jsLength raw) (searchFor refId query)).matchCount =
        some (resultLines H query config (splitLines raw)
          (shownPlaces H query config (splitLines raw)) (-2) 0).2 :=
  ⟨rfl, rfl⟩

/-- **A search with at most as many matches as are allowed is complete just in case it has
not exactly as many, or none are allowed.** -/
theorem search_complete_iff (H : RecallHost) (config : RecallConfig) (ref : Reference)
    (raw query : String) (refId : RefId) :
    ((splitLines raw).countP (matchesQuery H query) ≤ config.searchMaxMatches →
      Complete H query config (splitLines raw)
        (exec H config ref (splitLines raw) (jsLength raw) (searchFor refId query))) ↔
    ¬ ((splitLines raw).countP (matchesQuery H query) = config.searchMaxMatches ∧
      0 < config.searchMaxMatches) := by
  obtain ⟨hlines, hnumber⟩ :=
    exec_search H config ref raw query refId
  obtain ⟨allLines, hall⟩ : ∃ allLines, allLines = splitLines raw := ⟨_, rfl⟩
  rw [← hall] at hlines hnumber ⊢
  have hseen : (contextPlaces H query config.searchContextLines allLines).countP
      (matchAt H query allLines) = allLines.countP (matchesQuery H query) :=
    countP_contextPlaces config.searchContextLines
  constructor
  · rintro hcomplete ⟨hexact, hsome⟩
    have hopen := (hcomplete hexact.le).open_ended
    rw [hlines, shownPlaces_eq hexact.le] at hopen
    exact hopen (resultLines_capped (-2) 0 hsome (by omega))
  · intro hother hcount
    rw [shownPlaces_eq hcount] at hlines hnumber
    by_cases hzero : config.searchMaxMatches = 0
    · -- no match is allowed and there is none
      have hnone : contextPlaces H query config.searchContextLines allLines = [] := by
        refine List.eq_nil_iff_forall_not_mem.2 fun c hc => ?_
        obtain ⟨⟨j, line, hline, hmatch, -⟩, -⟩ := mem_contextPlaces.1 hc
        have hno : allLines.countP (matchesQuery H query) = 0 := by omega
        exact List.countP_eq_zero.1 hno line (List.mem_of_getElem? hline) hmatch
      rw [hnone] at hlines hnumber hseen
      refine ⟨?_, ?_, ?_⟩
      · rw [hlines, hnone]
        rfl
      · rw [hnumber, ← hseen]
        rfl
      · rw [hlines]
        exact List.not_mem_nil
    · have hbelow : 0 + (contextPlaces H query config.searchContextLines allLines).countP
          (matchAt H query allLines) < config.searchMaxMatches := by omega
      obtain ⟨hshown, hreport, hcap⟩ := resultLines_open (-2) 0 hbelow
      refine ⟨?_, ?_, ?_⟩
      · rw [hlines, hshown]
      · rw [hnumber, hreport, Nat.zero_add, hseen]
      · rw [hlines]
        exact hcap

def caseless : RecallHost where
  toLowerCase := id
  readError path := "ENOENT: no such file or directory, open '" ++ path ++ "'"

def noteRef : Reference where
  refId := "REF_note"
  source := "shell"
  label := "note"
  path := "/artifacts/REF_note.txt"
  contentHash := "one\ntwo"
  lineCount := 2
  byteSize := 7
  createdAt := "1970-01-01T00:00:00.000Z"
  relatedFactIds := []

theorem exact_search_capped :
    (splitLines "one\ntwo").countP (matchesQuery caseless "one") ≤ 1 ∧
      ¬ Complete caseless "one" { searchMaxMatches := 1 } (splitLines "one\ntwo")
        (exec caseless { searchMaxMatches := 1 } noteRef (splitLines "one\ntwo")
          (jsLength "one\ntwo") (searchFor "REF_note" "one")) := by
  refine ⟨by decide +kernel, fun h => ?_⟩
  exact absurd h.open_ended (by decide +kernel)

end Recall

end ClawHarder
