import ClawHarder.Proof.OcSentinel
import ClawHarder.Spec.Frontmatter

/-!
# Frontmatter that is written and read

What `rebuildMdRaw` writes between the fences is read by another function, which takes quotes off
but no escapes back, and which knows more line separators than the one that is written.

* `readValue_iff`: a value is read back exactly when it is `Legible`.
* `frontmatter_reads_back`: **the entries of a rebuilt text are read back exactly when their keys are
  keys and their values legible**, whatever stands behind them.
-/

namespace ClawHarder.OcPaths

/-- What is put in quotes needs no escape, and what is not is trimmed and not quoted itself; neither
has a line separator. -/
def Legible (value : Units) : Prop :=
  value = [] ∨ (∀ c ∈ value, isTerminator c = false) ∧
    if value.any isFrontmatterStructural then escapeUnits value = value
    else trim value = value ∧ isQuoted value = false

/-- What `KEY: ` stands before is read as. -/
def readValue (text : Units) : Option Units :=
  if (text.dropWhile isSpace).any isTerminator then none else some (unquote (trim text))

variable {value : Units}

theorem length_trim_le (s : Units) : (trim s).length ≤ (s.dropWhile isSpace).length :=
  (List.rdropWhile_prefix isSpace _).length_le

theorem unquote_eq_iff (s : Units) : unquote s = s ↔ isQuoted s = false := by
  unfold unquote
  split
  next h =>
    have hlen : 2 ≤ s.length := by
      simp only [isQuoted, Bool.and_eq_true, decide_eq_true_eq] at h
      exact h.1.1
    refine iff_of_false (fun heq => ?_) (by simp [h])
    have := congrArg List.length heq
    rw [List.length_dropLast, List.length_tail] at this
    omega
  next h => simpa using h

theorem length_unquote_le (s : Units) : (unquote s).length ≤ s.length := by
  unfold unquote
  split
  · rw [List.length_dropLast, List.length_tail]
    omega
  · exact le_rfl

/-- Neither trimming nor taking off quotes can be made up for by the other. -/
theorem unquote_trim_iff : unquote (trim value) = value ↔ trim value = value ∧ isQuoted value = false := by
  constructor
  · intro h
    have hlen := congrArg List.length h
    have hunquote := length_unquote_le (trim value)
    have htrim := length_trim_le value
    have hdrop := (List.dropWhile_suffix isSpace (l := value))
    have hself : value.dropWhile isSpace = value :=
      hdrop.eq_of_length (le_antisymm hdrop.length_le (by omega))
    have hprefix : trim value <+: value := by
      rw [trim, hself]
      exact List.rdropWhile_prefix isSpace value
    have heq : trim value = value :=
      hprefix.eq_of_length (le_antisymm hprefix.length_le (by omega))
    rw [heq] at h
    exact ⟨heq, (unquote_eq_iff value).1 h⟩
  · rintro ⟨htrim, hquoted⟩
    rw [htrim, (unquote_eq_iff value).2 hquoted]

theorem trim_quoted (s : Units) :
    (quote :: (s ++ [quote])).dropWhile isSpace = quote :: (s ++ [quote]) ∧
      trim (quote :: (s ++ [quote])) = quote :: (s ++ [quote]) := by
  have hdrop : (quote :: (s ++ [quote])).dropWhile isSpace = quote :: (s ++ [quote]) :=
    List.dropWhile_cons_of_neg (by decide)
  refine ⟨hdrop, ?_⟩
  rw [trim, hdrop, ← List.cons_append, List.rdropWhile_concat_neg _ _ _ (by decide)]

theorem unquote_quoted (s : Units) : unquote (quote :: (s ++ [quote])) = s := by
  have hquoted : isQuoted (quote :: (s ++ [quote])) = true := by
    simp [isQuoted, List.getLast?_cons]
  rw [unquote, if_pos hquoted, List.tail_cons, List.dropLast_concat]

/-- **A value is read back exactly when it is legible.** -/
theorem readValue_iff : readValue (formatFrontmatterValue value) = some value ↔ Legible value := by
  unfold formatFrontmatterValue Legible
  by_cases hempty : value = []
  · rw [if_pos hempty, hempty]
    simp only [true_or, iff_true]
    decide +kernel
  rw [if_neg hempty]
  simp only [hempty, false_or]
  split
  next hstructural =>
    obtain ⟨hdrop, htrim⟩ := trim_quoted (escapeUnits value)
    rw [jsonString, readValue, hdrop, htrim, unquote_quoted]
    constructor
    · intro h
      split at h
      · cases h
      next hno =>
        have hself : escapeUnits value = value := Option.some.inj h
        refine ⟨fun c hc => ?_, hself⟩
        simp only [List.any_cons, List.any_append, hself, Bool.or_eq_true, not_or, List.any_eq_true,
          not_exists, not_and, Bool.not_eq_true] at hno
        exact hno.2.1 c hc
    · rintro ⟨hno, hself⟩
      rw [hself, if_neg]
      simp only [List.any_cons, List.any_append, List.any_nil, Bool.or_eq_true, not_or,
        Bool.not_eq_true, List.any_eq_false]
      exact ⟨by decide, hno, by decide, trivial⟩
  next hplain =>
    unfold readValue
    constructor
    · intro h
      split at h
      · cases h
      next hno =>
        obtain ⟨htrim, hquoted⟩ := unquote_trim_iff.1 (Option.some.inj h)
        have hdrop : value.dropWhile isSpace = value := by
          have hsuffix := List.dropWhile_suffix isSpace (l := value)
          have hle := length_trim_le value
          rw [htrim] at hle
          exact hsuffix.eq_of_length (le_antisymm hsuffix.length_le hle)
        rw [hdrop] at hno
        exact ⟨by simpa using hno, htrim, hquoted⟩
    · rintro ⟨hno, htrim, hquoted⟩
      rw [if_neg, unquote_trim_iff.2 ⟨htrim, hquoted⟩]
      simp only [List.any_eq_true, not_exists, not_and, Bool.not_eq_true]
      exact fun c hc => hno c ((List.dropWhile_suffix isSpace).subset hc)

/-- What `[a-zA-Z_][a-zA-Z0-9_-]*` matches. -/
def IsKey (key : Units) : Prop := key.head?.any isKeyStart = true ∧ ∀ c ∈ key, isKeyChar c = true

def entryLine (e : FrontmatterEntry) : Units := e.key ++ utf16 ": " ++ formatFrontmatterValue e.value

variable {e : FrontmatterEntry}

theorem entryMatch_line (hkey : IsKey e.key) :
    (entryMatch (entryLine e)).map (fun m => (m.1, unquote (trim m.2))) =
      (readValue (formatFrontmatterValue e.value)).map fun value => (e.key, value) := by
  have hline : entryLine e = e.key ++ colon :: space :: formatFrontmatterValue e.value :=
    List.append_assoc ..
  have htake : (entryLine e).takeWhile isKeyChar = e.key := by
    rw [hline, List.takeWhile_append_of_pos hkey.2, List.takeWhile_cons_of_neg (by decide),
      List.append_nil]
  have hdrop : ((entryLine e).dropWhile isKeyChar).dropWhile isSpace =
      colon :: space :: formatFrontmatterValue e.value := by
    rw [hline, List.dropWhile_append_of_pos hkey.2, List.dropWhile_cons_of_neg (by decide),
      List.dropWhile_cons_of_neg (by decide)]
  have hspace : (space :: formatFrontmatterValue e.value).dropWhile isSpace =
      (formatFrontmatterValue e.value).dropWhile isSpace :=
    List.dropWhile_cons_of_pos (by decide)
  have htrim : trim ((formatFrontmatterValue e.value).dropWhile isSpace) =
      trim (formatFrontmatterValue e.value) := by
    rw [trim, List.dropWhile_idempotent, trim]
  rw [entryMatch, hdrop]
  simp only [hspace, htake, hkey.1, true_and, Bool.not_eq_true', readValue]
  split <;> simp_all

/-- A line that is split off as it is: it has no newline, and no `\r` at its end. -/
def IsLine (line : Units) : Prop := lineFeed ∉ line ∧ line.getLast? ≠ some carriageReturn

theorem isLine_append {s t : Units} (hs : lineFeed ∉ s) (ht : IsLine t) (hne : t ≠ []) :
    IsLine (s ++ t) := by
  refine ⟨by simp [hs, ht.1], ?_⟩
  rw [List.getLast?_append_of_ne_nil _ hne]
  exact ht.2

theorem lineFeed_notMem_hex4 (c : ℕ) : lineFeed ∉ hex4 c := by
  have hdigit : ∀ d < 16, lineFeed ∉ utf16 (String.ofList [Nat.digitChar d]) := by decide +kernel
  intro h
  rcases List.mem_append.1 h with h | h
  · exact absurd (List.eq_of_mem_replicate h) (by decide)
  · rw [utf16, String.toList_ofList, List.mem_flatMap] at h
    obtain ⟨char, hchar, h⟩ := h
    obtain ⟨d, hd, rfl⟩ := mem_hexDigits c char hchar
    refine hdigit d hd ?_
    rwa [utf16, String.toList_ofList, List.flatMap_singleton]

theorem lineFeed_notMem_escapeUnits (s : Units) : lineFeed ∉ escapeUnits s := by
  have hunit : ∀ c, lineFeed ∉ escapeUnit c := by
    intro c
    have hprefix : lineFeed ∉ utf16 "\\u" := by decide
    unfold escapeUnit
    split_ifs with hquote hback hbs htab hnewline
    any_goals decide
    · exact List.not_mem_append hprefix (lineFeed_notMem_hex4 c)
    · simpa using Ne.symm hnewline
  induction s using escapeUnits.induct with
  | case1 => exact List.not_mem_nil
  | case2 c => exact hunit c
  | case3 c d s hpair ih =>
    rw [escapeUnits, if_pos hpair]
    simp only [isHighSurrogate, isLowSurrogate, Bool.and_eq_true, decide_eq_true_eq] at hpair
    simp only [List.mem_cons, ih, or_false, not_or]
    have hnewline : lineFeed = 0x0A := rfl
    omega
  | case4 c d s hpair ih =>
    rw [escapeUnits, if_neg hpair]
    exact List.not_mem_append (hunit c) ih

theorem isLine_format (value : Units) :
    IsLine (formatFrontmatterValue value) ∧ formatFrontmatterValue value ≠ [] := by
  unfold formatFrontmatterValue
  split
  · exact ⟨⟨by decide, by decide⟩, by decide⟩
  next hne =>
    split
    next hstructural =>
      refine ⟨⟨?_, ?_⟩, List.cons_ne_nil _ _⟩
      · rw [jsonString, List.mem_cons, List.mem_append, not_or, not_or]
        exact ⟨by decide, lineFeed_notMem_escapeUnits value, by decide⟩
      · rw [jsonString, ← List.cons_append, List.getLast?_concat]
        decide
    next hplain =>
      have hplain : ∀ c ∈ value, isFrontmatterStructural c = false := by simpa using hplain
      refine ⟨⟨fun hc => ?_, fun hc => ?_⟩, hne⟩
      · have := hplain _ hc
        revert this
        decide
      · have := hplain _ (List.mem_of_getLast? hc)
        revert this
        decide

theorem isLine_entryLine (hkey : IsKey e.key) : IsLine (entryLine e) ∧ entryLine e ≠ fence := by
  obtain ⟨hline, hne⟩ := isLine_format e.value
  refine ⟨isLine_append ?_ hline hne, fun heq => ?_⟩
  · rw [List.mem_append, not_or]
    refine ⟨fun hc => ?_, by decide⟩
    have := hkey.2 _ hc
    revert this
    decide
  · -- a key does not start with a hyphen
    have hhead := hkey.1
    cases hcase : e.key with
    | nil =>
      rw [hcase] at hhead
      cases hhead
    | cons c key =>
      rw [hcase] at hhead
      rw [entryLine, hcase, fence] at heq
      have hc : c = hyphen := (List.cons.inj heq).1
      have hstart : isKeyStart c = true := hhead
      rw [hc] at hstart
      exact absurd hstart (by decide)

theorem dropReturns_append {A : List Units} (hA : ∀ a ∈ A, IsLine a) (lines : List Units) :
    ∃ rest, dropReturns (A ++ lines) = A ++ rest := by
  induction A with
  | nil => exact ⟨_, rfl⟩
  | cons a A ih =>
    obtain ⟨ha, hrest⟩ := List.forall_mem_cons.1 hA
    obtain ⟨rest, hih⟩ := ih hrest
    cases hmore : A ++ lines with
    | nil =>
      obtain ⟨rfl, rfl⟩ := List.append_eq_nil_iff.1 hmore
      exact ⟨[], rfl⟩
    | cons b more =>
      refine ⟨rest, ?_⟩
      rw [List.cons_append, hmore, dropReturns, dropReturn, if_neg ha.2, ← hmore, hih, List.cons_append]

/-- The lines in front of a joined text. -/
theorem splitLines_intercalate {A : List Units} (hA : ∀ a ∈ A, IsLine a) (hne : A ≠ [])
    (t : List Units) : ∃ rest, splitLines ([lineFeed].intercalate (A ++ t)) = A ++ rest := by
  have hsplit : ∃ lines, ([lineFeed].intercalate (A ++ t)).splitOn lineFeed = A ++ lines := by
    induction A with
    | nil => exact absurd rfl hne
    | cons a A ih =>
      obtain ⟨ha, hrest⟩ := List.forall_mem_cons.1 hA
      by_cases hmore : A ++ t = []
      · obtain ⟨rfl, rfl⟩ := List.append_eq_nil_iff.1 hmore
        exact ⟨[], by simpa using List.splitOn_eq_singleton ha.1⟩
      rw [List.cons_append, List.intercalate_cons_of_ne_nil hmore, List.append_assoc,
        List.singleton_append, List.splitOn_append_cons_self_of_not_mem ha.1]
      by_cases hA' : A = []
      · exact ⟨_, by rw [hA']; rfl⟩
      · obtain ⟨lines, hlines⟩ := ih hrest hA'
        exact ⟨lines, by rw [hlines, List.cons_append]⟩
  obtain ⟨lines, hlines⟩ := hsplit
  rw [splitLines, hlines]
  exact dropReturns_append hA lines

theorem prefix_separate (parts : List Units) : parts <+: separate parts := by
  unfold separate
  split
  next h => rw [h]
  · exact List.prefix_append _ _

/-- The fences with the entries between them come first. -/
theorem frontmatterParts_prefix (ast : MdAst) : frontmatterParts ast <+: mdParts ast := by
  have hblock : ∀ (parts : List Units) (block : AstBlock), parts <+: blockParts parts block := by
    intro parts block
    have hheading := (prefix_separate parts).trans
      (List.prefix_append _ [utf16 "## " ++ block.heading])
    simp only [blockParts]
    split
    · exact hheading
    · exact hheading.trans (List.prefix_append _ _)
  have hpreamble : frontmatterParts ast <+: preambleParts ast (frontmatterParts ast) := by
    unfold preambleParts
    split
    · exact List.prefix_rfl
    · exact (prefix_separate _).trans (List.prefix_append _ _)
  unfold mdParts
  generalize preambleParts ast (frontmatterParts ast) = parts at hpreamble
  induction ast.blocks generalizing parts with
  | nil => exact hpreamble
  | cons block blocks ih => exact ih _ (hpreamble.trans (hblock parts block))

/-- What is read has a key. -/
theorem isKey_of_mem {raw : Units} (he : e ∈ parseFrontmatter raw) : IsKey e.key := by
  have hentry : ∀ line, readEntry line = some e → IsKey e.key := by
    intro line hline
    obtain ⟨m, hm, rfl⟩ := Option.map_eq_some_iff.1 hline
    unfold entryMatch at hm
    split at hm
    · cases hm
    · simp only [Option.ite_none_right_eq_some, Option.some.injEq] at hm
      obtain ⟨⟨-, hhead, -⟩, rfl⟩ := hm
      exact ⟨hhead, fun c hc => List.mem_takeWhile_imp hc⟩
  have hdetect : ∀ lines entries close, detectFrontmatter lines = some (entries, close) →
      e ∈ entries → IsKey e.key := by
    intro lines entries close h hmem
    unfold detectFrontmatter at h
    split at h
    · cases h
    · split at h
      · cases h
      · obtain ⟨i, -, heq⟩ := Option.map_eq_some_iff.1 h
        obtain ⟨rfl, -⟩ := Prod.mk.inj heq
        obtain ⟨line, -, hline⟩ := List.mem_filterMap.1 hmem
        exact hentry line hline
  rw [parseFrontmatter] at he
  generalize splitLines _ = lines at he
  cases hfound : detectFrontmatter lines with
  | none =>
    rw [hfound] at he
    cases he
  | some found =>
    rw [hfound] at he
    exact hdetect _ _ _ hfound he

/-- With keys that are keys, the lines between the fences are the entries, each read by itself. -/
theorem parseFrontmatter_rebuilt (ast : MdAst) (hne : ast.frontmatter ≠ [])
    (hkeys : ∀ e ∈ ast.frontmatter, IsKey e.key) :
    (parseFrontmatter (rebuildMdRaw ast).raw).map (fun e => (e.key, e.value)) =
      ast.frontmatter.filterMap fun e =>
        (readValue (formatFrontmatterValue e.value)).map fun value => (e.key, value) := by
  obtain ⟨t, ht⟩ := frontmatterParts_prefix ast
  have hparts : frontmatterParts ast = fence :: (ast.frontmatter.map entryLine ++ [fence]) := by
    rw [frontmatterParts, if_neg hne]
    rfl
  have hfence : IsLine fence := ⟨by decide, by decide⟩
  have hlines : ∀ a ∈ fence :: (ast.frontmatter.map entryLine ++ [fence]), IsLine a := by
    simp only [List.forall_mem_cons, List.forall_mem_append, List.forall_mem_map]
    exact ⟨hfence, fun e he => (isLine_entryLine (hkeys e he)).1, hfence,
      List.forall_mem_nil _⟩
  obtain ⟨rest, hsplit⟩ := splitLines_intercalate hlines (List.cons_ne_nil _ _) t
  rw [hparts] at ht
  have hraw : (rebuildMdRaw ast).raw =
      [lineFeed].intercalate (fence :: (ast.frontmatter.map entryLine ++ [fence]) ++ t) := by
    rw [ht]
    rfl
  have hbom : startsWith (rebuildMdRaw ast).raw [0xFEFF] = false := by
    rw [hraw, List.cons_append, List.intercalate_cons_of_ne_nil (by simp)]
    rfl
  -- no entry is a fence, so the next fence closes
  have hfind : (ast.frontmatter.map entryLine ++ fence :: rest).findIdx? (· = fence) =
      some (ast.frontmatter.map entryLine).length := by
    have hnone : (ast.frontmatter.map entryLine).findIdx? (· = fence) = none := by
      simp only [List.findIdx?_eq_none_iff, List.forall_mem_map, decide_eq_false_iff_not]
      exact fun e he => (isLine_entryLine (hkeys e he)).2
    rw [List.findIdx?_append, hnone, List.findIdx?_cons]
    simp
  have hdetect : detectFrontmatter (splitLines (rebuildMdRaw ast).raw) =
      some (((ast.frontmatter.map entryLine).zipIdx 2).filterMap readEntry,
        (ast.frontmatter.map entryLine).length + 1) := by
    rw [hraw, hsplit, List.cons_append, List.append_assoc, List.singleton_append,
      detectFrontmatter, if_neg (not_not_intro rfl), hfind, Option.map_some, List.take_left]
  have hentry : ∀ (line : Units × ℕ), (readEntry line).map (fun e => (e.key, e.value)) =
      (entryMatch line.1).map fun m => (m.1, unquote (trim m.2)) := by
    intro line
    rw [readEntry, Option.map_map]
    rfl
  rw [parseFrontmatter, hbom, if_neg Bool.false_ne_true, hdetect, Option.map_some, Option.getD_some,
    List.map_filterMap]
  simp only [hentry]
  have hline : ∀ e ∈ ast.frontmatter,
      (entryMatch (entryLine e)).map (fun m => (m.1, unquote (trim m.2))) =
        (readValue (formatFrontmatterValue e.value)).map fun value => (e.key, value) :=
    fun e he => entryMatch_line (hkeys e he)
  have hnumbers : ∀ (lines : List Units) (n : ℕ),
      (lines.zipIdx n).filterMap
          (fun line => (entryMatch line.1).map fun m => (m.1, unquote (trim m.2))) =
        lines.filterMap fun line => (entryMatch line).map fun m => (m.1, unquote (trim m.2)) := by
    intro lines n
    conv_rhs => rw [← List.zipIdx_map_fst n lines, List.filterMap_map]
    rfl
  rw [hnumbers, List.filterMap_map]
  exact List.filterMap_congr hline

/-- **The entries are read back exactly when the keys are keys and the values legible.** -/
theorem frontmatter_reads_back (ast : MdAst) (hne : ast.frontmatter ≠ []) :
    (parseFrontmatter (rebuildMdRaw ast).raw).map (fun e => (e.key, e.value)) =
        ast.frontmatter.map (fun e => (e.key, e.value)) ↔
      ∀ e ∈ ast.frontmatter, IsKey e.key ∧ Legible e.value := by
  suffices hkeyed : (∀ e ∈ ast.frontmatter, IsKey e.key) →
      ((parseFrontmatter (rebuildMdRaw ast).raw).map (fun e => (e.key, e.value)) =
          ast.frontmatter.map (fun e => (e.key, e.value)) ↔
        ∀ e ∈ ast.frontmatter, Legible e.value) by
    refine ⟨fun h => ?_, fun h => (hkeyed fun e he => (h e he).1).2 fun e he => (h e he).2⟩
    -- what is read has a key that the pattern has matched
    have hkeys : ∀ e ∈ ast.frontmatter, IsKey e.key := by
      intro e he
      have hmem := List.mem_map_of_mem (f := fun e : FrontmatterEntry => (e.key, e.value)) he
      rw [← h] at hmem
      obtain ⟨read, hread, heq⟩ := List.mem_map.1 hmem
      have hkey : read.key = e.key := congrArg Prod.fst heq
      exact hkey ▸ isKey_of_mem hread
    exact fun e he => ⟨hkeys e he, (hkeyed hkeys).1 h e he⟩
  intro hkeys
  rw [parseFrontmatter_rebuilt ast hne hkeys, List.filterMap_eq_map_iff_forall_eq_some]
  refine forall₂_congr fun e _ => ?_
  rw [← readValue_iff, Option.map_eq_some_iff]
  simp

instance (value : Units) : Decidable (Legible value) := by
  unfold Legible
  infer_instance

instance (key : Units) : Decidable (IsKey key) := inferInstanceAs (Decidable (_ ∧ _))

def twoEntries : MdAst where
  raw := []
  frontmatter := [⟨utf16 "name", utf16 "Ada", 2⟩, ⟨utf16 "note", utf16 "a: b", 3⟩]
  preamble := utf16 "---"
  blocks := []

theorem two_entries_read :
    (parseFrontmatter (rebuildMdRaw twoEntries).raw).map (fun e => (e.key, e.value)) =
      [(utf16 "name", utf16 "Ada"), (utf16 "note", utf16 "a: b")] :=
  (frontmatter_reads_back twoEntries (List.cons_ne_nil _ _)).2 (by decide +kernel)

end ClawHarder.OcPaths
