import ClawHarder.Lib.Effectful
import ClawHarder.Lib.Nesting
import ClawHarder.Spec.OcPath

/-!
# Texts of `oc://` paths

What `parseOcPath` accepts and what `formatOcPath` prints, in terms of the segments that
slashes join and the sub-segments that dots join.

* `splitRespectingBrackets_eq_ok`: splitting gives the pieces whose joint text it is given.
* `parseOcPath_eq_ok`: the texts that are read, and their paths.
* `textOf_inj`: a text has one list of segments.
* `formatSubSegment_self`: exactly the verbatim sub-segments are printed as they stand.
* `formatOcPath_eq_ok`: what is printed of a path that was read.
-/

namespace ClawHarder.OcPaths

/-- The automaton of `scanBracketAware`. -/
def nesting : Nesting ℕ Depth := ⟨Depth.zero, Depth.next⟩

theorem closed_iff (d : Depth) :
    (d.bracket ≠ 0 || d.brace ≠ 0 || d.inQuote) = false ↔ d = nesting.start := by
  cases d
  simp [nesting, Depth.zero, and_assoc]

theorem scan_split (delim : ℕ) (err : Thrown) (d : Depth) (out : List Units) (buf s : Units) :
    (scanBracketAware (fun (state : List Units × Units) c atTop =>
        if atTop && c = delim then ((state.1 ++ [state.2], []), false)
        else ((state.1, state.2 ++ [c]), false)) err d (out, buf) s).map
      (fun state => state.1 ++ [state.2]) =
    match nesting.split delim d buf s with
    | some pieces => .ok (out ++ pieces)
    | none => .error err := by
  induction s generalizing d out buf with
  | nil =>
    unfold scanBracketAware Nesting.split
    by_cases hd : d = nesting.start
    · rw [if_neg (by rw [(closed_iff d).2 hd]; simp), if_pos hd]
      rfl
    · have hopen := mt (closed_iff d).1 hd
      rw [if_pos (Bool.not_eq_false _ ▸ hopen), if_neg hd]
      rfl
  | cons c s ih =>
    unfold scanBracketAware Nesting.split
    have hnext : nesting.next d c = d.next c := rfl
    rw [hnext]
    cases d.next c with
    | none => rfl
    | some r =>
      obtain ⟨d', top⟩ := r
      by_cases htop : top = true ∧ c = delim
      · simp only [htop.1, htop.2, decide_true, Bool.and_self, if_true, and_self]
        rw [if_neg Bool.false_ne_true, ih]
        cases nesting.split delim d' [] s with
        | none => rfl
        | some pieces => simp
      · have hbool : (top && decide (c = delim)) = false := by
          simpa using htop
        simp only [hbool, if_neg htop, Bool.false_eq_true, if_false]
        rw [ih]

theorem splitRespectingBrackets_eq (s : Units) (delim : ℕ) (ctx : Units) :
    splitRespectingBrackets s delim ctx =
      match nesting.split delim nesting.start [] s with
      | some pieces => .ok pieces
      | none => .error (unbalanced ctx) := by
  have hscan := scan_split delim (unbalanced ctx) Depth.zero [] [] s
  exact hscan

theorem scan_index (ch : ℕ) (err : Thrown) (d : Depth) (i : ℕ) (s : Units) :
    (scanBracketAware (fun (state : ℕ × Option ℕ) c atTop =>
        if atTop && c = ch then ((state.1, some state.1), true)
        else ((state.1 + 1, none), false)) err d (i, none) s).map Prod.snd =
    match nesting.index ch d i s with
    | some o => .ok o
    | none => .error err := by
  induction s generalizing d i with
  | nil =>
    unfold scanBracketAware Nesting.index
    by_cases hd : d = nesting.start
    · rw [if_neg (by rw [(closed_iff d).2 hd]; simp), if_pos hd]
      rfl
    · have hopen := mt (closed_iff d).1 hd
      rw [if_pos (Bool.not_eq_false _ ▸ hopen), if_neg hd]
      rfl
  | cons c s ih =>
    unfold scanBracketAware Nesting.index
    have hnext : nesting.next d c = d.next c := rfl
    rw [hnext]
    cases d.next c with
    | none => rfl
    | some r =>
      obtain ⟨d', top⟩ := r
      by_cases htop : top = true ∧ c = ch
      · simp only [htop.1, htop.2, decide_true, Bool.and_self, if_true, and_self]
        rfl
      · have hbool : (top && decide (c = ch)) = false := by
          simpa using htop
        simp only [hbool, if_neg htop, Bool.false_eq_true, if_false]
        exact ih d' (i + 1)

theorem indexOfTopLevel_eq (s : Units) (ch : ℕ) :
    indexOfTopLevel s ch =
      match nesting.index ch nesting.start 0 s with
      | some o => .ok o
      | none => .error (unbalanced s) :=
  scan_index ch (unbalanced s) Depth.zero 0 s

theorem scan_closed (err : Thrown) (d : Depth) (s : Units) :
    scanBracketAware (fun _ _ _ => ((), false)) err d () s = .ok () ↔
      nesting.run d s = some nesting.start := by
  induction s generalizing d with
  | nil =>
    unfold scanBracketAware Nesting.run
    rw [Option.some.injEq, ← closed_iff d]
    cases (d.bracket ≠ 0 || d.brace ≠ 0 || d.inQuote) <;> simp
  | cons c s ih =>
    unfold scanBracketAware Nesting.run
    have hnext : nesting.next d c = d.next c := rfl
    rw [hnext]
    cases d.next c with
    | none => simp
    | some r => simpa using ih r.1

variable {input : Units}

theorem validateBrackets_eq_ok {seg : Units} {u : Unit} :
    validateBrackets seg input = .ok u ↔ nesting.Closed seg :=
  scan_closed _ Depth.zero seg

def isPlain (c : ℕ) : Bool :=
  !([quote, openBracket, closeBracket, openBrace, closeBrace].contains c)

theorem count_plain {d : Depth} {c : ℕ} (hc : isPlain c = true) : d.count c = d := by
  simp [isPlain] at hc
  simp [Depth.count, hc]

theorem next_zero_plain {c : ℕ} (hc : isPlain c = true) :
    nesting.next nesting.start c = some (nesting.start, true) := by
  have hquote : c ≠ quote := by
    rintro rfl
    simp [isPlain] at hc
  have hcount : Depth.zero.count c = Depth.zero := count_plain hc
  show Depth.zero.next c = some (Depth.zero, true)
  unfold Depth.next
  rw [hcount]
  simp [Depth.zero, hquote]

theorem delimiter_plain {c : ℕ} (hc : isPlain c = true) : nesting.Delimiter c := by
  refine ⟨next_zero_plain hc, ?_⟩
  intro q q' hnext
  have hnext : q.next c = some (q', true) := hnext
  unfold Depth.next at hnext
  rw [count_plain hc] at hnext
  have hquote : c ≠ quote := by
    rintro rfl
    simp [isPlain] at hc
  cases q with
  | mk bracket brace inQuote =>
    cases inQuote with
    | true => simp at hnext
    | false =>
      simp only [Bool.false_eq_true, if_false, if_neg hquote] at hnext
      split at hnext
      · simp at hnext
      · have htop := (Prod.mk.inj (Option.some.inj hnext)).2
        simp only [Bool.and_eq_true, decide_eq_true_eq] at htop
        show Depth.mk bracket brace false = Depth.zero
        rw [htop.1, htop.2]
        rfl

theorem delimiter_slash : nesting.Delimiter slash := delimiter_plain rfl

theorem delimiter_dot : nesting.Delimiter dot := delimiter_plain rfl

theorem piece_plain {d : ℕ} {s : Units} (hplain : ∀ c ∈ s, isPlain c = true) (hd : d ∉ s) :
    nesting.Piece d s := by
  induction s with
  | nil => exact Nesting.piece_nil
  | cons c s ih =>
    obtain ⟨hc, hplain⟩ := List.forall_mem_cons.1 hplain
    have hne : c ≠ d := by
      rintro rfl
      exact hd List.mem_cons_self
    have hrest : nesting.Piece d s := ih hplain fun hmem => hd (List.mem_cons_of_mem c hmem)
    exact ((delimiter_plain hc).piece_cons hne).2 hrest

theorem run_inside (d : ℕ) {s : Units} (hs : quote ∉ s) :
    nesting.run ⟨0, 0, true⟩ s = some ⟨0, 0, true⟩ ∧ nesting.Clear d ⟨0, 0, true⟩ s := by
  induction s with
  | nil => exact ⟨rfl, trivial⟩
  | cons c s ih =>
    have hc : c ≠ quote := by
      rintro rfl
      exact hs List.mem_cons_self
    obtain ⟨hrun, hclear⟩ := ih fun hmem => hs (List.mem_cons_of_mem c hmem)
    have hnext : nesting.next ⟨0, 0, true⟩ c = some (⟨0, 0, true⟩, false) := by
      simp [nesting, Depth.next, hc]
    refine ⟨?_, ?_⟩
    · simpa [Nesting.run, hnext] using hrun
    · intro r hr
      obtain rfl : (⟨0, 0, true⟩, false) = r := Option.some.inj (hnext.symm.trans hr)
      exact ⟨fun htop => Bool.false_ne_true htop.1, hclear⟩

theorem piece_quoted (d : ℕ) {s : Units} (hs : quote ∉ s) :
    nesting.Piece d (quote :: (s ++ [quote])) := by
  obtain ⟨hrun, hclear⟩ := run_inside d hs
  have hopen : nesting.next nesting.start quote = some (⟨0, 0, true⟩, false) := rfl
  have hclose : nesting.next ⟨0, 0, true⟩ quote = some (nesting.start, false) := rfl
  refine ⟨?_, ?_⟩
  · unfold Nesting.Closed Nesting.run
    rw [hopen, Option.bind_some, Nesting.run_append, hrun]
    simp [Nesting.run, hclose]
  · intro r hr
    obtain rfl : (⟨0, 0, true⟩, false) = r := Option.some.inj (hopen.symm.trans hr)
    refine ⟨fun htop => Bool.false_ne_true htop.1, ?_⟩
    rw [Nesting.clear_append hrun]
    refine ⟨hclear, ?_⟩
    intro r hr
    obtain rfl : (nesting.start, false) = r := Option.some.inj (hclose.symm.trans hr)
    exact ⟨fun htop => Bool.false_ne_true htop.1, trivial⟩

/-- **Splitting, read back**: the delimiter joins the parts, and each is a piece. -/
theorem splitRespectingBrackets_eq_ok {s ctx : Units} {delim : ℕ} (hd : isPlain delim = true)
    {pieces : List Units} :
    splitRespectingBrackets s delim ctx = .ok pieces ↔
      pieces ≠ [] ∧ s = [delim].intercalate pieces ∧ ∀ x ∈ pieces, nesting.Piece delim x := by
  rw [← Nesting.split_eq_some_iff (delimiter_plain hd), splitRespectingBrackets_eq]
  cases nesting.split delim nesting.start [] s <;> simp

theorem indexOfTopLevel_eq_ok {s : Units} {ch : ℕ} (hch : isPlain ch = true) {o : Option ℕ} :
    indexOfTopLevel s ch = .ok o ↔
      (o = none ∧ nesting.Piece ch s) ∨
        ∃ x y, s = x ++ ch :: y ∧ nesting.Piece ch x ∧ o = some x.length := by
  rw [← Nesting.index_eq_some_iff (delimiter_plain hch), indexOfTopLevel_eq]
  cases nesting.index ch nesting.start 0 s <;> simp

theorem failIf_eq_ok {condition : Bool} {message : Units} {code : String} {u : Unit} :
    failIf condition message input code = .ok u ↔ condition = false := by
  cases condition <;> simp [failIf, fail]

theorem ite_eq_ok {α : Type} {p : Prop} [Decidable p] {x y : Except Thrown α} {a : α} :
    (if p then x else y) = .ok a ↔ (p → x = .ok a) ∧ (¬p → y = .ok a) := by
  by_cases hp : p <;> simp [hp]

def SubOk (sub : Units) : Prop := validateSubSegment sub [] = .ok ()

def FileOk (file : Units) : Prop := validateFileSlot file [] = .ok ()

def SessionOk (session : Units) : Prop := validateSessionSlot session [] = .ok ()

theorem validateSubSegment_eq_ok {sub : Units} :
    validateSubSegment sub input = .ok () ↔ SubOk sub := by
  unfold SubOk validateSubSegment validateBracketSegment validateBraceSegment
  simp only [Effectful.bind_eq_ok_iff, failIf_eq_ok, ite_eq_ok]

theorem validateFileSlot_eq_ok {file : Units} :
    validateFileSlot file input = .ok () ↔ FileOk file := by
  unfold FileOk validateFileSlot
  simp only [Effectful.bind_eq_ok_iff, failIf_eq_ok]

theorem validateSessionSlot_eq_ok {session : Units} :
    validateSessionSlot session input = .ok () ↔ SessionOk session := by
  unfold SessionOk validateSessionSlot
  simp only [Effectful.bind_eq_ok_iff, failIf_eq_ok]

structure SegmentOk (seg : Units) (subs : List Units) : Prop where
  pieces : seg = [dot].intercalate subs
  nonempty : subs ≠ []
  piece : ∀ sub ∈ subs, nesting.Piece dot sub
  count : subs.length ≤ maxSubSegmentsPerSlot
  valid : ∀ sub ∈ subs, SubOk sub

theorem SegmentOk.closed {seg : Units} {subs : List Units} (h : SegmentOk seg subs) :
    nesting.Closed seg := by
  rw [h.pieces]
  exact Nesting.closed_intercalate delimiter_dot fun sub hsub => (h.piece sub hsub).1

theorem validateSegment_eq_ok {seg : Units} :
    validateSegment input seg = .ok () ↔ ∃ subs, SegmentOk seg subs := by
  unfold validateSegment
  simp only [Effectful.bind_eq_ok_iff, failIf_eq_ok, validateBrackets_eq_ok,
    splitRespectingBrackets_eq_ok (show isPlain dot = true from rfl)]
  constructor
  · rintro ⟨-, hclosed, subs, ⟨hne, hpieces, hpiece⟩, -, hcount, hvalid⟩
    refine ⟨subs, hpieces, hne, hpiece, by simpa using hcount, ?_⟩
    intro sub hsub
    exact validateSubSegment_eq_ok.1 (Effectful.forM_eq_ok_iff.1 hvalid sub hsub)
  · rintro ⟨subs, h⟩
    refine ⟨(), h.closed, subs, ⟨h.nonempty, h.pieces, h.piece⟩, (), by simpa using h.count, ?_⟩
    exact Effectful.forM_eq_ok_iff.2 fun sub hsub => validateSubSegment_eq_ok.2 (h.valid sub hsub)

def pathOf (segments : List Units) (session : Option Units) : OcPath :=
  ⟨unquoteSeg (segments.headD []), segments[1]?, segments[2]?, segments[3]?, session⟩

def textOf (segments : List Units) (query : Option Units) : Units :=
  ocScheme ++ ([slash].intercalate segments ++ query.elim [] (question :: ·))

/-- The segments are separated by slashes, with no question mark at the top level. -/
structure Separated (segments : List Units) : Prop where
  nonempty : segments ≠ []
  slash : ∀ seg ∈ segments, nesting.Piece slash seg
  question : ∀ seg ∈ segments, nesting.Piece question seg

/-- A text that the checks of `parseOcPath` let through. -/
structure Shape (text : Units) (segments : List Units) (query : Option Units) : Prop where
  length : text.length ≤ maxPathLength
  control : hasControlChar text = false
  text_eq : text = textOf segments query
  separated : Separated segments
  segment : ∀ seg ∈ segments, seg ≠ [] ∧ ∃ subs, SegmentOk seg subs
  count : segments.length ≤ 4
  file : FileOk (unquoteSeg (segments.headD []))

theorem startsWith_iff {s t : Units} : startsWith s t = true ↔ t <+: s := by
  simp [startsWith]

theorem intercalate_slash_eq_nil {segments : List Units} (hne : segments ≠ [])
    (hseg : ∀ seg ∈ segments, seg ≠ []) : [slash].intercalate segments ≠ [] := by
  obtain ⟨seg, segments, rfl⟩ := List.exists_cons_of_ne_nil hne
  have hfirst := hseg seg List.mem_cons_self
  cases segments with
  | nil => simpa using hfirst
  | cons seg' segments => simp [List.intercalate_cons_cons]

theorem index_textOf {segments : List Units} (h : Separated segments) (query : Option Units) :
    indexOfTopLevel ((textOf segments query).drop ocScheme.length) question =
      .ok (query.map fun _ => ([slash].intercalate segments).length) := by
  have hpiece : nesting.Piece question ([slash].intercalate segments) :=
    (Nesting.piece_intercalate delimiter_slash (by decide) fun seg hseg =>
      (h.slash seg hseg).1).2 h.question
  unfold textOf
  rw [List.drop_left, indexOfTopLevel_eq_ok rfl]
  cases query with
  | none =>
    refine Or.inl ⟨rfl, ?_⟩
    simpa using hpiece
  | some query => exact Or.inr ⟨_, query, rfl, hpiece, rfl⟩

theorem parts_textOf (segments : List Units) (query : Option Units) :
    ((query.map fun _ => ([slash].intercalate segments).length).elim
        ((textOf segments query).drop ocScheme.length)
        ((textOf segments query).drop ocScheme.length).take) = [slash].intercalate segments ∧
      ((query.map fun _ => ([slash].intercalate segments).length).elim []
        fun i => ((textOf segments query).drop ocScheme.length).drop (i + 1)) = query.getD [] := by
  unfold textOf
  rw [List.drop_left]
  cases query with
  | none => simp
  | some query => simp [List.drop_append]

theorem cut_of_index {rest : Units} {queryIndex : Option ℕ}
    (h : indexOfTopLevel rest question = .ok queryIndex) :
    ∃ query : Option Units,
      rest = queryIndex.elim rest rest.take ++ query.elim [] (question :: ·) ∧
      nesting.Piece question (queryIndex.elim rest rest.take) ∧
      (queryIndex.elim [] fun i => rest.drop (i + 1)) = query.getD [] := by
  rcases (indexOfTopLevel_eq_ok rfl).1 h with ⟨rfl, hpiece⟩ | ⟨x, y, rfl, hpiece, rfl⟩
  · exact ⟨none, by simp, hpiece, rfl⟩
  · exact ⟨some y, by simp, by simpa using hpiece, by simp [List.drop_append]⟩

theorem parseOcPath_eq_ok {U : Normalizer} {p : OcPath} :
    parseOcPath U input = .ok p ↔ input.length ≤ maxPathLength ∧
      ∃ segments query session, Shape (normalized U input) segments query ∧
        extractSession (query.getD []) input = .ok session ∧ p = pathOf segments session := by
  unfold parseOcPath
  simp only [Effectful.bind_eq_ok_iff, failIf_eq_ok, exists_const]
  obtain ⟨text, htext⟩ : ∃ text, text = normalized U input := ⟨_, rfl⟩
  rw [← htext]
  constructor
  · rintro ⟨hinput, hlength, hscheme, hcontrol, queryIndex, hindex, hpath, segments, hsplit, hseg,
      hcount, _, hvalid, _, hfile, session, hsession, hp⟩
    obtain ⟨rest, hrest⟩ : ocScheme <+: text := startsWith_iff.1 (by simpa using hscheme)
    have hdrop : text.drop ocScheme.length = rest := by
      rw [← hrest, List.drop_left]
    rw [hdrop] at hindex hsplit hsession
    obtain ⟨query, hcut, hpiece, hquery⟩ := cut_of_index hindex
    obtain ⟨hne, hjoin, hslash⟩ := (splitRespectingBrackets_eq_ok rfl).1 hsplit
    rw [hjoin] at hcut hpiece
    have hclear := (Nesting.piece_intercalate delimiter_slash (by decide) fun seg hmem =>
      (hslash seg hmem).1).1 hpiece
    refine ⟨by simpa using hinput, segments, query, session, ?_, hquery ▸ hsession, ?_⟩
    · refine ⟨by simpa using hlength, hcontrol, ?_, ⟨hne, hslash, hclear⟩, ?_, by simpa using hcount,
        validateFileSlot_eq_ok.1 hfile⟩
      · rw [← hrest, hcut]
        rfl
      · intro seg hmem
        have hempty : ∀ x ∈ segments, x ≠ [] := by simpa using hseg
        exact ⟨hempty seg hmem,
          validateSegment_eq_ok.1 (Effectful.forM_eq_ok_iff.1 hvalid seg hmem)⟩
    · exact (Except.ok.inj hp).symm
  · rintro ⟨hinput, segments, query, session, hshape, hsession, rfl⟩
    have hindex := index_textOf hshape.separated query
    obtain ⟨hpath, hquery⟩ := parts_textOf segments query
    rw [← hshape.text_eq] at hindex hpath hquery
    have hseg : ∀ seg ∈ segments, seg ≠ [] := fun seg hmem => (hshape.segment seg hmem).1
    refine ⟨by simpa using hinput, by simpa using hshape.length, ?_, hshape.control, _, hindex, ?_,
      segments, ?_, by simpa using hseg, by simpa using hshape.count, (), ?_, (), ?_, session, ?_,
      rfl⟩
    · have hprefix : ocScheme <+: text := by
        rw [hshape.text_eq]
        exact List.prefix_append _ _
      simpa using startsWith_iff.2 hprefix
    · rw [hpath]
      simpa using intercalate_slash_eq_nil hshape.separated.nonempty hseg
    · rw [hpath]
      exact (splitRespectingBrackets_eq_ok rfl).2
        ⟨hshape.separated.nonempty, rfl, hshape.separated.slash⟩
    · exact Effectful.forM_eq_ok_iff.2 fun seg hmem =>
        validateSegment_eq_ok.2 (hshape.segment seg hmem).2
    · exact validateFileSlot_eq_ok.2 hshape.file
    · rw [hquery]
      exact hsession

theorem textOf_inj {segments segments' : List Units} {query query' : Option Units}
    (h : Separated segments) (h' : Separated segments')
    (heq : textOf segments query = textOf segments' query') : segments = segments' := by
  have hindex : (query.map fun _ => ([slash].intercalate segments).length) =
      query'.map fun _ => ([slash].intercalate segments').length :=
    Except.ok.inj ((index_textOf h query).symm.trans (heq ▸ index_textOf h' query'))
  have hpath : [slash].intercalate segments = [slash].intercalate segments' := by
    rw [← (parts_textOf segments query).1, ← (parts_textOf segments' query').1, hindex, heq]
  exact Nesting.intercalate_inj delimiter_slash h.nonempty h.slash h'.nonempty h'.slash hpath

theorem session_text (session : Units) :
    utf16 "session=" ++ session = utf16 "session" ++ equals :: session := by
  have htext : utf16 "session=" = utf16 "session" ++ [equals] := by decide +kernel
  rw [htext, List.append_assoc]
  rfl

theorem mem_of_sessionOfPairs {pairs : List Units} {session : Units}
    (h : sessionOfPairs input pairs = .ok (some session)) :
    session ≠ [] ∧ SessionOk session ∧ utf16 "session=" ++ session ∈ pairs := by
  induction pairs with
  | nil => simp [sessionOfPairs] at h
  | cons pair pairs ih =>
    have hrest : sessionOfPairs input pairs = .ok (some session) →
        session ≠ [] ∧ SessionOk session ∧ utf16 "session=" ++ session ∈ pair :: pairs := by
      intro hlater
      obtain ⟨hne, hok, hmem⟩ := ih hlater
      exact ⟨hne, hok, List.mem_cons_of_mem pair hmem⟩
    unfold sessionOfPairs at h
    split at h
    · exact hrest h
    next eqIndex hindex =>
      obtain ⟨hlt, heq, -⟩ := List.idxOf?_eq_some_iff.1 hindex
      have hpair : pair = pair.take eqIndex ++ equals :: pair.drop (eqIndex + 1) := by
        rw [← heq, List.getElem_cons_drop, List.take_append_drop]
      simp only at h
      split at h
      next hkey =>
        obtain ⟨_, hvalid, hvalue⟩ := Effectful.bind_ok h
        obtain rfl : pair.drop (eqIndex + 1) = session := Option.some.inj (Except.ok.inj hvalue)
        simp only [Bool.and_eq_true, decide_eq_true_eq] at hkey
        refine ⟨List.ne_nil_of_length_pos hkey.2, validateSessionSlot_eq_ok.1 hvalid, ?_⟩
        rw [session_text, ← hkey.1, ← hpair]
        exact List.mem_cons_self
      · exact hrest h

theorem mem_of_extractSession {query session : Units}
    (h : extractSession query input = .ok (some session)) :
    session ≠ [] ∧ SessionOk session ∧
      utf16 "session=" ++ session ∈ query.splitOn ampersand := by
  unfold extractSession at h
  split at h
  · simp at h
  · exact mem_of_sessionOfPairs h

/-- The query that `formatOcPath` writes. -/
def sessionQuery (session : Option Units) : Option Units := session.map (utf16 "session=" ++ ·)

theorem extractSession_sessionQuery {session : Option Units} (input : Units)
    (hsession : ∀ value ∈ session, value ≠ [] ∧ SessionOk value) :
    extractSession ((sessionQuery session).getD []) input = .ok session := by
  cases session with
  | none => rfl
  | some value =>
    obtain ⟨hne, hok⟩ := hsession value rfl
    have hreserved : ampersand ∉ value := by
      intro hmem
      have hclear := hok
      unfold SessionOk validateSessionSlot at hclear
      simp only [Effectful.bind_eq_ok_iff, failIf_eq_ok, exists_const] at hclear
      have hany : value.any isReserved = true := List.any_eq_true.2 ⟨ampersand, hmem, rfl⟩
      rw [hclear.2] at hany
      exact Bool.false_ne_true hany
    have hsplit : (utf16 "session=" ++ value).splitOn ampersand = [utf16 "session=" ++ value] := by
      refine List.splitOn_eq_singleton fun hmem => ?_
      rcases List.mem_append.1 hmem with hword | hvalue
      · exact absurd hword (by decide +kernel)
      · exact hreserved hvalue
    have hword : utf16 "session" = [115, 101, 115, 115, 105, 111, 110] := by decide +kernel
    have hindex : (utf16 "session=" ++ value).idxOf? equals = some 7 := by
      rw [session_text, hword]
      simp [List.idxOf?_cons, equals]
    have hkey : (utf16 "session=" ++ value).take 7 = utf16 "session" := by
      rw [session_text, hword]
      rfl
    have hvalue : (utf16 "session=" ++ value).drop 8 = value := by
      rw [session_text, hword]
      rfl
    have hlength : 0 < value.length := List.length_pos_of_ne_nil hne
    have hvalid : validateSessionSlot value input = .ok () := validateSessionSlot_eq_ok.2 hok
    show extractSession (utf16 "session=" ++ value) input = .ok (some value)
    unfold extractSession
    rw [if_neg (by rw [List.length_append]; omega), hsplit]
    simp [sessionOfPairs, hindex, hkey, hvalue, hlength, hvalid]

/-- `formatSubSegment` takes the sub-segment as it is: a quoted one, a predicate or a union. -/
def Kept (sub : Units) : Prop :=
  isQuotedSeg sub = true ∨
    (startsWith sub [openBracket] && endsWith sub [closeBracket]) = true ∨
    (startsWith sub [openBrace] && endsWith sub [closeBrace]) = true

instance (sub : Units) : Decidable (Kept sub) :=
  inferInstanceAs (Decidable (_ ∨ _ ∨ _))

def Verbatim (sub : Units) : Prop :=
  Kept sub ∨ (quote ∉ sub ∧ backslash ∉ sub ∧ sub.any isStructural = false)

instance (sub : Units) : Decidable (Verbatim sub) :=
  inferInstanceAs (Decidable (_ ∨ (_ ∧ _ ∧ _)))

theorem quoteSeg_eq_ok {value printed : Units} (hne : value ≠ []) :
    quoteSeg value = .ok printed ↔ (quote ∉ value ∧ backslash ∉ value) ∧
      printed = if value.any isStructural then quote :: (value ++ [quote]) else value := by
  unfold quoteSeg
  rw [if_neg hne]
  simp only [Effectful.bind_eq_ok_iff, failIf_eq_ok, exists_const]
  simp only [Bool.or_eq_false_iff, List.contains_eq_mem, decide_eq_false_iff_not]
  exact and_congr_right fun _ => ⟨fun h => (Except.ok.inj h).symm, fun h => h ▸ rfl⟩

theorem formatSubSegment_eq_ok {sub printed : Units} (hne : sub ≠ []) :
    formatSubSegment sub = .ok printed ↔ (Kept sub ∧ printed = sub) ∨
      (¬Kept sub ∧ (quote ∉ sub ∧ backslash ∉ sub) ∧
        printed = if sub.any isStructural then quote :: (sub ++ [quote]) else sub) := by
  have hkept : formatSubSegment sub = if Kept sub then .ok sub else quoteSeg sub := by
    unfold formatSubSegment Kept
    split
    · simp [*]
    · split
      · simp [*]
      · split <;> simp [*]
  rw [hkept]
  by_cases h : Kept sub
  · rw [if_pos h]
    constructor
    · intro heq
      exact Or.inl ⟨h, (Except.ok.inj heq).symm⟩
    · rintro (⟨-, rfl⟩ | ⟨hnot, -⟩)
      · rfl
      · exact absurd h hnot
  · simp [h, quoteSeg_eq_ok hne]

/-- **Exactly the verbatim sub-segments are printed as they stand.** -/
theorem formatSubSegment_self {sub : Units} (hne : sub ≠ []) :
    formatSubSegment sub = .ok sub ↔ Verbatim sub := by
  rw [formatSubSegment_eq_ok hne]
  unfold Verbatim
  by_cases h : Kept sub
  · simp [h]
  · have hlonger : sub ≠ quote :: (sub ++ [quote]) := by
      intro heq
      have hlength := congrArg List.length heq
      simp only [List.length_cons, List.length_append, List.length_nil] at hlength
      omega
    cases sub.any isStructural <;> simp [h, hlonger]

theorem formatSubSegment_cases {sub printed : Units} (hne : sub ≠ [])
    (h : formatSubSegment sub = .ok printed) :
    printed = sub ∨ (quote ∉ sub ∧ printed = quote :: (sub ++ [quote])) := by
  rcases (formatSubSegment_eq_ok hne).1 h with ⟨-, rfl⟩ | ⟨-, ⟨hquote, -⟩, rfl⟩
  · exact Or.inl rfl
  · split
    · exact Or.inr ⟨hquote, rfl⟩
    · exact Or.inl rfl

/-- What `formatSlot` prints. -/
def SlotPrints (slot printed : Units) : Prop :=
  ∃ subs parts, SegmentOk slot subs ∧
    List.Forall₂ (fun sub part => formatSubSegment sub = .ok part) subs parts ∧
    printed = [dot].intercalate parts

theorem SubOk.clean {sub : Units} (h : SubOk sub) : sub ≠ [] ∧ hasControlChar sub = false := by
  unfold SubOk validateSubSegment at h
  simp only [Effectful.bind_eq_ok_iff, failIf_eq_ok, exists_const] at h
  exact ⟨by simpa using h.1, h.2.1⟩

theorem SegmentOk.unique {seg : Units} {subs subs' : List Units} (h : SegmentOk seg subs)
    (h' : SegmentOk seg subs') : subs = subs' :=
  Nesting.intercalate_inj delimiter_dot h.nonempty h.piece h'.nonempty h'.piece
    (h.pieces.symm.trans h'.pieces)

theorem formatSlot_eq_ok {file : Units} {slotName : String} {slot printed : Units}
    (hslot : ∃ subs, SegmentOk slot subs) :
    formatSlot file slotName slot = .ok printed ↔ SlotPrints slot printed := by
  obtain ⟨subs, hsubs⟩ := hslot
  have hsplit : splitRespectingBrackets slot dot slot = .ok subs :=
    (splitRespectingBrackets_eq_ok rfl).2 ⟨hsubs.nonempty, hsubs.pieces, hsubs.piece⟩
  have hvalid : subs.forM (validateSubForFormat file slotName) = .ok () := by
    refine Effectful.forM_eq_ok_iff.2 fun sub hsub => ?_
    obtain ⟨hne, hcontrol⟩ := (hsubs.valid sub hsub).clean
    unfold validateSubForFormat
    simp only [Effectful.bind_eq_ok_iff, failIf_eq_ok, exists_const]
    exact ⟨by simpa using hne, hcontrol⟩
  unfold formatSlot
  simp only [Effectful.bind_eq_ok_iff, hsplit, Except.ok.injEq, exists_eq_left', hvalid,
    Effectful.mapM_eq_ok_iff, exists_const]
  constructor
  · rintro ⟨-, parts, hparts, hprinted⟩
    exact ⟨subs, parts, hsubs, hparts, (Except.ok.inj hprinted).symm⟩
  · rintro ⟨subs', parts, hsubs', hparts, rfl⟩
    obtain rfl := hsubs.unique hsubs'
    exact ⟨trivial, parts, hparts, rfl⟩

theorem appendSlot_eq_ok {file : Units} {slotName : String} {out out' slot : Units}
    (hslot : ∃ subs, SegmentOk slot subs) :
    appendSlot file slotName out (some slot) = .ok out' ↔
      ∃ printed, SlotPrints slot printed ∧ out ++ slash :: printed = out' := by
  unfold appendSlot
  simp only [Effectful.bind_eq_ok_iff, formatSlot_eq_ok hslot]
  exact exists_congr fun printed => and_congr_right fun _ => ⟨Except.ok.inj, fun h => h ▸ rfl⟩

theorem appendSlots_eq_ok (file : Units) {out out' : Units} {slots : List Units}
    (hcount : slots.length ≤ 3)
    (hslots : ∀ slot ∈ slots, ∃ subs, SegmentOk slot subs) :
    (∃ a, appendSlot file "section" out slots[0]? = .ok a ∧
      ∃ b, appendSlot file "item" a slots[1]? = .ok b ∧
        appendSlot file "field" b slots[2]? = .ok out') ↔
    ∃ parts, List.Forall₂ SlotPrints slots parts ∧ out' = out ++ parts.flatMap (slash :: ·) := by
  have hnone : ∀ slotName out out', appendSlot file slotName out none = .ok out' ↔ out = out' :=
    fun _ _ _ => ⟨Except.ok.inj, fun h => h ▸ rfl⟩
  have hsome : ∀ slot ∈ slots, ∀ slotName out out',
      appendSlot file slotName out (some slot) = .ok out' ↔
        ∃ printed, SlotPrints slot printed ∧ out ++ slash :: printed = out' :=
    fun slot hslot _ _ _ => appendSlot_eq_ok (hslots slot hslot)
  rcases slots with _ | ⟨a, _ | ⟨b, _ | ⟨c, _ | ⟨d, slots⟩⟩⟩⟩
  · simp only [List.getElem?_nil, hnone, exists_eq_left',
      List.forall₂_nil_left_iff, exists_eq_left, List.flatMap_nil, List.append_nil]
    exact eq_comm
  · have ha := hsome a (by simp)
    simp only [List.getElem?_cons_zero, List.getElem?_cons_succ, List.getElem?_nil, hnone, ha]
    constructor
    · rintro ⟨_, ⟨pa, hpa, rfl⟩, _, rfl, rfl⟩
      exact ⟨[pa], .cons hpa .nil, by simp⟩
    · rintro ⟨_, _ | ⟨hpa, _ | _⟩, rfl⟩
      exact ⟨_, ⟨_, hpa, rfl⟩, _, rfl, by simp⟩
  · have ha := hsome a (by simp)
    have hb := hsome b (by simp)
    simp only [List.getElem?_cons_zero, List.getElem?_cons_succ, List.getElem?_nil, hnone, ha, hb]
    constructor
    · rintro ⟨_, ⟨pa, hpa, rfl⟩, _, ⟨pb, hpb, rfl⟩, rfl⟩
      exact ⟨[pa, pb], .cons hpa (.cons hpb .nil), by simp⟩
    · rintro ⟨_, _ | ⟨hpa, _ | ⟨hpb, _ | _⟩⟩, rfl⟩
      exact ⟨_, ⟨_, hpa, rfl⟩, _, ⟨_, hpb, rfl⟩, by simp⟩
  · have ha := hsome a (by simp)
    have hb := hsome b (by simp)
    have hc := hsome c (by simp)
    simp only [List.getElem?_cons_zero, List.getElem?_cons_succ, ha, hb, hc]
    constructor
    · rintro ⟨_, ⟨pa, hpa, rfl⟩, _, ⟨pb, hpb, rfl⟩, pc, hpc, rfl⟩
      exact ⟨[pa, pb, pc], .cons hpa (.cons hpb (.cons hpc .nil)), by simp⟩
    · rintro ⟨_, _ | ⟨hpa, _ | ⟨hpb, _ | ⟨hpc, _ | _⟩⟩⟩, rfl⟩
      exact ⟨_, ⟨_, hpa, rfl⟩, _, ⟨_, hpb, rfl⟩, _, hpc, by simp⟩
  · exact absurd hcount (by simp)

/-- The file as `formatOcPath` prints it. -/
def FilePrints (file printed : Units) : Prop :=
  file ≠ [] ∧ (file.any isFileStructural = true → quote ∉ file ∧ backslash ∉ file) ∧
    printed = if file.any isFileStructural then quote :: (file ++ [quote]) else file

theorem intercalate_slash_cons (seg : Units) (segments : List Units) :
    [slash].intercalate (seg :: segments) = seg ++ segments.flatMap (slash :: ·) := by
  induction segments generalizing seg with
  | nil => simp
  | cons seg' segments ih => simp [List.intercalate_cons_cons, ih]

theorem structural_of_file {c : ℕ} (hc : isFileStructural c = true) :
    c = quote ∨ isStructural c = true := by
  simp only [isFileStructural, isStructural, Bool.or_eq_true] at hc ⊢
  rcases hc with hc | hc
  · simp only [List.contains_eq_mem, List.mem_cons, decide_eq_true_eq] at hc ⊢
    tauto
  · exact Or.inr (Or.inr hc)

theorem nested_slots (slots : List Units) (i : ℕ) :
    (slots[i + 1]?.isSome && slots[i]?.isNone) = false := by
  rcases Nat.lt_or_ge (i + 1) slots.length with hlt | hge
  · simp [List.getElem?_eq_getElem (show i < slots.length by omega)]
  · simp [List.getElem?_eq_none hge]

theorem formatFile_eq_ok {file printed : Units} (hne : file ≠ []) :
    formatFile file = .ok printed ↔
      (file.any isFileStructural = true → quote ∉ file ∧ backslash ∉ file) ∧
        printed = if file.any isFileStructural then quote :: (file ++ [quote]) else file := by
  unfold formatFile
  by_cases h : file.any isFileStructural = true
  · rw [if_pos h, if_pos h, quoteSeg_eq_ok hne]
    simp only [h, forall_const]
    refine and_congr_right fun hquotable => ?_
    -- a file structural unit that is no quote is structural
    have hany : file.any isStructural = true := by
      obtain ⟨c, hc, hstructural⟩ := List.any_eq_true.1 h
      refine List.any_eq_true.2 ⟨c, hc, ?_⟩
      rcases structural_of_file hstructural with rfl | hstructural
      · exact absurd hc hquotable.1
      · exact hstructural
    rw [if_pos hany]
  · rw [if_neg h, if_neg h]
    constructor
    · intro heq
      exact ⟨fun hany => absurd hany h, (Except.ok.inj heq).symm⟩
    · rintro ⟨-, rfl⟩
      rfl

theorem appendSession_eq_ok {file out out' : Units} {session : Option Units}
    (hsession : ∀ value ∈ session, SessionOk value) :
    appendSession file out session = .ok out' ↔
      out' = out ++ (sessionQuery session).elim [] (question :: ·) := by
  cases session with
  | none =>
    simp only [appendSession, sessionQuery, Option.map_none, Option.elim_none, List.append_nil]
    exact ⟨fun h => (Except.ok.inj h).symm, fun h => h ▸ rfl⟩
  | some value =>
    have hword : utf16 "?session=" = question :: utf16 "session=" := by decide +kernel
    have hvalid : validateSessionSlot value file = .ok () :=
      validateSessionSlot_eq_ok.2 (hsession value rfl)
    simp only [appendSession, sessionQuery, Option.map_some, Option.elim_some,
      Effectful.bind_eq_ok_iff, hvalid, exists_const, hword, true_and]
    rw [List.append_assoc]
    exact ⟨fun h => (Except.ok.inj h).symm, fun h => h ▸ rfl⟩

theorem formatOcPath_eq_ok {fileSeg : Units} {slots : List Units} {session : Option Units}
    {out : Units} (hcount : slots.length ≤ 3) (hslots : ∀ slot ∈ slots, ∃ subs, SegmentOk slot subs)
    (hfile : FileOk (unquoteSeg fileSeg)) (hsession : ∀ value ∈ session, SessionOk value) :
    formatOcPath (pathOf (fileSeg :: slots) session) = .ok out ↔
      ∃ printed parts, FilePrints (unquoteSeg fileSeg) printed ∧
        List.Forall₂ SlotPrints slots parts ∧
        out = textOf (printed :: parts) (sessionQuery session) ∧
        out.length ≤ maxPathLength ∧ includes out redactedSentinel = false := by
  obtain ⟨file, hname⟩ : ∃ file, file = unquoteSeg fileSeg := ⟨_, rfl⟩
  have hpath : pathOf (fileSeg :: slots) session =
      ⟨file, slots[0]?, slots[1]?, slots[2]?, session⟩ := by
    rw [hname]
    rfl
  have hend : ∀ query, ∀ printed : Units, ∀ parts : List Units,
      ocScheme ++ printed ++ parts.flatMap (slash :: ·) ++ query.elim [] (question :: ·) =
        textOf (printed :: parts) query := by
    intro query printed parts
    unfold textOf
    rw [intercalate_slash_cons]
    simp only [List.append_assoc]
  rw [← hname] at hfile
  rw [hpath, ← hname]
  unfold formatOcPath FilePrints
  simp only [Effectful.bind_eq_ok_iff, failIf_eq_ok, exists_const, validateFileSlot_eq_ok.2 hfile,
    nested_slots, appendSession_eq_ok hsession, ite_eq_ok, true_and]
  constructor
  · rintro ⟨hne, printed, hprinted, a, ha, b, hb, c, hc, out', rfl, hlength, herror, hout⟩
    have hne : file ≠ [] := by simpa using hne
    obtain ⟨parts, hparts, rfl⟩ := (appendSlots_eq_ok file hcount hslots).1 ⟨a, ha, b, hb, hc⟩
    rw [hend] at hlength herror hout
    have hclear : includes (textOf (printed :: parts) (sessionQuery session)) redactedSentinel ≠
        true := fun hincludes => nomatch herror hincludes
    obtain rfl := Except.ok.inj (hout hclear)
    exact ⟨printed, parts, ⟨hne, (formatFile_eq_ok hne).1 hprinted⟩, hparts, rfl,
      by simpa using hlength, by simpa using hclear⟩
  · rintro ⟨printed, parts, ⟨hne, hprinted⟩, hparts, rfl, hlength, hclear⟩
    have happend := (appendSlots_eq_ok file hcount hslots).2
      ⟨parts, hparts, (rfl : ocScheme ++ printed ++ parts.flatMap (slash :: ·) = _)⟩
    obtain ⟨a, ha, b, hb, hc⟩ := happend
    refine ⟨by simpa using hne, printed, (formatFile_eq_ok hne).2 hprinted, a, ha, b, hb,
      _, hc, _, rfl, ?_, ?_, ?_⟩
    · rw [hend]
      simpa using hlength
    · rw [hend, hclear]
      exact fun hfalse => absurd hfalse Bool.false_ne_true
    · rw [hend]
      exact fun _ => rfl

end ClawHarder.OcPaths
