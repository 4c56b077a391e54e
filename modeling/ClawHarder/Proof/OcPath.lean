import ClawHarder.Lib.Separable
import ClawHarder.Proof.OcPathText

/-!
# Printing `oc://` paths

A path that was read is printed and read again. What the printed text shares with the text
that was read (normal form, no control character, no sentinel) is cut at the separators, so
it goes through the segments. What may differ is the quoting.

* `cut_printed`: the printed text has such a property when the text that was read has it.
* `survives_printing_iff`: the path survives printing exactly when the file is printed to a segment
  that reads as the same file, and every other sub-segment is printed as it stands.
-/

namespace ClawHarder.OcPaths

theorem forall_mem_right {α β : Type} {R : α → β → Prop} {Q : β → Prop} {xs : List α} {ys : List β}
    (h : List.Forall₂ R xs ys) (hright : ∀ x ∈ xs, ∀ y, R x y → Q y) : ∀ y ∈ ys, Q y := by
  induction h with
  | nil => simp
  | cons hxy _ ih =>
    obtain ⟨hx, hrest⟩ := List.forall_mem_cons.1 hright
    exact List.forall_mem_cons.2 ⟨hx _ hxy, ih hrest⟩

theorem isQuotedSeg_iff {seg : Units} :
    isQuotedSeg seg = true ↔ ∃ body, seg = quote :: (body ++ [quote]) := by
  unfold isQuotedSeg startsWith endsWith
  simp only [Bool.and_eq_true, decide_eq_true_eq, List.isPrefixOf_iff_prefix,
    List.isSuffixOf_iff_suffix]
  constructor
  · rintro ⟨⟨hlength, first, rfl⟩, hlast⟩
    have hne : first ≠ [] := by
      rintro rfl
      simp at hlength
    obtain ⟨body, last, rfl⟩ := List.eq_nil_or_concat' first |>.resolve_left hne
    rcases hlast with ⟨before, heq⟩
    rw [List.singleton_append, ← List.cons_append] at heq
    obtain ⟨-, heq⟩ := List.append_inj' heq rfl
    obtain rfl : quote = last := by simpa using heq
    exact ⟨body, rfl⟩
  · rintro ⟨body, rfl⟩
    exact ⟨⟨by simp, ⟨_, rfl⟩⟩, ⟨quote :: body, rfl⟩⟩

theorem unquoteSeg_quoted (body : Units) : unquoteSeg (quote :: (body ++ [quote])) = body := by
  have hquoted := isQuotedSeg_iff.2 ⟨body, rfl⟩
  unfold unquoteSeg
  rw [if_pos hquoted]
  simp [inner]

theorem unquoteSeg_of_not_mem {seg : Units} (h : quote ∉ seg) : unquoteSeg seg = seg := by
  have hnot : isQuotedSeg seg ≠ true := by
    intro hquoted
    obtain ⟨body, rfl⟩ := isQuotedSeg_iff.1 hquoted
    exact h List.mem_cons_self
  unfold unquoteSeg
  rw [if_neg hnot]

def separators : List ℕ := [quote, ampersand, dot, slash, question]

variable {s : Units}

theorem includes_iff {t : Units} : includes s t = true ↔ t <:+: s := by
  unfold includes startsWith
  simp only [List.any_eq_true, List.mem_tails, List.isPrefixOf_iff_prefix]
  exact (List.infix_iff_prefix_suffix.trans (exists_congr fun _ => and_comm)).symm

theorem hasControlChar_iff :
    hasControlChar s = false ↔ ∀ c ∈ s, isControl c = false := by
  simp [hasControlChar]

theorem cut_normal (U : Normalizer) : CutAt separators fun s => U.normalize s = s := U.stable

theorem cut_control : CutAt separators fun s => hasControlChar s = false := by
  simp only [hasControlChar_iff]
  exact CutAt.forall_mem (by decide)

theorem cut_sentinel : CutAt separators fun s => ¬redactedSentinel <:+: s :=
  CutAt.not_infix (by decide +kernel)

section

variable {P : Units → Prop}

theorem cut_textOf (h : CutAt separators P) {segments : List Units} (hne : segments ≠ [])
    {query : Option Units} :
    P (textOf segments query) ↔
      P (utf16 "oc:") ∧ P [] ∧ (∀ seg ∈ segments, P seg) ∧ ∀ value ∈ query, P value := by
  have hscheme : ocScheme = utf16 "oc:" ++ [slash, slash] := by decide +kernel
  have hpath := h.intercalate (c := slash) (by decide) hne
  have hslash : ∀ y, P (slash :: y) ↔ P [] ∧ P y := fun y => h.cons (by decide)
  unfold textOf
  rw [hscheme, List.append_assoc, List.cons_append, List.singleton_append, h slash (by decide),
    hslash]
  cases query with
  | none => simp [hpath]
  | some value => simp [h question (by decide), hpath]

theorem cut_unquoteSeg (h : CutAt separators P) {seg : Units} (hseg : P seg) :
    P (unquoteSeg seg) := by
  by_cases hquoted : isQuotedSeg seg = true
  · obtain ⟨body, rfl⟩ := isQuotedSeg_iff.1 hquoted
    rw [unquoteSeg_quoted]
    exact ((h.enclosed (by decide)).1 hseg).2
  · unfold unquoteSeg
    rwa [if_neg hquoted]

theorem cut_filePrints (h : CutAt separators P) (hnil : P []) {file printed : Units}
    (hprinted : FilePrints file printed) (hfile : P file) : P printed := by
  obtain ⟨-, -, rfl⟩ := hprinted
  split
  · exact (h.enclosed (by decide)).2 ⟨hnil, hfile⟩
  · exact hfile

theorem cut_slotPrints (h : CutAt separators P) (hnil : P []) {slot printed : Units}
    (hprinted : SlotPrints slot printed) (hslot : P slot) : P printed := by
  obtain ⟨subs, parts, hsubs, hparts, rfl⟩ := hprinted
  rw [hsubs.pieces, h.intercalate (by decide) hsubs.nonempty] at hslot
  have hne : parts ≠ [] := by
    rintro rfl
    exact hsubs.nonempty (List.forall₂_nil_right_iff.1 hparts)
  rw [h.intercalate (by decide) hne]
  refine forall_mem_right hparts fun sub hsub part hformat => ?_
  have hclean := (hsubs.valid sub hsub).clean
  rcases formatSubSegment_cases hclean.1 hformat with rfl | ⟨-, rfl⟩
  · exact hslot part hsub
  · exact (h.enclosed (by decide)).2 ⟨hnil, hslot sub hsub⟩

theorem cut_session (h : CutAt separators P) {query session : Option Units} {input : Units}
    (hsession : extractSession (query.getD []) input = .ok session)
    (hquery : ∀ value ∈ query, P value) : ∀ value ∈ sessionQuery session, P value := by
  intro value hvalue
  obtain ⟨found, rfl, rfl⟩ := Option.map_eq_some_iff.1 hvalue
  obtain ⟨-, -, hmem⟩ := mem_of_extractSession hsession
  cases query with
  | none =>
    have hnone : extractSession [] input = .ok (some found) := hsession
    simp [extractSession] at hnone
  | some text =>
    have hpairs := hquery text rfl
    rw [← @List.intercalate_splitOn _ text _ _ ampersand,
      h.intercalate (by decide) (List.splitOn_ne_nil _ _)] at hpairs
    exact hpairs _ hmem

/-- **What printing keeps.** -/
theorem cut_printed (h : CutAt separators P) {fileSeg printed : Units} {slots parts : List Units}
    {query session : Option Units} {input : Units}
    (hread : P (textOf (fileSeg :: slots) query))
    (hsession : extractSession (query.getD []) input = .ok session)
    (hfile : FilePrints (unquoteSeg fileSeg) printed)
    (hparts : List.Forall₂ SlotPrints slots parts) :
    P (textOf (printed :: parts) (sessionQuery session)) := by
  rw [cut_textOf h (List.cons_ne_nil _ _)] at hread ⊢
  obtain ⟨hword, hnil, hsegments, hquery⟩ := hread
  obtain ⟨hfileSeg, hslots⟩ := List.forall_mem_cons.1 hsegments
  refine ⟨hword, hnil, List.forall_mem_cons.2 ⟨?_, ?_⟩, cut_session h hsession hquery⟩
  · exact cut_filePrints h hnil hfile (cut_unquoteSeg h hfileSeg)
  · exact forall_mem_right hparts fun slot hslot part hprints =>
      cut_slotPrints h hnil hprints (hslots slot hslot)

end

variable {printed : Units}

theorem piece_of_slotPrints {e : ℕ} (he : dot ≠ e) {slot : Units}
    (hprinted : SlotPrints slot printed) (hslot : nesting.Piece e slot) :
    nesting.Piece e printed := by
  obtain ⟨subs, parts, hsubs, hparts, rfl⟩ := hprinted
  have hclosed : ∀ sub ∈ subs, nesting.Closed sub := fun sub hsub => (hsubs.piece sub hsub).1
  rw [hsubs.pieces, Nesting.piece_intercalate delimiter_dot he hclosed] at hslot
  have hpieces : ∀ part ∈ parts, nesting.Piece e part := by
    refine forall_mem_right hparts fun sub hsub part hformat => ?_
    have hclean := (hsubs.valid sub hsub).clean
    rcases formatSubSegment_cases hclean.1 hformat with rfl | ⟨hquote, rfl⟩
    · exact hslot part hsub
    · exact piece_quoted e hquote
  exact (Nesting.piece_intercalate delimiter_dot he fun part hpart => (hpieces part hpart).1).2
    hpieces

variable {file : Units}

theorem not_fileStructural (h : file.any isFileStructural = false) :
    ∀ c ∈ file, isFileStructural c = false := by
  simpa using h

theorem isPlain_of_file {c : ℕ} (h : isFileStructural c = false) : isPlain c = true := by
  simp [isFileStructural] at h
  simp [isPlain, h]

theorem piece_of_filePrints {e : ℕ} (he : isFileStructural e = true)
    (hprinted : FilePrints file printed) : nesting.Piece e printed := by
  obtain ⟨-, hquotable, rfl⟩ := hprinted
  by_cases h : file.any isFileStructural = true
  · rw [if_pos h]
    exact piece_quoted e (hquotable h).1
  · rw [if_neg h]
    have hclear := not_fileStructural (by simpa using h)
    refine piece_plain (fun c hc => isPlain_of_file (hclear c hc)) fun hmem => ?_
    rw [hclear e hmem] at he
    exact Bool.false_ne_true he

variable {slots : List Units}

theorem separated_printed {fileSeg : Units} {parts : List Units}
    (hread : Separated (fileSeg :: slots)) (hfile : FilePrints file printed)
    (hparts : List.Forall₂ SlotPrints slots parts) : Separated (printed :: parts) := by
  refine ⟨List.cons_ne_nil _ _, ?_, ?_⟩
  · refine List.forall_mem_cons.2 ⟨piece_of_filePrints rfl hfile, ?_⟩
    exact forall_mem_right hparts fun slot hslot part hprints =>
      piece_of_slotPrints (by decide) hprints (hread.slash slot (List.mem_cons_of_mem _ hslot))
  · refine List.forall_mem_cons.2 ⟨piece_of_filePrints rfl hfile, ?_⟩
    exact forall_mem_right hparts fun slot hslot part hprints =>
      piece_of_slotPrints (by decide) hprints (hread.question slot (List.mem_cons_of_mem _ hslot))

theorem unquoteSeg_printed (h : FilePrints file printed) :
    unquoteSeg printed = file := by
  obtain ⟨-, -, rfl⟩ := h
  split
  · exact unquoteSeg_quoted file
  next hclear =>
    refine unquoteSeg_of_not_mem fun hmem => ?_
    have hquote := not_fileStructural (by simpa using hclear) quote hmem
    simp [isFileStructural] at hquote

theorem subOk_quoted {body : Units} (hcontrol : hasControlChar body = false)
    (hquote : quote ∉ body) (hbackslash : backslash ∉ body) :
    SubOk (quote :: (body ++ [quote])) := by
  have hquoted := isQuotedSeg_iff.2 ⟨body, rfl⟩
  have hclear : hasControlChar (quote :: (body ++ [quote])) = false :=
    (cut_control.enclosed (by decide)).2 ⟨rfl, hcontrol⟩
  unfold SubOk validateSubSegment
  simp only [Effectful.bind_eq_ok_iff, failIf_eq_ok, exists_const, hclear, if_pos hquoted]
  refine ⟨by simp, trivial, ?_⟩
  simp [inner, hquote, hbackslash]

theorem trim_of_clear (h : ∀ c ∈ s, isSpace c = false) : trim s = s := by
  have hleft : s.dropWhile isSpace = s := by
    rw [List.dropWhile_eq_self_iff]
    intro hlength
    simpa using h _ (List.getElem_mem hlength)
  unfold trim
  rw [hleft, List.rdropWhile_eq_self_iff]
  intro hne
  simpa using h _ (List.getLast_mem hne)

theorem startsWith_of_not_mem {c : ℕ} (h : c ∉ s) : startsWith s [c] = false := by
  refine Bool.eq_false_iff.2 fun hstart => h ?_
  exact (startsWith_iff.1 hstart).subset List.mem_cons_self

theorem endsWith_of_not_mem {c : ℕ} (h : c ∉ s) : endsWith s [c] = false := by
  refine Bool.eq_false_iff.2 fun hend => h ?_
  have hsuffix : [c] <:+ s := by simpa [endsWith] using hend
  exact hsuffix.subset List.mem_cons_self

theorem subOk_plain {sub : Units} (hne : sub ≠ []) (hcontrol : hasControlChar sub = false)
    (hclear : ∀ c ∈ sub, isFileStructural c = false) : SubOk sub := by
  have hnot : ∀ c, isFileStructural c = true → c ∉ sub := by
    intro c hc hmem
    rw [hclear c hmem] at hc
    exact Bool.false_ne_true hc
  have hquoted : isQuotedSeg sub ≠ true := by
    intro hquoted
    obtain ⟨body, rfl⟩ := isQuotedSeg_iff.1 hquoted
    exact hnot quote rfl List.mem_cons_self
  have hreserved : sub.any isReserved = false := by
    refine List.any_eq_false.2 fun c hc hres => ?_
    have hstructural := hclear c hc
    simp [isReserved] at hres
    simp [isFileStructural] at hstructural
    omega
  have hspaces : ∀ c ∈ sub, isSpace c = false := by
    intro c hc
    have hstructural := hclear c hc
    simp only [isFileStructural, Bool.or_eq_false_iff] at hstructural
    exact hstructural.2
  have hspace : sub.any isSpace = false := List.any_eq_false.2 (by simpa using hspaces)
  have htrim := trim_of_clear hspaces
  unfold SubOk validateSubSegment validateBracketSegment validateBraceSegment
  simp only [Effectful.bind_eq_ok_iff, failIf_eq_ok, exists_const, hcontrol, if_neg hquoted,
    startsWith_of_not_mem (hnot openBracket rfl), startsWith_of_not_mem (hnot openBrace rfl),
    endsWith_of_not_mem (hnot closeBracket rfl), endsWith_of_not_mem (hnot closeBrace rfl),
    hreserved, hspace, htrim]
  exact ⟨by simpa using hne, trivial, by simp; rfl⟩

/-- A file that is printed without quotes is read as sub-segments that its dots separate. -/
def Dotted (file input : Units) : Prop :=
  ∃ subs, splitRespectingBrackets file dot input = .ok subs ∧ [] ∉ subs ∧
    subs.length ≤ maxSubSegmentsPerSlot

theorem segmentOk_plain (input : Units) (hcontrol : hasControlChar file = false)
    (hclear : ∀ c ∈ file, isFileStructural c = false) :
    (∃ subs, SegmentOk file subs) ↔ Dotted file input := by
  constructor
  · rintro ⟨subs, h⟩
    refine ⟨subs, (splitRespectingBrackets_eq_ok rfl).2 ⟨h.nonempty, h.pieces, h.piece⟩, ?_,
      h.count⟩
    exact fun hmem => (h.valid [] hmem).clean.1 rfl
  · rintro ⟨subs, hsplit, hempty, hcount⟩
    obtain ⟨hne, hpieces, hpiece⟩ := (splitRespectingBrackets_eq_ok rfl).1 hsplit
    refine ⟨subs, hpieces, hne, hpiece, hcount, fun sub hsub => ?_⟩
    have hcutClear : CutAt [dot] fun s => ∀ c ∈ s, isFileStructural c = false :=
      CutAt.forall_mem (by decide)
    rw [hpieces, cut_control.intercalate (by decide) hne] at hcontrol
    rw [hpieces, hcutClear.intercalate (by decide) hne] at hclear
    refine subOk_plain ?_ (hcontrol sub hsub) (hclear sub hsub)
    rintro rfl
    exact hempty hsub

theorem segmentOk_quoted (hcontrol : hasControlChar file = false)
    (hquotable : quote ∉ file ∧ backslash ∉ file) :
    SegmentOk (quote :: (file ++ [quote])) [quote :: (file ++ [quote])] where
  pieces := by simp
  nonempty := List.cons_ne_nil _ _
  piece := by simpa using piece_quoted dot hquotable.1
  count := by simp [maxSubSegmentsPerSlot]
  valid := by simpa using subOk_quoted hcontrol hquotable.1 hquotable.2

theorem segmentOk_printed (input : Units) (hprinted : FilePrints file printed)
    (hcontrol : hasControlChar file = false) :
    (∃ subs, SegmentOk printed subs) ↔ (file.any isFileStructural = false → Dotted file input) := by
  obtain ⟨-, hquotable, rfl⟩ := hprinted
  by_cases h : file.any isFileStructural = true
  · rw [if_pos h]
    refine iff_of_true ⟨_, segmentOk_quoted hcontrol (hquotable h)⟩ fun hclear => ?_
    rw [h] at hclear
    exact absurd hclear.symm Bool.false_ne_true
  · have hclear : file.any isFileStructural = false := by simpa using h
    rw [if_neg h, segmentOk_plain input hcontrol (not_fileStructural hclear)]
    exact ⟨fun hdotted _ => hdotted, fun hdotted => hdotted hclear⟩

theorem slotPrints_self {slot : Units} {subs : List Units} (hsubs : SegmentOk slot subs) :
    SlotPrints slot slot ↔ ∀ sub ∈ subs, Verbatim sub := by
  constructor
  · rintro ⟨subs', parts, hsubs', hparts, hprinted⟩
    obtain rfl := hsubs.unique hsubs'
    have hne : parts ≠ [] := by
      rintro rfl
      exact hsubs.nonempty (List.forall₂_nil_right_iff.1 hparts)
    have hpiece : ∀ part ∈ parts, nesting.Piece dot part := by
      refine forall_mem_right hparts fun sub hsub part hformat => ?_
      have hclean := (hsubs.valid sub hsub).clean
      rcases formatSubSegment_cases hclean.1 hformat with rfl | ⟨hquote, rfl⟩
      · exact hsubs.piece part hsub
      · exact piece_quoted dot hquote
    obtain rfl := Nesting.intercalate_inj delimiter_dot hsubs.nonempty hsubs.piece hne hpiece
      (hsubs.pieces.symm.trans hprinted)
    intro sub hsub
    have hself := List.forall₂_same.1 hparts sub hsub
    exact (formatSubSegment_self (hsubs.valid sub hsub).clean.1).1 hself
  · intro hverbatim
    refine ⟨subs, subs, hsubs, List.forall₂_same.2 fun sub hsub => ?_, hsubs.pieces⟩
    exact (formatSubSegment_self (hsubs.valid sub hsub).clean.1).2 (hverbatim sub hsub)

theorem length_textOf (seg : Units) (segments : List Units) (query : Option Units) :
    (textOf (seg :: segments) query).length = ocScheme.length + seg.length +
      (segments.flatMap (slash :: ·)).length + query.elim 0 (·.length + 1) := by
  unfold textOf
  rw [intercalate_slash_cons]
  cases query <;> simp only [List.length_append, Option.elim_none, Option.elim_some,
    List.length_nil, List.length_cons] <;> omega

def Grows (fileSeg : Units) : Bool := !isQuotedSeg fileSeg && fileSeg.any isFileStructural

theorem length_filePrints {fileSeg : Units} (h : FilePrints (unquoteSeg fileSeg) printed) :
    (Grows fileSeg = true → printed.length = fileSeg.length + 2) ∧
      (Grows fileSeg = false → printed.length ≤ fileSeg.length) := by
  obtain ⟨-, -, rfl⟩ := h
  unfold Grows
  by_cases hquoted : isQuotedSeg fileSeg = true
  · obtain ⟨body, rfl⟩ := isQuotedSeg_iff.1 hquoted
    rw [unquoteSeg_quoted, hquoted]
    refine ⟨fun hfalse => absurd hfalse (by simp), fun _ => ?_⟩
    split <;> simp only [List.length_cons, List.length_append, List.length_nil] <;> omega
  · have hsame : unquoteSeg fileSeg = fileSeg := by
      unfold unquoteSeg
      rw [if_neg hquoted]
    rw [hsame, Bool.eq_false_iff.2 hquoted]
    by_cases hany : fileSeg.any isFileStructural = true <;> simp [hany]

theorem length_sessionQuery {query session : Option Units} {input : Units}
    (hsession : extractSession (query.getD []) input = .ok session) :
    (sessionQuery session).elim 0 (·.length + 1) ≤ query.elim 0 (·.length + 1) := by
  cases session with
  | none => simp [sessionQuery]
  | some value =>
    obtain ⟨-, -, hmem⟩ := mem_of_extractSession hsession
    cases query with
    | none =>
      have hnone : extractSession [] input = .ok (some value) := hsession
      simp [extractSession] at hnone
    | some text =>
      have hlength := List.length_le_intercalate (b := [ampersand]) hmem
      rw [Option.getD_some, List.intercalate_splitOn] at hlength
      simpa [sessionQuery] using hlength

def quotedLength (pathPart : Units) (session : Option Units) : ℕ :=
  ocScheme.length + (pathPart.length + 2) +
    session.elim 0 fun value => (utf16 "?session=" ++ value).length

theorem length_printed {fileSeg input : Units}
    {query session : Option Units} (hprinted : FilePrints (unquoteSeg fileSeg) printed)
    (hsession : extractSession (query.getD []) input = .ok session)
    (hread : (textOf (fileSeg :: slots) query).length ≤ maxPathLength) :
    (textOf (printed :: slots) (sessionQuery session)).length ≤ maxPathLength ↔
      (Grows fileSeg = true →
        quotedLength ([slash].intercalate (fileSeg :: slots)) session ≤ maxPathLength) := by
  obtain ⟨hgrows, hkept⟩ := length_filePrints hprinted
  have hquery := length_sessionQuery hsession
  have hpath : ([slash].intercalate (fileSeg :: slots)).length =
      fileSeg.length + (slots.flatMap (slash :: ·)).length := by
    rw [intercalate_slash_cons, List.length_append]
  have hword : utf16 "?session=" = question :: utf16 "session=" := by decide +kernel
  have hsame : (session.elim 0 fun value => (utf16 "?session=" ++ value).length) =
      (sessionQuery session).elim 0 (·.length + 1) := by
    cases session <;> simp [sessionQuery, hword]
  unfold quotedLength
  rw [length_textOf] at hread ⊢
  rw [hpath, hsame]
  by_cases h : Grows fileSeg = true
  · have hlength := hgrows h
    simp only [h, forall_const]
    omega
  · have hlength := hkept (by simpa using h)
    refine iff_of_true (by omega) fun hfalse => absurd hfalse h

/-- The path of the text is printed, the printed text is read as the same path, and that path
is printed in the same way. -/
def RoundTrips (U : Normalizer) (s : Units) : Prop :=
  ∃ path printed path', parseOcPath U s = .ok path ∧ formatOcPath path = .ok printed ∧
    parseOcPath U printed = .ok path' ∧ path' = path ∧ formatOcPath path' = .ok printed

structure SegmentsReprint (fileSeg : Units) (slots : List Units) (session : Option Units)
    (s : Units) : Prop where
  nonempty : unquoteSeg fileSeg ≠ []
  /-- a file that is printed in quotes can be quoted -/
  quotable : (unquoteSeg fileSeg).any isFileStructural = true →
    quote ∉ unquoteSeg fileSeg ∧ backslash ∉ unquoteSeg fileSeg
  /-- a file that is printed without quotes is a segment -/
  dotted : (unquoteSeg fileSeg).any isFileStructural = false → Dotted (unquoteSeg fileSeg) s
  /-- the quotes do not make the text too long -/
  length : Grows fileSeg = true →
    quotedLength ([slash].intercalate (fileSeg :: slots)) session ≤ maxPathLength
  verbatim : ∀ slot ∈ slots, ∀ subs, splitRespectingBrackets slot dot s = .ok subs →
    ∀ sub ∈ subs, Verbatim sub

/-- The text, as `parseOcPath` cuts it, can be printed and read again. -/
def Reprints (U : Normalizer) (s : Units) : Prop :=
  let afterScheme := (normalized U s).drop ocScheme.length
  ∃ queryIndex fileSeg slots session,
    indexOfTopLevel afterScheme question = .ok queryIndex ∧
    splitRespectingBrackets (queryIndex.elim afterScheme afterScheme.take) slash s =
      .ok (fileSeg :: slots) ∧
    extractSession (queryIndex.elim [] fun i => afterScheme.drop (i + 1)) s = .ok session ∧
    SegmentsReprint fileSeg slots session s

variable {U : Normalizer}

theorem reprints_iff {fileSeg : Units}
    {query session : Option Units} (hshape : Shape (normalized U s) (fileSeg :: slots) query)
    (hsession : extractSession (query.getD []) s = .ok session) :
    Reprints U s ↔ SegmentsReprint fileSeg slots session s := by
  have hindex := index_textOf hshape.separated query
  obtain ⟨hpath, hquery⟩ := parts_textOf (fileSeg :: slots) query
  rw [← hshape.text_eq] at hindex hpath hquery
  have hsplit : splitRespectingBrackets ([slash].intercalate (fileSeg :: slots)) slash s =
      .ok (fileSeg :: slots) := (splitRespectingBrackets_eq_ok rfl).2
    ⟨hshape.separated.nonempty, rfl, hshape.separated.slash⟩
  unfold Reprints
  simp only [hindex, Except.ok.injEq, exists_and_left, exists_eq_left']
  rw [hpath, hquery, hsplit, hsession]
  constructor
  · rintro ⟨_, _, heq, _, hsame, h⟩
    obtain ⟨rfl, rfl⟩ := List.cons_eq_cons.1 (Except.ok.inj heq)
    obtain rfl := Except.ok.inj hsame
    exact h
  · intro h
    exact ⟨fileSeg, slots, rfl, session, rfl, h⟩

theorem slots_of_pathOf {seg seg' : Units} {slots' : List Units}
    {session session' : Option Units} (hcount : slots.length ≤ 3) (hcount' : slots'.length ≤ 3)
    (heq : pathOf (seg :: slots) session = pathOf (seg' :: slots') session') : slots = slots' := by
  have hsection : slots[0]? = slots'[0]? := congrArg OcPath.section? heq
  have hitem : slots[1]? = slots'[1]? := congrArg OcPath.item? heq
  have hfield : slots[2]? = slots'[2]? := congrArg OcPath.field? heq
  refine List.ext_getElem? fun i => ?_
  match i with
  | 0 => exact hsection
  | 1 => exact hitem
  | 2 => exact hfield
  | i + 3 => rw [List.getElem?_eq_none (by omega), List.getElem?_eq_none (by omega)]

theorem normalized_printed {segments : List Units} {query : Option Units}
    (h : U.normalize (textOf segments query) = textOf segments query) :
    normalized U (textOf segments query) = textOf segments query := by
  have hscheme : ocScheme = 0x6F :: utf16 "c://" := by decide +kernel
  have hmark : startsWith (textOf segments query) [0xFEFF] = false := by
    unfold textOf
    rw [hscheme]
    rfl
  unfold normalized
  rw [hmark, if_neg Bool.false_ne_true, h]

theorem not_sentinel (h : includes s redactedSentinel = false) :
    ¬redactedSentinel <:+: normalized U s := by
  intro hinfix
  have hmark := U.sentinel _ hinfix
  have hclear : ¬redactedSentinel <:+: s := by
    rw [← includes_iff, h]
    exact Bool.false_ne_true
  split at hmark
  · exact hclear (hmark.trans (List.drop_suffix 1 s).isInfix)
  · exact hclear hmark

theorem read_printed {fileSeg : Units}
    {query session : Option Units} (hshape : Shape (normalized U s) (fileSeg :: slots) query)
    (hsession : extractSession (query.getD []) s = .ok session)
    (hprinted : FilePrints (unquoteSeg fileSeg) printed)
    (hslots : List.Forall₂ SlotPrints slots slots)
    (hdotted : ∃ subs, SegmentOk printed subs)
    (hlength : (textOf (printed :: slots) (sessionQuery session)).length ≤ maxPathLength) :
    parseOcPath U (textOf (printed :: slots) (sessionQuery session)) =
      .ok (pathOf (fileSeg :: slots) session) := by
  have hread := hshape.text_eq
  have hnormal : U.normalize (normalized U s) = normalized U s := U.idempotent _
  have hcontrol := hshape.control
  rw [hread] at hnormal hcontrol
  have hname : unquoteSeg printed = unquoteSeg fileSeg := unquoteSeg_printed hprinted
  have hsegments := List.forall_mem_cons.1 hshape.segment
  have hne : printed ≠ [] := by
    rintro rfl
    obtain ⟨subs, hsubs⟩ := hdotted
    exact hprinted.1 (by rw [← hname]; rfl)
  rw [parseOcPath_eq_ok, normalized_printed (cut_printed (cut_normal U) hnormal hsession hprinted
    hslots)]
  refine ⟨hlength, printed :: slots, sessionQuery session, session, ?_, ?_, ?_⟩
  · exact {
      length := hlength
      control := cut_printed cut_control hcontrol hsession hprinted hslots
      text_eq := rfl
      separated := separated_printed hshape.separated hprinted hslots
      segment := List.forall_mem_cons.2 ⟨⟨hne, hdotted⟩, hsegments.2⟩
      count := hshape.count
      file := by
        show FileOk (unquoteSeg printed)
        rw [hname]
        exact hshape.file }
  · refine extractSession_sessionQuery _ ?_
    rintro value rfl
    obtain ⟨hvalue, hok, -⟩ := mem_of_extractSession hsession
    exact ⟨hvalue, hok⟩
  · unfold pathOf
    rw [List.headD_cons, List.headD_cons, hname]
    rfl

theorem slots_of_read {fileSeg : Units} {parts : List Units}
    {query session : Option Units} (hshape : Shape (normalized U s) (fileSeg :: slots) query)
    (hsession : extractSession (query.getD []) s = .ok session)
    (hprinted : FilePrints (unquoteSeg fileSeg) printed)
    (hparts : List.Forall₂ SlotPrints slots parts)
    (hread : parseOcPath U (textOf (printed :: parts) (sessionQuery session)) =
      .ok (pathOf (fileSeg :: slots) session)) :
    parts = slots ∧ ∃ subs, SegmentOk printed subs := by
  have hnormal : U.normalize (normalized U s) = normalized U s := U.idempotent _
  rw [hshape.text_eq] at hnormal
  rw [parseOcPath_eq_ok, normalized_printed (cut_printed (cut_normal U) hnormal hsession hprinted
    hparts)] at hread
  obtain ⟨-, segments, query', session', hshape', -, hpath⟩ := hread
  obtain rfl : printed :: parts = segments :=
    textOf_inj (separated_printed hshape.separated hprinted hparts) hshape'.separated
      hshape'.text_eq
  have hcount : slots.length ≤ 3 := by
    have hall := hshape.count
    rw [List.length_cons] at hall
    omega
  have hcount' : parts.length ≤ 3 := by
    have hall := hshape'.count
    rw [List.length_cons] at hall
    omega
  exact ⟨(slots_of_pathOf hcount hcount' hpath).symm,
    (hshape'.segment printed List.mem_cons_self).2⟩

/-- **An accepted text without the sentinel survives printing** exactly when its file and its
sub-segments do. -/
theorem survives_printing_iff (U : Normalizer) (s : Units)
    (haccepted : ∃ path, parseOcPath U s = .ok path)
    (hclear : includes s redactedSentinel = false) : RoundTrips U s ↔ Reprints U s := by
  obtain ⟨path, hpath⟩ := haccepted
  obtain ⟨-, segments, query, session, hshape, hsession, rfl⟩ := parseOcPath_eq_ok.1 hpath
  obtain ⟨fileSeg, slots, rfl⟩ := List.exists_cons_of_ne_nil hshape.separated.nonempty
  rw [reprints_iff hshape hsession]
  have hcount : slots.length ≤ 3 := by
    have hall := hshape.count
    rw [List.length_cons] at hall
    omega
  have hsegments := List.forall_mem_cons.1 hshape.segment
  have hslots : ∀ slot ∈ slots, ∃ subs, SegmentOk slot subs :=
    fun slot hslot => (hsegments.2 slot hslot).2
  have hvalid : ∀ value ∈ session, SessionOk value := by
    rintro value rfl
    exact (mem_of_extractSession hsession).2.1
  have hformat := fun text =>
    @formatOcPath_eq_ok fileSeg slots session text hcount hslots hshape.file hvalid
  have hlength := hshape.length
  rw [hshape.text_eq] at hlength
  have hcontrol : hasControlChar (unquoteSeg fileSeg) = false := by
    have htext := hshape.control
    rw [hshape.text_eq, cut_textOf cut_control hshape.separated.nonempty] at htext
    exact cut_unquoteSeg cut_control (htext.2.2.1 fileSeg List.mem_cons_self)
  constructor
  · rintro ⟨_, text, _, hread, hprint, hagain, rfl, -⟩
    obtain rfl := Except.ok.inj (hpath.symm.trans hread)
    obtain ⟨printed, parts, hprinted, hparts, rfl, hbound, -⟩ := (hformat _).1 hprint
    obtain ⟨rfl, hdotted⟩ := slots_of_read hshape hsession hprinted hparts hagain
    refine ⟨hprinted.1, hprinted.2.1, (segmentOk_printed s hprinted hcontrol).1 hdotted,
      (length_printed hprinted hsession hlength).1 hbound, fun slot hslot subs hsplit => ?_⟩
    obtain ⟨subs', hsubs⟩ := hslots slot hslot
    have hsame : splitRespectingBrackets slot dot s = .ok subs' :=
      (splitRespectingBrackets_eq_ok rfl).2 ⟨hsubs.nonempty, hsubs.pieces, hsubs.piece⟩
    obtain rfl := Except.ok.inj (hsame.symm.trans hsplit)
    exact (slotPrints_self hsubs).1 (List.forall₂_same.1 hparts slot hslot)
  · intro h
    obtain ⟨printed, hprinted⟩ : ∃ printed, FilePrints (unquoteSeg fileSeg) printed :=
      ⟨_, h.nonempty, h.quotable, rfl⟩
    have hself : List.Forall₂ SlotPrints slots slots := by
      refine List.forall₂_same.2 fun slot hslot => ?_
      obtain ⟨subs, hsubs⟩ := hslots slot hslot
      refine (slotPrints_self hsubs).2 (h.verbatim slot hslot subs ?_)
      exact (splitRespectingBrackets_eq_ok rfl).2 ⟨hsubs.nonempty, hsubs.pieces, hsubs.piece⟩
    have hbound := (length_printed hprinted hsession hlength).2 h.length
    have hdotted := (segmentOk_printed s hprinted hcontrol).2 h.dotted
    have hagain := read_printed hshape hsession hprinted hself hdotted hbound
    have hsentinel := not_sentinel (U := U) hclear
    rw [hshape.text_eq] at hsentinel
    have hsafe := cut_printed cut_sentinel hsentinel hsession hprinted hself
    have hprint := (hformat _).2 ⟨printed, slots, hprinted, hself, rfl, hbound, by
      rwa [← includes_iff, Bool.not_eq_true] at hsafe⟩
    exact ⟨_, _, _, hpath, hprint, hagain, rfl, hprint⟩

def ascii : Normalizer where
  normalize := id
  idempotent _ := rfl
  stable := by simp
  sentinel _ h := h

theorem agents_survives_printing :
    parseOcPath ascii (utf16 "oc://AGENTS.md/Tools/\"a b\".[k=v]?session=s1") =
        .ok ⟨utf16 "AGENTS.md", some (utf16 "Tools"), some (utf16 "\"a b\".[k=v]"), none,
          some (utf16 "s1")⟩ ∧
      (RoundTrips ascii (utf16 "oc://AGENTS.md/Tools/\"a b\".[k=v]?session=s1") ↔
        Reprints ascii (utf16 "oc://AGENTS.md/Tools/\"a b\".[k=v]?session=s1")) := by
  have hread : parseOcPath ascii (utf16 "oc://AGENTS.md/Tools/\"a b\".[k=v]?session=s1") =
      .ok ⟨utf16 "AGENTS.md", some (utf16 "Tools"), some (utf16 "\"a b\".[k=v]"), none,
        some (utf16 "s1")⟩ := by
    decide +kernel
  exact ⟨hread, survives_printing_iff ascii _ ⟨_, hread⟩ (by decide +kernel)⟩

theorem backslash_not_printed :
    ¬∀ (U : Normalizer) (s : Units), (∃ path, parseOcPath U s = .ok path) →
      includes s redactedSentinel = false → RoundTrips U s := by
  intro h
  have hread : parseOcPath ascii (utf16 "oc://a/b\\c") =
      .ok ⟨utf16 "a", some (utf16 "b\\c"), none, none, none⟩ := by
    decide +kernel
  have hprint : (formatOcPath ⟨utf16 "a", some (utf16 "b\\c"), none, none, none⟩).toOption =
      none := by
    decide +kernel
  obtain ⟨path, printed, -, hpath, hformat, -⟩ := h ascii _ ⟨_, hread⟩ (by decide +kernel)
  obtain rfl := Except.ok.inj (hread.symm.trans hpath)
  rw [hformat] at hprint
  simp [Except.toOption] at hprint

end ClawHarder.OcPaths
