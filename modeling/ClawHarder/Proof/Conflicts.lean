import ClawHarder.Lib.Effectful
import ClawHarder.Lib.Separable
import ClawHarder.Proof.Budget

/-!
# Conflicts in the injected context

The entries of conflicted facts come after the objective and the active facts, and a
context that is too long is cut at its end. The first entry is shown if its mark lies
before the cut. No mark lies across the heading before it: the heading ends in a line
break, which the mark does not contain.

* `sections_isSome_iff`: the sections have texts just in case each template does.
* `conflicts_shown_iff`: **a context with a conflicted fact shows a mark just in case its
  templates have texts and the first mark, or one that is quoted before it, is not cut.**
-/

namespace ClawHarder

namespace Injection

open Effectful (bind_isSome mapM_isSome_iff)

variable {N : Type} [JsNumber N]

/-- **A mark in the first units of a text** where it begins after a unit that it does not
contain. -/
theorem infix_take_iff {mark before rest : List ℕ} {c : ℕ} (hc : c ∉ mark) (k : ℕ) :
    mark <:+: (before ++ [c] ++ (mark ++ rest)).take k ↔
      mark <:+: (before ++ [c]).take k ∨ (before ++ [c]).length + mark.length ≤ k := by
  rw [List.take_append]
  constructor
  · intro h
    by_cases hlong : (before ++ [c]).length + mark.length ≤ k
    · exact Or.inr hlong
    left
    by_cases hshort : k ≤ (before ++ [c]).length
    · rwa [Nat.sub_eq_zero_of_le hshort, List.take_zero, List.append_nil] at h
    · have hall : (before ++ [c]).take k = before ++ [c] := List.take_of_length_le (by omega)
      rw [hall] at h ⊢
      rw [List.append_assoc, List.singleton_append] at h
      have hcut := CutAt.not_infix (fun d hd => List.mem_singleton.1 hd ▸ hc) c
        (List.mem_singleton_self c) before ((mark ++ rest).take (k - (before ++ [c]).length))
      rw [← not_iff_not, not_not, not_and_or, not_not, not_not] at hcut
      rcases hcut.1 h with hbefore | hpart
      · exact List.infix_append_of_infix_left hbefore
      · -- what is left of the mark is too short
        have hle := hpart.length_le
        rw [List.length_take] at hle
        omega
  · rintro (hquoted | hlong)
    · exact List.infix_append_of_infix_left hquoted
    · have hmark : mark <+: (mark ++ rest).take (k - (before ++ [c]).length) :=
        List.prefix_take_iff.2 ⟨List.prefix_append mark rest, by omega⟩
      exact List.infix_append_of_infix_right hmark.isInfix

theorem joinUnits_split (separator : String) (texts more : List (List ℕ)) (x y : List ℕ) :
    ∃ tail, joinUnits separator (texts ++ (x ++ y) :: more) =
      joinUnits separator (texts ++ [x]) ++ (y ++ tail) ∧ (more = [] → tail = []) := by
  unfold joinUnits
  induction texts with
  | nil =>
    cases more with
    | nil => exact ⟨[], by simp, fun _ => rfl⟩
    | cons z more =>
      refine ⟨utf16 separator ++ (utf16 separator).intercalate (z :: more), ?_, fun h => by cases h⟩
      simp [List.intercalate_cons_cons]
  | cons text texts ih =>
    obtain ⟨tail, htail, hnil⟩ := ih
    have hleft : texts ++ (x ++ y) :: more ≠ [] := by simp
    have hright : texts ++ [x] ≠ [] := by simp
    refine ⟨tail, ?_, hnil⟩
    rw [List.cons_append, List.cons_append, List.intercalate_cons_of_ne_nil hleft,
      List.intercalate_cons_of_ne_nil hright, htail]
    simp only [List.append_assoc]

theorem utf16_intercalate (separator : String) (texts : List String) :
    utf16 (String.intercalate separator texts) = joinUnits separator (texts.map utf16) := by
  have hflat : ∀ lists : List (List Char), ((separator.toList.intercalate lists).flatMap fun c =>
      if c.toNat < 0x10000 then [c.toNat]
      else [0xD800 + (c.toNat - 0x10000) / 0x400, 0xDC00 + (c.toNat - 0x10000) % 0x400]) =
        (utf16 separator).intercalate (lists.map fun cs => cs.flatMap fun c =>
          if c.toNat < 0x10000 then [c.toNat]
          else [0xD800 + (c.toNat - 0x10000) / 0x400, 0xDC00 + (c.toNat - 0x10000) % 0x400]) := by
    intro lists
    induction lists with
    | nil => rfl
    | cons cs lists ih =>
      cases lists with
      | nil => simp
      | cons ds lists =>
        rw [List.intercalate_cons_cons, List.flatMap_append, List.flatMap_append, ih]
        simp only [List.map_cons, List.intercalate_cons_cons]
        rfl
  unfold joinUnits
  rw [utf16, String.toList_intercalate, hflat, List.map_map]
  rfl

def conflictMark : List ℕ := utf16 "- [STATE: CONFLICTED]"

def conflictHeading : List ℕ := utf16 "## Conflicted Beliefs ⚠️\n\n"

theorem conflictedLine_marked {P : Printer N} {f : Fact N} {line : String}
    (h : conflictedLine P f = some line) : conflictMark <+: utf16 line := by
  unfold conflictedLine at h
  obtain ⟨value, hvalue, hline⟩ := Option.bind_eq_some_iff.1 h
  obtain rfl := Option.some.inj hline
  have hbegin : "- [STATE: CONFLICTED] [" = "- [STATE: CONFLICTED]" ++ " [" := by decide +kernel
  rw [hbegin]
  simp only [utf16_append, List.append_assoc]
  exact List.prefix_append _ _

theorem renderConflicted_marked {P : Printer N} {f : Fact N} {facts : List (Fact N)} {text : String}
    (h : renderConflictedSection P (f :: facts) = some text) :
    ∃ rest, utf16 text = conflictHeading ++ (conflictMark ++ rest) := by
  unfold renderConflictedSection at h
  obtain ⟨lines, hlines, htext⟩ := Option.bind_eq_some_iff.1 h
  obtain rfl := Option.some.inj htext
  rw [List.mapM_cons] at hlines
  obtain ⟨line, hline, hothers⟩ := Option.bind_eq_some_iff.1 hlines
  obtain ⟨others, -, hall⟩ := Option.bind_eq_some_iff.1 hothers
  obtain rfl := Option.some.inj hall
  obtain ⟨more, hmore⟩ := conflictedLine_marked hline
  obtain ⟨rest, hrest⟩ : conflictMark <+: utf16 (String.intercalate "\n" (line :: others)) := by
    rw [utf16_intercalate, List.map_cons, ← hmore]
    unfold joinUnits
    cases others with
    | nil => simp
    | cons other others =>
      rw [List.map_cons, List.intercalate_cons_cons, List.append_assoc, List.append_assoc]
      exact List.prefix_append _ _
  refine ⟨rest ++ utf16 "\n\n_These beliefs require resolution before acting on them._", ?_⟩
  rw [utf16_append, utf16_append, ← hrest, conflictHeading, List.append_assoc, List.append_assoc]

def shownOps (config : InjectionConfig) (manifest : Manifest N) : List (Operation N) :=
  sliceFrom config.maxRecentOps.neg (manifest.operations.filter fun op => relevant op.type)

structure Renders (P : Printer N) (config : InjectionConfig) (manifest : Manifest N) : Prop where
  objective : (extractObjective manifest).isSome = true
  facts : ∀ f ∈ selectFacts config manifest, (factLine P f).isSome = true
  conflicted : ∀ f ∈ selectConflictedFacts manifest, (conflictedLine P f).isSome = true
  operations : config.includeRecentOps = true →
    ∀ op ∈ shownOps config manifest, (summarizeOp op).isSome = true

theorem sectionIf_isSome {α : Type} {items : List α} {render : List α → Option (List ℕ)} :
    (sectionIf items render).isSome = true ↔ items = [] ∨ (render items).isSome = true := by
  unfold sectionIf
  split
  · rename_i hnil
    simp [hnil]
  · rename_i hne
    simp [hne]

/-- The sections before the conflicted facts, and the heading of theirs. -/
def precedingText (P : Printer N) (config : InjectionConfig) (manifest : Manifest N) :
    Option (List ℕ) := do
  let objective ← extractObjective manifest
  let facts ← sectionIf (selectFacts config manifest) fun facts =>
    (renderFactsSection P facts).map utf16
  return joinUnits "\n\n"
    (objective.toList.map (fun text => utf16 ("**Objective:** " ++ text)) ++ facts ++
      [conflictHeading])

/-- **The sections have texts just in case each template does.** -/
theorem sections_isSome_iff (P : Printer N) (config : InjectionConfig) (manifest : Manifest N) :
    (sections P config manifest).isSome = true ↔ Renders P config manifest := by
  have hexists {α : Type} (o : Option α) (p : Prop) : (∃ a, o = some a ∧ p) ↔ o.isSome ∧ p := by
    rw [exists_and_right, Option.isSome_iff_exists]
  have hempty {α : Type} {items : List α} {p : α → Prop} :
      (items = [] ∨ ∀ a ∈ items, p a) ↔ ∀ a ∈ items, p a := by
    refine or_iff_right_of_imp fun hnil a ha => ?_
    rw [hnil] at ha
    cases ha
  have hfacts : (renderFactsSection P (selectFacts config manifest)).isSome = true ↔
      ∀ f ∈ selectFacts config manifest, (factLine P f).isSome = true := by
    unfold renderFactsSection
    simp only [bind_isSome, Option.pure_def, Option.isSome_some, and_true,
      ← Option.isSome_iff_exists, mapM_isSome_iff]
  have hconflicted : (renderConflictedSection P (selectConflictedFacts manifest)).isSome = true ↔
      ∀ f ∈ selectConflictedFacts manifest, (conflictedLine P f).isSome = true := by
    unfold renderConflictedSection
    simp only [bind_isSome, Option.pure_def, Option.isSome_some, and_true,
      ← Option.isSome_iff_exists, mapM_isSome_iff]
  have hops : (extractRecentOps config manifest).isSome = true ↔
      ∀ op ∈ shownOps config manifest, (summarizeOp op).isSome = true := by
    unfold extractRecentOps shownOps
    simp only [mapM_isSome_iff, bind_isSome, Option.pure_def, Option.isSome_some, and_true,
      ← Option.isSome_iff_exists]
  have hall : (sections P config manifest).isSome = true ↔
      (extractObjective manifest).isSome = true ∧
        (∀ f ∈ selectFacts config manifest, (factLine P f).isSome = true) ∧
          (∀ f ∈ selectConflictedFacts manifest, (conflictedLine P f).isSome = true) ∧
            (config.includeRecentOps = true →
              ∀ op ∈ shownOps config manifest, (summarizeOp op).isSome = true) := by
    unfold sections
    cases hrecent : config.includeRecentOps <;> cases hrefs : config.includeRefs <;>
      simp only [if_true, if_false, Bool.false_eq_true, bind_isSome, Option.pure_def,
        Option.isSome_some, hexists, ← Option.isSome_iff_exists, sectionIf_isSome,
        Option.isSome_map, hfacts, hconflicted, hempty, or_true, and_true, hops, false_implies,
        true_implies, true_and]
  rw [hall]
  exact ⟨fun h => ⟨h.1, h.2.1, h.2.2.1, h.2.2.2⟩,
    fun h => ⟨h.objective, h.facts, h.conflicted, h.operations⟩⟩

/-- **The sections with a conflicted fact**: a text, a marked entry, and more. -/
theorem sections_marked {P : Printer N} {config : InjectionConfig} {manifest : Manifest N}
    (hconflict : ∃ f ∈ manifest.facts.values, f.state = .conflicted) {texts : List (List ℕ)}
    (h : sections P config manifest = some texts) :
    ∃ preceding rest, precedingText P config manifest = some (preceding ++ [10]) ∧
      joinUnits "\n\n" texts = preceding ++ [10] ++ (conflictMark ++ rest) := by
  unfold sections at h
  obtain ⟨objective, hobjective, h⟩ := Option.bind_eq_some_iff.1 h
  obtain ⟨facts, hfacts, h⟩ := Option.bind_eq_some_iff.1 h
  obtain ⟨conflicted, hconflicted, h⟩ := Option.bind_eq_some_iff.1 h
  obtain ⟨summaries, -, h⟩ := Option.bind_eq_some_iff.1 h
  obtain ⟨before, hbefore⟩ : ∃ before, before =
    objective.toList.map (fun text => utf16 ("**Objective:** " ++ text)) ++ facts := ⟨_, rfl⟩
  obtain ⟨more, hmore⟩ : ∃ more, texts = before ++ conflicted ++ more := by
    rw [hbefore]
    cases hrecent : config.includeRecentOps <;> cases hrefs : config.includeRefs <;>
      simp only [hrecent, hrefs, if_true, if_false, Bool.false_eq_true, Option.bind_eq_bind,
        Option.bind_some, Option.bind_eq_some_iff, Option.pure_def, Option.some.injEq] at h
    · exact ⟨_, by rw [← h]; simp only [List.append_assoc]; rfl⟩
    · obtain ⟨refs, -, rfl⟩ := h
      exact ⟨_, by simp only [List.append_assoc]; rfl⟩
    · obtain ⟨-, -, ops, -, rfl⟩ := h
      exact ⟨_, by simp only [List.append_assoc]; rfl⟩
    · obtain ⟨-, -, ops, -, refs, -, rfl⟩ := h
      exact ⟨_, by simp only [List.append_assoc]; rfl⟩
  obtain ⟨f, hf, hstate⟩ := hconflict
  have hmem : f ∈ selectConflictedFacts manifest := List.mem_filter.2 ⟨hf, by simpa using hstate⟩
  obtain ⟨first, others, hselected⟩ := List.exists_cons_of_ne_nil (List.ne_nil_of_mem hmem)
  rw [hselected] at hconflicted
  unfold sectionIf at hconflicted
  rw [if_neg (List.cons_ne_nil _ _), Option.map_map, Option.map_eq_some_iff] at hconflicted
  obtain ⟨text, htext, rfl⟩ := hconflicted
  obtain ⟨rest, hrest⟩ := renderConflicted_marked htext
  -- the heading ends in a line break
  have hheading : conflictHeading = utf16 "## Conflicted Beliefs ⚠️\n" ++ [10] := by decide +kernel
  obtain ⟨tail, htail, -⟩ := joinUnits_split "\n\n" before more conflictHeading (conflictMark ++ rest)
  obtain ⟨nothing, hlast, hnothing⟩ :=
    joinUnits_split "\n\n" before [] (utf16 "## Conflicted Beliefs ⚠️\n") [10]
  rw [hnothing rfl, List.append_nil, ← hheading] at hlast
  refine ⟨joinUnits "\n\n" (before ++ [utf16 "## Conflicted Beliefs ⚠️\n"]), rest ++ tail, ?_, ?_⟩
  · unfold precedingText
    rw [hobjective]
    simp only [Option.bind_eq_bind, Option.bind_some, Option.pure_def]
    rw [hfacts, Option.bind_some, ← hbefore, hlast]
  · rw [hmore, Function.comp_apply, hrest, List.append_assoc, List.singleton_append, htail, ← hlast]
    simp only [List.append_assoc]

def MarkKept (P : Printer N) (config : InjectionConfig) (manifest : Manifest N) : Prop :=
  ∀ texts preceding, sections P config manifest = some texts →
    precedingText P config manifest = some preceding →
      config.maxChars.exceededBy (joinedLength texts) = true →
        let kept := (config.maxChars.minus 120).position (joinedLength texts)
        preceding.length + conflictMark.length ≤ kept ∨ conflictMark <:+: preceding.take kept

/-- **A context with a conflicted fact shows a mark just in case its templates have texts and
the first mark, or one that is quoted before it, is not cut.** A number has no colon. -/
theorem conflicts_shown_iff (P : Printer N) (config : InjectionConfig) (manifest : Manifest N)
    (hconflict : ∃ f ∈ manifest.facts.values, f.state = .conflicted)
    (hprint : 0x3A ∉ utf16 (P.limit config.maxChars)) :
    (∃ context, compile P config manifest = some context ∧ conflictMark <:+: context) ↔
      Renders P config manifest ∧ MarkKept P config manifest := by
  rw [← sections_isSome_iff]
  cases htexts : sections P config manifest with
  | none =>
    have hthrows : compile P config manifest = none := by
      unfold compile
      rw [htexts]
      rfl
    simp [hthrows]
  | some texts =>
    obtain ⟨preceding, rest, hpreceding, hbody⟩ := sections_marked hconflict htexts
    have hline : 10 ∉ conflictMark := by decide +kernel
    have hcolon : 0x3A ∈ conflictMark := by decide +kernel
    have hkept : MarkKept P config manifest ↔
        (config.maxChars.exceededBy (joinedLength texts) = true →
          conflictMark <:+: sliceTo (config.maxChars.minus 120) (joinUnits "\n\n" texts)) := by
      unfold MarkKept sliceTo
      rw [length_joinUnits, hbody, infix_take_iff hline]
      rw [or_comm]
      constructor
      · exact fun h => h texts _ htexts hpreceding
      · intro h texts' preceding' htexts' hpreceding'
        obtain rfl := Option.some.inj (htexts.symm.trans htexts')
        obtain rfl := Option.some.inj (hpreceding.symm.trans hpreceding')
        exact h
    -- the note begins with a line break and has no colon
    have hnote : ∀ x : List ℕ, conflictMark <:+: x ++ truncationNote P config.maxChars ↔
        conflictMark <:+: x := by
      intro x
      obtain ⟨note, hnote⟩ : ∃ note, note = utf16 ("\n[Operational context truncated at " ++
        P.limit config.maxChars ++ " chars. Use recall_evidence for full state.]") := ⟨_, rfl⟩
      have hbreak : truncationNote P config.maxChars = 10 :: note := by
        have hfirst : utf16 "\n\n[Operational context truncated at " =
            10 :: utf16 "\n[Operational context truncated at " := by decide +kernel
        rw [hnote, truncationNote, utf16_append, utf16_append, utf16_append, utf16_append, hfirst]
        rfl
      have hfree : ¬ conflictMark <:+: note := by
        intro hinfix
        have hmem := hinfix.subset hcolon
        have hbefore : 0x3A ∉ utf16 "\n[Operational context truncated at " := by decide +kernel
        have hafter : 0x3A ∉ utf16 " chars. Use recall_evidence for full state.]" := by
          decide +kernel
        rw [hnote, utf16_append, utf16_append, List.mem_append, List.mem_append] at hmem
        tauto
      have hcut := CutAt.not_infix (fun c hc => List.mem_singleton.1 hc ▸ hline) 10
        (List.mem_singleton_self 10) x note
      rw [hbreak, ← not_iff_not]
      exact hcut.trans (and_iff_left hfree)
    rw [compile_eq P config htexts, hkept]
    by_cases hlong : config.maxChars.exceededBy (joinedLength texts) = true
    · simp [hlong, hnote]
    · have hshown : conflictMark <:+: utf16 "# Current Operational Memory\n\n" ++
          joinUnits "\n\n" texts := by
        rw [hbody]
        exact List.infix_append_of_infix_right
          (List.infix_append_of_infix_right (List.prefix_append _ _).isInfix)
      simp [hlong, hshown]

def quarrel : Manifest ℚ :=
  { blankManifest with
    facts := OrderedMap.empty.set "FACT_1"
      { factId := "FACT_1"
        factHash := "hash"
        type := "contact"
        value := [("email", .str "alice@example.com")]
        identityKey := "contact:email:alice@example.com"
        confidence := 0.9
        source := "user"
        derivedFrom := []
        supersedes := none
        mergedFrom := none
        state := .conflicted
        createdAt := "1970-01-01T00:00:00.000Z"
        observations :=
          { firstSeen := "1970-01-01T00:00:00.000Z"
            lastSeen := "1970-01-01T00:00:00.000Z"
            observationCount := 1 }
        supportingSources := ["user"]
        discoveryIndex := 1 }
    lastFactIndex := 1 }

theorem quarrel_conflicted : ∃ f ∈ quarrel.facts.values, f.state = .conflicted :=
  ⟨_, List.mem_singleton_self _, rfl⟩

theorem quarrel_shown_iff :
    (∃ context, compile plainHost {} quarrel = some context ∧ conflictMark <:+: context) ↔
      Renders plainHost {} quarrel ∧ MarkKept plainHost {} quarrel :=
  conflicts_shown_iff plainHost {} quarrel quarrel_conflicted (by decide +kernel)

theorem quarrel_cut_away :
    (∃ f ∈ quarrel.facts.values, f.state = .conflicted) ∧ Limit.atLeast 120 (.finite 120) = true ∧
      ∃ context, compile plainHost { maxChars := .finite 120 } quarrel = some context ∧
        ¬ conflictMark <:+: context := by
  refine ⟨⟨_, List.mem_singleton_self _, rfl⟩, ?_,
    (compile plainHost { maxChars := .finite 120 } quarrel).getD [], ?_, ?_⟩ <;>
    decide +kernel

end Injection

end ClawHarder
