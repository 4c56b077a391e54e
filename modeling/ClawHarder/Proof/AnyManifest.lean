import ClawHarder.Lib.Effectful
import ClawHarder.Spec.AnyManifest

/-!
# When a load returns

`load` reads properties of a parsed value that nothing has checked. Each stage has a
structure that says what it needs to go through, and a lemma that it needs no more.

* `load_returns_iff`: **a load returns a result just in case each stage that is reached
  can read what it reads.**
-/

namespace ClawHarder

namespace AnyManifest

open Effectful (bind_isSome mapM_isSome_iff mapM_each mapM_some mapM_mem)

variable {N : Type}

section Checks

variable {α β : Type}

theorem flatten_mapM_nil {f : α → Option (List β)} {l : List α} {r : List (List β)}
    (h : l.mapM f = some r) : r.flatten = [] ↔ ∀ a ∈ l, f a = some [] := by
  rw [List.flatten_eq_nil_iff]
  constructor
  · intro hnil a ha
    obtain ⟨b, hb⟩ := Option.isSome_iff_exists.1 (mapM_each h a ha)
    rw [hb, hnil b ((mapM_mem h).2 ⟨a, ha, hb⟩)]
  · intro hall b hb
    obtain ⟨a, ha, hab⟩ := (mapM_mem h).1 hb
    rw [hall a ha] at hab
    exact (Option.some.inj hab).symm

end Checks

def field (v : Json N) (name : String) : Option (Json N) :=
  match v with
  | .obj members => Json.member? name members
  | _ => none

variable {v : Json N}

theorem get_eq (hv : v ≠ .null) (name : String) :
    get (some v) name = some (field v name) := by
  cases v with
  | null => exact absurd rfl hv
  | _ => rfl

variable {name : String}

theorem field_obj {w : Json N} (h : field v name = some w) :
    ∃ members, v = .obj members := by
  cases v with
  | obj members => exact ⟨members, rfl⟩
  | _ => cases h

theorem iterate_obj (h : (iterate (field v name)).isSome = true) :
    ∃ members, v = .obj members := by
  cases hf : field v name with
  | none =>
    rw [hf] at h
    cases h
  | some w => exact field_obj hf

variable {members : List (String × Json N)}

theorem member_mem
    (h : Json.member? name members = some v) : (name, v) ∈ members := by
  induction members with
  | nil => cases h
  | cons e rest ih =>
    unfold Json.member? at h
    split at h
    · rename_i w hw
      cases h
      exact List.mem_cons_of_mem e (ih hw)
    · split at h
      · rename_i hk
        cases h
        subst hk
        exact List.mem_cons_self
      · cases h

theorem member_of_mem
    (h : (name, v) ∈ members) : ∃ w, Json.member? name members = some w := by
  induction members with
  | nil => cases h
  | cons e rest ih =>
    obtain ⟨k, u⟩ := e
    unfold Json.member?
    rcases List.mem_cons.1 h with heq | hin
    · cases heq
      cases Json.member? name rest with
      | none => exact ⟨v, if_pos rfl⟩
      | some w => exact ⟨w, rfl⟩
    · obtain ⟨w, hw⟩ := ih hin
      rw [hw]
      exact ⟨w, rfl⟩

def entriesOf (v : Option (Json N)) : List (String × Json N) := (entries v).getD []

def namesOf (v : Option (Json N)) : List String := (entriesOf v).map Prod.fst

theorem entries_eq {v : Option (Json N)} (h : (entries v).isSome = true) :
    entries v = some (entriesOf v) := by
  unfold entriesOf
  cases he : entries v with
  | none => rw [he] at h; cases h
  | some es => rfl

variable [JsNumber N]

def Prints (v : Option (Json N)) : Prop := (text v).isSome = true

omit [JsNumber N] in
theorem keyOf_object [JsNumber N] {p q : ℕ} {v : Option (Json N)} {t : Option String}
    (h : keyOf p v = .object q t) : p = q := by
  unfold keyOf at h
  split at h <;> cases h
  rfl

theorem text_keyOf (place : ℕ) (v : Option (Json N)) : (keyOf place v).text = text v := by
  cases v with
  | none => rfl
  | some w => cases w <;> simp [keyOf, Key.text, text, jsText]

theorem keyOf_str {place : ℕ} {v : Option (Json N)} {s : String} :
    keyOf place v = .str s ↔ v = some (.str s) := by
  cases v with
  | none => simp [keyOf]
  | some w => cases w <;> simp [keyOf]

theorem text_none {key : Key N} (h : ¬ key.text.isSome = true) : ∃ place, key = .object place none := by
  cases key with
  | object place t =>
    cases t with
    | none => exact ⟨place, rfl⟩
    | some s => exact absurd rfl h
  | _ => exact absurd rfl h

structure HashReads (H : LoadHost N) (expected : String) (stored : Option (Json N)) : Prop where
  present : stored ≠ none
  nonNull : stored ≠ some .null
  /-- one that is as long has as many bytes -/
  bytes : ∀ b, stored = some b → lengthIs (utf16 expected).length b = true →
    ∃ bytes, buffer H b = some bytes ∧ bytes.length = expected.toUTF8.toList.length

def HashMatches (H : LoadHost N) (expected : String) (stored : Option (Json N)) : Prop :=
  ∃ b, stored = some b ∧ lengthIs (utf16 expected).length b = true ∧
    buffer H b = some expected.toUTF8.toList

variable {H : LoadHost N}

theorem timingSafeEqualStrings_reads {expected : String} {stored : Option (Json N)} :
    (timingSafeEqualStrings H expected stored).isSome = true ↔ HashReads H expected stored := by
  cases stored with
  | none =>
    refine iff_of_false ?_ (fun h => h.present rfl)
    exact fun h => by cases h
  | some b =>
    by_cases hnull : b = .null
    · subst hnull
      refine iff_of_false ?_ (fun h => h.nonNull rfl)
      exact fun h => by cases h
    · have heq : timingSafeEqualStrings H expected (some b) =
          if lengthIs (utf16 expected).length b then do
            let bytes ← buffer H b
            if expected.toUTF8.toList.length = bytes.length then
              some (expected.toUTF8.toList = bytes) else none
          else some false := by
        cases b with
        | null => exact absurd rfl hnull
        | _ => rfl
      rw [heq]
      by_cases hlen : lengthIs (utf16 expected).length b = true
      · rw [if_pos hlen, bind_isSome]
        constructor
        · rintro ⟨bytes, hbytes, hsome⟩
          refine ⟨by simp, by simpa using hnull, ?_⟩
          intro b' hb' _
          cases hb'
          refine ⟨bytes, hbytes, ?_⟩
          by_contra hne
          rw [if_neg (fun h => hne h.symm)] at hsome
          cases hsome
        · intro h
          obtain ⟨bytes, hbytes, hl⟩ := h.bytes b rfl hlen
          exact ⟨bytes, hbytes, by rw [if_pos hl.symm]; rfl⟩
      · rw [if_neg hlen]
        refine iff_of_true rfl ⟨by simp, by simpa using hnull, ?_⟩
        intro b' hb' h
        cases hb'
        exact absurd h hlen

theorem timingSafeEqualStrings_true {expected : String} {stored : Option (Json N)} {same : Bool}
    (h : timingSafeEqualStrings H expected stored = some same) :
    same = true ↔ HashMatches H expected stored := by
  unfold HashMatches
  unfold timingSafeEqualStrings at h
  split at h
  · cases h
  · cases h
  · rename_i b _
    split at h
    · rename_i hlen
      obtain ⟨bytes, hbytes, hcmp⟩ := Option.bind_eq_some_iff.1 h
      split at hcmp
      · cases hcmp
        rw [decide_eq_true_iff]
        constructor
        · intro heq
          exact ⟨b, rfl, hlen, by rw [hbytes, heq]⟩
        · rintro ⟨b', hb', -, hbuf⟩
          cases hb'
          rw [hbytes] at hbuf
          exact (Option.some.inj hbuf).symm
      · cases hcmp
    · rename_i hlen
      cases h
      refine iff_of_false (by simp) ?_
      rintro ⟨b', hb', hl, -⟩
      cases hb'
      exact hlen hl

def unknown (known : List String) (ids : List (Json N)) : List (Json N) :=
  ids.filter fun id => !has known id

variable {known : List String} {owner : Option (Json N)} {ids : List (Json N)}

theorem unknownErrors_reads {kind label : String} :
    (unknownErrors known kind owner label ids).isSome = true ↔
      ∀ id ∈ unknown known ids, Prints owner ∧ Prints (some id) := by
  unfold unknownErrors
  rw [mapM_isSome_iff]
  refine forall_congr' fun id => imp_congr_right fun _ => ?_
  rw [bind_isSome]
  constructor
  · rintro ⟨t, ht, hrest⟩
    obtain ⟨u, hu, -⟩ := bind_isSome.1 hrest
    refine ⟨?_, ?_⟩
    · unfold Prints
      rw [ht]
      rfl
    · unfold Prints text
      simp only [hu, Option.isSome_some]
  · rintro ⟨howner, hid⟩
    obtain ⟨t, ht⟩ := Option.isSome_iff_exists.1 howner
    obtain ⟨u, hu⟩ := Option.isSome_iff_exists.1 hid
    have hu' : jsText id = some u := hu
    exact ⟨t, ht, by rw [hu']; rfl⟩

variable {errors : List String}

theorem unknownErrors_printed {kind label : String}
    (h : unknownErrors known kind owner label ids = some errors) :
    ∀ id ∈ unknown known ids, Prints owner ∧ Prints (some id) :=
  unknownErrors_reads.1 (by rw [h]; rfl)

theorem unknownErrors_nil {kind label : String}
    (h : unknownErrors known kind owner label ids = some errors) :
    errors = [] ↔ unknown known ids = [] := by
  have hall := mapM_some h
  constructor
  · rintro rfl
    exact List.forall₂_nil_right_iff.1 hall
  · intro hnil
    have hnil' : ids.filter (fun id => !has known id) = [] := hnil
    rw [hnil'] at hall
    exact List.forall₂_nil_left_iff.1 hall

def factCites (fact : Json N) : List (Json N) :=
  (iterate (field fact "derived_from")).getD [] ++ (field fact "supersedes").toList ++
    (iterateOrNone (field fact "merged_from")).getD []

structure FactReads (known : List String) (fact : Json N) : Prop where
  derived : (iterate (field fact "derived_from")).isSome = true
  merged : (iterateOrNone (field fact "merged_from")).isSome = true
  /-- an error names the fact and the id -/
  printed : ∀ id ∈ unknown known (factCites fact),
    Prints (field fact "fact_id") ∧ Prints (some id)

omit [JsNumber N] in
theorem unknown_append (known : List String) (a b : List (Json N)) :
    unknown known (a ++ b) = unknown known a ++ unknown known b := List.filter_append ..

variable {fact : Json N}

theorem factErrors_eq (hfact : fact ≠ .null) :
    factErrors known fact = (do
      let derived ← iterate (field fact "derived_from")
      let fromDerived ← unknownErrors known "Fact" (field fact "fact_id") "derived_from" derived
      let fromSupersedes ← unknownErrors known "Fact" (field fact "fact_id") "supersedes"
        (field fact "supersedes").toList
      let merged ← iterateOrNone (field fact "merged_from")
      let fromMerged ← unknownErrors known "Fact" (field fact "fact_id") "merged_from" merged
      return fromDerived ++ fromSupersedes ++ fromMerged) := by
  unfold factErrors
  simp only [get_eq hfact, Option.bind_eq_bind, Option.bind_some]

theorem factErrors_reads :
    (factErrors known fact).isSome = true ↔ FactReads known fact := by
  by_cases hfact : fact = .null
  · subst hfact
    refine iff_of_false (fun h => by cases h) (fun h => ?_)
    have hderived := h.derived
    cases hderived
  · rw [factErrors_eq hfact]
    constructor
    · intro h
      obtain ⟨derived, hderived, h⟩ := bind_isSome.1 h
      obtain ⟨e₁, h₁, h⟩ := bind_isSome.1 h
      obtain ⟨e₂, h₂, h⟩ := bind_isSome.1 h
      obtain ⟨merged, hmerged, h⟩ := bind_isSome.1 h
      obtain ⟨e₃, h₃, -⟩ := bind_isSome.1 h
      refine ⟨by rw [hderived]; rfl, by rw [hmerged]; rfl, ?_⟩
      intro id hid
      unfold factCites at hid
      rw [hderived, hmerged, unknown_append, unknown_append, List.mem_append,
        List.mem_append] at hid
      rcases hid with (hid | hid) | hid
      · exact unknownErrors_printed h₁ id hid
      · exact unknownErrors_printed h₂ id hid
      · exact unknownErrors_printed h₃ id hid
    · intro h
      obtain ⟨derived, hderived⟩ := Option.isSome_iff_exists.1 h.derived
      obtain ⟨merged, hmerged⟩ := Option.isSome_iff_exists.1 h.merged
      have hprinted := h.printed
      unfold factCites at hprinted
      rw [hderived, hmerged, unknown_append, unknown_append] at hprinted
      have h₁ : (unknownErrors known "Fact" (field fact "fact_id") "derived_from"
          derived).isSome = true := unknownErrors_reads.2 fun id hid =>
        hprinted id (List.mem_append_left _ (List.mem_append_left _ hid))
      have h₂ : (unknownErrors known "Fact" (field fact "fact_id") "supersedes"
          (field fact "supersedes").toList).isSome = true := unknownErrors_reads.2 fun id hid =>
        hprinted id (List.mem_append_left _ (List.mem_append_right _ hid))
      have h₃ : (unknownErrors known "Fact" (field fact "fact_id") "merged_from"
          merged).isSome = true := unknownErrors_reads.2 fun id hid =>
        hprinted id (List.mem_append_right _ hid)
      obtain ⟨e₁, h₁⟩ := Option.isSome_iff_exists.1 h₁
      obtain ⟨e₂, h₂⟩ := Option.isSome_iff_exists.1 h₂
      obtain ⟨e₃, h₃⟩ := Option.isSome_iff_exists.1 h₃
      rw [hderived, hmerged]
      simp only [Option.bind_eq_bind, Option.bind_some, h₁, h₂, h₃]
      rfl

theorem factErrors_nil
    (h : factErrors known fact = some errors) :
    errors = [] ↔ unknown known (factCites fact) = [] := by
  have hreads : FactReads known fact := factErrors_reads.1 (by rw [h]; rfl)
  have hfact : fact ≠ .null := by
    rintro rfl
    cases hreads.derived
  rw [factErrors_eq hfact] at h
  obtain ⟨derived, hderived, h⟩ := Option.bind_eq_some_iff.1 h
  obtain ⟨e₁, h₁, h⟩ := Option.bind_eq_some_iff.1 h
  obtain ⟨e₂, h₂, h⟩ := Option.bind_eq_some_iff.1 h
  obtain ⟨merged, hmerged, h⟩ := Option.bind_eq_some_iff.1 h
  obtain ⟨e₃, h₃, h⟩ := Option.bind_eq_some_iff.1 h
  cases h
  unfold factCites
  rw [hderived, hmerged, unknown_append, unknown_append]
  simp only [List.append_eq_nil_iff, unknownErrors_nil h₁, unknownErrors_nil h₂,
    unknownErrors_nil h₃, Option.getD_some]

structure SummaryReads (knownFacts knownRefs : List String) (summary : Json N) : Prop where
  facts : (iterate (field summary "source_fact_ids")).isSome = true
  refs : (iterate (field summary "source_ref_ids")).isSome = true
  factsPrinted : ∀ id ∈ unknown knownFacts ((iterate (field summary "source_fact_ids")).getD []),
    Prints (field summary "summary_id") ∧ Prints (some id)
  refsPrinted : ∀ id ∈ unknown knownRefs ((iterate (field summary "source_ref_ids")).getD []),
    Prints (field summary "summary_id") ∧ Prints (some id)

def SummaryHolds (knownFacts knownRefs : List String) (summary : Json N) : Prop :=
  unknown knownFacts ((iterate (field summary "source_fact_ids")).getD []) = [] ∧
    unknown knownRefs ((iterate (field summary "source_ref_ids")).getD []) = []

variable {summary : Json N}

theorem summaryErrors_eq {knownFacts knownRefs : List String}
    (hsummary : summary ≠ .null) :
    summaryErrors knownFacts knownRefs summary = (do
      let facts ← iterate (field summary "source_fact_ids")
      let fromFacts ← unknownErrors knownFacts "Summary" (field summary "summary_id")
        "source_fact_ids" facts
      let refs ← iterate (field summary "source_ref_ids")
      let fromRefs ← unknownErrors knownRefs "Summary" (field summary "summary_id")
        "source_ref_ids" refs
      return fromFacts ++ fromRefs) := by
  unfold summaryErrors
  simp only [get_eq hsummary, Option.bind_eq_bind, Option.bind_some]

theorem summaryErrors_reads {knownFacts knownRefs : List String} :
    (summaryErrors knownFacts knownRefs summary).isSome = true ↔
      SummaryReads knownFacts knownRefs summary := by
  by_cases hsummary : summary = .null
  · subst hsummary
    refine iff_of_false (fun h => by cases h) (fun h => ?_)
    have hfacts := h.facts
    cases hfacts
  · rw [summaryErrors_eq hsummary]
    constructor
    · intro h
      obtain ⟨facts, hfacts, h⟩ := bind_isSome.1 h
      obtain ⟨e₁, h₁, h⟩ := bind_isSome.1 h
      obtain ⟨refs, hrefs, h⟩ := bind_isSome.1 h
      obtain ⟨e₂, h₂, -⟩ := bind_isSome.1 h
      refine ⟨by rw [hfacts]; rfl, by rw [hrefs]; rfl, ?_, ?_⟩
      · rw [hfacts]
        exact unknownErrors_printed h₁
      · rw [hrefs]
        exact unknownErrors_printed h₂
    · intro h
      obtain ⟨facts, hfacts⟩ := Option.isSome_iff_exists.1 h.facts
      obtain ⟨refs, hrefs⟩ := Option.isSome_iff_exists.1 h.refs
      have hf := h.factsPrinted
      have hr := h.refsPrinted
      rw [hfacts] at hf
      rw [hrefs] at hr
      have h₁ : (unknownErrors knownFacts "Summary" (field summary "summary_id")
        "source_fact_ids" facts).isSome = true := unknownErrors_reads.2 hf
      have h₂ : (unknownErrors knownRefs "Summary" (field summary "summary_id")
        "source_ref_ids" refs).isSome = true := unknownErrors_reads.2 hr
      obtain ⟨e₁, h₁⟩ := Option.isSome_iff_exists.1 h₁
      obtain ⟨e₂, h₂⟩ := Option.isSome_iff_exists.1 h₂
      rw [hfacts, hrefs]
      simp only [Option.bind_eq_bind, Option.bind_some, h₁, h₂]
      rfl

theorem summaryErrors_nil {knownFacts knownRefs : List String} (h : summaryErrors knownFacts knownRefs summary = some errors) :
    errors = [] ↔ SummaryHolds knownFacts knownRefs summary := by
  have hreads : SummaryReads knownFacts knownRefs summary :=
    summaryErrors_reads.1 (by rw [h]; rfl)
  have hsummary : summary ≠ .null := by
    rintro rfl
    cases hreads.facts
  rw [summaryErrors_eq hsummary] at h
  obtain ⟨facts, hfacts, h⟩ := Option.bind_eq_some_iff.1 h
  obtain ⟨e₁, h₁, h⟩ := Option.bind_eq_some_iff.1 h
  obtain ⟨refs, hrefs, h⟩ := Option.bind_eq_some_iff.1 h
  obtain ⟨e₂, h₂, h⟩ := Option.bind_eq_some_iff.1 h
  cases h
  unfold SummaryHolds
  rw [hfacts, hrefs]
  simp only [List.append_eq_nil_iff, unknownErrors_nil h₁, unknownErrors_nil h₂,
    Option.getD_some]

structure LineageReads (manifest : Json N) : Prop where
  facts : (entries (field manifest "facts")).isSome = true
  references : (entries (field manifest "references")).isSome = true
  summaries : (entries (field manifest "summaries")).isSome = true
  fact : ∀ e ∈ entriesOf (field manifest "facts"),
    FactReads (namesOf (field manifest "facts")) e.2
  summary : ∀ e ∈ entriesOf (field manifest "summaries"),
    SummaryReads (namesOf (field manifest "facts")) (namesOf (field manifest "references")) e.2

structure LineageHolds (manifest : Json N) : Prop where
  fact : ∀ e ∈ entriesOf (field manifest "facts"),
    unknown (namesOf (field manifest "facts")) (factCites e.2) = []
  summary : ∀ e ∈ entriesOf (field manifest "summaries"),
    SummaryHolds (namesOf (field manifest "facts")) (namesOf (field manifest "references")) e.2

theorem validateLineage_reads :
    (validateLineage (.obj members)).isSome = true ↔ LineageReads (.obj members) := by
  have hget (name : String) : get (some (.obj members)) name = some (field (.obj members) name) :=
    rfl
  unfold validateLineage
  simp only [hget, Option.bind_eq_bind, Option.bind_some]
  constructor
  · intro h
    obtain ⟨facts, hfacts, h⟩ := bind_isSome.1 h
    obtain ⟨refs, hrefs, h⟩ := bind_isSome.1 h
    obtain ⟨e₁, h₁, h⟩ := bind_isSome.1 h
    obtain ⟨summaries, hsummaries, h⟩ := bind_isSome.1 h
    obtain ⟨e₂, h₂, -⟩ := bind_isSome.1 h
    have hnames : namesOf (field (.obj members) "facts") = facts.map Prod.fst := by
      unfold namesOf entriesOf
      rw [hfacts]
      rfl
    have hrefnames : namesOf (field (.obj members) "references") = refs.map Prod.fst := by
      unfold namesOf entriesOf
      rw [hrefs]
      rfl
    refine ⟨by rw [hfacts]; rfl, by rw [hrefs]; rfl, by rw [hsummaries]; rfl, ?_, ?_⟩
    · rw [hnames, entriesOf, hfacts]
      exact fun e he => factErrors_reads.1 (mapM_each h₁ e he)
    · rw [hnames, hrefnames, entriesOf, hsummaries]
      exact fun e he => summaryErrors_reads.1 (mapM_each h₂ e he)
  · intro h
    rw [entries_eq h.facts, entries_eq h.references, entries_eq h.summaries]
    obtain ⟨e₁, h₁⟩ := Option.isSome_iff_exists.1 (mapM_isSome_iff.2 fun e he =>
      factErrors_reads.2 (h.fact e he))
    obtain ⟨e₂, h₂⟩ := Option.isSome_iff_exists.1 (mapM_isSome_iff.2 fun e he =>
      summaryErrors_reads.2 (h.summary e he))
    unfold namesOf at h₁ h₂
    simp only [Option.bind_some, h₁, h₂]
    rfl

theorem validateLineage_nil
    (h : validateLineage (.obj members) = some errors) :
    errors = [] ↔ LineageHolds (.obj members) := by
  have hget (name : String) : get (some (.obj members)) name = some (field (.obj members) name) :=
    rfl
  have hreads : LineageReads (.obj members) := validateLineage_reads.1 (by rw [h]; rfl)
  unfold validateLineage at h
  simp only [hget, Option.bind_eq_bind, Option.bind_some, entries_eq hreads.facts,
    entries_eq hreads.references, entries_eq hreads.summaries] at h
  obtain ⟨e₁, h₁, h⟩ := Option.bind_eq_some_iff.1 h
  obtain ⟨e₂, h₂, h⟩ := Option.bind_eq_some_iff.1 h
  cases h
  rw [List.append_eq_nil_iff, flatten_mapM_nil h₁, flatten_mapM_nil h₂]
  constructor
  · rintro ⟨hf, hs⟩
    exact ⟨fun e he => (factErrors_nil (hf e he)).1 rfl,
      fun e he => (summaryErrors_nil (hs e he)).1 rfl⟩
  · intro hholds
    refine ⟨fun e he => ?_, fun e he => ?_⟩
    · obtain ⟨r, hr⟩ := Option.isSome_iff_exists.1 (factErrors_reads.2 (hreads.fact e he))
      have hr' : factErrors ((entriesOf (field (.obj members) "facts")).map Prod.fst) e.2 =
        some r := hr
      rw [hr', (factErrors_nil hr).2 (hholds.fact e he)]
    · obtain ⟨r, hr⟩ := Option.isSome_iff_exists.1 (summaryErrors_reads.2 (hreads.summary e he))
      have hr' : summaryErrors ((entriesOf (field (.obj members) "facts")).map Prod.fst)
        ((entriesOf (field (.obj members) "references")).map Prod.fst) e.2 = some r := hr
      rw [hr', (summaryErrors_nil hr).2 (hholds.summary e he)]

structure RefsRead (H : LoadHost N) (manifest : Json N) : Prop where
  nonNull : ∀ e ∈ entriesOf (field manifest "references"), e.2 ≠ .null
  /-- an error names the reference and the path -/
  printed : ∀ e ∈ entriesOf (field manifest "references"), H.stat (field e.2 "path") = false →
    Prints (field e.2 "ref_id") ∧ Prints (field e.2 "path")

def RefsFound (H : LoadHost N) (manifest : Json N) : Prop :=
  ∀ e ∈ entriesOf (field manifest "references"), H.stat (field e.2 "path") = true

theorem refErrors_reads {ref : Json N} : (refErrors H ref).isSome = true ↔ ref ≠ .null ∧
    (H.stat (field ref "path") = false → Prints (field ref "ref_id") ∧ Prints (field ref "path")) := by
  by_cases href : ref = .null
  · subst href
    exact iff_of_false (fun h => by cases h) (fun h => h.1 rfl)
  · unfold refErrors
    simp only [get_eq href, Option.bind_eq_bind, Option.bind_some]
    cases hstat : H.stat (field ref "path") with
    | true => simp [href]
    | false =>
      simp only [Bool.false_eq_true, if_false, ne_eq, href, not_false_eq_true, true_and,
        forall_const]
      unfold Prints
      constructor
      · intro h
        obtain ⟨t, ht, h⟩ := bind_isSome.1 h
        obtain ⟨u, hu, -⟩ := bind_isSome.1 h
        rw [ht, hu]
        exact ⟨rfl, rfl⟩
      · rintro ⟨ht, hu⟩
        obtain ⟨t, ht⟩ := Option.isSome_iff_exists.1 ht
        obtain ⟨u, hu⟩ := Option.isSome_iff_exists.1 hu
        rw [ht, hu]
        rfl

theorem refErrors_nil {ref : Json N} (h : refErrors H ref = some errors) :
    errors = [] ↔ H.stat (field ref "path") = true := by
  have href : ref ≠ .null := (refErrors_reads.1 (by rw [h]; rfl)).1
  unfold refErrors at h
  simp only [get_eq href, Option.bind_eq_bind, Option.bind_some] at h
  cases hstat : H.stat (field ref "path") with
  | true =>
    simp only [hstat, if_true] at h
    cases h
    exact iff_of_true rfl rfl
  | false =>
    simp only [hstat, Bool.false_eq_true, if_false] at h
    obtain ⟨t, -, h⟩ := Option.bind_eq_some_iff.1 h
    obtain ⟨u, -, h⟩ := Option.bind_eq_some_iff.1 h
    cases h
    simp

theorem validateRefs_reads
    (hrefs : (entries (field (.obj members) "references")).isSome = true) :
    (validateRefs H (.obj members)).isSome = true ↔ RefsRead H (.obj members) := by
  have hget : get (some (.obj members)) "references" =
    some (field (.obj members) "references") := rfl
  have hall : (validateRefs H (.obj members)).isSome = true ↔
      ∀ e ∈ entriesOf (field (.obj members) "references"), (refErrors H e.2).isSome = true := by
    unfold validateRefs
    simp only [hget, Option.bind_eq_bind, Option.bind_some, entries_eq hrefs]
    rw [← mapM_isSome_iff]
    constructor
    · intro h
      obtain ⟨r, hr, -⟩ := bind_isSome.1 h
      rw [hr]
      rfl
    · intro h
      obtain ⟨r, hr⟩ := Option.isSome_iff_exists.1 h
      rw [hr]
      rfl
  rw [hall]
  constructor
  · intro h
    exact ⟨fun e he => (refErrors_reads.1 (h e he)).1, fun e he => (refErrors_reads.1 (h e he)).2⟩
  · intro h e he
    exact refErrors_reads.2 ⟨h.nonNull e he, h.printed e he⟩

theorem validateRefs_nil
    (hrefs : (entries (field (.obj members) "references")).isSome = true)
    (h : validateRefs H (.obj members) = some errors) :
    errors = [] ↔ RefsFound H (.obj members) := by
  have hget : get (some (.obj members)) "references" =
    some (field (.obj members) "references") := rfl
  have hreads : RefsRead H (.obj members) := (validateRefs_reads hrefs).1 (by rw [h]; rfl)
  unfold validateRefs at h
  simp only [hget, Option.bind_eq_bind, Option.bind_some, entries_eq hrefs] at h
  obtain ⟨r, hr, h⟩ := Option.bind_eq_some_iff.1 h
  cases h
  rw [flatten_mapM_nil hr]
  refine forall_congr' fun e => imp_congr_right fun he => ?_
  constructor
  · intro hnil
    exact (refErrors_nil hnil).1 rfl
  · intro hstat
    obtain ⟨errs, herrs⟩ := Option.isSome_iff_exists.1
      (refErrors_reads (H := H).2 ⟨hreads.nonNull e he, hreads.printed e he⟩)
    rw [herrs, (refErrors_nil herrs).2 hstat]

def Names (H : LoadHost N) (container : Option (Json N)) (name : String) : Prop :=
  ∃ found, lookup H container name = some found ∧ found.truthy = true

structure IndexesRead (H : LoadHost N) (manifest : Json N) : Prop where
  /-- the id of a fact is made a property name -/
  factId : ∀ e ∈ entriesOf (field manifest "facts"), Prints (field e.2 "fact_id")
  /-- an error names the type of a fact that is not under its own id -/
  type : ∀ e ∈ entriesOf (field manifest "facts"),
    Prints (field e.2 "type") ∨ field e.2 "fact_id" = some (.str e.1)
  /-- an error names the state of the fact that an active or conflicted one gives the id of -/
  state : ∀ e ∈ entriesOf (field manifest "facts"), ∀ state ∈ ["active", "conflicted"],
    isState state (field e.2 "state") = true → ∀ name v, text (field e.2 "fact_id") = some name →
    Json.member? name (entriesOf (field manifest "facts")) = some v →
    isState state (field v "state") = true ∨ Prints (field v "state")
  refId : ∀ e ∈ entriesOf (field manifest "references"), Prints (field e.2 "ref_id")
  /-- an error names the source of a reference whose id names none -/
  source : ∀ e ∈ entriesOf (field manifest "references"), ∀ name,
    text (field e.2 "ref_id") = some name →
    Names H (field manifest "references") name ∨ Prints (field e.2 "source")

theorem mapM_eq_map {α β : Type} {f : α → Option β} {g : α → β} {l : List α}
    (h : ∀ a ∈ l, f a = some (g a)) : l.mapM f = some (l.map g) := by
  induction l with
  | nil => rfl
  | cons a l ih =>
    rw [List.mapM_cons, h a List.mem_cons_self, ih fun x hx => h x (List.mem_cons_of_mem a hx)]
    rfl

omit [JsNumber N] in
theorem forall_buckets {A K : Type} [DecidableEq K] (key val : A → K) (rows : List A)
    (P : K → K → Prop) :
    (∀ bucket ∈ (rows.foldl (fun map row => SetMap.add map (key row) (val row))
      (.empty : SetMap K K)).entries, ∀ id ∈ bucket.2, P bucket.1 id) ↔
      ∀ row ∈ rows, P (key row) (val row) := by
  set map := rows.foldl (fun map row => SetMap.add map (key row) (val row)) (.empty : SetMap K K)
    with hmap
  have hmem (k v : K) : v ∈ map.bucket k ↔ ∃ row ∈ rows, key row = k ∧ val row = v := by
    rw [hmap, SetMap.mem_bucket_foldl_add]
    simp
  constructor
  · intro h row hrow
    have hin := (hmem (key row) (val row)).2 ⟨row, hrow, rfl, rfl⟩
    unfold SetMap.bucket at hin
    cases hget : map.get? (key row) with
    | none =>
      rw [hget] at hin
      cases hin
    | some ids =>
      rw [hget] at hin
      exact h (key row, ids) (OrderedMap.get?_eq_some.1 hget) (val row) hin
  · rintro h ⟨k, ids⟩ hbucket id hid
    have hget : map.get? k = some ids := OrderedMap.get?_eq_some.2 hbucket
    have hin : id ∈ map.bucket k := by
      unfold SetMap.bucket
      rw [hget]
      exact hid
    obtain ⟨row, hrow, rfl, rfl⟩ := (hmem k id).1 hin
    exact h row hrow

omit [JsNumber N] in
theorem bucket_key {A K : Type} [DecidableEq K] {key val : A → K} {rows : List A} {map : SetMap K K}
    {k : K} {ids : OrderedSet K}
    (h : (rows.foldl (fun map row => SetMap.add map (key row) (val row)) map).get? k = some ids) :
    (∃ ids, map.get? k = some ids) ∨ ∃ row ∈ rows, key row = k := by
  induction rows generalizing map with
  | nil => exact Or.inl ⟨ids, h⟩
  | cons row rows ih =>
    rcases ih h with ⟨ids', hget⟩ | ⟨r, hr, hk⟩
    · unfold SetMap.add at hget
      rw [OrderedMap.get?_set] at hget
      split at hget
      · rename_i hk
        exact Or.inr ⟨row, List.mem_cons_self, hk.symm⟩
      · exact Or.inl ⟨ids', hget⟩
    · exact Or.inr ⟨r, List.mem_cons_of_mem row hr, hk⟩

omit [JsNumber N] in
theorem lookup_some {container : Option (Json N)} (h : (entries container).isSome = true)
    (name : String) : ∃ found, lookup H container name = some found := by
  unfold lookup
  rw [entries_eq h]
  simp only [Option.bind_eq_bind, Option.bind_some]
  split <;> exact ⟨_, rfl⟩

theorem bucketErrors_reads {A : Type} (key val : A → Key N) (rows : List A)
    {container : Option (Json N)} (h : (entries container).isSome = true) (index name : String) :
    (bucketErrors H container index name
      (rows.foldl (fun map row => SetMap.add map (key row) (val row)) .empty)).isSome = true ↔
      ∀ row ∈ rows, ∃ t, (val row).text = some t ∧
        (Names H container t ∨ (key row).text.isSome = true) := by
  rw [← forall_buckets key val rows (fun k id => ∃ t, id.text = some t ∧
    (Names H container t ∨ k.text.isSome = true))]
  set map := rows.foldl (fun map row => SetMap.add map (key row) (val row))
    (.empty : SetMap (Key N) (Key N))
  have hone (k id : Key N) : (do
      let idText ← id.text
      let found ← lookup H container idText
      if found.truthy then return []
      else return [index ++ "[" ++ (← k.text) ++ "] contains " ++ idText ++
        " which is not in manifest." ++ name] : Option (List String)).isSome = true ↔
      ∃ t, id.text = some t ∧ (Names H container t ∨ k.text.isSome = true) := by
    rw [bind_isSome]
    refine exists_congr fun t => and_congr_right fun _ => ?_
    obtain ⟨found, hfound⟩ := lookup_some (H := H) h t
    rw [hfound]
    simp only [Option.bind_eq_bind, Option.bind_some]
    by_cases htrue : found.truthy = true
    · rw [if_pos htrue]
      exact iff_of_true rfl (Or.inl ⟨found, hfound, htrue⟩)
    · have hnot : ¬ Names H container t := by
        rintro ⟨f, hf, ht⟩
        rw [hfound] at hf
        cases hf
        exact htrue ht
      rw [if_neg htrue, or_iff_right hnot]
      cases k.text <;> rfl
  unfold bucketErrors
  constructor
  · intro hsome bucket hbucket id hid
    obtain ⟨r, hr, -⟩ := bind_isSome.1 hsome
    exact (hone bucket.1 id).1 (mapM_isSome_iff.1 (mapM_each hr bucket hbucket) id hid)
  · intro hall
    obtain ⟨r, hr⟩ := Option.isSome_iff_exists.1 (mapM_isSome_iff.2 fun bucket hbucket =>
      mapM_isSome_iff.2 fun id hid => (hone bucket.1 id).2 (hall bucket hbucket id hid))
    rw [hr]
    rfl

theorem stateSetErrors_reads {facts : Option (Json N)} (h : (entries facts).isSome = true)
    {setName state : String} {ids : OrderedSet (Key N)} :
    (stateSetErrors H facts setName state ids).isSome = true ↔
      ∀ fid ∈ ids, ∃ name, fid.text = some name ∧ ∀ found, lookup H facts name = some found →
        found.truthy = true → ∃ actual, found.state = some actual ∧
          (isState state actual = true ∨ Prints actual) := by
  unfold stateSetErrors
  rw [mapM_isSome_iff]
  refine forall_congr' fun fid => imp_congr_right fun _ => ?_
  rw [bind_isSome]
  refine exists_congr fun name => and_congr_right fun _ => ?_
  obtain ⟨found, hfound⟩ := lookup_some (H := H) h name
  rw [hfound]
  simp only [Option.bind_eq_bind, Option.bind_some, Option.some.injEq, forall_eq']
  by_cases htrue : found.truthy = true
  · rw [if_pos htrue]
    simp only [htrue, forall_const]
    cases hstate : found.state with
    | none => simp
    | some actual =>
      simp only [Option.bind_some, Option.some.injEq, exists_eq_left']
      by_cases his : isState state actual = true
      · rw [if_pos his]
        exact iff_of_true rfl (Or.inl his)
      · rw [if_neg his, or_iff_right his]
        unfold Prints
        cases text actual <;> rfl
  · rw [if_neg htrue]
    exact iff_of_true rfl (fun ht => absurd ht htrue)

theorem FactReads.obj (h : FactReads known fact) :
    ∃ members, fact = .obj members := iterate_obj h.derived

theorem SummaryReads.obj {knownFacts knownRefs : List String}
    (h : SummaryReads knownFacts knownRefs summary) : ∃ members, summary = .obj members :=
  iterate_obj h.facts

section Rows

variable {members : List (String × Json N)}

def rowOf (e : (String × Json N) × ℕ) : FactRow N where
  key := e.1.1
  factId := keyOf e.2 (field e.1.2 "fact_id")
  type := keyOf e.2 (field e.1.2 "type")
  state := field e.1.2 "state"

def refRowOf (e : (String × Json N) × ℕ) : RefRow N where
  source := keyOf e.2 (field e.1.2 "source")
  refId := keyOf e.2 (field e.1.2 "ref_id")

def summaryRowsOf (e : (String × Json N) × ℕ) : List (Key N × Key N) :=
  ((iterate (field e.1.2 "source_fact_ids")).getD []).map fun id =>
    (keyOf e.2 (some id), keyOf e.2 (field e.1.2 "summary_id"))

def factRows (manifest : Json N) : List (FactRow N) :=
  (entriesOf (field manifest "facts")).zipIdx.map rowOf

omit [JsNumber N] in
theorem mem_rows {β : Type} {f : (String × Json N) × ℕ → β} {l : List (String × Json N)}
    {P : β → Prop} : (∀ row ∈ l.zipIdx.map f, P row) ↔ ∀ e ∈ l.zipIdx, P (f e) := by
  simp only [List.mem_map, forall_exists_index, and_imp, forall_apply_eq_imp_iff₂]

omit [JsNumber N] in
theorem forall_zipIdx {l : List (String × Json N)} {P : (String × Json N) → Prop} :
    (∀ e ∈ l.zipIdx, P e.1) ↔ ∀ e ∈ l, P e := by
  constructor
  · intro h e he
    obtain ⟨i, hi, hget⟩ := List.mem_iff_getElem.1 he
    have hin : (e, i) ∈ l.zipIdx := by
      rw [List.mem_zipIdx_iff_getElem?]
      simp [hget, hi]
    exact h (e, i) hin
  · intro h e he
    exact h e.1 (List.fst_mem_of_mem_zipIdx he)

theorem factRows_eq (hL : LineageReads (.obj members)) :
    (entriesOf (field (.obj members) "facts")).zipIdx.mapM factRow =
      some (factRows (.obj members)) := by
  refine mapM_eq_map fun e he => ?_
  obtain ⟨m, hm⟩ := (hL.fact e.1 (List.fst_mem_of_mem_zipIdx he)).obj
  have hne : e.1.2 ≠ .null := by
    rw [hm]
    simp
  unfold factRow
  simp only [get_eq hne, Option.bind_eq_bind, Option.bind_some]
  rfl

theorem refRows_eq (hR : RefsRead H (.obj members)) :
    (entriesOf (field (.obj members) "references")).zipIdx.mapM refRow =
      some ((entriesOf (field (.obj members) "references")).zipIdx.map refRowOf) := by
  refine mapM_eq_map fun e he => ?_
  have hne := hR.nonNull e.1 (List.fst_mem_of_mem_zipIdx he)
  unfold refRow
  simp only [get_eq hne, Option.bind_eq_bind, Option.bind_some]
  rfl

theorem summaryRows_eq (hL : LineageReads (.obj members)) :
    (entriesOf (field (.obj members) "summaries")).zipIdx.mapM summaryRows =
      some ((entriesOf (field (.obj members) "summaries")).zipIdx.map summaryRowsOf) := by
  refine mapM_eq_map fun e he => ?_
  have hsummary := hL.summary e.1 (List.fst_mem_of_mem_zipIdx he)
  obtain ⟨m, hm⟩ := hsummary.obj
  have hne : e.1.2 ≠ .null := by
    rw [hm]
    simp
  obtain ⟨ids, hids⟩ := Option.isSome_iff_exists.1 hsummary.facts
  unfold summaryRows summaryRowsOf
  simp only [get_eq hne, Option.bind_eq_bind, Option.bind_some, hids]
  rfl

def indexesOf (manifest : Json N) : Indexes N where
  factsByType := (factRows manifest).foldl (fun map row => map.add row.type row.factId) .empty
  refsBySource := ((entriesOf (field manifest "references")).zipIdx.map refRowOf).foldl
    (fun map row => map.add row.source row.refId) .empty
  summaryDeps := ((entriesOf (field manifest "summaries")).zipIdx.map summaryRowsOf).flatten.foldl
    (fun map row => map.add row.1 row.2) .empty
  activeFacts := idsIn "active" (factRows manifest)
  conflictedFacts := idsIn "conflicted" (factRows manifest)

theorem buildIndexes_eq_some (hL : LineageReads (.obj members)) (hR : RefsRead H (.obj members)) :
    AnyManifest.buildIndexes (.obj members) = some (indexesOf (.obj members)) := by
  have hget (name : String) : get (some (.obj members)) name = some (field (.obj members) name) :=
    rfl
  unfold AnyManifest.buildIndexes
  simp only [hget, Option.bind_eq_bind, Option.bind_some, entries_eq hL.facts,
    entries_eq hL.references, entries_eq hL.summaries, factRows_eq hL, refRows_eq hR,
    summaryRows_eq hL]
  rfl

theorem names_fact (hL : LineageReads (.obj members)) {name : String}
    (h : name ∈ namesOf (field (.obj members) "facts")) :
    Names H (field (.obj members) "facts") name := by
  obtain ⟨⟨k, v⟩, hin, hname⟩ := List.mem_map.1 h
  have hk : k = name := hname
  subst hk
  obtain ⟨w, hw⟩ := member_of_mem hin
  obtain ⟨m, hm⟩ := (hL.fact (k, w) (member_mem hw)).obj
  refine ⟨.own w, ?_, ?_⟩
  · unfold lookup
    rw [entries_eq hL.facts]
    simp only [Option.bind_eq_bind, Option.bind_some, hw]
    rfl
  · have hm' : w = .obj m := hm
    rw [hm']
    rfl

theorem lookup_fact {name : String} (hL : LineageReads (.obj members)) :
    lookup H (field (.obj members) "facts") name =
      match Json.member? name (entriesOf (field (.obj members) "facts")) with
      | some v => some (.own v)
      | none => some (if (field (.obj members) "facts").any fun c => H.inherits c name then
          .inherited else .missing) := by
  unfold lookup
  rw [entries_eq hL.facts]
  simp only [Option.bind_eq_bind, Option.bind_some]
  rfl

theorem depWarnings_reads (hL : LineageReads (.obj members)) (hH : LineageHolds (.obj members)) :
    (depWarnings H (field (.obj members) "facts") (indexesOf (.obj members)).summaryDeps).isSome =
      true := by
  unfold depWarnings
  rw [mapM_isSome_iff]
  rintro ⟨k, ids⟩ hbucket
  rcases bucket_key (OrderedMap.get?_eq_some.2 hbucket) with ⟨_, hnone⟩ | ⟨row, hrow, rfl⟩
  · cases hnone
  · obtain ⟨rows, hrows, hin⟩ := List.mem_flatten.1 hrow
    obtain ⟨e, he, rfl⟩ := List.mem_map.1 hrows
    obtain ⟨id, hid, rfl⟩ := List.mem_map.1 hin
    -- the source names a fact, for the lineage holds
    have hholds := (hH.summary e.1 (List.fst_mem_of_mem_zipIdx he)).1
    have hknown : has (namesOf (field (.obj members) "facts")) id = true := by
      by_contra hnot
      have hunknown : id ∈ unknown (namesOf (field (.obj members) "facts"))
          ((iterate (field e.1.2 "source_fact_ids")).getD []) :=
        List.mem_filter.2 ⟨hid, by simpa using hnot⟩
      rw [hholds] at hunknown
      cases hunknown
    cases id with
    | str name =>
      have hin : name ∈ namesOf (field (.obj members) "facts") := by simpa [has] using hknown
      obtain ⟨found, hfound, htrue⟩ := names_fact (H := H) hL hin
      simp only [keyOf, Key.text, Option.bind_eq_bind, Option.bind_some, hfound, htrue, if_true]
      rfl
    | _ => cases hknown

theorem factIds_reads (hL : LineageReads (.obj members)) :
    (bucketErrors H (field (.obj members) "facts") "facts_by_type" "facts"
        (indexesOf (.obj members)).factsByType).isSome = true ↔
      ∀ e ∈ entriesOf (field (.obj members) "facts"), ∃ t, text (field e.2 "fact_id") = some t ∧
        (Names H (field (.obj members) "facts") t ∨ Prints (field e.2 "type")) := by
  have hrows := bucketErrors_reads (H := H) FactRow.type FactRow.factId
    (factRows (.obj members)) hL.facts "facts_by_type" "facts"
  rw [show (indexesOf (.obj members)).factsByType =
    (factRows (.obj members)).foldl (fun map row => SetMap.add map row.type row.factId) .empty
    from rfl, hrows, factRows, mem_rows,
    ← forall_zipIdx (P := fun e => ∃ t, text (field e.2 "fact_id") = some t ∧
      (Names H (field (.obj members) "facts") t ∨ Prints (field e.2 "type")))]
  refine forall_congr' fun e => imp_congr_right fun _ => ?_
  simp only [rowOf, text_keyOf]
  exact Iff.rfl

theorem refIds_reads (hrefs : (entries (field (.obj members) "references")).isSome = true) :
    (bucketErrors H (field (.obj members) "references") "refs_by_source" "references"
        (indexesOf (.obj members)).refsBySource).isSome = true ↔
      ∀ e ∈ entriesOf (field (.obj members) "references"), ∃ t,
        text (field e.2 "ref_id") = some t ∧
        (Names H (field (.obj members) "references") t ∨ Prints (field e.2 "source")) := by
  have hrows := bucketErrors_reads (H := H) RefRow.source RefRow.refId
    ((entriesOf (field (.obj members) "references")).zipIdx.map refRowOf) hrefs
    "refs_by_source" "references"
  rw [show (indexesOf (.obj members)).refsBySource =
    ((entriesOf (field (.obj members) "references")).zipIdx.map refRowOf).foldl
      (fun map row => SetMap.add map row.source row.refId) .empty from rfl, hrows, mem_rows,
    ← forall_zipIdx (P := fun e => ∃ t, text (field e.2 "ref_id") = some t ∧
      (Names H (field (.obj members) "references") t ∨ Prints (field e.2 "source")))]
  refine forall_congr' fun e => imp_congr_right fun _ => ?_
  simp only [refRowOf, text_keyOf]
  exact Iff.rfl

theorem mem_factsByType {key id : Key N} :
    id ∈ (indexesOf (.obj members)).factsByType.bucket key ↔
      ∃ row ∈ factRows (.obj members), row.type = key ∧ row.factId = id := by
  unfold indexesOf
  rw [SetMap.mem_bucket_foldl_add]
  simp

/-- A fact is in the bucket of its type, or its type has a text: an object is the type
of one fact only, the one at its place. -/
theorem typeErrors_reads :
    (∀ row ∈ factRows (.obj members), (typeErrors (indexesOf (.obj members)) row).isSome = true) ↔
      ∀ e ∈ entriesOf (field (.obj members) "facts"),
        Prints (field e.2 "type") ∨ field e.2 "fact_id" = some (.str e.1) := by
  rw [factRows, mem_rows, ← forall_zipIdx (P := fun e =>
    Prints (field e.2 "type") ∨ field e.2 "fact_id" = some (.str e.1))]
  refine forall_congr' fun e => imp_congr_right fun he => ?_
  unfold typeErrors
  by_cases hin : Key.str (rowOf e).key ∈
      (indexesOf (.obj members)).factsByType.bucket (rowOf e).type
  · rw [if_pos hin]
    refine iff_of_true rfl ?_
    by_contra hnot
    push Not at hnot
    obtain ⟨htype, hid⟩ := hnot
    have hnone : ¬ (rowOf e).type.text.isSome = true := by
      rw [rowOf, text_keyOf]
      exact htype
    obtain ⟨place, hplace⟩ := text_none hnone
    obtain ⟨row, hrow, hsame, hrowId⟩ := mem_factsByType.1 hin
    obtain ⟨e', he', rfl⟩ := List.mem_map.1 hrow
    -- both facts are at the place of the object
    have hp := keyOf_object (p := e.2) (v := field e.1.2 "type") hplace
    have hp' := keyOf_object (p := e'.2) (v := field e'.1.2 "type") (hsame.trans hplace)
    have hget := List.mem_zipIdx_iff_getElem?.1 he
    have hget' := List.mem_zipIdx_iff_getElem?.1 he'
    rw [hp'.trans hp.symm, hget] at hget'
    have hentry : e.1 = e'.1 := Option.some.inj hget'
    have hfound : keyOf e'.2 (field e'.1.2 "fact_id") = .str e.1.1 := hrowId
    rw [keyOf_str, ← hentry] at hfound
    exact hid hfound
  · rw [if_neg hin]
    have hid : field e.1.2 "fact_id" ≠ some (.str e.1.1) := by
      intro hid
      refine hin (mem_factsByType.2 ⟨rowOf e, List.mem_map_of_mem he, rfl, ?_⟩)
      exact keyOf_str.2 hid
    rw [or_iff_left hid]
    have htext : (rowOf e).type.text = text (field e.1.2 "type") := text_keyOf _ _
    unfold Prints
    rw [← htext]
    cases (rowOf e).type.text <;> rfl

theorem mem_idsIn {state : String} {rows : List (FactRow N)} {id : Key N} :
    id ∈ idsIn state rows ↔ ∃ row ∈ rows, isState state row.state = true ∧ row.factId = id := by
  unfold idsIn
  rw [OrderedSet.mem_ofList, List.mem_map]
  simp only [List.mem_filter, and_assoc]

theorem stateSet_reads (hL : LineageReads (.obj members)) {setName state : String} :
    (stateSetErrors H (field (.obj members) "facts") setName state
        (idsIn state (factRows (.obj members)))).isSome = true ↔
      ∀ e ∈ entriesOf (field (.obj members) "facts"), isState state (field e.2 "state") = true →
        ∃ name, text (field e.2 "fact_id") = some name ∧
          ∀ v, Json.member? name (entriesOf (field (.obj members) "facts")) = some v →
            isState state (field v "state") = true ∨ Prints (field v "state") := by
  rw [stateSetErrors_reads hL.facts, ← forall_zipIdx (P := fun e =>
    isState state (field e.2 "state") = true → ∃ name, text (field e.2 "fact_id") = some name ∧
      ∀ v, Json.member? name (entriesOf (field (.obj members) "facts")) = some v →
        isState state (field v "state") = true ∨ Prints (field v "state"))]
  have hfound (name : String) : (∀ found, lookup H (field (.obj members) "facts") name =
      some found → found.truthy = true → ∃ actual, found.state = some actual ∧
        (isState state actual = true ∨ Prints actual)) ↔
      ∀ v, Json.member? name (entriesOf (field (.obj members) "facts")) = some v →
        isState state (field v "state") = true ∨ Prints (field v "state") := by
    rw [lookup_fact hL]
    cases hm : Json.member? name (entriesOf (field (.obj members) "facts")) with
    | none =>
      refine iff_of_true ?_ (fun v hv => by cases hv)
      intro found hf htrue
      cases hf
      split at htrue
      · rename_i hinherits
        rw [if_pos hinherits]
        exact ⟨none, rfl, Or.inr rfl⟩
      · cases htrue
    | some v =>
      obtain ⟨m, hv⟩ := (hL.fact (name, v) (member_mem hm)).obj
      have hv' : v = .obj m := hv
      subst hv'
      constructor
      · intro h w hw
        cases hw
        obtain ⟨actual, hactual, hprints⟩ := h (.own (.obj m)) rfl rfl
        cases hactual
        exact hprints
      · intro h found hf _
        cases hf
        exact ⟨_, rfl, h _ rfl⟩
  simp only [hfound]
  constructor
  · intro h e he hstate
    obtain ⟨name, hname, hrest⟩ := h (rowOf e).factId
      (mem_idsIn.2 ⟨rowOf e, List.mem_map_of_mem he, hstate, rfl⟩)
    rw [rowOf, text_keyOf] at hname
    exact ⟨name, hname, hrest⟩
  · intro h fid hfid
    obtain ⟨row, hrow, hstate, rfl⟩ := mem_idsIn.1 hfid
    obtain ⟨e, he, rfl⟩ := List.mem_map.1 hrow
    obtain ⟨name, hname, hrest⟩ := h e he hstate
    refine ⟨name, ?_, hrest⟩
    rw [rowOf, text_keyOf]
    exact hname

/-- **The indexes of a manifest with a lineage that holds can be checked** just in case
what the errors name has a text. -/
theorem validateIndexes_reads (hL : LineageReads (.obj members))
    (hH : LineageHolds (.obj members)) :
    (validateIndexes H (.obj members) (indexesOf (.obj members))).isSome = true ↔
      IndexesRead H (.obj members) := by
  have hget (name : String) : get (some (.obj members)) name = some (field (.obj members) name) :=
    rfl
  have hparts : (validateIndexes H (.obj members) (indexesOf (.obj members))).isSome = true ↔
      (bucketErrors H (field (.obj members) "facts") "facts_by_type" "facts"
        (indexesOf (.obj members)).factsByType).isSome = true ∧
      (∀ row ∈ factRows (.obj members),
        (typeErrors (indexesOf (.obj members)) row).isSome = true) ∧
      (stateSetErrors H (field (.obj members) "facts") "active_facts" "active"
        (idsIn "active" (factRows (.obj members)))).isSome = true ∧
      (stateSetErrors H (field (.obj members) "facts") "conflicted_facts" "conflicted"
        (idsIn "conflicted" (factRows (.obj members)))).isSome = true ∧
      (bucketErrors H (field (.obj members) "references") "refs_by_source" "references"
        (indexesOf (.obj members)).refsBySource).isSome = true := by
    unfold validateIndexes
    simp only [hget, Option.bind_eq_bind, Option.bind_some, entries_eq hL.facts, factRows_eq hL]
    rw [← mapM_isSome_iff]
    obtain ⟨w, hw⟩ := Option.isSome_iff_exists.1 (depWarnings_reads (H := H) hL hH)
    constructor
    · intro h
      obtain ⟨a, ha, h⟩ := bind_isSome.1 h
      obtain ⟨b, hb, h⟩ := bind_isSome.1 h
      obtain ⟨c, hc, h⟩ := bind_isSome.1 h
      obtain ⟨d, hd, h⟩ := bind_isSome.1 h
      obtain ⟨_, _, h⟩ := bind_isSome.1 h
      obtain ⟨f, hf, -⟩ := bind_isSome.1 h
      have hc' : stateSetErrors H (field (.obj members) "facts") "active_facts" "active"
        (idsIn "active" (factRows (.obj members))) = some c := hc
      have hd' : stateSetErrors H (field (.obj members) "facts") "conflicted_facts" "conflicted"
        (idsIn "conflicted" (factRows (.obj members))) = some d := hd
      rw [ha, hb, hc', hd', hf]
      exact ⟨rfl, rfl, rfl, rfl, rfl⟩
    · rintro ⟨ha, hb, hc, hd, hf⟩
      obtain ⟨a, ha⟩ := Option.isSome_iff_exists.1 ha
      obtain ⟨b, hb⟩ := Option.isSome_iff_exists.1 hb
      obtain ⟨c, hc⟩ := Option.isSome_iff_exists.1 hc
      obtain ⟨d, hd⟩ := Option.isSome_iff_exists.1 hd
      obtain ⟨f, hf⟩ := Option.isSome_iff_exists.1 hf
      have hc' : stateSetErrors H (field (.obj members) "facts") "active_facts" "active"
        (indexesOf (.obj members)).activeFacts = some c := hc
      have hd' : stateSetErrors H (field (.obj members) "facts") "conflicted_facts" "conflicted"
        (indexesOf (.obj members)).conflictedFacts = some d := hd
      rw [ha, hb, hc', hd', hw, hf]
      rfl
  rw [hparts, factIds_reads hL, typeErrors_reads, stateSet_reads hL, stateSet_reads hL,
    refIds_reads hL.references]
  constructor
  · rintro ⟨hid, htype, hactive, hconflicted, href⟩
    refine ⟨?_, htype, ?_, ?_, ?_⟩
    · intro e he
      obtain ⟨t, ht, -⟩ := hid e he
      unfold Prints
      rw [ht]
      rfl
    · intro e he state hstate his name v hname hv
      rcases List.mem_cons.1 hstate with rfl | hstate
      · obtain ⟨t, ht, hall⟩ := hactive e he his
        rw [hname] at ht
        cases ht
        exact hall v hv
      · obtain rfl := List.mem_singleton.1 hstate
        obtain ⟨t, ht, hall⟩ := hconflicted e he his
        rw [hname] at ht
        cases ht
        exact hall v hv
    · intro e he
      obtain ⟨t, ht, -⟩ := href e he
      unfold Prints
      rw [ht]
      rfl
    · intro e he name hname
      obtain ⟨t, ht, hnames⟩ := href e he
      rw [hname] at ht
      cases ht
      exact hnames
  · intro h
    have hstate (state : String) (hin : state ∈ ["active", "conflicted"]) :
        ∀ e ∈ entriesOf (field (.obj members) "facts"), isState state (field e.2 "state") = true →
          ∃ name, text (field e.2 "fact_id") = some name ∧
            ∀ v, Json.member? name (entriesOf (field (.obj members) "facts")) = some v →
              isState state (field v "state") = true ∨ Prints (field v "state") := by
      intro e he his
      obtain ⟨name, hname⟩ := Option.isSome_iff_exists.1 (h.factId e he)
      exact ⟨name, hname, fun v hv => h.state e he state hin his name v hname hv⟩
    refine ⟨?_, h.type, hstate _ (by simp), hstate _ (by simp), ?_⟩
    · intro e he
      obtain ⟨name, hname⟩ := Option.isSome_iff_exists.1 (h.factId e he)
      refine ⟨name, hname, ?_⟩
      rcases h.type e he with hprints | hown
      · exact Or.inr hprints
      · -- the fact is under its own id
        rw [hown] at hname
        cases hname
        exact Or.inl (names_fact hL (List.mem_map_of_mem he))
    · intro e he
      obtain ⟨name, hname⟩ := Option.isSome_iff_exists.1 (h.refId e he)
      exact ⟨name, hname, h.source e he name hname⟩

end Rows

/-- Every stage of the load of an object that is reached can read what it reads. -/
structure MembersRead (H : LoadHost N) (members : List (String × Json N)) : Prop where
  hash : HashReads H (computeIntegrityHash H members) (field (.obj members) "integrity_hash")
  /-- the failure names the stored hash -/
  mismatch : ¬ HashMatches H (computeIntegrityHash H members)
      (field (.obj members) "integrity_hash") → Prints (field (.obj members) "integrity_hash")
  lineage : HashMatches H (computeIntegrityHash H members)
      (field (.obj members) "integrity_hash") → LineageReads (.obj members)
  refs : HashMatches H (computeIntegrityHash H members)
      (field (.obj members) "integrity_hash") → LineageHolds (.obj members) →
    RefsRead H (.obj members)
  indexes : HashMatches H (computeIntegrityHash H members)
      (field (.obj members) "integrity_hash") → LineageHolds (.obj members) →
    RefsFound H (.obj members) → IndexesRead H (.obj members)

/-- Every stage of the load of a text that is reached can read what it reads. -/
def Readable (H : LoadHost N) (content : String) : Prop :=
  ∀ parsed, H.parse content = some parsed →
    if schemaMatches parsed then ∀ members, parsed = .obj members → MembersRead H members
    else Prints (field parsed "schema_version")

theorem loadMembers_returns_iff :
    (loadMembers H members).isSome = true ↔ MembersRead H members := by
  set expected := computeIntegrityHash H members with hexpected
  have hstored : Json.member? "integrity_hash" members =
    field (.obj members) "integrity_hash" := rfl
  unfold loadMembers
  simp only [hstored, ← hexpected]
  rw [bind_isSome]
  constructor
  · rintro ⟨same, hsame, h⟩
    have htrue := timingSafeEqualStrings_true hsame
    have hhash := timingSafeEqualStrings_reads.1 (by rw [hsame]; rfl)
    by_cases hmatch : HashMatches H expected (field (.obj members) "integrity_hash")
    · rw [if_pos (htrue.2 hmatch)] at h
      obtain ⟨lineage, hlineage, h⟩ := bind_isSome.1 h
      have hL : LineageReads (.obj members) := validateLineage_reads.1 (by rw [hlineage]; rfl)
      have hnil := validateLineage_nil hlineage
      have hrest : LineageHolds (.obj members) → RefsRead H (.obj members) ∧
          (RefsFound H (.obj members) → IndexesRead H (.obj members)) := by
        intro hH
        rw [if_neg (fun hne => hne (hnil.2 hH))] at h
        obtain ⟨orphans, horphans, h⟩ := bind_isSome.1 h
        have hR := (validateRefs_reads hL.references).1 (by rw [horphans]; rfl)
        refine ⟨hR, fun hfound => ?_⟩
        rw [if_neg (fun hne => hne ((validateRefs_nil hL.references horphans).2 hfound)),
          buildIndexes_eq_some hL hR] at h
        obtain ⟨ix, hix, h⟩ := bind_isSome.1 h
        cases hix
        obtain ⟨errors, herrors, -⟩ := bind_isSome.1 h
        exact (validateIndexes_reads hL hH).1 (by rw [herrors]; rfl)
      exact ⟨hhash, fun hne => absurd hmatch hne, fun _ => hL, fun _ hH => (hrest hH).1,
        fun _ hH hfound => (hrest hH).2 hfound⟩
    · rw [if_neg (fun hs => hmatch (htrue.1 hs))] at h
      obtain ⟨t, ht, -⟩ := bind_isSome.1 h
      refine ⟨hhash, fun _ => ?_, fun hm => absurd hm hmatch, fun hm => absurd hm hmatch,
        fun hm => absurd hm hmatch⟩
      unfold Prints
      rw [ht]
      rfl
  · intro h
    obtain ⟨same, hsame⟩ := Option.isSome_iff_exists.1 (timingSafeEqualStrings_reads.2 h.hash)
    have htrue := timingSafeEqualStrings_true hsame
    refine ⟨same, hsame, ?_⟩
    by_cases hmatch : HashMatches H expected (field (.obj members) "integrity_hash")
    · rw [if_pos (htrue.2 hmatch)]
      have hL := h.lineage hmatch
      obtain ⟨lineage, hlineage⟩ := Option.isSome_iff_exists.1 (validateLineage_reads.2 hL)
      have hnil := validateLineage_nil hlineage
      rw [hlineage]
      simp only [Option.bind_eq_bind, Option.bind_some]
      split
      · rfl
      · rename_i hno
        have hH := hnil.1 (by simpa using hno)
        have hR := h.refs hmatch hH
        obtain ⟨orphans, horphans⟩ := Option.isSome_iff_exists.1
          ((validateRefs_reads hL.references).2 hR)
        rw [horphans]
        simp only [Option.bind_some]
        split
        · rfl
        · rename_i hnone
          have hfound := (validateRefs_nil hL.references horphans).1 (by simpa using hnone)
          obtain ⟨errors, herrors⟩ := Option.isSome_iff_exists.1
            ((validateIndexes_reads hL hH).2 (h.indexes hmatch hH hfound))
          rw [buildIndexes_eq_some hL hR]
          simp only [Option.bind_some, herrors]
          split <;> rfl
    · rw [if_neg (fun hs => hmatch (htrue.1 hs))]
      obtain ⟨t, ht⟩ := Option.isSome_iff_exists.1 (h.mismatch hmatch)
      rw [ht]
      rfl

theorem schemaFailure_isSome {parsed : Json N} :
    (do return Outcome.failed .schemaMismatch ("Expected schema_version \"1.0\", got: " ++
      (← text (schemaVersion parsed))) : Option Outcome).isSome = true ↔
      Prints (field parsed "schema_version") := by
  have hsame : schemaVersion parsed = field parsed "schema_version" := by
    cases parsed <;> rfl
  rw [hsame]
  unfold Prints
  cases text (field parsed "schema_version") <;> rfl

/-- **A load returns a result, for any content of the file, just in case each stage that
is reached can read what it reads.** -/
theorem load_returns_iff (H : LoadHost N) (content : String) :
    (AnyManifest.load H content).isSome = true ↔ Readable H content := by
  unfold AnyManifest.load Readable
  cases H.parse content with
  | none => exact iff_of_true rfl (fun _ h => by cases h)
  | some parsed =>
    simp only [Option.some.injEq, forall_eq']
    cases parsed with
    | obj members =>
      by_cases hschema : schemaMatches (.obj members) = true
      · simp only [hschema, if_true]
        rw [loadMembers_returns_iff]
        constructor
        · rintro h _ ⟨⟩
          exact h
        · intro h
          exact h members rfl
      · simp only [if_neg hschema]
        exact schemaFailure_isSome
    | _ => exact schemaFailure_isSome

/-- A host that reads one file, of an object with nothing but the schema version. -/
def bareHost : LoadHost ℚ where
  parse content :=
    if content = "\x7b\"schema_version\":\"1.0\"\x7d" then
      some (.obj [("schema_version", .str "1.0")])
    else none
  sha256 _ := "4cbd3e6dafc8be06c19e870151d92e2a711f4f07f1d84ee2c0265947c0bbd5d3"
  stat _ := false
  bufferFrom _ := none
  inherits _ _ := false

/-- **A manifest without an integrity hash makes the load throw.** -/
theorem bare_throws :
    ¬ ∀ content, (AnyManifest.load bareHost content).isSome = true := by
  intro h
  have hbare := h "\x7b\"schema_version\":\"1.0\"\x7d"
  revert hbare
  decide +kernel

end AnyManifest

end ClawHarder
