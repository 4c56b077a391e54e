import ClawHarder.Spec.Injection

/-!
# Secrets of credentials

What the injected context shows of a credential is what is left of it when its hash
and all its values but four are dropped (`Fact.redacted`). Each part of the compiler
gives the same on the facts and on what is left of them, so two manifests that differ
in those values only have one context.

* `credentials_not_shown`: **manifests that agree up to secrets have the same context.**
-/

namespace ClawHarder

variable {N : Type}

theorem sliceTo_map {α β : Type} (f : α → β) (stop : Limit) (l : List α) :
    (sliceTo stop l).map f = sliceTo stop (l.map f) := by
  unfold sliceTo
  rw [List.map_take, List.length_map]

namespace Injection

theorem sortBy_map {α β : Type} (f : α → β) {comparator : α → α → Ordering}
    {comparator' : β → β → Ordering} (h : ∀ a b, comparator' (f a) (f b) = comparator a b)
    (l : List α) : (sortBy comparator l).map f = sortBy comparator' (l.map f) := by
  unfold sortBy
  rw [List.map_mergeSort]
  intro a _ b _
  rw [h]

theorem filter_map_eq {α β : Type} (f : α → β) {p : α → Bool} {q : β → Bool}
    (h : ∀ a, q (f a) = p a) (l : List α) : (l.filter p).map f = (l.map f).filter q := by
  rw [List.filter_map]
  have hcomp : q ∘ f = p := funext h
  rw [hcomp]

end Injection

def identifyingFields : List String := ["username", "account", "service", "host"]

def Fact.redacted (f : Fact N) : Fact N :=
  if f.type = "credential" then
    { f with
      factHash := ""
      value := identifyingFields.filterMap fun key =>
        (Json.member? key f.value).map fun v => (key, v) }
  else f

/-- The facts agree, but for the hash and the other values of a credential. -/
def Fact.AlikeButSecrets (f f' : Fact N) : Prop :=
  f' = f ∨
    f.type = "credential" ∧
      (∀ key ∈ identifyingFields, Json.member? key f'.value = Json.member? key f.value) ∧
      f' = { f with value := f'.value, factHash := f'.factHash }

/-- The manifests agree, but for the secrets of credentials and the hash over all. -/
structure Manifest.AlikeButSecrets (m m' : Manifest N) : Prop where
  facts : List.Forall₂ (fun e e' => e'.1 = e.1 ∧ e.2.AlikeButSecrets e'.2)
    m.facts.entries m'.facts.entries
  others : m' = { m with facts := m'.facts, integrityHash := m'.integrityHash }

namespace Fact

variable {f f' : Fact N}

theorem redacted_of_ne (h : f.type ≠ "credential") : f.redacted = f := by
  unfold redacted
  rw [if_neg h]

@[simp] theorem redacted_type (f : Fact N) : f.redacted.type = f.type := by
  unfold redacted
  split <;> rfl

@[simp] theorem redacted_state (f : Fact N) : f.redacted.state = f.state := by
  unfold redacted
  split <;> rfl

@[simp] theorem redacted_confidence (f : Fact N) : f.redacted.confidence = f.confidence := by
  unfold redacted
  split <;> rfl

@[simp] theorem redacted_factId (f : Fact N) : f.redacted.factId = f.factId := by
  unfold redacted
  split <;> rfl

@[simp] theorem redacted_observations (f : Fact N) :
    f.redacted.observations = f.observations := by
  unfold redacted
  split <;> rfl

@[simp] theorem redacted_discoveryIndex (f : Fact N) :
    f.redacted.discoveryIndex = f.discoveryIndex := by
  unfold redacted
  split <;> rfl

theorem member?_kept (keys : List String) (value : List (String × Json N)) (key : String) :
    Json.member? key (keys.filterMap fun k => (Json.member? k value).map fun v => (k, v)) =
      if key ∈ keys then Json.member? key value else none := by
  induction keys with
  | nil => rfl
  | cons k keys ih =>
    rw [List.filterMap_cons]
    by_cases hkey : key = k
    · subst hkey
      rw [if_pos List.mem_cons_self]
      cases hread : Json.member? key value with
      | none => simp only [Option.map_none, ih, hread, ite_self]
      | some v =>
        simp only [Option.map_some, Json.member?, ih, hread]
        by_cases hin : key ∈ keys
        · rw [if_pos hin]
        · rw [if_neg hin]
          simp only [if_true]
    · have hin : key ∈ k :: keys ↔ key ∈ keys := by
        rw [List.mem_cons]
        exact or_iff_right hkey
      simp only [hin]
      rw [← ih]
      cases Json.member? k value with
      | none => rfl
      | some v =>
        simp only [Option.map_some, Json.member?, if_neg (Ne.symm hkey)]
        cases Json.member? key (keys.filterMap _) <;> rfl

theorem field?_redacted {key : String} (hkey : key ∈ identifyingFields) (f : Fact N) :
    field? key f.redacted.value = field? key f.value := by
  have hmember : Json.member? key f.redacted.value = Json.member? key f.value := by
    unfold redacted
    split
    · exact (member?_kept identifyingFields f.value key).trans (if_pos hkey)
    · rfl
  unfold field?
  rw [hmember]

theorem AlikeButSecrets.redacted (h : f.AlikeButSecrets f') : f'.redacted = f.redacted := by
  rcases h with rfl | ⟨htype, hsame, hrest⟩
  · rfl
  · have htype' : f'.type = "credential" := by rw [hrest]; exact htype
    unfold Fact.redacted
    rw [if_pos htype, if_pos htype', hrest]
    congr 1
    exact List.filterMap_congr fun key hkey => by rw [hsame key hkey]

end Fact

theorem Manifest.AlikeButSecrets.facts_redacted {m m' : Manifest N} (h : m.AlikeButSecrets m') :
    m'.facts.values.map Fact.redacted = m.facts.values.map Fact.redacted := by
  have hfacts := h.facts
  unfold OrderedMap.values
  generalize m.facts.entries = es at hfacts
  generalize m'.facts.entries = es' at hfacts
  induction hfacts with
  | nil => rfl
  | cons hentry _ ih =>
    simp only [List.map_cons]
    rw [hentry.2.redacted, ih]

namespace Injection

variable [JsNumber N]

theorem compareFacts_redacted (a b : Fact N) :
    compareFacts a.redacted b.redacted = compareFacts a b := by
  simp only [compareFacts, Fact.redacted_type, Fact.redacted_confidence,
    Fact.redacted_discoveryIndex]

/-- **The selection of facts commutes with dropping the secrets.** -/
theorem selectFacts_redacted (config : InjectionConfig) (manifest : Manifest N) :
    (selectFacts config manifest).map Fact.redacted =
      sliceTo config.maxFacts (sortBy compareFacts
        ((manifest.facts.values.map Fact.redacted).filter fun f => f.state = .active)) := by
  unfold selectFacts
  rw [sliceTo_map, sortBy_map Fact.redacted compareFacts_redacted,
    filter_map_eq Fact.redacted (q := fun f => f.state = .active) (by simp)]

omit [JsNumber N] in
theorem selectConflictedFacts_redacted (manifest : Manifest N) :
    (selectConflictedFacts manifest).map Fact.redacted =
      (manifest.facts.values.map Fact.redacted).filter fun f => f.state = .conflicted := by
  unfold selectConflictedFacts
  rw [filter_map_eq Fact.redacted (q := fun f => f.state = .conflicted) (by simp)]

omit [JsNumber N] in
theorem tasks_redacted (facts : List (Fact N)) :
    (facts.map Fact.redacted).filter (fun f => f.type = "task" ∧ f.state = .active) =
      facts.filter fun f => f.type = "task" ∧ f.state = .active := by
  rw [← filter_map_eq Fact.redacted (p := fun f => f.type = "task" ∧ f.state = .active) (by simp)]
  conv_rhs => rw [← List.map_id (facts.filter _)]
  apply List.map_congr_left
  intro f hf
  have htask : f.type = "task" := by
    have htest := (List.mem_filter.1 hf).2
    rw [decide_eq_true_eq] at htest
    exact htest.1
  exact Fact.redacted_of_ne (by rw [htask]; decide)

theorem renderFactValue_redacted (f : Fact N) : renderFactValue f.redacted = renderFactValue f := by
  by_cases htype : f.type = "credential"
  · unfold renderFactValue
    rw [Fact.redacted_type, if_pos htype, if_pos htype]
    rw [Fact.field?_redacted (by decide), Fact.field?_redacted (by decide),
      Fact.field?_redacted (by decide), Fact.field?_redacted (by decide)]
  · rw [Fact.redacted_of_ne htype]

theorem factLine_redacted (P : Printer N) (f : Fact N) : factLine P f.redacted = factLine P f := by
  simp only [factLine, renderFactValue_redacted, Fact.redacted_type, Fact.redacted_confidence,
    Fact.redacted_factId, Fact.redacted_observations]

theorem conflictedLine_redacted (P : Printer N) (f : Fact N) :
    conflictedLine P f.redacted = conflictedLine P f := by
  simp only [conflictedLine, renderFactValue_redacted, Fact.redacted_type,
    Fact.redacted_confidence, Fact.redacted_factId]

theorem renderFactsSection_redacted (P : Printer N) (facts : List (Fact N)) :
    renderFactsSection P (facts.map Fact.redacted) = renderFactsSection P facts := by
  unfold renderFactsSection
  rw [List.mapM_map]
  have hline : factLine P ∘ Fact.redacted = factLine P := funext (factLine_redacted P)
  rw [hline]

theorem renderConflictedSection_redacted (P : Printer N) (facts : List (Fact N)) :
    renderConflictedSection P (facts.map Fact.redacted) = renderConflictedSection P facts := by
  unfold renderConflictedSection
  rw [List.mapM_map]
  have hline : conflictedLine P ∘ Fact.redacted = conflictedLine P :=
    funext (conflictedLine_redacted P)
  rw [hline]

omit [JsNumber N] in
theorem sectionIf_redacted {render : List (Fact N) → Option (List ℕ)}
    (hrender : ∀ facts, render (facts.map Fact.redacted) = render facts)
    {facts facts' : List (Fact N)} (h : facts'.map Fact.redacted = facts.map Fact.redacted) :
    sectionIf facts' render = sectionIf facts render := by
  have hsame : render facts' = render facts := by rw [← hrender facts', h, hrender]
  have hempty : facts' = [] ↔ facts = [] := by
    rw [← List.map_eq_nil_iff (f := Fact.redacted), h, List.map_eq_nil_iff]
  unfold sectionIf
  simp only [hsame, hempty]

variable {m m' : Manifest N}

theorem sections_alike (P : Printer N) (config : InjectionConfig) (h : m.AlikeButSecrets m') :
    sections P config m' = sections P config m := by
  have hleft := h.facts_redacted
  have hsummaries : m'.summaries = m.summaries := by rw [h.others]
  have hreferences : m'.references = m.references := by rw [h.others]
  have hoperations : m'.operations = m.operations := by rw [h.others]
  have hobjective : extractObjective m' = extractObjective m := by
    unfold extractObjective
    rw [hsummaries, ← tasks_redacted, hleft, tasks_redacted]
  have hactive : sectionIf (selectFacts config m')
      (fun facts => (renderFactsSection P facts).map utf16) =
      sectionIf (selectFacts config m) fun facts => (renderFactsSection P facts).map utf16 := by
    refine sectionIf_redacted (fun facts => by rw [renderFactsSection_redacted]) ?_
    rw [selectFacts_redacted, hleft, selectFacts_redacted]
  have hconflicted : sectionIf (selectConflictedFacts m')
        (fun facts => (renderConflictedSection P facts).map utf16) =
      sectionIf (selectConflictedFacts m)
        fun facts => (renderConflictedSection P facts).map utf16 := by
    refine sectionIf_redacted (fun facts => by rw [renderConflictedSection_redacted]) ?_
    rw [selectConflictedFacts_redacted, hleft, selectConflictedFacts_redacted]
  have hselected : selectSummaries config m' = selectSummaries config m := by
    unfold selectSummaries
    rw [hsummaries]
  have hops : extractRecentOps config m' = extractRecentOps config m := by
    unfold extractRecentOps
    rw [hoperations]
  have hrefs : selectRefs P m' = selectRefs P m := by
    unfold selectRefs
    rw [hreferences]
  unfold sections
  rw [hobjective, hactive, hconflicted, hselected, hops, hrefs]

/-- **No secret of a credential influences the injected context**: manifests that agree
up to secrets have the same one, whatever the configuration. -/
theorem credentials_not_shown (P : Printer N) (config : InjectionConfig)
    (h : m.AlikeButSecrets m') : compile P config m' = compile P config m := by
  unfold compile
  rw [sections_alike P config h]

def plainHost : Printer ℚ where
  percent q := toString (q * 100 + 1 / 2).floor
  limit
    | .finite q => toString q
    | .infinity => "Infinity"
    | .negInfinity => "-Infinity"
    | .nan => "NaN"
  localeCompare := compare

def vault (password : String) : Manifest ℚ where
  revision := 1
  integrityHash := "sha-" ++ password
  createdAt := "1970-01-01T00:00:00.000Z"
  updatedAt := "1970-01-01T00:00:00.000Z"
  facts := OrderedMap.empty.set "FACT_1"
    { factId := "FACT_1"
      factHash := "hash-" ++ password
      type := "credential"
      value := [("password", .str password), ("username", .str "alice"), ("host", .str "db")]
      identityKey := "credential:alice@db"
      confidence := 0.9
      source := "user"
      derivedFrom := []
      supersedes := none
      mergedFrom := none
      state := .active
      createdAt := "1970-01-01T00:00:00.000Z"
      observations :=
        { firstSeen := "1970-01-01T00:00:00.000Z"
          lastSeen := "1970-01-01T00:00:00.000Z"
          observationCount := 1 }
      supportingSources := ["user"]
      discoveryIndex := 1 }
  references := .empty
  summaries := .empty
  operations := []
  lastFactIndex := 1

theorem vault_not_shown :
    compile plainHost {} (vault "correct horse") = compile plainHost {} (vault "x") := by
  refine credentials_not_shown plainHost {} ⟨?_, rfl⟩
  refine List.Forall₂.cons ⟨rfl, Or.inr ⟨rfl, ?_, rfl⟩⟩ List.Forall₂.nil
  intro key hkey
  simp only [identifyingFields, List.mem_cons, List.not_mem_nil, or_false] at hkey
  rcases hkey with rfl | rfl | rfl | rfl <;> rfl

end Injection

end ClawHarder
