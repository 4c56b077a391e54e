import ClawHarder.Spec.PolicyEngine

/-!
# Hard denies and narrower envelopes

`classify_tool_delta` reports one delta, and a scope outside the envelope before an
authority or a constraint; a profile that allows scope expansion lets that one delta
pass (`allow_iff`). So a proposal may hide what is denied behind its scope.

* `hard_denies_iff`: **what is hard denied is never allowed, and what an envelope denies
  no narrower one allows, exactly when no scope that is waived hides a denial.**
* `derived_narrower_iff`: **the derived envelope is narrower than the bound intent
  exactly when the `buddy` mode finds an operation and the scope that it keeps.**
-/

namespace ClawHarder.Policy

open PyText (lit)

variable {b : PyBuiltins} {E E' : ExecutionEnvelope} {p p' : GovernanceProfile}
  {proposal : RuntimeProposal} {tool : ToolFacts}

structure Bindable (E : ExecutionEnvelope) (proposal : RuntimeProposal) (tool : ToolFacts) :
    Prop where
  claims : tool.invalidClaims = false
  known : tool.known = true
  operation : proposal.operation ∈ E.operations

def ScopeFits (E : ExecutionEnvelope) (proposal : RuntimeProposal) (tool : ToolFacts) : Prop :=
  proposal.scope ∈ E.scopes ∧ tool.scope = proposal.scope

instance : Decidable (ScopeFits E proposal tool) := inferInstanceAs (Decidable (_ ∧ _))

structure WaivesScope (p : GovernanceProfile) : Prop where
  expansion : p.allowScopeExpansion = true
  notDenied : ToolDelta.widenScope.name ∉ p.hardDenies

structure Grounded (E : ExecutionEnvelope) (p : GovernanceProfile) (proposal : RuntimeProposal)
    (tool : ToolFacts) : Prop where
  authority : proposal.authority ∈ E.authorities
  constraints : E.constraints ⊆ proposal.constraints
  compound : tool.compound = true →
    p.allowCompoundActions = true ∧ ToolDelta.compoundAction.name ∉ p.hardDenies
  single : tool.compound = false → ToolDelta.refine.name ∉ p.hardDenies
  risk : ¬ (tool.highRisk = true ∧ p.mode = lit "guided")

theorem missingConstraints_eq_nil :
    missingConstraints E proposal = [] ↔ E.constraints ⊆ proposal.constraints := by
  unfold missingConstraints
  rw [List.filter_eq_nil_iff]
  constructor
  · intro h c hc
    simpa using h c hc
  · intro h c hc
    simpa using h hc

def Derived (E : ExecutionEnvelope) (proposal : RuntimeProposal) : Prop :=
  proposal.authority ∈ E.authorities ∧ E.constraints ⊆ proposal.constraints

/-- **The three deltas that are not always denied.** -/
theorem classify_iff (E : ExecutionEnvelope) (proposal : RuntimeProposal) (known : Bool)
    (toolScope : PyText) (compound : Bool) :
    ((classifyToolDelta E proposal known toolScope compound).1 = .widenScope ↔
      known = true ∧ proposal.operation ∈ E.operations ∧
        ¬ (proposal.scope ∈ E.scopes ∧ toolScope = proposal.scope)) ∧
    ((classifyToolDelta E proposal known toolScope compound).1 = .compoundAction ↔
      known = true ∧ proposal.operation ∈ E.operations ∧
        (proposal.scope ∈ E.scopes ∧ toolScope = proposal.scope) ∧ Derived E proposal ∧
        compound = true) ∧
    ((classifyToolDelta E proposal known toolScope compound).1 = .refine ↔
      known = true ∧ proposal.operation ∈ E.operations ∧
        (proposal.scope ∈ E.scopes ∧ toolScope = proposal.scope) ∧ Derived E proposal ∧
        compound = false) := by
  unfold classifyToolDelta Derived
  rw [← missingConstraints_eq_nil]
  by_cases hknown : known = true
  · by_cases hoperation : proposal.operation ∈ E.operations
    · by_cases hscope : proposal.scope ∈ E.scopes
      · by_cases htool : toolScope = proposal.scope
        · by_cases hauthority : proposal.authority ∈ E.authorities
          · by_cases hmissing : missingConstraints E proposal = []
            · cases compound <;> simp [hknown, hoperation, hscope, htool, hauthority, hmissing]
            · simp [hknown, hoperation, hscope, htool, hauthority, hmissing]
          · simp [hknown, hoperation, hscope, htool, hauthority]
        · simp [hknown, hoperation, hscope, htool]
      · simp [hknown, hoperation, hscope]
    · simp [hknown, hoperation]
  · simp [hknown]

theorem classify_ne (E : ExecutionEnvelope) (proposal : RuntimeProposal) (known : Bool)
    (toolScope : PyText) (compound : Bool) :
    (classifyToolDelta E proposal known toolScope compound).1 ≠ .invalidClaim ∧
      (classifyToolDelta E proposal known toolScope compound).1 ≠ .highRisk := by
  unfold classifyToolDelta
  split_ifs <;> simp

theorem allow_iff_delta : (evaluateToolProposal b E p proposal tool).decision = .allow ↔
    tool.invalidClaims = false ∧
      ∃ δ, (classifyToolDelta E proposal tool.known tool.scope tool.compound).1 = δ ∧
        δ.name ∉ p.hardDenies ∧
        (δ = .widenScope ∧ p.allowScopeExpansion = true ∨
          (δ = .compoundAction ∧ p.allowCompoundActions = true ∨ δ = .refine) ∧
            ¬ (tool.highRisk = true ∧ p.mode = lit "guided")) := by
  unfold evaluateToolProposal
  cases hclaims : tool.invalidClaims with
  | true => simp
  | false =>
    -- only the delta matters from here on
    have hne := classify_ne E proposal tool.known tool.scope tool.compound
    generalize classifyToolDelta E proposal tool.known tool.scope tool.compound = r at hne ⊢
    obtain ⟨δ, reasons⟩ := r
    simp only [Bool.false_eq_true, if_false, true_and, exists_eq_left']
    by_cases hhard : δ.name ∈ p.hardDenies
    · simp [hhard]
    · simp only [hhard, if_false, not_false_eq_true, true_and]
      by_cases hrisk : tool.highRisk = true ∧ p.mode = lit "guided"
      · cases δ <;> cases p.allowScopeExpansion <;> cases p.allowCompoundActions <;>
          simp [hrisk]
      · cases δ <;> cases p.allowScopeExpansion <;> cases p.allowCompoundActions <;>
          simp [hrisk, knownToolDeltas] at hne ⊢

/-- **What the policy allows.** -/
theorem allow_iff : (evaluateToolProposal b E p proposal tool).decision = .allow ↔
    Bindable E proposal tool ∧
      (¬ ScopeFits E proposal tool ∧ WaivesScope p ∨
        ScopeFits E proposal tool ∧ Grounded E p proposal tool) := by
  rw [allow_iff_delta]
  obtain ⟨hwiden, hcompound, hrefine⟩ :=
    classify_iff E proposal tool.known tool.scope tool.compound
  constructor
  · rintro ⟨hclaims, δ, hδ, hhard, ⟨rfl, hexpand⟩ | ⟨⟨rfl, hallow⟩ | rfl, hrisk⟩⟩
    · obtain ⟨hknown, hop, hfit⟩ := hwiden.1 hδ
      exact ⟨⟨hclaims, hknown, hop⟩, .inl ⟨hfit, hexpand, hhard⟩⟩
    · obtain ⟨hknown, hop, hfit, ⟨hauth, hcons⟩, hc⟩ := hcompound.1 hδ
      refine ⟨⟨hclaims, hknown, hop⟩,
        .inr ⟨hfit, hauth, hcons, fun _ => ⟨hallow, hhard⟩, ?_, hrisk⟩⟩
      intro hsingle
      rw [hc] at hsingle
      cases hsingle
    · obtain ⟨hknown, hop, hfit, ⟨hauth, hcons⟩, hc⟩ := hrefine.1 hδ
      refine ⟨⟨hclaims, hknown, hop⟩, .inr ⟨hfit, hauth, hcons, ?_, fun _ => hhard, hrisk⟩⟩
      intro hmany
      rw [hc] at hmany
      cases hmany
  · rintro ⟨⟨hclaims, hknown, hop⟩, ⟨hfit, hexpand, hhard⟩ | ⟨hfit, hg⟩⟩
    · exact ⟨hclaims, _, hwiden.2 ⟨hknown, hop, hfit⟩, hhard, .inl ⟨rfl, hexpand⟩⟩
    · have hderived : Derived E proposal := ⟨hg.authority, hg.constraints⟩
      cases hc : tool.compound with
      | true =>
        obtain ⟨hallow, hhard⟩ := hg.compound hc
        rw [hc] at hcompound
        exact ⟨hclaims, _, hcompound.2 ⟨hknown, hop, hfit, hderived, rfl⟩, hhard,
          .inr ⟨.inl ⟨rfl, hallow⟩, hg.risk⟩⟩
      | false =>
        rw [hc] at hrefine
        exact ⟨hclaims, _, hrefine.2 ⟨hknown, hop, hfit, hderived, rfl⟩, hg.single hc,
          .inr ⟨.inr rfl, hg.risk⟩⟩

/-- Fewer operations, scopes and authorities, more constraints and hard denies. -/
structure Narrower (E' E : ExecutionEnvelope) (p' p : GovernanceProfile) : Prop where
  operations : E'.operations ⊆ E.operations
  scopes : E'.scopes ⊆ E.scopes
  authorities : E'.authorities ⊆ E.authorities
  constraints : E.constraints ⊆ E'.constraints
  hardDenies : p.hardDenies ⊆ p'.hardDenies
  profile : { p' with hardDenies := p.hardDenies } = p

namespace Narrower

variable (h : Narrower E' E p' p)

include h

theorem expansion : p'.allowScopeExpansion = p.allowScopeExpansion := by rw [← h.profile]

theorem compounds : p'.allowCompoundActions = p.allowCompoundActions := by rw [← h.profile]

theorem mode : p'.mode = p.mode := by rw [← h.profile]

theorem bindable (hb : Bindable E' proposal tool) : Bindable E proposal tool :=
  ⟨hb.claims, hb.known, h.operations hb.operation⟩

theorem scopeFits (hs : ScopeFits E' proposal tool) : ScopeFits E proposal tool :=
  ⟨h.scopes hs.1, hs.2⟩

theorem waivesScope (hw : WaivesScope p') : WaivesScope p :=
  ⟨h.expansion ▸ hw.expansion, fun hd => hw.notDenied (h.hardDenies hd)⟩

theorem grounded (hg : Grounded E' p' proposal tool) : Grounded E p proposal tool where
  authority := h.authorities hg.authority
  constraints := List.Subset.trans h.constraints hg.constraints
  compound hc := ⟨h.compounds ▸ (hg.compound hc).1, fun hd => (hg.compound hc).2 (h.hardDenies hd)⟩
  single hc hd := hg.single hc (h.hardDenies hd)
  risk := h.mode ▸ hg.risk

/-- **A narrower envelope allows more only by its scopes**: it waives a scope that the
wider one grants. -/
theorem allows_more (hden : (evaluateToolProposal b E p proposal tool).decision = .deny)
    (hallow : (evaluateToolProposal b E' p' proposal tool).decision = .allow) :
    Bindable E' proposal tool ∧ ¬ ScopeFits E' proposal tool ∧ WaivesScope p' ∧
      ScopeFits E proposal tool ∧ ¬ Grounded E p proposal tool := by
  have hnot : ¬ (evaluateToolProposal b E p proposal tool).decision = .allow := by
    rw [hden]
    exact Decision.noConfusion
  rw [allow_iff] at hnot
  obtain ⟨hb, ⟨hout, hw⟩ | ⟨hin, hg⟩⟩ := allow_iff.1 hallow
  · -- a scope outside the wider envelope would be waived there too
    have hin : ScopeFits E proposal tool := by
      by_contra hout'
      exact hnot ⟨h.bindable hb, .inl ⟨hout', h.waivesScope hw⟩⟩
    exact ⟨hb, hout, hw, hin, fun hg => hnot ⟨h.bindable hb, .inr ⟨hin, hg⟩⟩⟩
  · -- what fits the narrower envelope fits the wider one
    exact absurd ⟨h.bindable hb, .inr ⟨h.scopeFits hin, h.grounded hg⟩⟩ hnot

end Narrower

/-- The proposal does what is hard denied: it takes an authority that the envelope does
not grant, or leaves out a constraint. -/
def HardDenied (E : ExecutionEnvelope) (p : GovernanceProfile) (proposal : RuntimeProposal) :
    Prop :=
  ToolDelta.fabricateAuthority.name ∈ p.hardDenies ∧ proposal.authority ∉ E.authorities ∨
    ToolDelta.dropConstraint.name ∈ p.hardDenies ∧ ∃ c ∈ E.constraints, c ∉ proposal.constraints

/-- Hard denies are absolute, and narrowing never turns a denial into a permission. -/
def DeniesHold (b : PyBuiltins) (E E' : ExecutionEnvelope) (p p' : GovernanceProfile)
    (proposal : RuntimeProposal) (tool : ToolFacts) : Prop :=
  (HardDenied E p proposal → (evaluateToolProposal b E p proposal tool).decision ≠ .allow) ∧
    (Narrower E' E p' p → (evaluateToolProposal b E p proposal tool).decision = .deny →
      (evaluateToolProposal b E' p' proposal tool).decision ≠ .allow)

def ScopeWaived (E : ExecutionEnvelope) (p : GovernanceProfile) (proposal : RuntimeProposal)
    (tool : ToolFacts) : Prop :=
  Bindable E proposal tool ∧ ¬ ScopeFits E proposal tool ∧ WaivesScope p

theorem HardDenied.not_grounded (h : HardDenied E p proposal) : ¬ Grounded E p proposal tool := by
  intro hg
  rcases h with ⟨-, hauthority⟩ | ⟨-, c, hc, hmissing⟩
  · exact hauthority hg.authority
  · exact hmissing (hg.constraints hc)

/-- **The law holds exactly when no waived scope hides a denial**: neither a hard deny
of the envelope, nor a denial of the wider envelope that grants the scope. -/
theorem hard_denies_iff (b : PyBuiltins) (E E' : ExecutionEnvelope) (p p' : GovernanceProfile)
    (proposal : RuntimeProposal) (tool : ToolFacts) :
    DeniesHold b E E' p p' proposal tool ↔
      ¬ (ScopeWaived E p proposal tool ∧ HardDenied E p proposal) ∧
        ¬ (Narrower E' E p' p ∧ ScopeWaived E' p' proposal tool ∧ ScopeFits E proposal tool ∧
          ¬ Grounded E p proposal tool) := by
  constructor
  · rintro ⟨habsolute, hmonotone⟩
    refine ⟨?_, ?_⟩
    · rintro ⟨⟨hb, hout, hw⟩, hhard⟩
      exact habsolute hhard (allow_iff.2 ⟨hb, .inl ⟨hout, hw⟩⟩)
    · rintro ⟨hn, ⟨hb, hout, hw⟩, hin, hg⟩
      have hden : (evaluateToolProposal b E p proposal tool).decision = .deny := by
        cases hd : (evaluateToolProposal b E p proposal tool).decision with
        | deny => rfl
        | allow =>
          obtain ⟨-, ⟨hout', -⟩ | ⟨-, hg'⟩⟩ := allow_iff.1 hd
          · exact absurd hin hout'
          · exact absurd hg' hg
      exact hmonotone hn hden (allow_iff.2 ⟨hb, .inl ⟨hout, hw⟩⟩)
  · rintro ⟨habsolute, hmonotone⟩
    refine ⟨?_, ?_⟩
    · intro hhard hallow
      obtain ⟨hb, ⟨hout, hw⟩ | ⟨-, hg⟩⟩ := allow_iff.1 hallow
      · exact habsolute ⟨⟨hb, hout, hw⟩, hhard⟩
      · exact hhard.not_grounded hg
    · intro hn hden hallow
      obtain ⟨hb, hout, hw, hin, hg⟩ := hn.allows_more hden hallow
      exact hmonotone ⟨hn, ⟨hb, hout, hw⟩, hin, hg⟩

/-- A proposal with an authority that nobody granted, in a scope outside the default ones. -/
def forgedProposal : RuntimeProposal where
  kind := lit "tool"
  subject := lit "runtime"
  operation := lit "tool_call"
  scope := lit "payments"
  purpose := lit "operate_tooling"
  authority := lit "unauthorized"
  constraints := []
  source := lit "model_tool_call"
  targetState := [(lit "tool_name", .str (lit "pay"))]

def paymentsTool : ToolFacts where
  known := true
  scope := lit "payments"
  mutatesState := true
  highRisk := false
  compound := false

def paymentsEnvelope : ExecutionEnvelope where
  scopes := [lit "local_workspace", lit "configured_mcp", lit "runtime_memory", lit "payments"]

/-- In the `expert` mode the default envelope allows a proposal whose authority is hard
denied, and which a wider envelope, with the proposal's scope, denies. -/
theorem forged_allowed :
    (HardDenied {} (.forMode (lit "expert") (lit "user")) forgedProposal ∧
      ∀ b, (evaluateToolProposal b {} (.forMode (lit "expert") (lit "user")) forgedProposal
        paymentsTool).decision = .allow) ∧
    Narrower {} paymentsEnvelope (.forMode (lit "expert") (lit "user"))
        (.forMode (lit "expert") (lit "user")) ∧
      ∀ b, (evaluateToolProposal b paymentsEnvelope (.forMode (lit "expert") (lit "user"))
        forgedProposal paymentsTool).decision = .deny := by
  have hnarrower : Narrower {} paymentsEnvelope (.forMode (lit "expert") (lit "user"))
      (.forMode (lit "expert") (lit "user")) :=
    ⟨by decide, by decide, by decide, by decide, by decide, rfl⟩
  refine ⟨⟨.inl (by decide), ?_⟩, hnarrower, ?_⟩
  · intro b
    rfl
  · intro b
    rfl

theorem subset_foldl_addConstraint (added constraints : List PyText) :
    constraints ⊆ added.foldl addConstraint constraints := by
  induction added generalizing constraints with
  | nil => exact List.Subset.refl _
  | cons c added ih =>
    refine List.Subset.trans ?_ (ih _)
    unfold addConstraint
    split_ifs with hc
    · exact List.Subset.refl _
    · exact List.subset_append_left _ _

/-- A selection falls back to a default of things to select: it stays within the list
exactly when it selects anything. -/
theorem orElse_filter_subset (xs : List PyText) {default : List PyText} (keep : PyText → Bool)
    (hdefault : default ≠ []) (hkeep : ∀ x ∈ default, keep x = true) :
    orElse (xs.filter keep) default ⊆ xs ↔ ∃ x ∈ xs, keep x = true := by
  unfold orElse
  split_ifs with hnil
  · rw [List.filter_eq_nil_iff] at hnil
    constructor
    · intro h
      obtain ⟨x, hx⟩ := List.exists_mem_of_ne_nil _ hdefault
      exact ⟨x, h hx, hkeep x hx⟩
    · rintro ⟨x, hx, hkept⟩
      exact absurd hkept (hnil x hx)
  · obtain ⟨x, hx⟩ := List.exists_mem_of_ne_nil _ hnil
    have hsub : xs.filter keep ⊆ xs := fun y hy => List.mem_of_mem_filter hy
    exact iff_of_true hsub ⟨x, List.mem_of_mem_filter hx, List.of_mem_filter hx⟩

/-- **The derived envelope is narrower than the bound intent** under the profile in
force, exactly when the identity's constraints are a list or a text and, in the `buddy`
mode, the bound intent has one of its operations and its scope. -/
theorem derived_narrower_iff (s : CycleState) :
    (∃ E, deriveActiveEnvelope s = .ok E ∧ Narrower E s.boundIntent s.governance s.governance) ↔
      s.identityConstraints ≠ .other ∧
        (s.permissionMode = lit "buddy" →
          (∃ operation ∈ s.boundIntent.operations, operation ∈ buddyOperations) ∧
            lit "runtime_memory" ∈ s.boundIntent.scopes) := by
  have hoperations : orElse _ buddyOperations ⊆ s.boundIntent.operations ↔ _ :=
    orElse_filter_subset s.boundIntent.operations (· ∈ buddyOperations) (by decide) (by decide)
  have hscopes : orElse _ [lit "runtime_memory"] ⊆ s.boundIntent.scopes ↔ _ :=
    orElse_filter_subset s.boundIntent.scopes (· = lit "runtime_memory") (by decide) (by decide)
  simp only [decide_eq_true_eq, exists_eq_right] at hoperations hscopes
  unfold deriveActiveEnvelope
  cases hitems : s.identityConstraints.items with
  | error e =>
    -- no envelope is returned
    have hother : s.identityConstraints = .other := by
      cases hc : s.identityConstraints with
      | other => rfl
      | listed items => rw [hc] at hitems; cases hitems
      | text t => rw [hc] at hitems; cases hitems
    refine iff_of_false ?_ (fun h => h.1 hother)
    rintro ⟨E, hE, -⟩
    cases hE
  | ok items =>
    have hlisted : s.identityConstraints ≠ .other := by
      intro hc
      rw [hc] at hitems
      cases hitems
    constructor
    · rintro ⟨E, hE, hn⟩
      cases hE
      refine ⟨hlisted, fun hbuddy => ?_⟩
      have h1 := hn.operations
      have h2 := hn.scopes
      simp only [hbuddy, decide_true, if_true] at h1 h2
      exact ⟨hoperations.1 h1, hscopes.1 h2⟩
    · rintro ⟨-, hbuddy⟩
      refine ⟨_, rfl, ?_, ?_, List.Subset.refl _, subset_foldl_addConstraint _ _,
        List.Subset.refl _, rfl⟩
      · by_cases hmode : s.permissionMode = lit "buddy"
        · simp only [hmode, decide_true, if_true]
          exact hoperations.2 (hbuddy hmode).1
        · simp only [hmode, decide_false, Bool.false_eq_true, if_false]
          exact List.Subset.refl _
      · by_cases hmode : s.permissionMode = lit "buddy"
        · simp only [hmode, decide_true, if_true]
          exact hscopes.2 (hbuddy hmode).2
        · simp only [hmode, decide_false, Bool.false_eq_true, if_false]
          exact List.Subset.refl _

def chatIntent : CycleState where
  boundIntent := { operations := [lit "chat"], scopes := [lit "local_workspace"] }
  permissionMode := lit "buddy"
  governance := {}
  identityConstraints := .listed []
  canaryValidatorOpen := false

theorem chatIntent_widened : ∃ E, deriveActiveEnvelope chatIntent = .ok E ∧
    ¬ E.scopes ⊆ chatIntent.boundIntent.scopes :=
  ⟨_, rfl, by decide⟩

end ClawHarder.Policy
