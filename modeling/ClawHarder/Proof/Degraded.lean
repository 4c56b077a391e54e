import ClawHarder.Proof.Envelope
import ClawHarder.Spec.Governance

/-!
# What the degraded repair allows

`for_mode("degraded_repair")` hard-denies every known delta, `refine` among them, so it
allows nothing. A governed cycle that engages the repair changes the mode only, and the
profile keeps the hard denies and the waivers it had.

* `confined_iff`: **in the mode, exactly the refining proposals are allowed exactly when
  the profile confines.**
* `degraded_confined_iff`: **so it is throughout a run exactly when no operator sets the
  mode and every repairable fault meets a profile that confines.**
-/

namespace ClawHarder.Policy

open Machine
open PyText (lit)

variable {b : PyBuiltins} {E : ExecutionEnvelope} {p : GovernanceProfile}
  {proposal : RuntimeProposal} {tool : ToolFacts}

def classified (E : ExecutionEnvelope) (proposal : RuntimeProposal) (tool : ToolFacts) :
    ToolDelta :=
  if tool.invalidClaims then .invalidClaim
  else (classifyToolDelta E proposal tool.known tool.scope tool.compound).1

def AllowsRefinesOnly (b : PyBuiltins) (p : GovernanceProfile) : Prop :=
  ∀ (E : ExecutionEnvelope) (proposal : RuntimeProposal) (tool : ToolFacts),
    (evaluateToolProposal b E p proposal tool).decision = .allow ↔
      classified E proposal tool = .refine

structure Confines (p : GovernanceProfile) : Prop where
  refine : ToolDelta.refine.name ∉ p.hardDenies
  scope : p.allowScopeExpansion = true → ToolDelta.widenScope.name ∈ p.hardDenies
  compound : p.allowCompoundActions = true → ToolDelta.compoundAction.name ∈ p.hardDenies

/-- A proposal within the default envelope, for a scope of its own choice. -/
def probe (scope : PyText) : RuntimeProposal where
  kind := lit "tool"
  subject := lit "runtime"
  operation := lit "tool_call"
  scope := scope
  purpose := lit "operate_tooling"
  authority := lit "registered_tools"
  constraints := ({} : ExecutionEnvelope).constraints
  source := lit "model_tool_call"
  targetState := []

def probeTool (scope : PyText) (compound : Bool) : ToolFacts where
  known := true
  scope := scope
  mutatesState := false
  highRisk := false
  compound := compound

/-- **In a mode other than `guided`, exactly the refining proposals are allowed exactly
when the profile confines.** -/
theorem confined_iff (hmode : p.mode ≠ lit "guided") : AllowsRefinesOnly b p ↔ Confines p := by
  unfold AllowsRefinesOnly
  constructor
  · intro h
    refine ⟨?_, ?_, ?_⟩
    -- one probe for each part: a refinement, a scope outside the envelope, a compound call
    · intro hhard
      have hallow := (h {} (probe (lit "runtime_memory"))
        (probeTool (lit "runtime_memory") false)).2 (by decide)
      obtain ⟨-, ⟨hout, -⟩ | ⟨-, hg⟩⟩ := allow_iff.1 hallow
      · exact hout (by decide)
      · exact hg.single rfl hhard
    · intro hexpand
      by_contra hhard
      have hallow := (h {} (probe (lit "payments")) (probeTool (lit "payments") false)).1
        (allow_iff.2 ⟨⟨rfl, rfl, by decide⟩, .inl ⟨by decide, hexpand, hhard⟩⟩)
      exact absurd hallow (by decide)
    · intro hcompounds
      by_contra hhard
      have hallow := (h {} (probe (lit "runtime_memory"))
        (probeTool (lit "runtime_memory") true)).1
        (allow_iff.2 ⟨⟨rfl, rfl, by decide⟩, .inr ⟨by decide, by decide, List.Subset.refl _,
          fun _ => ⟨hcompounds, hhard⟩, fun hc => Bool.noConfusion hc, fun hr => hmode hr.2⟩⟩)
      exact absurd hallow (by decide)
  · intro hp E proposal tool
    rw [allow_iff_delta]
    unfold classified
    cases hclaims : tool.invalidClaims with
    | true => simp
    | false =>
      simp only [Bool.false_eq_true, if_false, true_and]
      constructor
      · rintro ⟨δ, hδ, hhard, ⟨rfl, hexpand⟩ | ⟨⟨rfl, hcompounds⟩ | rfl, -⟩⟩
        · exact absurd (hp.scope hexpand) hhard
        · exact absurd (hp.compound hcompounds) hhard
        · exact hδ
      · intro hδ
        exact ⟨_, hδ, hp.refine, .inr ⟨.inr rfl, fun hr => hmode hr.2⟩⟩

def GovernanceProfile.values (p : GovernanceProfile) : RuntimeCore.GovernanceProfile where
  mode := .str p.mode
  operatorAuthority := .str p.operatorAuthority
  confirmMutations := .bool p.confirmMutations
  allowScopeExpansion := .bool p.allowScopeExpansion
  rewriteBroadRequests := .bool p.rewriteBroadRequests
  allowCompoundActions := .bool p.allowCompoundActions
  hardDenies := p.hardDenies.map .str

theorem forMode_values (mode authority : PyText) :
    RuntimeCore.GovernanceProfile.forMode (.str mode) (.str authority) =
      .ok (GovernanceProfile.forMode mode authority).values := by
  simp only [RuntimeCore.GovernanceProfile.forMode, GovernanceProfile.forMode]
  split_ifs <;> rfl

/-- **A saved profile is loaded as it was.** -/
theorem load_saved {s : RuntimeCore.RuntimeState} (h : s.governance = p.values) :
    RuntimeCore.loadGovernance s.governancePayload = .ok p.values := by
  have hload : RuntimeCore.loadGovernance s.governancePayload =
      (RuntimeCore.GovernanceProfile.forMode s.governance.mode s.governance.operatorAuthority >>=
        fun _ => .ok s.governance) := rfl
  rw [hload, h]
  unfold GovernanceProfile.values
  simp only
  rw [forMode_values]
  rfl

def Confined (b : PyBuiltins) (w : Governed) : Prop :=
  w.governance.mode = lit "degraded_repair" → AllowsRefinesOnly b w.governance

/-- No operator sets the mode, and a repairable fault meets a profile that confines. -/
def Contained (w : Governed) : GovernanceStep → Prop
  | .setGovernanceMode mode _ => normalized mode ≠ lit "degraded_repair"
  | .repairableFault => Confines w.governance
  | _ => True

def Sound (p : GovernanceProfile) : Prop := p.mode = lit "degraded_repair" → Confines p

structure Contains (w : Governed) : Prop where
  governance : Sound w.governance
  saved : ∀ p ∈ w.saved, Sound p
  log : ∀ mode, .policyEngineMode mode ∈ w.log → RuntimeCore.lowerWord mode ≠ lit "degraded_repair"

variable {w : Governed}

theorem confined_of_sound (h : Sound w.governance) : Confined b w := by
  intro hmode
  refine (confined_iff ?_).2 (h hmode)
  rw [hmode]
  decide

theorem sound_of_confined (h : Confined b w) : Sound w.governance := by
  intro hmode
  refine (confined_iff ?_).1 (h hmode)
  rw [hmode]
  decide

/-- **The mode set by its name allows nothing**, not even a refinement. -/
theorem forMode_not_sound {mode : PyText} (authority : PyText)
    (h : RuntimeCore.lowerWord mode = lit "degraded_repair") :
    ¬ Sound (GovernanceProfile.forMode mode authority) := by
  have hprofile : GovernanceProfile.forMode mode authority =
      { mode := lit "degraded_repair", hardDenies := knownToolDeltas } := by
    unfold GovernanceProfile.forMode
    simp only [h]
    rfl
  rw [hprofile]
  intro hsound
  exact (hsound rfl).refine (by decide)

theorem forMode_mode_ne {mode : PyText} (authority : PyText)
    (h : RuntimeCore.lowerWord mode ≠ lit "degraded_repair") :
    RuntimeCore.lowerWord (GovernanceProfile.forMode mode authority).mode ≠
      lit "degraded_repair" := by
  unfold GovernanceProfile.forMode
  simp only [if_neg h]
  split_ifs <;> exact of_decide_eq_true rfl

theorem sound_of_mode_ne (h : RuntimeCore.lowerWord p.mode ≠ lit "degraded_repair") : Sound p := by
  intro hmode
  rw [hmode] at h
  exact absurd (by decide) h

theorem replayProfile_sound {events : List GovernanceEvent}
    (h : ∀ mode, .policyEngineMode mode ∈ events →
      RuntimeCore.lowerWord mode ≠ lit "degraded_repair") : Sound (replayProfile events) := by
  refine sound_of_mode_ne ?_
  unfold replayProfile
  have hstart : RuntimeCore.lowerWord ({} : GovernanceProfile).mode ≠ lit "degraded_repair" := by
    decide
  -- the induction is on the events, from any profile with another mode
  generalize ({} : GovernanceProfile) = p at hstart ⊢
  induction events generalizing p with
  | nil => exact hstart
  | cons e events ih =>
    rw [List.foldl_cons]
    refine ih (fun mode hm => h mode (List.mem_cons_of_mem e hm)) (applyGovernanceEvent p e) ?_
    cases e with
    | policyEngineMode mode =>
      simp only [applyGovernanceEvent]
      split_ifs
      · exact hstart
      · exact forMode_mode_ne _ (h mode List.mem_cons_self)
    | operatorAuthority authority =>
      simp only [applyGovernanceEvent]
      split_ifs <;> exact hstart

theorem Contains.saveState (h : Contains w) : Contains (saveState w) where
  governance := h.governance
  saved p hp := by
    rcases List.mem_cons.1 hp with rfl | hp
    · exact h.governance
    · exact h.saved p hp
  log := h.log

theorem Contains.commit {saves : Bool} {event : GovernanceProfile → GovernanceEvent}
    (h : Contains w) (hevent : ∀ mode, event w.governance = .policyEngineMode mode →
      RuntimeCore.lowerWord mode ≠ lit "degraded_repair") :
    Contains (commit w saves event) := by
  unfold Policy.commit
  cases saves with
  | false => exact h
  | true =>
    refine ⟨h.governance, h.saveState.saved, ?_⟩
    intro mode hmode
    rcases List.mem_append.1 hmode with hold | hnew
    · exact h.log mode hold
    · exact hevent mode (List.mem_singleton.1 hnew).symm

theorem lowerWord_of_known {word : PyText} (h : word ∈ governanceModes)
    (hne : word ≠ lit "degraded_repair") : RuntimeCore.lowerWord word ≠ lit "degraded_repair" := by
  have hall : ∀ word ∈ governanceModes, RuntimeCore.lowerWord word = word := by decide
  rw [hall word h]
  exact hne

/-- **A contained step keeps what a contained run keeps.** -/
theorem contains_step {a : GovernanceStep} (h : Contains w) (ha : Contained w a) :
    Contains (w.step a) := by
  cases a with
  | setGovernanceMode mode saves =>
    unfold Governed.step Policy.setGovernanceMode
    simp only
    by_cases hmode : normalized mode ∉ governanceModes
    · rw [if_pos hmode]
      exact h
    · rw [if_neg hmode]
      have hset := forMode_mode_ne w.governance.operatorAuthority
        (lowerWord_of_known (not_not.1 hmode) ha)
      refine Contains.commit ⟨sound_of_mode_ne hset, h.saved, h.log⟩ ?_
      rintro mode' ⟨⟩
      exact hset
  | setOperatorAuthority authority saves =>
    unfold Governed.step Policy.setOperatorAuthority
    simp only
    by_cases hauthority : normalized authority ∉ operatorAuthorities
    · rw [if_pos hauthority]
      exact h
    · rw [if_neg hauthority]
      refine Contains.commit ⟨fun hmode => ?_, h.saved, h.log⟩ ?_
      · obtain ⟨hrefine, hscope, hcompound⟩ := h.governance hmode
        exact ⟨hrefine, hscope, hcompound⟩
      · rintro mode ⟨⟩
  | repairableFault =>
    -- only the mode changes: the profile confined before
    obtain ⟨hrefine, hscope, hcompound⟩ : Confines w.governance := ha
    exact ⟨fun _ => ⟨hrefine, hscope, hcompound⟩, h.saved, h.log⟩
  | save => exact h.saveState
  | restart file =>
    -- a file that was saved, or none
    have hloaded : Sound ((w.saved[file]?).getD {}) := by
      cases hfile : w.saved[file]? with
      | none => exact sound_of_mode_ne (by decide)
      | some p => exact h.saved p (List.mem_of_getElem? hfile)
    exact ⟨hloaded, h.saved, h.log⟩
  | fork places =>
    refine Contains.saveState ⟨replayProfile_sound ?_, h.saved, h.log⟩
    intro mode hmode
    obtain ⟨i, -, hi⟩ := List.mem_filterMap.1 hmode
    exact h.log mode (List.mem_of_getElem? hi)

/-- **A step that is not contained leaves the mode without the law.** -/
theorem contained_of_sound {a : GovernanceStep}
    (h : Sound (w.step a).governance) : Contained w a := by
  cases a with
  | setGovernanceMode mode saves =>
    intro hmode
    unfold Governed.step Policy.setGovernanceMode Policy.commit at h
    have hmem : ¬ normalized mode ∉ governanceModes := by
      rw [hmode]
      decide
    simp only [if_neg hmem] at h
    have hlower : RuntimeCore.lowerWord (normalized mode) = lit "degraded_repair" := by
      rw [hmode]
      decide
    refine forMode_not_sound w.governance.operatorAuthority hlower ?_
    cases saves with
    | false => exact h
    | true => exact h
  | repairableFault =>
    obtain ⟨hrefine, hscope, hcompound⟩ := h rfl
    exact ⟨hrefine, hscope, hcompound⟩
  | setOperatorAuthority authority saves => trivial
  | save => trivial
  | restart file => trivial
  | fork places => trivial

/-- **The degraded repair confines the runtime throughout a run exactly when the run is
contained.** -/
theorem degraded_confined_iff (b : PyBuiltins) (steps : List GovernanceStep) :
    Always Governed.step (Confined b) {} steps ↔ Guarded Governed.step Contained {} steps := by
  have hstart : Contains {} := by
    refine ⟨fun hmode => absurd hmode (by decide), ?_, ?_⟩
    · intro p hp
      cases hp
    · intro mode hmode
      cases hmode
  constructor
  · intro h
    exact guarded_of_always (fun w a hw => contained_of_sound (sound_of_confined hw)) h
  · intro h bs hbs
    exact confined_of_sound
      (always_of_guarded (fun w a hw ha => contains_step hw ha) hstart h bs hbs).governance

theorem repair_denies_refine :
    (Governed.step {} (.setGovernanceMode (lit "degraded_repair") true)).governance.mode =
        lit "degraded_repair" ∧
      classified {} (probe (lit "runtime_memory")) (probeTool (lit "runtime_memory") false) =
        .refine ∧
      ∀ b, (evaluateToolProposal b {}
        (Governed.step {} (.setGovernanceMode (lit "degraded_repair") true)).governance
        (probe (lit "runtime_memory")) (probeTool (lit "runtime_memory") false)).decision =
          .deny := by
  refine ⟨by decide, by decide, fun b => ?_⟩
  rfl

end ClawHarder.Policy
