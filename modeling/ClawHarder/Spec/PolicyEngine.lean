import ClawHarder.Spec.RuntimeState

/-!
# The policy engine

From `policy_engine.py`: the governance profiles, the delta that a tool proposal is
classified as, and the decision on it; from `runtime.py`, the envelope that a cycle
derives from the bound intent. The limits of an envelope and the random `receipt_id`
are left out.
-/

namespace ClawHarder.Policy

open PyText (lit)

/-- What a tool proposal can be classified as, and the `high_risk` of a receipt. -/
inductive ToolDelta where
  | refine
  | unknownTool
  | changeOperation
  | widenScope
  | fabricateAuthority
  | dropConstraint
  | compoundAction
  | invalidClaim
  | highRisk
deriving DecidableEq

/-- The source's word for a delta. -/
def ToolDelta.name : ToolDelta → PyText
  | .refine => lit "refine"
  | .unknownTool => lit "unknown_tool"
  | .changeOperation => lit "change_operation"
  | .widenScope => lit "widen_scope"
  | .fabricateAuthority => lit "fabricate_authority"
  | .dropConstraint => lit "drop_constraint"
  | .compoundAction => lit "compound_action"
  | .invalidClaim => lit "invalid_claim"
  | .highRisk => lit "high_risk"

/-- `KNOWN_TOOL_DELTAS`, in an order of the set -/
def knownToolDeltas : List PyText :=
  [ToolDelta.refine, .unknownTool, .changeOperation, .widenScope, .fabricateAuthority,
    .dropConstraint, .compoundAction, .invalidClaim].map ToolDelta.name

structure GovernanceProfile where
  mode : PyText := lit "standard"
  operatorAuthority : PyText := lit "user"
  confirmMutations : Bool := true
  allowScopeExpansion : Bool := false
  rewriteBroadRequests : Bool := true
  allowCompoundActions : Bool := false
  hardDenies : List PyText := [lit "fabricate_authority", lit "drop_constraint",
    lit "destructive_external_ops", lit "secrets_exfiltration"]
deriving DecidableEq

def GovernanceProfile.forMode (mode operatorAuthority : PyText) : GovernanceProfile :=
  let normalized := RuntimeCore.lowerWord mode
  if normalized = lit "guided" then { mode := lit "guided", operatorAuthority }
  else if normalized = lit "expert" then {
    mode := lit "expert"
    operatorAuthority
    confirmMutations := false
    allowScopeExpansion := true
    rewriteBroadRequests := false
    allowCompoundActions := true }
  else if normalized = lit "unlocked" then {
    mode := lit "unlocked"
    operatorAuthority
    confirmMutations := false
    allowScopeExpansion := true
    rewriteBroadRequests := false
    allowCompoundActions := true
    hardDenies := [lit "secrets_exfiltration"] }
  -- the comment there: "Deny everything except strict refinement"
  else if normalized = lit "degraded_repair" then
    { mode := lit "degraded_repair", hardDenies := knownToolDeltas }
  else { operatorAuthority }

structure ExecutionEnvelope where
  subjects : List PyText := [lit "operator", lit "runtime"]
  operations : List PyText := [lit "chat", lit "tool_call", lit "memory_write"]
  scopes : List PyText := [lit "local_workspace", lit "configured_mcp", lit "runtime_memory"]
  purposes : List PyText := [lit "assist_operator", lit "answer_question", lit "operate_tooling"]
  authorities : List PyText := [lit "runtime_state", lit "registered_tools", lit "configured_mcp"]
  constraints : List PyText := [lit "no_hidden_tool_execution", lit "preserve_operator_intent",
    lit "stay_local_first", lit "no_fabricated_claims"]
deriving DecidableEq

structure RuntimeProposal where
  kind : PyText
  subject : PyText
  operation : PyText
  scope : PyText
  purpose : PyText
  authority : PyText
  constraints : List PyText
  source : PyText
  targetState : PyDict

/-- What `evaluate_tool_proposal` is told of the tool, besides the proposal. -/
structure ToolFacts where
  known : Bool
  scope : PyText
  mutatesState : Bool
  highRisk : Bool
  compound : Bool
  invalidClaims : Bool := false

structure DenialFeedback where
  reasonCode : PyText
  deniedOperation : PyText
  deniedTarget : PyText
  allowedScopes : List PyText
  allowedOperations : List PyText
  contractClause : Option PyText := none
  suggestedNextAction : Option PyDict
  cycle : ℕ := 0

/-- The decisions that a tool proposal meets. -/
inductive Decision where
  | allow
  | deny
deriving DecidableEq

structure DecisionReceipt where
  proposal : RuntimeProposal
  decision : Decision
  deltaKind : ToolDelta
  reasons : List PyText
  /-- the `denial_feedback` of the resolution -/
  resolution : Option DenialFeedback := none

/-- The constraints of the envelope that a proposal leaves out. -/
def missingConstraints (bound : ExecutionEnvelope) (proposal : RuntimeProposal) : List PyText :=
  bound.constraints.filter fun item => item ∉ proposal.constraints

/-- `classify_tool_delta`, with the reasons -/
def classifyToolDelta (bound : ExecutionEnvelope) (proposal : RuntimeProposal)
    (toolKnown : Bool) (toolScope : PyText) (compound : Bool) : ToolDelta × List PyText :=
  if !toolKnown then
    (.unknownTool, [lit "Tool is not registered in the active runtime."])
  else if proposal.operation ∉ bound.operations then
    (.changeOperation,
      [lit "Operation '" ++ proposal.operation ++ lit "' is outside the current envelope."])
  else if proposal.scope ∉ bound.scopes then
    (.widenScope, [lit "Scope '" ++ proposal.scope ++ lit "' is outside the current envelope."])
  else if toolScope ≠ proposal.scope then
    (.widenScope, [lit "Tool metadata scope '" ++ toolScope ++
      lit "' differs from proposal scope '" ++ proposal.scope ++ lit "'."])
  else if proposal.authority ∉ bound.authorities then
    (.fabricateAuthority,
      [lit "Authority '" ++ proposal.authority ++ lit "' is not derived from runtime state."])
  else if missingConstraints bound proposal ≠ [] then
    (.dropConstraint, [lit "Proposal dropped constraints: " ++
      PyText.join (lit ", ") (missingConstraints bound proposal)])
  else if compound then
    (.compoundAction, [lit "Tool arguments imply a multi-step or batch action."])
  else (.refine, [lit "Proposal stays within the current tool envelope."])

section Evaluate

variable (b : PyBuiltins)

/-- The feedback of a denial. -/
def denialFeedback (bound : ExecutionEnvelope) (proposal : RuntimeProposal)
    (reasonCode : PyText) (suggestedNextAction : Option PyDict) : DenialFeedback where
  reasonCode := reasonCode
  deniedOperation := proposal.operation
  deniedTarget := Py.str b ((PyValue.get? (lit "tool_name") proposal.targetState).getD (.str []))
  allowedScopes := bound.scopes
  allowedOperations := bound.operations
  suggestedNextAction := suggestedNextAction

/-- `tool_scope or (bound.scopes[0] if bound.scopes else "local_workspace")` -/
def suggestedScope (bound : ExecutionEnvelope) (toolScope : PyText) : PyText :=
  if toolScope = [] then bound.scopes.headD (lit "local_workspace") else toolScope

def hint (text : String) : Option PyDict := some [(lit "hint", .str (lit text))]

def evaluateToolProposal (bound : ExecutionEnvelope) (profile : GovernanceProfile)
    (proposal : RuntimeProposal) (tool : ToolFacts) : DecisionReceipt :=
  if tool.invalidClaims then {
    proposal, decision := .deny, deltaKind := .invalidClaim
    reasons :=
      [lit "Proposal carries identity or capability claims that contradict runtime state."]
    resolution := some (denialFeedback b bound proposal (lit "invalid_claim") none) }
  else
    let (deltaKind, reasons) :=
      classifyToolDelta bound proposal tool.known tool.scope tool.compound
    if deltaKind.name ∈ profile.hardDenies then
      { proposal, decision := .deny, deltaKind, reasons }
    else if deltaKind = .unknownTool then {
      proposal, decision := .deny, deltaKind
      reasons := reasons ++
        [lit "Runtime cannot bind a tool that is not present in the active registry."] }
    else if deltaKind = .changeOperation ∨ deltaKind = .dropConstraint ∨
        deltaKind = .fabricateAuthority then
      { proposal, decision := .deny, deltaKind, reasons }
    else if deltaKind = .widenScope then
      if profile.allowScopeExpansion then { proposal, decision := .allow, deltaKind, reasons }
      else {
        proposal, decision := .deny, deltaKind
        reasons := reasons ++ [lit "Scope '" ++ proposal.scope ++
          lit "' is not authorized. Use one of: " ++ PyText.join (lit ", ") bound.scopes ++ lit "."]
        resolution := some (denialFeedback b bound proposal (lit "scope_exceeded")
          (some [(lit "operation", .str proposal.operation),
            (lit "scope", .str (suggestedScope bound tool.scope))])) }
    else if deltaKind = .compoundAction ∧ !profile.allowCompoundActions then {
      proposal, decision := .deny, deltaKind
      reasons := reasons ++ [lit "Compound action denied. Decompose into smaller steps."]
      resolution := some (denialFeedback b bound proposal (lit "compound_action_denied")
        (hint "Decompose into a single grounded action and retry.")) }
    else if tool.highRisk ∧ profile.mode = lit "guided" then {
      proposal, decision := .deny, deltaKind := .highRisk
      reasons := reasons ++ [lit "High-risk tool denied in guided governance mode."]
      resolution := some (denialFeedback b bound proposal (lit "high_risk_denied")
        (hint "Switch governance mode to standard or expert to allow high-risk tools.")) }
    else if deltaKind.name ∉ knownToolDeltas then {
      proposal, decision := .deny, deltaKind
      reasons := reasons ++
        [lit "Unhandled tool delta '" ++ deltaKind.name ++ lit "' was denied by default."] }
    else { proposal, decision := .allow, deltaKind, reasons }

end Evaluate

/-- The `constraints` of the projected identity: a list, a text, or another value. -/
inductive IdentityConstraints where
  | listed (items : List PyText)
  | text (t : PyText)
  | other

/-- `id_constraints`; a value that is no list cannot be added to the others. -/
def IdentityConstraints.items : IdentityConstraints → Py (List PyText)
  | .listed items => .ok items
  | .text t => .ok (((t.splitOn (PyText.codePoint ',')).map PyText.strip).filter (· ≠ []))
  | .other => .error .typeError

/-- What `_derive_active_envelope` reads. -/
structure CycleState where
  boundIntent : ExecutionEnvelope
  permissionMode : PyText
  governance : GovernanceProfile
  /-- of `TruthAPI.get_identity` -/
  identityConstraints : IdentityConstraints
  /-- of `TruthAPI.get_reliability` -/
  canaryValidatorOpen : Bool

/-- The operations that the `buddy` mode keeps. -/
def buddyOperations : List PyText := [lit "chat", lit "tool_call", lit "memory_write"]

/-- `xs or default` -/
def orElse (xs default : List PyText) : List PyText := if xs = [] then default else xs

/-- `if c not in envelope_constraints: envelope_constraints.append(c)` -/
def addConstraint (constraints : List PyText) (c : PyText) : List PyText :=
  if c ∈ constraints then constraints else constraints ++ [c]

/-- `_derive_active_envelope`; the comment there: "derived ⊆ base" -/
def deriveActiveEnvelope (s : CycleState) : Py ExecutionEnvelope := do
  let base := s.boundIntent
  let idConstraints ← s.identityConstraints.items
  let relConstraints :=
    if s.permissionMode = lit "autonomous" ∧ !s.canaryValidatorOpen then [lit "supervised_only"]
    else []
  let buddy : Bool := s.permissionMode = lit "buddy"
  let operations := if buddy then
      orElse (base.operations.filter (· ∈ buddyOperations)) buddyOperations
    else base.operations
  let scopes := if buddy then
      orElse (base.scopes.filter (· = lit "runtime_memory")) [lit "runtime_memory"]
    else base.scopes
  let added := [lit "permission_mode_" ++ s.permissionMode] ++ idConstraints ++ relConstraints
  return {
    subjects := base.subjects
    operations := operations
    scopes := scopes
    purposes := base.purposes
    authorities := base.authorities
    constraints := added.foldl addConstraint base.constraints }

end ClawHarder.Policy
