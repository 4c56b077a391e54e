import ClawHarder.Spec.MemoryRecords

/-!
# The runtime state, written and read back

From `state.py`, `vitals_engine.py` and `policy_engine.py`: the whole runtime state,
`to_dict`, `to_persisted_dict`, `from_dict` and `clone`. `resume_fired` is never
written; the limits of the envelope, `salience_threshold`, `signal_strength` and
`root_of_trust` are neither written nor read, and left out.
-/

namespace ClawHarder.RuntimeCore

open PyText (lit)

structure IdentityState where
  version : ℤ := 1
  name : PyText := lit "Runtime"
  mode : PyText := lit "taskbot"
  traits : PyDict := []
  posture : PyText := lit "RESPONSIVE"
  attentionPressure : PyText := lit "0.0"
  seedHash : PyText := []
  memoryBuckets : PyDict := []
  calibrations : PyDict := []

structure WorkingState where
  domain : PyText := lit "resource_allocation"
  /-- the keys with their floats -/
  allocations : List (PyText × PyText) := []
  limitPerAllocation : PyText := lit "40.0"
  memoryTotal : PyText := lit "100.0"
  proposals : List PyValue := []
  activeTask : PyValue := .none
  groundTruth : PyDict := []

/-- The core of a new `SignalState`. -/
def defaultCore : PyDict :=
  [("joy", "0.4"), ("sadness", "0.0"), ("anger", "0.0"), ("fear", "0.0"), ("trust", "0.7"),
    ("surprise", "0.0"), ("anticipation", "0.0"), ("calm", "0.5"), ("curiosity", "0.8"),
    ("gratitude", "0.0"), ("wonder", "0.6"), ("resolve", "0.3"), ("focus", "0.5"),
    ("frustration", "0.0"), ("serenity", "0.0"), ("bond", "0.0"), ("anxiety", "0.0"),
    ("threat", "0.1"), ("grief", "0.1")].map fun m => entry m.1 (.float (lit m.2))

structure SignalState where
  core : PyDict := defaultCore
  valence : PyText := lit "0.5"
  arousal : PyText := lit "0.3"
  instability : PyText := lit "0.1"
  /-- each item a tuple -/
  trace : List PyValue := []

def texts (words : List String) : List PyValue := words.map fun w => .str (lit w)

structure ExecutionEnvelope where
  subjects : List PyValue := texts ["operator", "runtime"]
  operations : List PyValue := texts ["chat", "tool_call", "memory_write"]
  scopes : List PyValue := texts ["local_workspace", "configured_mcp", "runtime_memory"]
  purposes : List PyValue := texts ["assist_operator", "answer_question", "operate_tooling"]
  authorities : List PyValue := texts ["runtime_state", "registered_tools", "configured_mcp"]
  constraints : List PyValue := texts ["no_hidden_tool_execution", "preserve_operator_intent",
    "stay_local_first", "no_fabricated_claims"]

/-- `GovernanceProfile`, whose constructor converts nothing. -/
structure GovernanceProfile where
  mode : PyValue := .str (lit "standard")
  operatorAuthority : PyValue := .str (lit "user")
  confirmMutations : PyValue := .bool true
  allowScopeExpansion : PyValue := .bool false
  rewriteBroadRequests : PyValue := .bool true
  allowCompoundActions : PyValue := .bool false
  hardDenies : List PyValue := texts ["fabricate_authority", "drop_constraint",
    "destructive_external_ops", "secrets_exfiltration"]

structure InstitutionalVitals where
  absurdityPressure : PyValue := .float (lit "0.0")
  contradictionDensity : PyValue := .float (lit "0.0")
  institutionalFriction : PyValue := .float (lit "0.0")
  realityStability : PyValue := .float (lit "1.0")
  continuityDebt : PyValue := .float (lit "0.0")

/-- `RuntimeState`. A field that `from_dict` takes over unconverted is any value. -/
structure RuntimeState where
  schemaVersion : ℤ
  identity : IdentityState
  working : WorkingState
  signal : SignalState
  memory : MemoryStore
  boundIntent : ExecutionEnvelope
  governance : GovernanceProfile
  tickCount : ℤ
  canonLedger : List Revision
  vitals : InstitutionalVitals
  permissionMode : PyText
  executionMode : PyText
  sandboxSessionId : PyText
  initialBudget : PyText
  remainingBudget : PyText
  consumedBudget : PyText
  canaryConsecutiveSuccesses : ℤ
  canaryValidatorOpen : Bool
  canaryLastRunMetrics : PyDict
  killswitchEngaged : Bool
  killswitchReason : PyText
  killswitchAt : Option PyText
  debugMode : Bool
  tickMode : PyValue
  executionState : PyValue
  lastTickReason : PyValue
  tickBlockedReason : PyValue
  lastSuccessTimestamp : PyValue
  lastFailureTimestamp : PyValue
  autoResumeOnRestart : Bool
  pendingToolConfirmation : Option PyDict
  healthMetrics : PyDict
  resumeFired : Bool
  lastActivityAt : Option PyText

variable (b : PyBuiltins)

/-- A dictionary, or `None`. -/
def optDict : Option PyDict → PyValue
  | none => .none
  | some d => .dict d

/-- `InstitutionalVitals.to_dict`, with its aliases -/
def InstitutionalVitals.toDict (v : InstitutionalVitals) : PyValue :=
  .dict [
    entry "absurdity_pressure" (b.round3 v.absurdityPressure),
    entry "contradiction_density" (b.round3 v.contradictionDensity),
    entry "institutional_friction" (b.round3 v.institutionalFriction),
    entry "reality_stability" (b.round3 v.realityStability),
    entry "continuity_debt" (b.round3 v.continuityDebt),
    entry "compliance_drift" (b.round3 v.contradictionDensity),
    entry "variance_density" (b.round3 v.institutionalFriction),
    entry "prestige_pressure" (b.round3 v.absurdityPressure),
    entry "institutional_stability" (b.round3 v.realityStability),
    entry "delivery_instability" (b.round3 (b.oneMinus v.realityStability))]

namespace RuntimeState

def identityPayload (s : RuntimeState) : PyValue :=
  .dict [
    entry "version" (.int s.identity.version),
    entry "name" (.str s.identity.name),
    entry "mode" (.str s.identity.mode),
    entry "traits" (.dict s.identity.traits),
    entry "seed_hash" (.str s.identity.seedHash),
    entry "posture" (.str s.identity.posture),
    entry "attention_pressure" (.float s.identity.attentionPressure),
    entry "memory_buckets" (.dict s.identity.memoryBuckets),
    entry "calibrations" (.dict s.identity.calibrations)]

def affectiveStatePayload (s : RuntimeState) : PyValue :=
  .dict [
    entry "core" (.dict s.signal.core),
    entry "valence" (.float s.signal.valence),
    entry "arousal" (.float s.signal.arousal),
    entry "instability" (.float s.signal.instability),
    entry "trace" (.list s.signal.trace)]

/-- A semantic item of `_stm_payload`. -/
def semanticPayload (item : SemanticItem) : PyValue :=
  .dict [
    entry "key" (.str item.key),
    entry "content" item.content,
    entry "ts" (.float item.ts),
    entry "retention" (.str item.retention)]

def stmPayload (s : RuntimeState) : PyValue :=
  .dict [
    entry "frames" (.list (s.memory.frames.map MemoryFrame.toDict)),
    entry "notes" (.list s.memory.notes),
    entry "semantic_items" (.list (s.memory.semantic.map semanticPayload)),
    entry "epoch_window" s.memory.stm.toDict,
    entry "session_ledger" s.memory.mtm.toDict,
    entry "ltm_last_artifact" (optDict s.memory.lastLtmArtifact),
    entry "ltm_toc_tail" (.list (s.memory.ltmTocTail.map .dict))]

def organismPayload (s : RuntimeState) : PyValue :=
  .dict [
    entry "identity" s.identityPayload,
    entry "affective_state" s.affectiveStatePayload,
    entry "stm" s.stmPayload]

def workingPayload (s : RuntimeState) : PyValue :=
  .dict [
    entry "domain" (.str s.working.domain),
    entry "allocations" (.dict (s.working.allocations.map fun m => (m.1, .float m.2))),
    entry "limit_per_allocation" (.float s.working.limitPerAllocation),
    entry "memory_total" (.float s.working.memoryTotal),
    entry "proposals" (.list s.working.proposals),
    entry "active_task" s.working.activeTask,
    entry "ground_truth" (.dict s.working.groundTruth)]

def boundIntentPayload (s : RuntimeState) : PyValue :=
  .dict [
    entry "subjects" (.list s.boundIntent.subjects),
    entry "operations" (.list s.boundIntent.operations),
    entry "scopes" (.list s.boundIntent.scopes),
    entry "purposes" (.list s.boundIntent.purposes),
    entry "authorities" (.list s.boundIntent.authorities),
    entry "constraints" (.list s.boundIntent.constraints)]

def governancePayload (s : RuntimeState) : PyValue :=
  .dict [
    entry "mode" s.governance.mode,
    entry "operator_authority" s.governance.operatorAuthority,
    entry "confirm_mutations" s.governance.confirmMutations,
    entry "allow_scope_expansion" s.governance.allowScopeExpansion,
    entry "rewrite_broad_requests" s.governance.rewriteBroadRequests,
    entry "allow_compound_actions" s.governance.allowCompoundActions,
    entry "hard_denies" (.list s.governance.hardDenies)]

/-- What `to_dict` and `to_persisted_dict` both write. -/
def sharedEntries (s : RuntimeState) : PyDict := [
  entry "schema_version" (.int s.schemaVersion),
  entry "organism" s.organismPayload,
  entry "identity" s.identityPayload,
  entry "working" s.workingPayload,
  entry "signal" s.affectiveStatePayload,
  entry "memory" s.stmPayload,
  entry "bound_intent" s.boundIntentPayload,
  entry "governance" s.governancePayload,
  entry "tick_count" (.int s.tickCount),
  entry "canon_ledger" (.list (s.canonLedger.map Revision.toDict)),
  entry "vitals" (s.vitals.toDict b),
  entry "permission_mode" (.str s.permissionMode),
  entry "execution_mode" (.str s.executionMode),
  entry "sandbox_session_id" (.str s.sandboxSessionId),
  entry "initial_budget" (.float s.initialBudget),
  entry "remaining_budget" (.float s.remainingBudget),
  entry "consumed_budget" (.float s.consumedBudget),
  entry "canary_consecutive_successes" (.int s.canaryConsecutiveSuccesses),
  entry "canary_validator_open" (.bool s.canaryValidatorOpen),
  entry "canary_last_run_metrics" (.dict s.canaryLastRunMetrics),
  entry "killswitch_engaged" (.bool s.killswitchEngaged),
  entry "killswitch_reason" (.str s.killswitchReason),
  entry "killswitch_at" (optFloat s.killswitchAt),
  entry "debug_mode" (.bool s.debugMode),
  entry "last_activity_at" (optFloat s.lastActivityAt),
  entry "tick_mode" s.tickMode,
  entry "execution_state" s.executionState,
  entry "last_tick_reason" s.lastTickReason,
  entry "tick_blocked_reason" s.tickBlockedReason,
  entry "last_success_timestamp" s.lastSuccessTimestamp,
  entry "last_failure_timestamp" s.lastFailureTimestamp,
  entry "auto_resume_on_restart" (.bool s.autoResumeOnRestart),
  entry "pending_tool_confirmation" (optDict s.pendingToolConfirmation)]

def toDict (s : RuntimeState) : PyValue := .dict (s.sharedEntries b)

/-- `to_dict` with the health metrics; the place of a member does not matter. -/
def toPersistedDict (s : RuntimeState) : PyValue :=
  .dict (s.sharedEntries b ++ [entry "health_metrics" (.dict s.healthMetrics)])

end RuntimeState

/-- `str.lower()`, for a comparison with ASCII words: besides the capitals, the Kelvin sign
lowers to a letter. -/
def lowerWord (t : PyText) : PyText :=
  PyText.lower (t.map fun c => if c.val = 0x212A then PyText.codePoint 'k' else c)

def normalizeExecutionMode (value : PyValue) : PyText :=
  let byTruth := if Py.truth value then lit "execute" else lit "plan"
  match value with
  | .str t =>
    let lowered := lowerWord (PyText.strip t)
    if lowered = lit "execute" then lit "execute"
    else if lowered = lit "plan" then lit "plan"
    else byTruth
  | _ => byTruth

def normalizePermissionMode (value : PyValue) (default : PyText) : PyText :=
  match value with
  | .str t =>
    let lowered := lowerWord (PyText.strip t)
    if lowered = lit "buddy" ∨ lowered = lit "task" ∨ lowered = lit "autonomous" then lowered
    else default
  | _ => default

def coerceFloat (value : PyValue) (default : PyText) : Py PyText :=
  match value with
  | .int _ | .float _ => b.float value
  | _ => .ok default

/-- `float(v) if isinstance(v, (int, float)) and not isinstance(v, bool) else None` -/
def optionalFloat (value : PyValue) : Py (Option PyText) :=
  match value with
  | .int _ | .float _ => (b.float value).map some
  | _ => .ok none

/-- `_dedupe`, over the items seen so far -/
def dedupe : List PyValue → List PyValue → Py (List PyValue)
  | _, [] => .ok []
  | seen, v :: vs =>
    if !Py.hashable v then .error .typeError
    else if seen.any (b.sameKey v) then dedupe seen vs
    else (dedupe (v :: seen) vs).map (v :: ·)

/-- `OPERATION_ALIASES.get(operation, operation)` -/
def renameOperation (operation : PyValue) : Py PyValue :=
  match operation with
  | .list _ | .dict _ => .error .typeError
  | .str t =>
    .ok (.str (if t = lit "tool" then lit "tool_call"
      else if t = lit "memory" then lit "memory_write" else t))
  | v => .ok v

/-- `operation in OPERATION_ALIASES`, of a hashable operation -/
def isAlias : PyValue → Bool
  | .str t => t = lit "tool" || t = lit "memory"
  | _ => false

def migrateBoundIntent (bound : PyValue) (schemaVersion : ℤ) (defaults : ExecutionEnvelope) :
    Py ExecutionEnvelope := do
  let rawOperations ← Py.items (← Py.get bound "operations" (.list defaults.operations))
  let operations ← dedupe b [] (← rawOperations.mapM renameOperation)
  let scope ← Py.get bound "scope" (.list defaults.scopes)
  let scopes ← Py.items (← Py.get bound "scopes" scope)
  let scopes ← if schemaVersion < 2 ∧ rawOperations.any isAlias then
      dedupe b [] (scopes ++ [.str (lit "runtime_memory")])
    else .ok scopes
  return {
    subjects := ← Py.items (← Py.get bound "subjects" (.list defaults.subjects))
    operations := operations
    scopes := scopes
    purposes := ← Py.items (← Py.get bound "purposes" (.list defaults.purposes))
    authorities := ← Py.items (← Py.get bound "authorities" (.list defaults.authorities))
    constraints := ← Py.items (← Py.get bound "constraints" (.list defaults.constraints)) }

/-- `KNOWN_TOOL_DELTAS`, in an order of the set -/
def knownToolDeltas : List PyValue :=
  texts ["refine", "unknown_tool", "change_operation", "widen_scope", "fabricate_authority",
    "drop_constraint", "compound_action", "invalid_claim"]

def GovernanceProfile.forMode (mode : PyValue) (operatorAuthority : PyValue) :
    Py GovernanceProfile :=
  match mode with
  | .str t =>
    let normalized := lowerWord t
    if normalized = lit "guided" then
      .ok { mode := .str (lit "guided"), operatorAuthority := operatorAuthority }
    else if normalized = lit "expert" then
      .ok {
        mode := .str (lit "expert")
        operatorAuthority := operatorAuthority
        confirmMutations := .bool false
        allowScopeExpansion := .bool true
        rewriteBroadRequests := .bool false
        allowCompoundActions := .bool true }
    else if normalized = lit "unlocked" then
      .ok {
        mode := .str (lit "unlocked")
        operatorAuthority := operatorAuthority
        confirmMutations := .bool false
        allowScopeExpansion := .bool true
        rewriteBroadRequests := .bool false
        allowCompoundActions := .bool true
        hardDenies := texts ["secrets_exfiltration"] }
    else if normalized = lit "degraded_repair" then
      .ok { mode := .str (lit "degraded_repair"), hardDenies := knownToolDeltas }
    else .ok { operatorAuthority := operatorAuthority }
  | _ => .error .attributeError

def loadIdentity (identity : PyValue) : Py IdentityState := do
  let version ← Py.int b (← Py.get identity "version" (.int 1))
  let name ← Py.get identity "name" (.str (lit "Runtime"))
  let mode ← Py.get identity "mode" (.str (lit "taskbot"))
  let traits ← Py.dict b (← Py.get identity "traits" (.dict []))
  let seedHash ← Py.get identity "seed_hash" (.str [])
  let posture ← Py.get identity "posture" (.str (lit "RESPONSIVE"))
  let pressure ← b.float (← Py.get identity "attention_pressure" (.float (lit "0.0")))
  let buckets ← Py.dict b (← Py.get identity "memory_buckets" (.dict []))
  let calibrations ← Py.dict b (← Py.get identity "calibrations" (.dict []))
  return {
    version := version
    name := Py.str b name
    mode := Py.str b mode
    traits := traits
    posture := Py.str b posture
    attentionPressure := pressure
    seedHash := Py.str b seedHash
    memoryBuckets := buckets
    calibrations := calibrations }

def loadWorking (working : PyValue) : Py WorkingState := do
  let domain ← Py.get working "domain" (.str (lit "resource_allocation"))
  let members ← Py.members (← Py.get working "allocations" (.dict []))
  let allocations ← members.mapM fun m => do
    let amount ← b.float m.2
    return (m.1, amount)
  let limit ← Py.get working "limit" (.float (lit "40.0"))
  let limit ← b.float (← Py.get working "limit_per_allocation" limit)
  let total ← b.float (← Py.get working "memory_total" (.float (lit "100.0")))
  let proposals ← Py.items (← Py.get working "proposals" (.list []))
  let activeTask ← Py.get working "active_task" .none
  let groundTruth ← Py.dict b (← Py.get working "ground_truth" (.dict []))
  return ⟨Py.str b domain, allocations, limit, total, proposals, activeTask, groundTruth⟩

def loadSignal (signal : PyValue) : Py SignalState := do
  let core ← Py.dict b (← Py.get signal "core" (.dict defaultCore))
  let valence ← b.float (← Py.get signal "valence" (.float (lit "0.5")))
  let arousal ← b.float (← Py.get signal "arousal" (.float (lit "0.3")))
  let instability ← b.float (← Py.get signal "instability" (.float (lit "0.1")))
  let trace ← Py.items (← Py.get signal "trace" (.list []))
  let trace ← trace.mapM fun item => (Py.items item).map PyValue.list
  return ⟨core, valence, arousal, instability, trace⟩

/-- A frame of the episodic memory. -/
def loadFrame (frame : PyValue) : Py MemoryFrame := do
  return ⟨← Py.item frame "role", ← Py.item frame "content", ← Py.item frame "ts"⟩

/-- The loop over the semantic items. -/
def loadSemantic : List PyValue → List SemanticItem → Py (List SemanticItem)
  | [], items => .ok items
  | raw :: rest, items => do
    let key ← Py.item raw "key"
    let content ← Py.item raw "content"
    let ts ← b.float (← Py.get raw "ts" (.float b.now))
    let retention ← Py.get raw "retention" (.str (lit "durable"))
    loadSemantic rest
      (semanticWrite (Py.str b key) (.str (Py.str b content)) ts (some (Py.str b retention)) items)

/-- A new `StmStore`. -/
def newStm : StmStore := ⟨6, [lit "assistant"], [], none, 1⟩

def loadMemory (memory : PyValue) : Py MemoryStore := do
  let frames ← (← Py.items (← Py.get memory "frames" (.list []))).mapM loadFrame
  let notes ← Py.items (← Py.get memory "notes" (.list []))
  let raw ← Py.items (← Py.get memory "semantic_items" (.list []))
  let semantic ← loadSemantic b raw (writeNotes b.now 0 notes [])
  let window ← Py.get memory "epoch_window" (.dict [])
  let stm ← if Py.isDict window then StmStore.fromDict b window else .ok newStm
  let ledger ← Py.get memory "session_ledger" (.dict [])
  let mtm ← if Py.isDict ledger then SessionLedger.fromDict b ledger else .ok ⟨[], 1⟩
  let artifact ← Py.get memory "ltm_last_artifact" .none
  let tail ← Py.get memory "ltm_toc_tail" (.list [])
  return {
    frames := frames
    notes := notes
    semantic := semantic
    stm := stm
    mtm := mtm
    lastLtmArtifact := artifact.asDict?
    ltmTocTail := (tail.asList?.getD []).filterMap PyValue.asDict? }

def loadGovernance (governance : PyValue) : Py GovernanceProfile := do
  let trust ← Py.get governance "operator_trust_level" (.str (lit "user"))
  let authority ← Py.get governance "operator_authority" trust
  let mode ← Py.get governance "mode" (.str (lit "standard"))
  let profile ← GovernanceProfile.forMode mode authority
  return {
    mode := ← Py.get governance "mode" profile.mode
    operatorAuthority := authority
    confirmMutations := ← Py.get governance "confirm_mutations" profile.confirmMutations
    allowScopeExpansion := ← Py.get governance "allow_scope_expansion" profile.allowScopeExpansion
    rewriteBroadRequests :=
      ← Py.get governance "rewrite_broad_requests" profile.rewriteBroadRequests
    allowCompoundActions :=
      ← Py.get governance "allow_compound_actions" profile.allowCompoundActions
    hardDenies := ← Py.items (← Py.get governance "hard_denies" (.list profile.hardDenies)) }

/-- `InstitutionalVitals(**data)` -/
def InstitutionalVitals.ofKeywords (data : PyValue) : Py InstitutionalVitals := do
  let args ← keywords ["absurdity_pressure", "contradiction_density", "institutional_friction",
    "reality_stability", "continuity_debt"] data
  return {
    absurdityPressure := argument args "absurdity_pressure" (.float (lit "0.0"))
    contradictionDensity := argument args "contradiction_density" (.float (lit "0.0"))
    institutionalFriction := argument args "institutional_friction" (.float (lit "0.0"))
    realityStability := argument args "reality_stability" (.float (lit "1.0"))
    continuityDebt := argument args "continuity_debt" (.float (lit "0.0")) }

/-- What the constructors call that is not a builtin: new ids, and the metrics that
`VitalsEngine.compute` takes from a ledger with floats and a logarithm. -/
structure Engines where
  fresh : Fresh
  computeVitals : List Revision → Py InstitutionalVitals

variable (E : Engines)

/-- The vitals of a payload, or those of its ledger. -/
def loadVitals (payload : PyValue) (ledger : List Revision) : Py InstitutionalVitals :=
  match payload with
  | .dict members =>
    match PyValue.get? (lit "vitals") members with
    | some data => InstitutionalVitals.ofKeywords data
    | none => E.computeVitals ledger
  | _ => .error .attributeError

/-- The default of `health_metrics`. -/
def defaultHealth : PyValue :=
  .dict [entry "rejection_count" (.int 0), entry "recovery_count" (.int 0),
    entry "total_retries" (.int 0)]

/-- The execution mode of a payload, or of its older `tool_use_enabled`. -/
def loadExecutionMode (payload : PyValue) : Py PyText := do
  let older ← Py.get payload "tool_use_enabled" (.bool false)
  return normalizeExecutionMode (← Py.get payload "execution_mode" older)

namespace RuntimeState

def fromDict (payload : PyValue) : Py RuntimeState := do
  let schemaVersion ← Py.int b (← Py.get payload "schema_version" (.int 1))
  let organism := Py.orEmpty (← Py.get payload "organism" (.dict []))
  let identity ← Py.get organism "identity" (← Py.get payload "identity" (.dict []))
  let identity ← loadIdentity b (Py.orEmpty identity)
  let working ← loadWorking b (← Py.get payload "working" (.dict []))
  let signal ← Py.get organism "affective_state" (← Py.get payload "signal" (.dict []))
  let signal ← loadSignal b (Py.orEmpty signal)
  let memory ← Py.get organism "stm" (← Py.get payload "memory" (.dict []))
  let memory ← loadMemory b (Py.orEmpty memory)
  let bound ← Py.get payload "bound_intent" (.dict [])
  let boundIntent ← migrateBoundIntent b bound schemaVersion {}
  let governance ← loadGovernance (← Py.get payload "governance" (.dict []))
  let tickCount ← Py.int b (← Py.get payload "tick_count" (.int 0))
  let revisions ← Py.items (← Py.get payload "canon_ledger" (.list []))
  let canonLedger ← revisions.mapM (Revision.fromDict E.fresh)
  let vitals ← loadVitals E payload canonLedger
  let permission ← Py.get payload "permission_mode" .none
  let executionMode ← loadExecutionMode payload
  let sandboxSessionId ← Py.get payload "sandbox_session_id" (.str (lit "default"))
  let initialBudget ← coerceFloat b (← Py.get payload "initial_budget" .none) (lit "0.0")
  let remainingBudget ← coerceFloat b (← Py.get payload "remaining_budget" .none) initialBudget
  let consumedBudget ← coerceFloat b (← Py.get payload "consumed_budget" .none) (lit "0.0")
  let successes ← Py.get payload "canary_consecutive_successes" (.int 0)
  let successes ← Py.int b (if Py.truth successes then successes else .int 0)
  let validatorOpen ← Py.get payload "canary_validator_open" (.bool false)
  let metrics ← Py.get payload "canary_last_run_metrics" (.dict [])
  let engaged ← Py.get payload "killswitch_engaged" (.bool false)
  let debug ← Py.get payload "debug_mode" (.bool false)
  let reason ← Py.get payload "killswitch_reason" (.str [])
  let reason ← Py.optional (fun v => .ok (Py.str b v)) reason
  let killswitchAt ← optionalFloat b (← Py.get payload "killswitch_at" .none)
  let tickMode ← Py.get payload "tick_mode" (.str (lit "off"))
  let executionState ← Py.get payload "execution_state" (.str (lit "idle"))
  let healthMetrics ← Py.dict b (← Py.get payload "health_metrics" defaultHealth)
  let lastTickReason ← Py.get payload "last_tick_reason" .none
  let tickBlockedReason ← Py.get payload "tick_blocked_reason" .none
  let lastSuccess ← Py.get payload "last_success_timestamp" .none
  let lastFailure ← Py.get payload "last_failure_timestamp" .none
  let autoResume ← Py.get payload "auto_resume_on_restart" (.bool false)
  let pending ← Py.get payload "pending_tool_confirmation" .none
  let lastActivityAt ← optionalFloat b (← Py.get payload "last_activity_at" .none)
  return {
    schemaVersion := 6
    identity := identity
    working := working
    signal := signal
    memory := memory
    boundIntent := boundIntent
    governance := governance
    tickCount := tickCount
    canonLedger := canonLedger
    vitals := vitals
    permissionMode := normalizePermissionMode permission (lit "task")
    executionMode := executionMode
    sandboxSessionId := Py.str b sandboxSessionId
    initialBudget := initialBudget
    remainingBudget := remainingBudget
    consumedBudget := consumedBudget
    canaryConsecutiveSuccesses := successes
    canaryValidatorOpen := Py.truth validatorOpen
    canaryLastRunMetrics := metrics.asDict?.getD []
    killswitchEngaged := Py.truth engaged
    killswitchReason := reason.getD []
    killswitchAt := killswitchAt
    debugMode := Py.truth debug
    tickMode := tickMode
    executionState := executionState
    lastTickReason := lastTickReason
    tickBlockedReason := tickBlockedReason
    lastSuccessTimestamp := lastSuccess
    lastFailureTimestamp := lastFailure
    autoResumeOnRestart := Py.truth autoResume
    pendingToolConfirmation := pending.asDict?
    healthMetrics := healthMetrics
    resumeFired := false
    lastActivityAt := lastActivityAt }

def clone (s : RuntimeState) : Py RuntimeState := fromDict b E (s.toDict b)

end RuntimeState

end ClawHarder.RuntimeCore
