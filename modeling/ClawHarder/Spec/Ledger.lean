import ClawHarder.Lib.OrderedMap
import ClawHarder.Lib.PyValue
import Mathlib.Data.Rat.Defs

/-!
# The operation ledger

The rows of `operations.jsonl` as `comms_server.py` writes them, and
`_rebuild_request_projections`, which folds them into one state for each request and
sorts these into the lanes pending, ready and closed. Patch and tool requests are
handled alike; a `RequestType` says which.
-/

namespace ClawHarder.Comms

open PyText (lit)

inductive RequestType where
  | patch
  | tool
deriving DecidableEq

/-- `OPERATION_LIFECYCLE_STATUSES` -/
inductive LifecycleStatus where
  | proposed
  | approved
  | denied
  | applied
  | executed
  | failed
  | rolledBack
  | superseded
  | reconciled
deriving DecidableEq

/-- `REQUEST_TERMINAL_STATUSES` -/
def LifecycleStatus.terminal (status : LifecycleStatus) : Bool := status ≠ .proposed

/-- The operation types that the server writes; `request .patch` is `patch_request`. -/
inductive OperationType where
  | ideExecute
  | request (t : RequestType)
  | decision (t : RequestType)
  | applyAttempt (t : RequestType)
  | applyResult (t : RequestType)
  | executionAttempt
  | executionReconciliation
deriving DecidableEq

inductive Verdict where
  | approved
  | denied
deriving DecidableEq

/-- `REQUEST_RISK_VALUES` -/
inductive Risk where
  | low
  | medium
  | high
deriving DecidableEq

/-- The operation of a patch. -/
inductive PatchOp where
  | replaceRange (startLine endLine : ℤ) (content : PyText)
  | createFile (content : PyText)
  | deleteFile
deriving DecidableEq

structure Patch where
  patchId : Stripped
  file : Stripped
  op : PatchOp
deriving DecidableEq

structure ToolCall where
  name : Stripped
  arguments : PyDict
  callId : Stripped

/-- `PATCH_EXECUTION_FAILURE_REASONS` -/
inductive PatchFailure where
  | requestNotFound
  | requestNotApproved
  | patchNotFound
  | fileNotFound
  | fileAlreadyExists
  | rangeConflict
  | invalidPatch
  | ioError
deriving DecidableEq

/-- `TOOL_EXECUTION_FAILURE_REASONS` -/
inductive ToolFailure where
  | requestNotFound
  | requestNotApproved
  | toolNotFound
  | invalidToolCall
  | toolExecutionFailed
deriving DecidableEq

structure References where
  intentId : PyText
  patchRequestId : Option Stripped := none
  toolRequestId : Option Stripped := none
  patchIds : List Stripped := []

/-- `str(refs.get("patch_request_id", "")).strip()`, or the same for tools. -/
def References.requestId (refs : References) : RequestType → Stripped
  | .patch => refs.patchRequestId.getD .empty
  | .tool => refs.toolRequestId.getD .empty

/-- References to an intent and a request. -/
def References.to (t : RequestType) (intentId : PyText) (requestId : Stripped) : References :=
  match t with
  | .patch => { intentId, patchRequestId := some requestId }
  | .tool => { intentId, toolRequestId := some requestId }

/-- The details of a row, as far as its type has any that are read back or reported. -/
inductive Details where
  | ideExecute (execute : Bool) (projectRoot : Stripped)
      (selectedFiles allowedTools patches patchRequests : ℕ)
  | patchRequest (risk : Risk) (requiresApproval : Bool) (reason : Stripped)
      (patches : List Patch)
  | toolRequest (toolCount : ℕ) (tools : List Stripped) (toolCalls : List ToolCall)
  | decision (rationale : Stripped)
  | patchAttempt (targetFiles : List Stripped)
  | patchResult (failure : Option PatchFailure) (failedPatchId : Option Stripped)
      (appliedPatchIds requestedPatchIds targetFiles : List Stripped) (rollbackPerformed : Bool)
  | toolAttempt (toolCalls : List ToolCall)
  | toolResult (failure : Option ToolFailure) (failedToolId failedToolName : Option Stripped)
      (executedToolIds requestedToolIds requestedTools : List Stripped)
  | executionAttempt (dispatchOk : Bool) (patches patchRequests toolRequests : ℕ) (noOp : Bool)
  | reconciliation (finalStatus : LifecycleStatus)

/-- The extra fields of a decision row. -/
structure DecisionFields where
  decisionId : ℕ
  requestId : Stripped
  decision : Verdict

/-- A row of the ledger. Its id `OP_000007` is the number 7, that of a decision alike. -/
structure OperationRecord where
  operationId : ℕ
  timestamp : ℚ
  actor : Stripped
  operationType : OperationType
  status : LifecycleStatus
  parentOperationId : Option ℕ
  reconcilesOperationId : Option ℕ
  references : References
  details : Details
  extra : Option DecisionFields

inductive Payload where
  | patches (patchIds : List Stripped)
  | tools (tools : List Stripped) (toolCount : ℕ) (toolCalls : List ToolCall)

/-- The projection of one request. -/
structure RequestState where
  requestId : Stripped
  intentId : Stripped := .empty
  payload : Option Payload := none
  reason : Stripped := .empty
  risk : Option Risk := none
  requiresApproval : Bool := true
  proposedOperationId : Option ℕ := none
  requestOperationId : Option ℕ := none
  parentOperationId : Option ℕ := none
  timestamp : Option ℚ := none
  approved : Bool := false
  approvedBy : Option Stripped := none
  approvedAt : Option ℚ := none
  approvedOperationId : Option ℕ := none
  reconciled : Bool := false
  reconciliationOperationId : Option ℕ := none
  closedStatus : Option LifecycleStatus := none
  closedOperationId : Option ℕ := none
  seenRequest : Bool := false

/-- `_default_patch_projection` and `_default_tool_projection` -/
def defaultProjection (requestId : Stripped) : RequestState := { requestId }

inductive RecoveryWarning where
  | duplicateOperationId (operationId : ℕ)
  | invalidRequestReference (t : RequestType) (operationId : ℕ)
  | invalidDecisionReference (t : RequestType) (operationId : ℕ)
  | orphanDecision (t : RequestType) (operationId : ℕ) (requestId : Stripped)
  | orphanReconciliation (operationId : ℕ) (patchRequestId toolRequestId : Stripped)
deriving DecidableEq

/-- The accumulators of `_rebuild_request_projections`. -/
structure Projections where
  warnings : List RecoveryWarning
  seenOperationIds : List ℕ
  patchState : OrderedMap Stripped RequestState
  toolState : OrderedMap Stripped RequestState
  ledgerLastOperationId : Option ℕ

namespace Projections

def init : Projections where
  warnings := []
  seenOperationIds := []
  patchState := .empty
  toolState := .empty
  ledgerLastOperationId := none

def states (p : Projections) : RequestType → OrderedMap Stripped RequestState
  | .patch => p.patchState
  | .tool => p.toolState

def setState (t : RequestType) (requestId : Stripped) (st : RequestState) (p : Projections) :
    Projections :=
  match t with
  | .patch => { p with patchState := p.patchState.set requestId st }
  | .tool => { p with toolState := p.toolState.set requestId st }

def warn (w : RecoveryWarning) (p : Projections) : Projections :=
  { p with warnings := p.warnings ++ [w] }

/-- The bookkeeping of operation ids. -/
def noteOperationId (operationId : ℕ) (p : Projections) : Projections :=
  let p := { p with ledgerLastOperationId := some operationId }
  if operationId ∈ p.seenOperationIds then p.warn (.duplicateOperationId operationId)
  else { p with seenOperationIds := operationId :: p.seenOperationIds }

/-- The state of a request that has been seen. -/
def seen? (t : RequestType) (requestId : Stripped) (p : Projections) : Option RequestState :=
  ((p.states t).get? requestId).filter (·.seenRequest)

end Projections

/-- What a request row asks for, when it names anything: patch ids, or tools. -/
def requestPayload (row : OperationRecord) : RequestType → Option Payload
  | .patch =>
    let patchIds := row.references.patchIds.filter (·.text ≠ [])
    if patchIds = [] then none else some (.patches patchIds)
  | .tool =>
    match row.details with
    | .toolRequest toolCount tools calls =>
      let toolCalls := calls.filter (·.name.text ≠ []) -- `_as_tool_calls`
      let names := toolCalls.map (·.name)
      let tools := if names = [] then tools.filter (·.text ≠ []) else names
      if toolCalls.isEmpty ∧ tools = [] then none else some (.tools tools toolCount toolCalls)
    | _ => none

/-- The reason, risk and approval flag in the details of a request row. -/
def requestTerms (row : OperationRecord) : Stripped × Option Risk × Bool :=
  match row.details with
  | .patchRequest risk requiresApproval reason _ => (reason, some risk, requiresApproval)
  | _ => (.empty, none, true)

/-- A status other than `proposed` and `approved` closes a request as it is made. -/
def closesRequest (status : LifecycleStatus) : Bool := status.terminal && status ≠ .approved

/-- The state of a request after a request row. -/
def RequestState.proposed (row : OperationRecord) (payload : Payload) (st : RequestState) :
    RequestState :=
  let (reason, risk, requiresApproval) := requestTerms row
  { st with
    seenRequest := true
    intentId := .of row.references.intentId
    payload := some payload
    reason
    risk
    requiresApproval
    proposedOperationId := some row.operationId
    requestOperationId := some row.operationId
    parentOperationId := row.parentOperationId
    timestamp := some row.timestamp
    closedStatus := if closesRequest row.status then some row.status else st.closedStatus
    closedOperationId :=
      if closesRequest row.status then some row.operationId else st.closedOperationId }

/-- The state of a request after a decision. -/
def RequestState.decided (row : OperationRecord) (decision : Verdict) (st : RequestState) :
    RequestState :=
  match decision with
  | .approved =>
    { st with
      approved := true
      approvedBy := if row.actor.text = [] then none else some row.actor
      approvedAt := some row.timestamp
      approvedOperationId := some row.operationId
      closedStatus := none
      closedOperationId := none }
  | .denied =>
    { st with
      approved := false
      approvedBy := none
      approvedAt := none
      approvedOperationId := none
      closedStatus := some .denied
      closedOperationId := some row.operationId }

/-- The state of a request after a reconciliation. -/
def RequestState.reconcile (row : OperationRecord) (st : RequestState) : RequestState :=
  { st with
    reconciled := true
    reconciliationOperationId := some row.operationId
    closedStatus := some .reconciled
    closedOperationId := some row.operationId }

/-- The state of a request after any other row that names it. -/
def RequestState.close (row : OperationRecord) (st : RequestState) : RequestState :=
  if row.status.terminal then
    { st with closedStatus := some row.status, closedOperationId := some row.operationId }
  else st

def requestRow (t : RequestType) (row : OperationRecord) (p : Projections) : Projections :=
  let requestId := row.references.requestId t
  match requestPayload row t with
  | none => p.warn (.invalidRequestReference t row.operationId)
  | some payload =>
    if requestId.text = [] then p.warn (.invalidRequestReference t row.operationId)
    else
      let st := ((p.states t).get? requestId).getD (defaultProjection requestId)
      p.setState t requestId (st.proposed row payload)

/-- The request that a decision row names. -/
def decidedId (t : RequestType) (row : OperationRecord) : Stripped :=
  match row.extra with
  | some fields =>
    if fields.requestId.text = [] then row.references.requestId t else fields.requestId
  | none => row.references.requestId t

def decisionRow (t : RequestType) (row : OperationRecord) (p : Projections) : Projections :=
  let requestId := decidedId t row
  if requestId.text = [] then p.warn (.invalidDecisionReference t row.operationId)
  else
    match p.seen? t requestId with
    | none => p.warn (.orphanDecision t row.operationId requestId)
    | some st =>
      match row.extra with
      | none => p
      | some fields => p.setState t requestId (st.decided row fields.decision)

/-- Update the request of a type that a row names, if it has been seen. -/
def touch (f : OperationRecord → RequestState → RequestState) (t : RequestType)
    (row : OperationRecord) (p : Projections) : Projections :=
  let requestId := row.references.requestId t
  if requestId.text = [] then p
  else
    match p.seen? t requestId with
    | none => p
    | some st => p.setState t requestId (f row st)

def reconciliationRow (row : OperationRecord) (p : Projections) : Projections :=
  let patchRequestId := row.references.requestId .patch
  let toolRequestId := row.references.requestId .tool
  let recognized (t : RequestType) :=
    (row.references.requestId t).text ≠ [] && (p.seen? t (row.references.requestId t)).isSome
  let q := touch RequestState.reconcile .tool row (touch RequestState.reconcile .patch row p)
  if recognized .patch || recognized .tool then q
  else q.warn (.orphanReconciliation row.operationId patchRequestId toolRequestId)

/-- The body of the loop of `_rebuild_request_projections`. -/
def applyRow (p : Projections) (row : OperationRecord) : Projections :=
  let p := p.noteOperationId row.operationId
  match row.operationType with
  | .request t => requestRow t row p
  | .decision t => decisionRow t row p
  | .executionReconciliation => reconciliationRow row p
  | _ => touch RequestState.close .tool row (touch RequestState.close .patch row p)

/-- The states of all requests that rows mention. -/
def projectRows (operations : List OperationRecord) : Projections :=
  operations.foldl applyRow .init

/-- Is a request in the pending lane? -/
def RequestState.pending (st : RequestState) : Bool :=
  st.seenRequest && st.closedStatus.isNone && !st.approved

def RequestState.ready (st : RequestState) : Bool :=
  st.seenRequest && st.approved && !st.reconciled

def RequestState.closed (st : RequestState) : Bool := st.seenRequest && st.closedStatus.isSome

/-- What `_rebuild_request_projections` returns; an item of a lane shows fields of the
state of its request. -/
structure RequestProjections where
  ledgerLastOperationId : Option ℕ
  pending : RequestType → List RequestState
  ready : RequestType → List RequestState
  closed : RequestType → List RequestState
  recoveryWarnings : List RecoveryWarning

def rebuildRequestProjections (operations : List OperationRecord) : RequestProjections :=
  let p := projectRows operations
  { ledgerLastOperationId := p.ledgerLastOperationId
    pending t := (p.states t).values.filter (·.pending)
    ready t := (p.states t).values.filter (·.ready)
    closed t := (p.states t).values.filter (·.closed)
    recoveryWarnings := p.warnings }

end ClawHarder.Comms
