import ClawHarder.Lib.Run
import ClawHarder.Spec.IdeRequest

/-!
# The comms server

The endpoints of `comms_server.py` that write the operation ledger:
`/api/ide/execute`, `/api/decisions/*` and `/api/executions/*`. `Server` is the
ledger with the counters; a `Host` is what a handler calls outside of it (the
runtime, the tool registry and the patch machinery), with its own state. `step` is
one request handled from start to end, or a restart.
-/

namespace ClawHarder.Comms

open PyText (lit)

/-- A call of a tool as the runtime stages it. -/
structure StagedCall where
  name : PyText
  arguments : PyDict
  callId : PyText

/-- `runtime.state.pending_tool_confirmation` -/
structure PendingTool where
  requestId : PyText
  toolCalls : List StagedCall

/-- What `dispatch_input_intent` returns. -/
structure Dispatched where
  ok : Bool
  intentId : Option PyText

/-- How the application of patches ends. -/
inductive PatchOutcome where
  /-- no plan -/
  | refused (failure : PatchFailure) (failedPatchId : Option Stripped)
  /-- a plan, undone -/
  | rolledBack (failure : PatchFailure)
  | applied
  /-- an exception that the handler does not catch -/
  | raised

/-- `runtime.registry`, with its effects on the state of the host. -/
structure Registry (σ : Type) where
  known : PyText → Bool
  argumentErrors : PyText → PyDict → Bool
  /-- false when the handler raises -/
  execute : PyText → PyDict → σ → Bool × σ

/-- What the handlers call outside of the server. -/
structure Host (σ : Type) where
  reprOf : PyValue → PyText
  clock : ℕ → ℚ
  /-- the id of the new intent, or the text of an exception -/
  ingestInput : IdeRequest → σ → Except PyText PyText × σ
  dispatchInputIntent : PyText → σ → Except PyText Dispatched × σ
  pendingTool : σ → Option PendingTool
  /-- `_build_atomic_patch_plan` and `_commit_atomic_patch_plan` -/
  applyPatches : List Patch → σ → PatchOutcome × σ
  registry : Registry σ

structure Server where
  ledger : List OperationRecord
  opCounter : ℕ
  decisionCounter : ℕ
  clockReads : ℕ

/-- The arguments of `_record_operation`. -/
structure Draft where
  operationType : OperationType
  status : LifecycleStatus
  references : References
  details : Details
  parentOperationId : Option ℕ := none
  reconcilesOperationId : Option ℕ := none
  actor : Stripped := .of (lit "big_homie")
  extra : Option DecisionFields := none

/-- The row that a draft becomes. -/
def Draft.row (d : Draft) (operationId : ℕ) (timestamp : ℚ) : OperationRecord where
  operationId
  timestamp
  actor := d.actor
  operationType := d.operationType
  status := d.status
  parentOperationId := d.parentOperationId
  reconcilesOperationId := d.reconcilesOperationId
  references := d.references
  details := d.details
  extra := d.extra

/-- `_record_operation` -/
def Server.record (clock : ℕ → ℚ) (d : Draft) (s : Server) : OperationRecord × Server :=
  let row := d.row (s.opCounter + 1) (clock s.clockReads)
  (row, { s with
    ledger := s.ledger ++ [row]
    opCounter := s.opCounter + 1
    clockReads := s.clockReads + 1 })

/-- `_read_all_operations` reads at most this many rows, the last ones. -/
def READ_LIMIT : ℕ := 1000000

def readAllOperations (ledger : List OperationRecord) : List OperationRecord :=
  (ledger.reverse.take READ_LIMIT).reverse

/-- A request row for this id, with its type. -/
def requestMatch (requestId : Stripped) (row : OperationRecord) :
    Option (RequestType × OperationRecord) :=
  match row.operationType with
  | .request t => if row.references.requestId t = requestId then some (t, row) else none
  | _ => none

/-- `_find_request_operation`: the latest request row with this id. -/
def findRequestOperation (requestId : Stripped) (ledger : List OperationRecord) :
    Option (RequestType × OperationRecord) :=
  if requestId.text = [] then none
  else (readAllOperations ledger).reverse.findSome? (requestMatch requestId)

/-- Is a row a decision of this type on this request? -/
def decides (t : RequestType) (requestId : Stripped) (row : OperationRecord) : Bool :=
  row.operationType = .decision t &&
    ((row.extra.map (·.requestId)).getD .empty = requestId)

/-- `_find_decision_record`: the latest decision. -/
def findDecisionRecord (t : RequestType) (requestId : Stripped) (ledger : List OperationRecord) :
    Option OperationRecord :=
  (readAllOperations ledger).reverse.find? (decides t requestId)

inductive Failure where
  | patch (reason : PatchFailure)
  | tool (reason : ToolFailure)

/-- A response, with its HTTP status where that varies. -/
inductive Reply where
  | error (status : ℕ) (message : PyText)
  | receipt (decision : OperationRecord)
  | conflictingDecision (existing : Verdict)
  | refusal (status : ℕ) (requestId : Option Stripped) (failure : Failure)
      (message : Option PyText)
  /-- the outcome of an execution: the result row and its reconciliation -/
  | outcome (requestId : Stripped) (result reconciliation : OperationRecord)
  | queued (patches : List Patch) (patchRequests : List PatchRequest)
  | dispatched (ok : Bool) (patches : List Patch) (patchRequests : List PatchRequest)

/-- The decision of a body: `approved` or `denied`, in any case. -/
def verdictOf (reprOf : PyValue → PyText) (body : PyDict) : Option Verdict :=
  let decision := PyText.lower (field reprOf body "decision").text
  if decision = lit "approved" then some .approved
  else if decision = lit "denied" then some .denied
  else none

/-- A decision to be submitted. -/
structure DecisionBody where
  requestId : Stripped
  decision : Verdict
  actor : Stripped
  rationale : Stripped

def parseDecision (reprOf : PyValue → PyText) (body : PyDict) : Except PyText DecisionBody := do
  let requestId ← requireText (lit "request_id is required") (field reprOf body "request_id")
  let decision ← require (lit "decision must be approved or denied") (verdictOf reprOf body)
  let actor ← requireText (lit "actor is required") (field reprOf body "actor")
  let rationale ← requireText (lit "rationale is required") (field reprOf body "rationale")
  return { requestId, decision, actor, rationale }

def RequestType.name : RequestType → PyText
  | .patch => lit "patch"
  | .tool => lit "tool"

def Verdict.status : Verdict → LifecycleStatus
  | .approved => .approved
  | .denied => .denied

/-- The request that a decision of this type is about. -/
def locateForDecision (t : RequestType) (b : DecisionBody) (ledger : List OperationRecord) :
    Except Reply OperationRecord :=
  match findRequestOperation b.requestId ledger with
  | none => .error (.error 404 (lit "request not found"))
  | some (actual, row) =>
    if actual = t then .ok row
    else
      .error (.error 400 (lit "request_id belongs to " ++ actual.name ++ lit "_request, not " ++
        t.name ++ lit "_request"))

/-- The reply when there is a decision already. -/
def alreadyDecided (b : DecisionBody) (existing : OperationRecord) : Reply :=
  match existing.extra with
  | some fields =>
    if fields.decision = b.decision then .receipt existing
    else .conflictingDecision fields.decision
  | none => .receipt existing -- not reached: a decision row has these fields

/-- The row that a decision appends. -/
def decisionDraft (t : RequestType) (b : DecisionBody) (request : OperationRecord)
    (decisionId : ℕ) : Draft where
  operationType := .decision t
  status := b.decision.status
  actor := b.actor
  references := .to t request.references.intentId b.requestId
  details := .decision b.rationale
  parentOperationId := some request.operationId
  extra := some { decisionId, requestId := b.requestId, decision := b.decision }

/-- `_next_decision_id` and the row. -/
def Server.recordDecision (clock : ℕ → ℚ) (t : RequestType) (b : DecisionBody)
    (request : OperationRecord) (s : Server) : OperationRecord × Server :=
  { s with decisionCounter := s.decisionCounter + 1 }.record clock
    (decisionDraft t b request (s.decisionCounter + 1))

def handleDecisionSubmission (reprOf : PyValue → PyText) (clock : ℕ → ℚ) (t : RequestType)
    (body : PyDict) (s : Server) : Reply × Server :=
  match parseDecision reprOf body with
  | .error message => (.error 400 message, s)
  | .ok b =>
    match locateForDecision t b s.ledger with
    | .error reply => (reply, s)
    | .ok request =>
      match findDecisionRecord t b.requestId s.ledger with
      | some existing => (alreadyDecided b existing, s)
      | none =>
        let (row, s) := s.recordDecision clock t b request
        (.receipt row, s)

/-- The failures that refuse an execution, for each request type. -/
def RequestType.notFound : RequestType → Failure
  | .patch => .patch .requestNotFound
  | .tool => .tool .requestNotFound

def RequestType.notApproved : RequestType → Failure
  | .patch => .patch .requestNotApproved
  | .tool => .tool .requestNotApproved

def RequestType.invalid : RequestType → Failure
  | .patch => .patch .invalidPatch
  | .tool => .tool .invalidToolCall

/-- The approval check of the execution endpoints: the request row they go on with. -/
def approvedRequest (t : RequestType) (requestId : Stripped) (ledger : List OperationRecord) :
    Except Reply OperationRecord :=
  match findRequestOperation requestId ledger with
  | none => .error (.refusal 404 (some requestId) t.notFound none)
  | some (actual, row) =>
    if actual = t then
      match findDecisionRecord t requestId ledger with
      | none => .error (.refusal 409 (some requestId) t.notApproved none)
      | some decision =>
        if (decision.extra.map (·.decision)) = some .approved then .ok row
        else .error (.refusal 409 (some requestId) t.notApproved none)
    else
      .error (.refusal 400 (some requestId) t.invalid
        (some (lit "request_id is not a " ++ t.name ++ lit " request")))

/-- The request and the actor of an execution, and the request row they lead to. -/
def admitExecution (reprOf : PyValue → PyText) (t : RequestType) (body : PyDict)
    (ledger : List OperationRecord) : Except Reply (Stripped × Stripped × OperationRecord) :=
  let requestId := field reprOf body "request_id"
  let actor := field reprOf body "actor"
  if requestId.text = [] then
    .error (.refusal 400 none t.notFound (some (lit "request_id is required")))
  else if actor.text = [] then
    .error (.refusal 400 none t.invalid (some (lit "actor is required")))
  else
    match approvedRequest t requestId ledger with
    | .error reply => .error reply
    | .ok row => .ok (requestId, actor, row)

/-- An execution's three rows share these. -/
structure Execution where
  t : RequestType
  requestId : Stripped
  actor : Stripped
  request : OperationRecord

def Execution.references (x : Execution) : References :=
  .to x.t x.request.references.intentId x.requestId

/-- The row before anything is applied. -/
def Execution.attempt (x : Execution) (details : Details) : Draft where
  operationType := .applyAttempt x.t
  status := .executed
  actor := x.actor
  references := x.references
  details
  parentOperationId := some x.request.operationId

def Execution.result (x : Execution) (status : LifecycleStatus) (details : Details)
    (attempt : OperationRecord) : Draft where
  operationType := .applyResult x.t
  status
  actor := x.actor
  references := x.references
  details
  parentOperationId := some attempt.operationId

def Execution.reconciliation (x : Execution) (finalStatus : LifecycleStatus)
    (result : OperationRecord) : Draft where
  operationType := .executionReconciliation
  status := .reconciled
  actor := x.actor
  references := x.references
  details := .reconciliation finalStatus
  parentOperationId := some result.operationId
  reconcilesOperationId := some result.operationId

/-- The result and reconciliation rows. -/
def Execution.conclude (clock : ℕ → ℚ) (x : Execution) (status : LifecycleStatus)
    (details : Details) (attempt : OperationRecord) (s : Server) : Reply × Server :=
  let (result, s) := s.record clock (x.result status details attempt)
  let (reconciliation, s) := s.record clock (x.reconciliation status result)
  (.outcome x.requestId result reconciliation, s)

/-! ### Patches -/

/-- A dictionary of patches by id; the last of an id counts. -/
def patchIndex (patches : List Patch) : OrderedMap Stripped Patch :=
  patches.foldl (fun index patch => index.set patch.patchId patch) .empty

/-- The patches of these ids; none when one is missing. -/
def selectPatches (index : OrderedMap Stripped Patch) : List Stripped → Option (List Patch)
  | [] => some []
  | patchId :: rest =>
    match index.get? patchId, selectPatches index rest with
    | some patch, some patches => some (patch :: patches)
    | _, _ => none

/-- The patch ids that a request row refers to. -/
def requestedPatchIds (row : OperationRecord) : List Stripped :=
  row.references.patchIds.filter (·.text ≠ [])

/-- `_extract_request_patches`; none is `patch_not_found`. -/
def extractRequestPatches (row : OperationRecord) : Option (List Patch) :=
  match row.details with
  | .patchRequest _ _ _ patches =>
    selectPatches (patchIndex (patches.filter (·.patchId.text ≠ []))) (requestedPatchIds row)
  | _ => none

/-- The failure reason and the failed patch of an outcome. -/
def PatchOutcome.failure (requested : List Stripped) :
    PatchOutcome → Option PatchFailure × Option Stripped
  | .refused failure failedPatchId => (some failure, failedPatchId)
  | .rolledBack failure => (some failure, requested.head?)
  | _ => (none, none)

def PatchOutcome.rolled : PatchOutcome → Bool
  | .rolledBack _ => true
  | _ => false

variable {σ : Type}

/-- The rows after the patches of a request were applied, or were not. -/
def concludePatches (clock : ℕ → ℚ) (x : Execution) (patches : List Patch)
    (attempt : OperationRecord) (outcome : PatchOutcome) (s : Server) : Reply × Server :=
  let requested := patches.map (·.patchId)
  let (failure, failedPatchId) := outcome.failure requested
  let success := failure.isNone
  x.conclude clock (if success then .applied else .failed)
    (.patchResult failure failedPatchId (if success then requested.filter (·.text ≠ []) else [])
      requested (patches.map (·.file)) outcome.rolled) attempt s

/-- The rows of a request whose patches cannot be found. -/
def refusePatches (clock : ℕ → ℚ) (x : Execution) (s : Server) : Reply × Server :=
  let requested := requestedPatchIds x.request
  let (attempt, s) := s.record clock (x.attempt (.patchAttempt []))
  x.conclude clock .failed
    (.patchResult (some .patchNotFound) requested.head? [] requested [] false) attempt s

/-- `_handle_patch_execution`; no reply when an exception escapes. -/
def handlePatchExecution (H : Host σ) (body : PyDict) (s : Server) (w : σ) :
    Option Reply × Server × σ :=
  match admitExecution H.reprOf .patch body s.ledger with
  | .error reply => (some reply, s, w)
  | .ok (requestId, actor, request) =>
    let x : Execution := { t := .patch, requestId, actor, request }
    match extractRequestPatches request with
    | none =>
      let (reply, s) := refusePatches H.clock x s
      (some reply, s, w)
    | some patches =>
      let (attempt, s) := s.record H.clock (x.attempt (.patchAttempt (patches.map (·.file))))
      match H.applyPatches patches w with
      | (.raised, w) => (none, s, w)
      | (outcome, w) =>
        let (reply, s) := concludePatches H.clock x patches attempt outcome s
        (some reply, s, w)

/-! ### Tools -/

/-- The calls of a request in order, with ids made up where they are missing. -/
def numberCalls (index : ℕ) : List ToolCall → Option (List ToolCall)
  | [] => some []
  | call :: rest =>
    if call.name.text = [] then none
    else
      let callId :=
        if call.callId.text = [] then .of (lit "tool_call_" ++ PyText.padded 0 (index + 1))
        else call.callId
      (numberCalls (index + 1) rest).map fun calls => { call with callId } :: calls

/-- `_extract_request_tool_calls`; none is `invalid_tool_call`. -/
def extractRequestToolCalls (row : OperationRecord) : Option (List ToolCall) :=
  match row.details with
  | .toolRequest _ _ calls =>
    match numberCalls 0 calls with
    | some (call :: rest) => some (call :: rest)
    | _ => none
  | _ => none

/-- How the loop over the tool calls ends. -/
structure ToolRun where
  failure : Option (ToolFailure × ToolCall)
  executed : List Stripped

/-- Why a call is not executed, if it is not. -/
def Registry.objection (R : Registry σ) (call : ToolCall) : Option ToolFailure :=
  if call.name.text = [] then some .invalidToolCall
  else if !R.known call.name.text then some .toolNotFound
  else if R.argumentErrors call.name.text call.arguments then some .invalidToolCall
  else none

/-- The loop of `_handle_tool_execution`. -/
def runToolCalls (R : Registry σ) (executed : List Stripped) :
    List ToolCall → σ → ToolRun × σ
  | [], w => ({ failure := none, executed }, w)
  | call :: rest, w =>
    match R.objection call with
    | some failure => ({ failure := some (failure, call), executed }, w)
    | none =>
      match R.execute call.name.text call.arguments w with
      | (false, w) => ({ failure := some (.toolExecutionFailed, call), executed }, w)
      | (true, w) => runToolCalls R (executed ++ [call.callId]) rest w

/-- The rows after the tools of a request were run. -/
def concludeTools (clock : ℕ → ℚ) (x : Execution) (calls : List ToolCall)
    (attempt : OperationRecord) (run : ToolRun) (s : Server) : Reply × Server :=
  let status : LifecycleStatus := if run.failure.isNone then .executed else .failed
  x.conclude clock status
    (.toolResult (run.failure.map (·.1)) (run.failure.map (·.2.callId))
      (run.failure.map (·.2.name)) run.executed (calls.map (·.callId)) (calls.map (·.name)))
    attempt s

/-- The rows of a request with no executable calls. -/
def refuseTools (clock : ℕ → ℚ) (x : Execution) (s : Server) : Reply × Server :=
  let (attempt, s) := s.record clock (x.attempt (.toolAttempt []))
  x.conclude clock .failed (.toolResult (some .invalidToolCall) none none [] [] []) attempt s

def handleToolExecution (H : Host σ) (body : PyDict) (s : Server) (w : σ) :
    Option Reply × Server × σ :=
  match admitExecution H.reprOf .tool body s.ledger with
  | .error reply => (some reply, s, w)
  | .ok (requestId, actor, request) =>
    let x : Execution := { t := .tool, requestId, actor, request }
    match extractRequestToolCalls request with
    | none =>
      let (reply, s) := refuseTools H.clock x s
      (some reply, s, w)
    | some calls =>
      let (attempt, s) := s.record H.clock (x.attempt (.toolAttempt calls))
      let (run, w) := runToolCalls H.registry [] calls w
      let (reply, s) := concludeTools H.clock x calls attempt run s
      (some reply, s, w)

def handleExecution (H : Host σ) : RequestType → PyDict → Server → σ → Option Reply × Server × σ
  | .patch => handlePatchExecution H
  | .tool => handleToolExecution H

/-- The row of a patch request; the patches are looked up among those of the body. -/
def patchRequestDraft (intentId : PyText) (patches : List Patch) (parent : ℕ)
    (request : PatchRequest) : Draft where
  operationType := .request .patch
  status := .proposed
  references :=
    { intentId
      patchRequestId := some request.requestId
      patchIds := request.patchIds.filter (·.text ≠ []) }
  details := .patchRequest request.risk request.requiresApproval request.reason
    ((request.patchIds.filter (·.text ≠ [])).filterMap
      (patchIndex (patches.filter (·.patchId.text ≠ []))).get?)
  parentOperationId := some parent

/-- A tool call as `_collect_tool_call_requests` and `_record_tool_request_operations`
pass it on: a missing call id becomes the text of `None`. -/
def collectCall (call : StagedCall) : ToolCall where
  name := .of call.name
  arguments := call.arguments
  callId := if (Stripped.of call.callId).text = [] then .of (lit "None") else .of call.callId

/-- The named calls of a pending confirmation. -/
def PendingTool.calls (pending : PendingTool) : List ToolCall :=
  (pending.toolCalls.map collectCall).filter (·.name.text ≠ [])

def toolRequestDraft (intentId : PyText) (parent : ℕ) (pending : PendingTool) : Draft where
  operationType := .request .tool
  status := .proposed
  references := { intentId, toolRequestId := some (.of pending.requestId) }
  details := .toolRequest pending.calls.length (pending.calls.map (·.name)) pending.calls
  parentOperationId := some parent

def Server.recordAll (clock : ℕ → ℚ) (ds : List Draft) (s : Server) : Server :=
  ds.foldl (fun s d => (s.record clock d).2) s

def ideDraft (r : IdeRequest) (intentId : PyText) : Draft where
  operationType := .ideExecute
  status := .proposed
  references := { intentId }
  details := .ideExecute r.execute r.projectRoot r.selectedFiles.length r.allowedTools.length
    r.patches.length r.patchRequests.length

/-- The row of a dispatch, and its reconciliation. -/
def executionAttemptDraft (r : IdeRequest) (ok : Bool) (intentId : PyText) (toolRequests parent : ℕ) :
    Draft where
  operationType := .executionAttempt
  status := if ok then .executed else .failed
  references := { intentId }
  details := .executionAttempt ok r.patches.length r.patchRequests.length toolRequests
    (r.patches.length = 0 && toolRequests = 0)
  parentOperationId := some parent

def dispatchReconciliationDraft (ok : Bool) (intentId : PyText) (attempt : ℕ) : Draft where
  operationType := .executionReconciliation
  status := .reconciled
  references := { intentId }
  details := .reconciliation (if ok then .executed else .failed)
  parentOperationId := some attempt
  reconcilesOperationId := some attempt

/-- The tool requests of `_collect_tool_call_requests`, at most one. -/
def toolRequestDrafts (intentId : PyText) (parent : ℕ) (pending : Option PendingTool) :
    List Draft :=
  (pending.map (toolRequestDraft intentId parent)).toList

/-- The rest of `/api/ide/execute`, after the patch requests are recorded. -/
def finishIdeExecute (H : Host σ) (r : IdeRequest) (intentId : PyText) (parent : ℕ) (s : Server)
    (w : σ) : Reply × Server × σ :=
  if !r.execute then
    (.queued r.patches r.patchRequests,
      s.recordAll H.clock (toolRequestDrafts intentId parent (H.pendingTool w)), w)
  else
    match H.dispatchInputIntent intentId w with
    | (.error message, w) => (.error 409 message, s, w)
    | (.ok result, w) =>
      let intentId := result.intentId.getD intentId
      let tools := toolRequestDrafts intentId parent (H.pendingTool w)
      let s := s.recordAll H.clock tools
      let (attempt, s) := s.record H.clock
        (executionAttemptDraft r result.ok intentId tools.length parent)
      let (_, s) := s.record H.clock
        (dispatchReconciliationDraft result.ok intentId attempt.operationId)
      (.dispatched result.ok r.patches r.patchRequests, s, w)

def handleIdeExecute (H : Host σ) (body : PyDict) (s : Server) (w : σ) : Reply × Server × σ :=
  match parseIdeRequest H.reprOf body with
  | .error message => (.error 400 message, s, w)
  | .ok r =>
    match H.ingestInput r w with
    | (.error message, w) => (.error 409 message, s, w)
    | (.ok intentId, w) =>
      let (ide, s) := s.record H.clock (ideDraft r intentId)
      let s := s.recordAll H.clock
        (r.patchRequests.map (patchRequestDraft intentId r.patches ide.operationId))
      finishIdeExecute H r intentId ide.operationId s w

def loadOperationCounter (ledger : List OperationRecord) : ℕ :=
  ledger.foldl (fun top row => max top row.operationId) 0

/-- The decision counter that `create_handler` starts with. -/
def loadDecisionCounter (ledger : List OperationRecord) : ℕ :=
  ledger.foldl (fun top row => max top ((row.extra.map (·.decisionId)).getD 0)) 0

/-- `create_handler` on an existing ledger. -/
def Server.start (ledger : List OperationRecord) (clockReads : ℕ) : Server where
  ledger
  opCounter := loadOperationCounter ledger
  decisionCounter := loadDecisionCounter ledger
  clockReads

structure Site (σ : Type) where
  server : Server
  host : σ

/-- A request to the server, a restart, or a change of the host from outside. -/
inductive Event (σ : Type) where
  | ideExecute (body : PyDict)
  | decision (t : RequestType) (body : PyDict)
  | execution (t : RequestType) (body : PyDict)
  | restart
  | outside (w : σ)

/-- One event, handled from start to end. -/
def serve (H : Host σ) (site : Site σ) : Event σ → Site σ
  | .ideExecute body =>
    let (_, server, host) := handleIdeExecute H body site.server site.host
    { server, host }
  | .decision t body =>
    let (_, server) := handleDecisionSubmission H.reprOf H.clock t body site.server
    { site with server }
  | .execution t body =>
    let (_, server, host) := handleExecution H t body site.server site.host
    { server, host }
  | .restart => { site with server := .start site.server.ledger site.server.clockReads }
  | .outside host => { site with host }

/-- A server with no ledger yet. -/
def Site.initial (host : σ) : Site σ := { server := .start [] 0, host }

end ClawHarder.Comms
