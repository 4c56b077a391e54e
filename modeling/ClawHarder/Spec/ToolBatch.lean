import ClawHarder.Lib.PyValue
import ClawHarder.Spec.Commands
import Mathlib.Algebra.Order.Ring.Rat
import Mathlib.Logic.Function.Basic

/-!
# Tool batches

`_bind_tool_batch` and what it calls: the gates in front of a batch, the precommit
barrier with its tokens, the snapshot, the execution of one tool after another behind
the Gate, and the rollback of a failed batch.

A tool is any computation on the world, which is what tools can reach: the runtime
state, the sandbox and the canon ledger. `C` is what a snapshot of the sandbox holds
(memory, files and manifest), `L` the canon ledger, `V` the values of tools, `G` what
binds a receipt to a moment of the Gate (its id, hashes, clock domain and window).
The file system does not fail. A trace records tokens and handler calls.
-/

namespace ClawHarder.Runtime

open PyText (lit)

structure Sandbox (C G : Type) where
  contents : C
  /-- Can `memory.json` be loaded? -/
  readable : Bool
  snapshots : ℕ → Option C
  /-- what is left of `file_writes`; none without a budget, or with an infinite one -/
  budget : Option ℚ
  /-- `_gate_anchor` -/
  anchor : Option G

structure World (C L G H : Type) where
  state : RuntimeState
  /-- `_gate_anchor_hash` -/
  gateAnchor : FileHash H
  sandbox : Sandbox C G
  ledger : L

inductive SafetyLevel where
  | readOnly
  | reversible
  | irreversible
deriving DecidableEq

inductive ToolRaised where
  | raised

/-- A tool of the registry: of its specification what a batch reads, its argument check,
its handler and its rollback. -/
structure Tool (C L G H V : Type) where
  mutatesState : Bool
  safetyLevel : SafetyLevel
  accepts : PyDict → Bool
  handler : PyDict → EStateM ToolRaised (World C L G H) V
  rollback : Option (V → PyDict → EStateM ToolRaised (World C L G H) Unit)

inductive Decision where
  | allow
  | warn
  | rewrite
  | deny
  | reject
  | nukeTriggered
deriving DecidableEq

/-- `EXECUTION_ALLOWED_DECISIONS` -/
def Decision.executionAllowed : Decision → Bool
  | .allow | .warn => true
  | _ => false

/-- `ToolBindingAttempt` -/
structure Attempt (C L G H V : Type) where
  name : PyText
  arguments : PyDict
  spec : Option (Tool C L G H V)
  decision : Decision

inductive ResultPhase where
  | executed
  | plan
  | killswitched
  | policyEngineBlock
  | batchBlocked
  | validationFailed
  | precommitRejected
  | gateRejected
  | executionFailed
  | batchRolledBack
deriving DecidableEq

/-- `ToolBindingResult` -/
structure BindingResult (V : Type) where
  toolName : PyText
  ok : Bool
  value : Option V
  phase : ResultPhase

/-- What `_capture_gate_anchor` and the clock give at the opening of a gate. -/
structure Capture (G H : Type) where
  persisted : FileHash H
  /-- Are the hashes of the runtime state, the memory, the manifest and all of them known? -/
  known : Bool
  context : G

structure Receipt (G : Type) where
  committed : Bool
  /-- the gate that its metadata names -/
  context : Option G

/-- What a batch runs on besides its state. -/
structure Toolbox (C L G H V : Type) where
  registry : PyText → Option (Tool C L G H V)
  /-- `value.get("receipt")`, of a value and a receipt that are dictionaries -/
  receipt : V → Option (Receipt G)
  /-- Can the value be rendered as JSON? -/
  renders : V → Bool
  /-- the capture at a reading of the world -/
  capture : ℕ → World C L G H → Capture G H
  /-- Has the window of the gate expired at a reading of the clocks? -/
  expired : ℕ → Bool

inductive TraceEvent where
  | issued (token : ℕ)
  | consumed (token : ℕ)
  | called (name : PyText)
deriving DecidableEq

structure BatchState (C L G H : Type) where
  world : World C L G H
  /-- `_active_tokens` of the barrier -/
  activeTokens : List ℕ
  /-- the `uuid4` values drawn so far -/
  drawn : ℕ
  /-- the readings of clocks and hashes so far -/
  readings : ℕ
  trace : List TraceEvent

/-- The exceptions that leave a batch. -/
inductive BatchRaised where
  | budgetExhausted
  | fileNotFound
  | memoryUnreadable
  | invalidToken
  | notSerializable
deriving DecidableEq

abbrev Batch (C L G H α : Type) := EStateM BatchRaised (BatchState C L G H) α

section Batch

variable {C L G H V : Type} [DecidableEq G] [DecidableEq H] (T : Toolbox C L G H V)

def modifyWorld (f : World C L G H → World C L G H) : Batch C L G H Unit :=
  modify fun s => { s with world := f s.world }

def record (e : TraceEvent) : Batch C L G H Unit :=
  modify fun s => { s with trace := s.trace ++ [e] }

def draw : Batch C L G H ℕ :=
  modifyGet fun s => (s.drawn, { s with drawn := s.drawn + 1 })

def reading : Batch C L G H ℕ :=
  modifyGet fun s => (s.readings, { s with readings := s.readings + 1 })

/-- `budget.check("file_writes", cost)`: does it pass? -/
def Sandbox.affords (b : Sandbox C G) (cost : ℚ) : Bool :=
  match b.budget with
  | none => true
  | some remaining => cost ≤ remaining

def Sandbox.deduct (b : Sandbox C G) (cost : ℚ) : Sandbox C G :=
  { b with budget := b.budget.map fun remaining => max 0 (remaining - cost) }

/-- Keep the contents as a snapshot. -/
def Sandbox.keep (b : Sandbox C G) (id : ℕ) : Sandbox C G :=
  { b with snapshots := Function.update b.snapshots id (some b.contents) }

def Sandbox.restore (b : Sandbox C G) (contents : C) : Sandbox C G :=
  { b with contents := contents }

/-- The cost of `snapshot_state` and of `restore_snapshot` -/
def snapshotCost : ℚ := 2

def snapshotState : Batch C L G H ℕ := do
  let s ← get
  if !s.world.sandbox.affords snapshotCost then
    throw .budgetExhausted
  else
    let id ← draw
    if !s.world.sandbox.readable then
      throw .memoryUnreadable
    else
      modifyWorld fun w => { w with sandbox := (w.sandbox.keep id).deduct snapshotCost }
      pure id

def restoreSnapshot (id : ℕ) : Batch C L G H Unit := do
  let s ← get
  if !s.world.sandbox.affords snapshotCost then
    throw .budgetExhausted
  else
    match s.world.sandbox.snapshots id with
    | none => throw .fileNotFound
    | some contents =>
      if !s.world.sandbox.readable then
        throw .memoryUnreadable
      else
        modifyWorld fun w => { w with sandbox := (w.sandbox.restore contents).deduct snapshotCost }

/-- The contract verdict of an `ExecutionPlan` -/
def contractNuked (plans : List (Attempt C L G H V)) : Bool :=
  plans.any fun p => p.decision = .nukeTriggered

/-- `PrecommitBarrier.precommit`: is the batch allowed? Its cost is one for each plan. -/
def precommitAllows (plans : List (Attempt C L G H V)) (w : World C L G H) : Bool :=
  !contractNuked plans && !w.state.killswitchEngaged &&
    w.sandbox.affords ((plans.length : ℚ) + snapshotCost)

/-- The token that it issues. -/
def issueToken : Batch C L G H ℕ := do
  let token ← draw
  modify fun s => { s with activeTokens := token :: s.activeTokens }
  record (.issued token)
  pure token

def consume (token : ℕ) : Batch C L G H Unit := do
  let s ← get
  if token ∈ s.activeTokens then
    modify fun s => { s with activeTokens := s.activeTokens.erase token }
    record (.consumed token)
  else
    throw .invalidToken

def failedResult (p : Attempt C L G H V) (phase : ResultPhase) : BindingResult V :=
  ⟨p.name, false, none, phase⟩

def PROVEN_READ_ONLY_TOOLS : List PyText :=
  ["list_tools", "recall_notes", "get_fact", "utc_time", "list_workspace_files",
    "read_text_file", "search_workspace", "runtime_status", "sleep", "read_sandbox_file",
    "list_sandbox_files", "list_sandbox_snapshots"].map lit

/-- `_is_proven_read_only_tool` -/
def Attempt.provenReadOnly (p : Attempt C L G H V) : Bool :=
  match p.spec with
  | none => false
  | some spec => !spec.mutatesState && spec.safetyLevel = .readOnly &&
      p.name ∈ PROVEN_READ_ONLY_TOOLS

/-- The Gate finds the state file drifted, or cannot tell: the killswitch engages. -/
def toolGateHalt (reason : PyText) : Batch C L G H Unit :=
  modifyWorld fun w => { w with state := { w.state with
    killswitchEngaged := true
    killswitchReason := reason
    executionMode := .plan } }

/-- `set_gate_anchor`, for a tool behind a gate -/
def setGateAnchor (gate : Option (Capture G H)) (anchor : Option G) : Batch C L G H Unit :=
  if gate.isSome then modifyWorld fun w => { w with sandbox := { w.sandbox with anchor } }
  else pure ()

/-- `registry.execute`: the value, or none when it raises. -/
def execute (name : PyText) (arguments : PyDict) : Batch C L G H (Option V) :=
  match T.registry name with
  | none => pure none
  | some tool => do
    record (.called name)
    let s ← get
    match (tool.handler arguments).run s.world with
    | .ok value world => do
      set { s with world }
      pure (some value)
    | .error _ world => do
      set { s with world }
      pure none

/-- The Gate after a tool: the window, the state file, and the receipt with its gate. -/
def gateVerifies (before : Capture G H) (value : V) : Batch C L G H Bool := do
  let expired := T.expired (← reading)
  let after := T.capture (← reading) (← get).world
  let unchanged := !before.persisted.known || !after.persisted.known ||
    before.persisted = after.persisted
  let bound := match T.receipt value with
    | none => false
    | some receipt => receipt.committed && receipt.context = some before.context
  let late := T.expired (← reading)
  pure (!expired && unchanged && bound && !late)

/-- The handler of a tool behind its gate, and the checks of the value. -/
def runTool (p : Attempt C L G H V) (gate : Option (Capture G H)) :
    Batch C L G H (BindingResult V) := do
  setGateAnchor gate (gate.map (·.context))
  let value ← execute T p.name p.arguments
  setGateAnchor gate none
  match value with
  | none => pure (failedResult p .executionFailed)
  | some value =>
    -- `pretty_result`, outside of the handlers
    if !T.renders value then throw .notSerializable
    else
      match gate with
      | none => pure ⟨p.name, true, some value, .executed⟩
      | some before =>
        if ← gateVerifies T before value then pure ⟨p.name, true, some value, .executed⟩
        else pure (failedResult p .gateRejected)

def bindToolExecution (p : Attempt C L G H V) : Batch C L G H (BindingResult V) := do
  let s ← get
  if s.world.state.killswitchEngaged then
    pure (failedResult p .killswitched)
  else if p.provenReadOnly then
    runTool T p none
  else
    let capture := T.capture (← reading) s.world
    if !s.world.gateAnchor.known || !capture.persisted.known || !capture.known then
      toolGateHalt (lit "the_gate: unknown anchor state")
      pure (failedResult p .gateRejected)
    else if capture.persisted ≠ s.world.gateAnchor then
      toolGateHalt (lit "the_gate: anchor mismatch")
      pure (failedResult p .gateRejected)
    else if T.expired (← reading) then
      pure (failedResult p .gateRejected)
    else
      runTool T p (some capture)

/-- An outcome of the loop over the plans: the tools that went through, the results, and
whether one failed. -/
structure Progress (C L G H V : Type) where
  executed : List (Attempt C L G H V × V)
  results : List (BindingResult V)
  failed : Bool

def executePlans : List (Attempt C L G H V) → Batch C L G H (Progress C L G H V)
  | [] => pure ⟨[], [], false⟩
  | p :: plans => do
    let result ← bindToolExecution T p
    match result.value with
    | some value =>
      let rest ← executePlans plans
      pure ⟨(p, value) :: rest.executed, result :: rest.results, rest.failed⟩
    | none => pure ⟨[], [result], true⟩

/-- `registry.rollback`, with the exception caught -/
def rollbackTool (p : Attempt C L G H V) (value : V) : Batch C L G H Unit :=
  match (T.registry p.name).bind (·.rollback) with
  | none => pure ()
  | some rollback => do
    let s ← get
    match (rollback value p.arguments).run s.world with
    | .ok _ world => set { s with world }
    | .error _ world => set { s with world }

/-- Does `_rollback_executed_tools` try a tool of this specification? -/
def Attempt.rollsBack (p : Attempt C L G H V) : Bool :=
  match p.spec with
  | none => false
  | some spec => spec.safetyLevel = .reversible && spec.rollback.isSome

def rollbackExecutedTools (executed : List (Attempt C L G H V × V)) : Batch C L G H Unit :=
  executed.reverse.forM fun (p, value) => if p.rollsBack then rollbackTool T p value else pure ()

/-- The handling of a failed batch -/
def undoBatch (progress : Progress C L G H V) (snapshotId : Option ℕ) : Batch C L G H Unit := do
  rollbackExecutedTools T progress.executed
  match snapshotId with
  | none => pure ()
  | some id => restoreSnapshot id

/-- Does the batch take a snapshot? -/
def mutates (plans : List (Attempt C L G H V)) : Bool :=
  plans.any fun p => (p.spec.map (·.mutatesState)).getD false

def takeSnapshot (plans : List (Attempt C L G H V)) : Batch C L G H (Option ℕ) :=
  if mutates plans then some <$> snapshotState else pure none

/-- The loop over the tools, and what is made of a failure. -/
def runTools (plans : List (Attempt C L G H V)) (snapshotId : Option ℕ) :
    Batch C L G H (List (BindingResult V)) := do
  let progress ← executePlans T plans
  if progress.failed then
    undoBatch T progress snapshotId
    let skipped := plans.drop progress.results.length
    pure (progress.results ++ skipped.map (failedResult · .batchRolledBack))
  else
    pure progress.results

/-- The batch after the barrier. -/
def runBatch (plans : List (Attempt C L G H V)) (token : ℕ) :
    Batch C L G H (List (BindingResult V)) := do
  let snapshotId ← takeSnapshot plans
  consume token
  let s ← get
  if s.world.state.killswitchEngaged then
    pure (plans.map (failedResult · .killswitched))
  else
    runTools T plans snapshotId

/-- `registry.validate_arguments`: are there no errors? -/
def validArguments (p : Attempt C L G H V) : Bool :=
  match T.registry p.name with
  | none => false
  | some tool => tool.accepts p.arguments

def Attempt.irreversible (p : Attempt C L G H V) : Bool :=
  match p.spec with
  | none => false
  | some spec => spec.safetyLevel = .irreversible

def batchExecutionErrors (plans : List (Attempt C L G H V)) : Option (List (BindingResult V)) :=
  if 1 < plans.length && plans.any (·.irreversible) then
    some (plans.map (failedResult · .batchBlocked))
  else if plans.all (validArguments T) then none
  else some (plans.map fun p =>
    failedResult p (if validArguments T p then .batchBlocked else .validationFailed))

def bindToolBatch (plans : List (Attempt C L G H V)) :
    Batch C L G H (List (BindingResult V)) := do
  let s ← get
  if plans.isEmpty then pure []
  else if s.world.state.killswitchEngaged then
    pure (plans.map (failedResult · .killswitched))
  else if plans.any (!·.decision.executionAllowed) then
    pure (plans.map (failedResult · .policyEngineBlock))
  else if s.world.state.executionMode ≠ .execute then
    pure (plans.map (failedResult · .plan))
  else
    match batchExecutionErrors T plans with
    | some results => pure results
    | none =>
      if !precommitAllows plans s.world then
        pure (plans.map (failedResult · .precommitRejected))
      else
        let token ← issueToken
        runBatch T plans token

/-- A step of the system: a batch, or anything else, which leaves the barrier alone. -/
inductive BatchLabel (C L G H V : Type) where
  | batch (plans : List (Attempt C L G H V))
  | world (w : World C L G H)

def BatchState.step (s : BatchState C L G H) : BatchLabel C L G H V → BatchState C L G H
  | .batch plans => Effectful.final (bindToolBatch T plans) s
  | .world w => { s with world := w }

/-- A runtime that starts, with its new barrier. -/
def BatchState.start (w : World C L G H) : BatchState C L G H := ⟨w, [], 0, 0, []⟩

end Batch

/-- The tokens that were consumed, one after another. -/
def consumedTokens (trace : List TraceEvent) : List ℕ :=
  trace.filterMap fun e => match e with
    | .consumed token => some token
    | _ => none

/-- The handlers that were called, one after another. -/
def handlerCalls (trace : List TraceEvent) : List PyText :=
  trace.filterMap fun e => match e with
    | .called name => some name
    | _ => none

end ClawHarder.Runtime
