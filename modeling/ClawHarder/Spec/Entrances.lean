import ClawHarder.Spec.Patches
import ClawHarder.Spec.ToolBatch

/-!
# The ways to an effect

The paths of the runtime and its server on which a tool handler can be called or a
file of the workspace written: a governed turn (`run`, `pulse`) with its tool batches,
the dispatch of an input intent, and the execution endpoints. `Premises` is what they
work on; `enter` is one use of a path, from start to end.

A turn is modelled up to its check of the killswitch, with the handlers of
`_run_governed_cycle`; the rest of it is a parameter. The runtime's own records (state
file, status file, event log, diagnoses) are not files of the workspace here.
-/

namespace ClawHarder.Entrances

open PyText (lit)
open ClawHarder.Runtime (Attempt BatchState Fault FileHash RuntimeRuntime RuntimeState Surroundings Toolbox)
open ClawHarder.Comms (Dispatched Host IdeRequest Patch PendingTool RequestType Server Site Volume Workspace)

inductive IntentStatus where
  | queued
  | running
  | completed
  | failed
deriving DecidableEq

/-- An intent of `_pending_input_intents`, without its source, metadata and times. -/
structure Intent where
  message : PyText
  status : IntentStatus
  reply : PyText := []
  error : PyText := []

structure Premises (C L G H : Type) where
  /-- the runtime state, the sandbox, the barrier, and the trace of tokens and handlers -/
  batch : BatchState C L G H
  /-- the hash of the state file on the disk -/
  persisted : FileHash H
  /-- Can the state file be written? -/
  writable : Bool
  log : List Runtime.Event
  intents : OrderedMap PyText Intent
  /-- the file system with the workspace in it -/
  volume : Volume

variable {C L G H V : Type}

namespace Premises

def state (p : Premises C L G H) : RuntimeState := p.batch.world.state

/-- `is_killswitched` -/
def killswitched (p : Premises C L G H) : Bool := p.state.killswitchEngaged

/-- The runtime that the commands and the handlers work on. -/
def runtime (p : Premises C L G H) : RuntimeRuntime H where
  state := p.state
  anchor := p.batch.world.gateAnchor
  persisted := p.persisted
  writable := p.writable
  log := p.log

def withRuntime (p : Premises C L G H) (r : RuntimeRuntime H) : Premises C L G H :=
  { p with
    batch := { p.batch with world :=
      { p.batch.world with state := r.state, gateAnchor := r.anchor } }
    persisted := r.persisted
    writable := r.writable
    log := r.log }

/-- The premises after a computation on the runtime; does it return? -/
def perform (m : Runtime.Op H Unit) (p : Premises C L G H) : Bool × Premises C L G H :=
  match m.run p.runtime with
  | .ok _ r => (true, p.withRuntime r)
  | .error _ r => (false, p.withRuntime r)

/-- Write to an intent that is there. -/
def updateIntent (id : PyText) (f : Intent → Intent) (p : Premises C L G H) : Premises C L G H :=
  match p.intents.get? id with
  | none => p
  | some intent => { p with intents := p.intents.set id (f intent) }

end Premises

/-- What a turn meets and does that is not modelled. -/
structure Outside (C L G H : Type) where
  /-- `_is_public_adversarial_hitl_mode` -/
  hitlMode : Bool
  /-- what `_write_status_bridge` raises, if it raises -/
  statusBridge : PyText → Premises C L G H → Option Fault
  /-- Does `_write_hitl_log` write its row? -/
  hitlLogWrites : Premises C L G H → Bool
  /-- the reply to a fault that its handlers make, or the text of what they raise -/
  faultText : Fault → Premises C L G H → PyText
  /-- `_run_logic` and `_pulse_logic` past the killswitch -/
  runUnhalted : PyText → Premises C L G H → Except Fault PyText × Premises C L G H
  pulseUnhalted : PyText → Premises C L G H → Except Fault PyText × Premises C L G H

/-- The runtime, its server and their surroundings. -/
structure Plant (C L G H V : Type) where
  outside : Outside C L G H
  surroundings : Surroundings H
  toolbox : Toolbox C L G H V
  workspace : Workspace
  reprOf : PyValue → PyText
  clock : ℕ → ℚ
  ingestInput : IdeRequest → Premises C L G H → Except PyText PyText × Premises C L G H
  pendingTool : Premises C L G H → Option PendingTool

variable [DecidableEq G] [DecidableEq H] (P : Plant C L G H V)

def killswitchMessage (s : RuntimeState) : PyText :=
  lit "Runtime kill switch is engaged. Model, tool, and persistence execution are halted." ++
    (if s.killswitchReason = [] then [] else lit " Reason: " ++ s.killswitchReason ++ lit ".") ++
    lit " Release the kill switch before resuming work."

/-- `_public_hitl_failure`, of a label that it allows: a log that fails halts. -/
def publicHitlFailure (label : PyText) (p : Premises C L G H) : PyText × Premises C L G H :=
  (lit "[" ++ label ++ lit "]",
    if P.outside.hitlLogWrites p then p
    else (p.perform (Runtime.engageKillswitch P.surroundings
      (lit "public_adversarial_hitl: logging_failed"))).2)

/-- The handlers of `_run_governed_cycle`: a reply, or the text of what they raise. -/
def handleFault (f : Fault) (p : Premises C L G H) : Except PyText PyText × Premises C L G H :=
  match p.perform f.handle with
  | (false, p) => (.error (P.outside.faultText f p), p)
  | (true, p) =>
    if f.hitl then
      let (reply, p) := publicHitlFailure P (P.outside.faultText f p) p
      (.ok reply, p)
    else (.ok (P.outside.faultText f p), p)

def runGovernedCycle (func : Premises C L G H → Except Fault PyText × Premises C L G H)
    (p : Premises C L G H) : Except PyText PyText × Premises C L G H :=
  match func p with
  | (.ok reply, p) => (.ok reply, p)
  | (.error f, p) => handleFault P f p

/-- The status file and the reply of a turn that is halted. -/
def replyHalted (p : Premises C L G H) : Except Fault PyText :=
  match P.outside.statusBridge (lit "killswitch_blocked") p with
  | some f => .error f
  | none => .ok (killswitchMessage p.state)

def runLogic (userInput : PyText) (p : Premises C L G H) :
    Except Fault PyText × Premises C L G H :=
  if p.killswitched then (replyHalted P p, p) else P.outside.runUnhalted userInput p

def pulseLogic (userInput : PyText) (p : Premises C L G H) :
    Except Fault PyText × Premises C L G H :=
  if p.killswitched then
    if P.outside.hitlMode then
      let (reply, p) := publicHitlFailure P (lit "runtime error") p
      (.ok reply, p)
    else (replyHalted P p, p)
  else P.outside.pulseUnhalted userInput p

/-- `run`, and `run_single_cycle` -/
def run (userInput : PyText) (p : Premises C L G H) : Except PyText PyText × Premises C L G H :=
  runGovernedCycle P (runLogic P userInput) p

def pulse (userInput : PyText) (p : Premises C L G H) : Except PyText PyText × Premises C L G H :=
  runGovernedCycle P (pulseLogic P userInput) p

/-- The turn of a queued intent, and how it is noted. -/
def runIntent (id message : PyText) (p : Premises C L G H) :
    Except PyText Dispatched × Premises C L G H :=
  match run P message (p.updateIntent id ({ · with status := .running })) with
  | (.error text, p) =>
    (.ok { ok := false, intentId := some id },
      p.updateIntent id ({ · with status := .failed, error := text }))
  | (.ok reply, p) =>
    (.ok { ok := true, intentId := some id },
      p.updateIntent id ({ · with status := .completed, reply }))

/-- `dispatch_input_intent`: what it returns, or the text of what it raises. -/
def dispatchInputIntent (intentId : PyText) (p : Premises C L G H) :
    Except PyText Dispatched × Premises C L G H :=
  let id := PyText.strip intentId
  if id = [] then (.error (lit "intent_id is required"), p)
  else
    match p.intents.get? id with
    -- the text of a `KeyError` is the representation of its message
    | none => (.error (P.reprOf (.str (lit "intent not found: " ++ id))), p)
    | some intent =>
      match intent.status with
      | .running => (.error (lit "intent already running: " ++ id), p)
      | .completed => (.ok { ok := true, intentId := some id }, p)
      | .failed => (.ok { ok := false, intentId := some id }, p)
      | .queued => runIntent P id intent.message p

/-- `runtime.registry`, as the tool endpoint uses it. -/
def registry : Comms.Registry (Premises C L G H) where
  known name := (P.toolbox.registry name).isSome
  argumentErrors name arguments :=
    (P.toolbox.registry name).any fun tool => !tool.accepts arguments
  execute name arguments p :=
    match (Runtime.execute P.toolbox name arguments).run p.batch with
    | .ok value batch => (value.isSome, { p with batch })
    | .error _ batch => (false, { p with batch })

def host : Host (Premises C L G H) where
  reprOf := P.reprOf
  clock := P.clock
  ingestInput := P.ingestInput
  dispatchInputIntent := dispatchInputIntent P
  pendingTool := P.pendingTool
  applyPatches patches p :=
    let (outcome, volume) := Comms.applyPatchesTo P.workspace patches p.volume
    (outcome, { p with volume })
  registry := registry P

inductive Entrance (C L G H V : Type) where
  | run (userInput : PyText)
  | pulse (userInput : PyText)
  /-- the tool batch of a turn, whatever happened before it -/
  | batch (plans : List (Attempt C L G H V))
  | dispatch (intentId : PyText)
  /-- `/api/executions/patch` and `/api/executions/tool` -/
  | execution (t : RequestType) (body : PyDict)

def enter (s : Site (Premises C L G H)) : Entrance C L G H V → Site (Premises C L G H)
  | .run userInput => { s with host := (run P userInput s.host).2 }
  | .pulse userInput => { s with host := (pulse P userInput s.host).2 }
  | .batch plans =>
    { s with host := { s.host with
      batch := Effectful.final (Runtime.bindToolBatch P.toolbox plans) s.host.batch } }
  | .dispatch intentId => { s with host := (dispatchInputIntent P intentId s.host).2 }
  | .execution t body => Comms.serve (host P) s (.execution t body)

end ClawHarder.Entrances
