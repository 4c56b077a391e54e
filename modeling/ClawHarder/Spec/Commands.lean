import ClawHarder.Lib.Effectful
import ClawHarder.Lib.PyText
import ClawHarder.Lib.Run

/-!
# Operator commands and governed cycles

What `runtime.py` does to the governance fields of the runtime state: the operator
commands, the saves behind the Gate, and the handler of a failed cycle in
`_run_governed_cycle`; each with the events that it logs. `Replayer.replay` rebuilds
the state from the log.

A governed cycle touches these fields in four ways (`CycleStep`): it saves, the Gate
in front of a tool refuses, `public_adversarial_hitl` halts, or the cycle fails. A
cycle is any sequence of them, as the model, the tools and the operator decide it.
Appending to the log does not fail.
-/

namespace ClawHarder.Runtime

open PyText (lit)

inductive PermissionMode where
  | buddy
  | task
  | autonomous
deriving DecidableEq

inductive ExecutionMode where
  | plan
  | execute
deriving DecidableEq

inductive TickMode where
  | off
  | on
  | task
  | timed
deriving DecidableEq

/-- `execution_state` of the tick controller -/
inductive ExecutionState where
  | idle
  | running
  | commit
  | blocked
  | halted
deriving DecidableEq

inductive OperatorAuthority where
  | user
  | builder
deriving DecidableEq

inductive GovernanceMode where
  | guided
  | standard
  | expert
  | unlocked
  | degradedRepair
deriving DecidableEq

structure GovernanceProfile where
  mode : GovernanceMode := .standard
  operatorAuthority : OperatorAuthority := .user
deriving DecidableEq

def GovernanceProfile.forMode (mode : GovernanceMode) (operatorAuthority : OperatorAuthority) :
    GovernanceProfile :=
  match mode with
  | .degradedRepair => { mode, operatorAuthority := .user }
  | _ => { mode, operatorAuthority }

structure RuntimeState where
  permissionMode : PermissionMode := .task
  executionMode : ExecutionMode := .plan
  killswitchEngaged : Bool := false
  killswitchReason : PyText := []
  governance : GovernanceProfile := {}
  tickMode : TickMode := .off
  executionState : ExecutionState := .idle
  canaryValidatorOpen : Bool := false
deriving DecidableEq

/-- The words of the five enumerations that commands name. -/
def PermissionMode.named (t : PyText) : Option PermissionMode :=
  [(lit "buddy", .buddy), (lit "task", .task), (lit "autonomous", .autonomous)].lookup t

def TickMode.named (t : PyText) : Option TickMode :=
  [(lit "off", .off), (lit "on", .on), (lit "task", .task), (lit "timed", .timed)].lookup t

def OperatorAuthority.named (t : PyText) : Option OperatorAuthority :=
  [(lit "user", .user), (lit "builder", .builder)].lookup t

def GovernanceMode.named (t : PyText) : Option GovernanceMode :=
  [(lit "guided", .guided), (lit "standard", .standard), (lit "expert", .expert),
    (lit "unlocked", .unlocked), (lit "degraded_repair", .degradedRepair)].lookup t

/-- `POSTURE_MAP` -/
inductive Posture where
  | observe
  | assist
  | task
  | autonomous
  | builder
deriving DecidableEq

def Posture.named (t : PyText) : Option Posture :=
  [(lit "observe", .observe), (lit "assist", .assist), (lit "task", .task),
    (lit "autonomous", .autonomous), (lit "builder", .builder)].lookup t

structure PostureConfig where
  permissionMode : PermissionMode
  executionMode : ExecutionMode
  tickMode : TickMode
  operatorAuthority : OperatorAuthority
  governanceMode : GovernanceMode

def Posture.config : Posture → PostureConfig
  | .observe => ⟨.buddy, .plan, .off, .user, .guided⟩
  | .assist => ⟨.task, .execute, .off, .user, .standard⟩
  | .task => ⟨.task, .execute, .task, .user, .standard⟩
  | .autonomous => ⟨.autonomous, .execute, .on, .user, .standard⟩
  | .builder => ⟨.autonomous, .execute, .off, .builder, .unlocked⟩

/-- The events of the commands, with the details that a replay could read. -/
inductive Event where
  | executionMode (mode : ExecutionMode)
  | executionModeBlocked
  | posture (name : Posture)
  | permissionMode (permission : PermissionMode) (execution : ExecutionMode)
  | operatorAuthority (authority : OperatorAuthority)
  | killswitchEngaged (reason : PyText)
  | killswitchReleased
  | hardNuke (reason : PyText)
  | reinitialized
  | governanceMode (mode : GovernanceMode) (authority : OperatorAuthority)
  | tickMode (mode : TickMode)
  | gateStatePromoted
  | diagnosticIssued
  | repairMotion
  | hitlException
  | hitlGuardException

def applyEvent (s : RuntimeState) : Event → RuntimeState
  | .governanceMode mode _ =>
    { s with governance := .forMode mode s.governance.operatorAuthority }
  | .operatorAuthority authority =>
    { s with governance := { s.governance with operatorAuthority := authority } }
  | .executionMode mode => { s with executionMode := mode }
  | .killswitchEngaged reason =>
    { s with killswitchEngaged := true, killswitchReason := reason, executionMode := .plan }
  | .killswitchReleased => { s with killswitchEngaged := false, killswitchReason := [] }
  | _ => s

def replay (log : List Event) : RuntimeState := log.foldl applyEvent {}

/-- What `_hash_persisted_runtime_state` returns. -/
inductive FileHash (H : Type*) where
  | missing
  | unreadable
  | hash (h : H)
deriving DecidableEq

def FileHash.known {H : Type*} : FileHash H → Bool
  | .hash _ => true
  | _ => false

structure RuntimeRuntime (H : Type*) where
  state : RuntimeState
  /-- `_gate_anchor_hash` -/
  anchor : FileHash H
  /-- the hash of the state file as it is on the disk -/
  persisted : FileHash H
  /-- Can the state file be written? -/
  writable : Bool
  log : List Event

/-- What the runtime's surroundings say. -/
structure Surroundings (H : Type*) where
  /-- the hash of the state file after a save -/
  hashOf : RuntimeState → H
  /-- `_canary_validator_open`, which reads the log -/
  canaryValidatorOpen : List Event → Bool

inductive Raised where
  | valueError
  /-- the `RuntimeError` of the Gate -/
  | gateRejected
  | osError
  | fault

abbrev Op (H α : Type) := EStateM Raised (RuntimeRuntime H) α

variable {H : Type} [DecidableEq H] (W : Surroundings H)

def modifyState (f : RuntimeState → RuntimeState) : Op H Unit :=
  modify fun r => { r with state := f r.state }

def emit (e : Event) : Op H Unit := modify fun r => { r with log := r.log ++ [e] }

/-- The Gate engages the killswitch. -/
def gateHalt (reason : PyText) : Op H Unit :=
  modifyState fun s => { s with
    killswitchEngaged := true
    killswitchReason := reason
    executionMode := .plan }

def saveState : Op H Unit := do
  let r ← get
  if !r.anchor.known || !r.persisted.known then
    gateHalt (lit "the_gate: unknown anchor state")
    throw .gateRejected
  else if r.persisted ≠ r.anchor then
    gateHalt (lit "the_gate: anchor mismatch")
    throw .gateRejected
  else if !r.writable then
    throw .osError
  else
    let hash := .hash (W.hashOf r.state)
    set { r with persisted := hash, anchor := hash }
    emit .gateStatePromoted

def setExecutionMode (enabled : Bool) : Op H Unit := do
  let s := (← get).state
  if enabled && (s.permissionMode = .buddy || s.killswitchEngaged) then
    modifyState fun s => { s with executionMode := .plan }
    saveState W
    emit .executionModeBlocked
  else
    let mode := if enabled then .execute else .plan
    modifyState fun s => { s with executionMode := mode }
    saveState W
    emit (.executionMode mode)

/-- `_check_tick_validators`: is a tick blocked? -/
def RuntimeState.tickBlocked (s : RuntimeState) : Bool :=
  s.killswitchEngaged || s.executionMode = .plan ||
    ((s.tickMode = .on || s.tickMode = .timed) &&
      (s.permissionMode ≠ .autonomous || !s.canaryValidatorOpen))

/-- `_request_tick`; the tick itself runs in a thread of its own. -/
def requestTick : Op H Unit := do
  let s := (← get).state
  if s.executionState = .running then pure ()
  else if s.tickBlocked then saveState W
  else pure ()

/-- `set_tick_mode`, of a mode that it knows -/
def applyTickMode (mode : TickMode) : Op H Unit := do
  modifyState fun s => { s with
    tickMode := mode
    executionState := if mode = .off then .idle else s.executionState }
  saveState W
  emit (.tickMode mode)
  if mode = .off then pure () else requestTick W

def setTickMode (mode : PyText) : Op H Unit :=
  match TickMode.named (PyText.lower (PyText.strip mode)) with
  | none => throw .valueError
  | some mode => applyTickMode W mode

/-- `set_operator_authority`, of an authority that it knows -/
def applyOperatorAuthority (authority : OperatorAuthority) : Op H Unit := do
  modifyState fun s => { s with
    governance := { s.governance with operatorAuthority := authority } }
  saveState W
  emit (.operatorAuthority authority)

def setOperatorAuthority (authority : PyText) : Op H Unit :=
  match OperatorAuthority.named (PyText.lower (PyText.strip authority)) with
  | none => throw .valueError
  | some authority => applyOperatorAuthority W authority

/-- `set_governance_mode`, of a mode that it knows -/
def applyGovernanceMode (mode : GovernanceMode) : Op H Unit := do
  modifyState fun s => { s with
    governance := .forMode mode s.governance.operatorAuthority }
  saveState W
  let s := (← get).state
  emit (.governanceMode s.governance.mode s.governance.operatorAuthority)

def setGovernanceMode (mode : PyText) : Op H Unit :=
  match GovernanceMode.named (PyText.lower (PyText.strip mode)) with
  | none => throw .valueError
  | some mode => applyGovernanceMode W mode

/-- `set_posture`, of a name that it knows -/
def applyPosture (name : Posture) : Op H Unit := do
  let config := name.config
  let r ← get
  if config.permissionMode = .autonomous && config.operatorAuthority ≠ .builder &&
      (r.state.killswitchEngaged || !W.canaryValidatorOpen r.log) then
    throw .valueError
  else
    modifyState fun s => { s with
      permissionMode := config.permissionMode
      executionMode := config.executionMode }
    applyTickMode W config.tickMode
    applyOperatorAuthority W config.operatorAuthority
    applyGovernanceMode W config.governanceMode
    saveState W
    emit (.posture name)

def setPosture (name : PyText) : Op H Unit :=
  match Posture.named name with
  | none => throw .valueError
  | some name => applyPosture W name

/-- `set_permission_mode`, of a mode that it knows -/
def applyPermissionMode (mode : PermissionMode) : Op H Unit := do
  let r ← get
  if mode = .autonomous && (r.state.killswitchEngaged || !W.canaryValidatorOpen r.log) then
    throw .valueError
  else
    let execution : ExecutionMode :=
      match mode with
      | .buddy => .plan
      | .task => if r.state.killswitchEngaged then .plan else .execute
      | .autonomous => .execute
    modifyState fun s => { s with permissionMode := mode, executionMode := execution }
    saveState W
    emit (.permissionMode mode execution)

def setPermissionMode (mode : PyText) : Op H Unit :=
  match PermissionMode.named (PyText.lower (PyText.strip mode)) with
  | none => throw .valueError
  | some mode => applyPermissionMode W mode

/-- `reason.strip() or "operator_requested"` -/
def haltReason (default reason : PyText) : PyText :=
  if PyText.strip reason = [] then default else PyText.strip reason

def engageKillswitch (reason : PyText) : Op H Unit := do
  let reason := haltReason (lit "operator_requested") reason
  modifyState fun s => { s with
    killswitchEngaged := true
    killswitchReason := reason
    executionMode := .plan }
  -- "If the Gate rejects the save, we are still halted."
  tryCatch (saveState W) fun _ => pure ()
  emit (.killswitchEngaged reason)

def requestSoftStop (reason : PyText) : Op H Unit :=
  engageKillswitch W (haltReason (lit "operator_requested: soft stop") reason)

def hardNuke (reason : PyText) : Op H Unit := do
  let reason := haltReason (lit "operator_requested: hard nuke") reason
  engageKillswitch W reason
  emit (.hardNuke reason)

def releaseKillswitch : Op H Unit := do
  modifyState fun s => { s with killswitchEngaged := false, killswitchReason := [] }
  saveState W
  emit .killswitchReleased

def reinitialize : Op H Unit := do
  releaseKillswitch W
  saveState W
  emit .reinitialized

inductive Command where
  | setExecutionMode (enabled : Bool)
  | setPosture (name : PyText)
  | setPermissionMode (mode : PyText)
  | setOperatorAuthority (authority : PyText)
  | setGovernanceMode (mode : PyText)
  | setTickMode (mode : PyText)
  /-- also `halt` -/
  | engageKillswitch (reason : PyText)
  | requestSoftStop (reason : PyText)
  | hardNuke (reason : PyText)
  /-- also `resume` -/
  | releaseKillswitch
  | reinitialize

def Command.perform : Command → Op H Unit
  | .setExecutionMode enabled => Runtime.setExecutionMode W enabled
  | .setPosture name => Runtime.setPosture W name
  | .setPermissionMode mode => Runtime.setPermissionMode W mode
  | .setOperatorAuthority authority => Runtime.setOperatorAuthority W authority
  | .setGovernanceMode mode => Runtime.setGovernanceMode W mode
  | .setTickMode mode => Runtime.setTickMode W mode
  | .engageKillswitch reason => Runtime.engageKillswitch W reason
  | .requestSoftStop reason => Runtime.requestSoftStop W reason
  | .hardNuke reason => Runtime.hardNuke W reason
  | .releaseKillswitch => Runtime.releaseKillswitch W
  | Command.reinitialize => Runtime.reinitialize W

/-- An exception that reaches `_run_governed_cycle`, and what its handlers meet. -/
structure Fault where
  exceptionType : PyText
  /-- `_public_hitl_enabled()` -/
  hitl : Bool
  /-- `artifact.repair_allowed`; none when the diagnosis or its record raises -/
  repairAllowed : Option Bool
  /-- the type of the exception that the coroner is called for; none when the coroner
  raises before it engages the killswitch -/
  coroner : Option PyText

/-- `ValidationManager.diagnose` and what is made of it -/
def Fault.diagnose (f : Fault) : Op H Unit :=
  match f.repairAllowed with
  | none => throw .fault
  | some repairAllowed => do
    emit .diagnosticIssued
    if repairAllowed then
      modifyState fun s => { s with
        governance := { s.governance with mode := .degradedRepair }
        executionMode := .plan }
      emit .repairMotion
    else
      modifyState fun s => { s with
        killswitchEngaged := true
        killswitchReason := lit "VALIDATION_MANAGER_HALT: Non-repairable fault (" ++
          f.exceptionType ++ lit ")" }

def Fault.engageHardHalt (f : Fault) : Op H Unit :=
  match f.coroner with
  | none => throw .fault
  | some exceptionType =>
    modifyState fun s => { s with
      killswitchEngaged := true
      killswitchReason := lit "CORONER_HARD_HALT: fault_in_validation_manager (" ++
        exceptionType ++ lit ")" }

/-- The handlers of `_run_governed_cycle`. The failure reply of `public_adversarial_hitl`
saves, and halts when its log fails: these are steps of their own. -/
def Fault.handle (f : Fault) : Op H Unit :=
  tryCatch (if f.hitl then emit .hitlException else f.diagnose) fun _ =>
    if f.hitl then emit .hitlGuardException else f.engageHardHalt

/-- One thing that a governed cycle does to the fields. -/
inductive CycleStep where
  | save
  /-- the Gate in front of a tool refuses; `unknown` says that it cannot tell -/
  | toolGateRejects (unknown : Bool)
  /-- `engage_killswitch` in `public_adversarial_hitl` -/
  | hitlHalt (reason : PyText)
  | fault (f : Fault)

def CycleStep.perform : CycleStep → Op H Unit
  | .save => saveState W
  | .toolGateRejects unknown =>
    gateHalt (if unknown then lit "the_gate: unknown anchor state"
      else lit "the_gate: anchor mismatch")
  | .hitlHalt reason => Runtime.engageKillswitch W reason
  | .fault f => f.handle

/-- A step of the system: a command, a step of a governed cycle, or a change of what the
commands find: the state file, the tick controller and the canary. -/
inductive Label (H : Type) where
  | command (c : Command)
  | cycle (c : CycleStep)
  | surroundings (persisted : FileHash H) (writable : Bool) (executionState : ExecutionState)
      (canaryValidatorOpen : Bool)

def Label.perform : Label H → Op H Unit
  | .command c => c.perform W
  | .cycle c => c.perform W
  | .surroundings persisted writable executionState canaryValidatorOpen =>
    modify fun r => { r with
      persisted, writable, state := { r.state with executionState, canaryValidatorOpen } }

/-- The runtime after a step, whether it returns or raises. -/
def RuntimeRuntime.step (r : RuntimeRuntime H) (l : Label H) : RuntimeRuntime H :=
  Effectful.final (l.perform W) r

end ClawHarder.Runtime
