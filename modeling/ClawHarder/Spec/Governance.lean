import ClawHarder.Lib.Run
import ClawHarder.Spec.PolicyEngine

/-!
# How the governance profile changes

The steps of the runtime that touch the profile in force: the operator commands of
`runtime.py` (`set_posture` is two of them), the repairable fault of a governed cycle, a
save of the state, a restart, and a fork of `replay.py`, whose state the next runtime
loads.
-/

namespace ClawHarder.Policy

open PyText (lit)

/-- The events of the log that a replay takes the profile from. -/
inductive GovernanceEvent where
  /-- `policy_engine.mode` -/
  | policyEngineMode (mode : PyText)
  | operatorAuthority (authority : PyText)

/-- `_apply_event`, on the profile -/
def applyGovernanceEvent (p : GovernanceProfile) : GovernanceEvent → GovernanceProfile
  | .policyEngineMode mode => if mode = [] then p else .forMode mode p.operatorAuthority
  | .operatorAuthority authority =>
    if authority = [] then p else { p with operatorAuthority := authority }

/-- `Replayer.replay`, on the profile -/
def replayProfile (events : List GovernanceEvent) : GovernanceProfile :=
  events.foldl applyGovernanceEvent {}

structure Governed where
  /-- `state.governance` of the runtime -/
  governance : GovernanceProfile := {}
  /-- the profiles in the state files, the newest first -/
  saved : List GovernanceProfile := []
  log : List GovernanceEvent := []

def governanceModes : List PyText :=
  [lit "guided", lit "standard", lit "expert", lit "unlocked", lit "degraded_repair"]

def operatorAuthorities : List PyText := [lit "user", lit "builder"]

/-- `strip().lower()` of a word that an operator gives -/
def normalized (word : PyText) : PyText := RuntimeCore.lowerWord (PyText.strip word)

def saveState (w : Governed) : Governed := { w with saved := w.governance :: w.saved }

/-- What a command does behind the change of the profile: where the save is refused, the
event is not logged. -/
def commit (w : Governed) (saves : Bool) (event : GovernanceProfile → GovernanceEvent) :
    Governed :=
  if saves then { saveState w with log := w.log ++ [event w.governance] } else w

def setGovernanceMode (w : Governed) (mode : PyText) (saves : Bool) : Governed :=
  if normalized mode ∉ governanceModes then w
  else commit
    { w with governance := .forMode (normalized mode) w.governance.operatorAuthority }
    saves fun p => .policyEngineMode p.mode

def setOperatorAuthority (w : Governed) (authority : PyText) (saves : Bool) : Governed :=
  if normalized authority ∉ operatorAuthorities then w
  else commit
    { w with governance := { w.governance with operatorAuthority := normalized authority } }
    saves fun p => .operatorAuthority p.operatorAuthority

/-- `_run_governed_cycle`, after a fault that may be repaired -/
def engageRepair (w : Governed) : Governed :=
  { w with governance := { w.governance with mode := lit "degraded_repair" } }

inductive GovernanceStep where
  | setGovernanceMode (mode : PyText) (saves : Bool)
  | setOperatorAuthority (authority : PyText) (saves : Bool)
  | repairableFault
  | save
  /-- the runtime loads a state file; there may be none that it can read -/
  | restart (file : ℕ)
  /-- a runtime starts from a replay of these places of the log -/
  | fork (places : List ℕ)

def Governed.step (w : Governed) : GovernanceStep → Governed
  | .setGovernanceMode mode saves => Policy.setGovernanceMode w mode saves
  | .setOperatorAuthority authority saves => Policy.setOperatorAuthority w authority saves
  | .repairableFault => engageRepair w
  | .save => saveState w
  | .restart file => { w with governance := (w.saved[file]?).getD {} }
  | .fork places =>
    saveState { w with governance := replayProfile (places.filterMap (w.log[·]?)) }

end ClawHarder.Policy
