import ClawHarder.Lib.OrderedMap
import ClawHarder.Spec.EventLog
import ClawHarder.Spec.RuntimeState

/-!
# Two readings of the affective events

From `signal.py`, `replay.py` and `truth_api.py`. `Replayer.replay` folds the events of
the log into a state, and `_affective_trajectory_window` folds them once more into the
points of a trajectory. An event is the dictionary of its line, with members of any kind,
and a fold that raises stops there. Arithmetic of floats is left to `AffectHost`.

Left out of the state is what no event of the log sets, and of the memory all but its
messages.
-/

namespace ClawHarder.Truth

open PyText (lit)
open RuntimeCore (GovernanceProfile lowerWord)

/-- The builtins and the arithmetic that are not defined here; floats are given by their
`repr`. -/
structure AffectHost where
  builtins : PyBuiltins
  /-- `max(0.0, min(1.0, old + delta))` -/
  shifted : PyText → PyText → PyText
  /-- `round(value * factor, 4)` -/
  decayed : PyText → PyText → PyText
  /-- `a > b` of floats -/
  above : PyText → PyText → Bool
  /-- `max(a, b)` of floats -/
  greater : PyText → PyText → PyText
  /-- `a == b` -/
  same : PyValue → PyValue → Bool
  /-- `a < b` -/
  less : PyValue → PyValue → Py Bool
  /-- `str(v)` of a value that is no text -/
  printed : PyValue → PyText
  /-- No such value prints as the name of a signal event. -/
  printed_ne : ∀ v, printed v ≠ lit "signal.shift" ∧ printed v ≠ lit "signal.decay"

variable (H : AffectHost)

/-- `str(v)` -/
def AffectHost.str : PyValue → PyText
  | .str t => t
  | v => H.printed v

/-- `v.get(key, default)` of a dictionary -/
def read (d : PyDict) (key : String) (default : PyValue) : PyValue :=
  (PyValue.get? (lit key) d).getD default

/-- The keys of a dictionary, in the order of its items. -/
def keys (d : PyDict) : List PyText := (d.map Prod.fst).reverse.dedup.reverse

/-- `sorted(d.keys())` -/
def sortedKeys (d : PyDict) : List PyText := (keys d).insertionSort (· ≤ ·)

/-- A line of the file: its value, unless it is blank or no JSON. -/
abbrev Line := Option PyValue

/-- `e.get("seq", 0)` -/
def seqOf (e : PyDict) : PyValue := read e "seq" (.int 0)

def insertBySeq (e : PyDict) : List PyDict → Py (List PyDict)
  | [] => .ok [e]
  | e' :: events => do
    if ← H.less (seqOf e') (seqOf e) then return e' :: (← insertBySeq e events)
    else return e :: e' :: events

/-- `events.sort(key=lambda e: e.get("seq", 0))` -/
def sortBySeq : List PyDict → Py (List PyDict)
  | [] => .ok []
  | e :: events => do insertBySeq H e (← sortBySeq events)

def loadEvents (lines : List Line) : Py (List PyDict) := do
  sortBySeq H (← (lines.filterMap id).mapM Py.members)

structure SignalState where
  core : OrderedMap PyText PyText
  valence : PyText := lit "0.5"
  arousal : PyText := lit "0.3"
  instability : PyText := lit "0.1"
  trace : List (PyText × PyText) := []

/-- The names and floats of a new core. -/
def defaultCore : List (PyText × PyText) :=
  RuntimeCore.defaultCore.map fun m => (m.1, PyValue.text (fun _ => []) m.2)

/-- `SignalState()` -/
def SignalState.new : SignalState where
  core := ⟨defaultCore, by decide +kernel⟩

/-- What both projections return of a signal. -/
structure Snapshot where
  core : List (PyText × PyText)
  valence : PyText
  arousal : PyText
  instability : PyText
  stage : PyText
  traceLen : ℕ

namespace SignalState

variable (s : SignalState)

/-- `self.core.get(name, 0.0)` -/
def level (name : PyText) : PyText := (s.core.get? name).getD (lit "0.0")

def shift (name delta : PyText) : SignalState :=
  let new := H.shifted (s.level name) delta
  { s with core := s.core.set name new, trace := s.trace ++ [(name, new)] }

/-- The loop of `decay` over the items of the core. -/
def decay (factor : PyText) : SignalState :=
  { s with core := s.core.entries.foldl (fun m e => m.set e.1 (H.decayed e.2 factor)) s.core }

def stage : PyText :=
  if H.above (s.level (lit "threat")) (lit "0.7") || H.above (s.level (lit "anger")) (lit "0.7") then
    lit "Surge"
  else if H.above (s.level (lit "wonder")) (lit "0.7") ||
      H.above (s.level (lit "curiosity")) (lit "0.75") then
    lit "Flow"
  else lit "Calm"

/-- `_signal_snapshot` -/
def snapshot : Snapshot where
  core := (s.core.keys.insertionSort (· ≤ ·)).map fun name => (name, s.level name)
  valence := s.valence
  arousal := s.arousal
  instability := s.instability
  stage := s.stage H
  traceLen := s.trace.length

end SignalState

structure ReplayState where
  signal : SignalState := .new
  /-- role and content of the messages in the memory -/
  messages : List (PyText × PyValue) := []
  tickCount : ℤ := 0
  governance : GovernanceProfile := {}
  executionMode : PyText := lit "plan"
  killswitchEngaged : Bool := false
  killswitchReason : PyText := []
  killswitchAt : Option PyText := none
  remainingBudget : PyText := lit "0.0"
  /-- `identity.memory_buckets`, of the keys that are texts; the others stay empty -/
  memoryBuckets : PyText → List PyDict := fun _ => []
  /-- the assignments to `identity.calibrations` -/
  calibrations : List (PyValue × PyValue) := []

section Replay

variable (s : ReplayState) (details : PyValue)

/-- `user_message` and `turn_complete` -/
def replayMessage (role : PyText) : Py ReplayState := do
  let content ← Py.get details "content" (.str [])
  return if Py.truth content then { s with messages := s.messages ++ [(role, content)] } else s

def replayPulse : Py ReplayState := do
  match ← Py.optional (Py.int H.builtins) (← Py.get details "cycle" .none) with
  | some cycle => return { s with tickCount := cycle }
  | none => return s

def replayMode : Py ReplayState := do
  let mode ← Py.get details "mode" .none
  if Py.truth mode then
    return { s with governance := ← GovernanceProfile.forMode mode s.governance.operatorAuthority }
  else return s

def replayAuthority : Py ReplayState := do
  let older ← Py.get details "operator_trust_level" .none
  let authority ← Py.get details "operator_authority" older
  return if Py.truth authority then
    { s with governance := { s.governance with operatorAuthority := .str (H.str authority) } }
  else s

def replayExecutionMode : Py ReplayState := do
  match ← Py.get details "execution_mode" .none with
  | .str mode =>
    let lowered := lowerWord (PyText.strip mode)
    return if lowered = lit "execute" ∨ lowered = lit "plan" then { s with executionMode := lowered }
      else s
  | _ =>
    match ← Py.get details "tool_use_enabled" .none with
    | .none => return s
    | enabled =>
      return { s with executionMode := if Py.truth enabled then lit "execute" else lit "plan" }

/-- `float(v) if isinstance(v, (int, float)) else None` -/
def floatIfNumber : PyValue → Py (Option PyText)
  | v@(.bool _) | v@(.int _) | v@(.float _) => (H.builtins.float v).map some
  | _ => .ok none

def replayEngaged : Py ReplayState := do
  let reason ← Py.get details "reason" (.str [])
  let killswitchAt ← floatIfNumber H (← Py.get details "killswitch_at" .none)
  return { s with
    killswitchEngaged := true
    killswitchReason := H.str reason
    killswitchAt := killswitchAt
    executionMode := lit "plan"
    remainingBudget := lit "0.0" }

/-- `existing_node.setdefault("source_refs", []).extend(refs)` -/
def extendRefs (node : PyDict) (refs : PyValue) : Py PyDict :=
  match read node "source_refs" (.list []) with
  | .list vs => do return PyValue.set (lit "source_refs") (.list (vs ++ (← Py.items refs))) node
  | _ => .error .attributeError

/-- What a confirmed item makes of the first node of its bucket. -/
def mergeNode (trait : PyText) (node item : PyDict) : Py PyDict := do
  let content := EventLog.mergeIdentityTrait H.builtins trait (read node "content" .none)
    (read item "content" .none)
  let node := PyValue.set (lit "content") content node
  let old ← H.builtins.float (read node "confidence" (.float (lit "0.0")))
  let new ← H.builtins.float (read item "confidence" (.float (lit "0.0")))
  let node := PyValue.set (lit "confidence") (.float (H.greater old new)) node
  let updatedAt := read item "updated_at" (read node "updated_at" .none)
  let node := PyValue.set (lit "updated_at") updatedAt node
  let refs := read item "source_refs" (.list [])
  if Py.truth refs then extendRefs node refs else return node

def replayConfirmed : Py ReplayState := do
  match ← Py.get details "item" (.dict []) with
  | .dict item =>
    if item.isEmpty then return s
    let type ← Py.get details "type" (read item "type" .none)
    if !Py.truth type then return s
    if !Py.hashable type then throw .typeError
    match type with
    | .str trait =>
      if !EventLog.validateIdentityTrait trait then return s
      match s.memoryBuckets trait with
      | [] => return { s with memoryBuckets := Function.update s.memoryBuckets trait [item] }
      | node :: rest =>
        let node ← mergeNode H trait node item
        return { s with memoryBuckets := Function.update s.memoryBuckets trait (node :: rest) }
    | _ => return s
  | item => if Py.truth item then throw .attributeError else return s

/-- The first node with the id is edited. -/
def editNode (details : PyDict) (id : PyValue) : List PyDict → List PyDict
  | [] => []
  | node :: rest =>
    if H.same (read node "id" .none) id then
      let node := PyValue.set (lit "content") (read details "content" (read node "content" .none)) node
      let updatedAt := read details "updated_at" (read node "updated_at" .none)
      PyValue.set (lit "updated_at") updatedAt node :: rest
    else node :: editNode details id rest

/-- `seed.identity_edited` and `seed.identity_deleted`: an update of the bucket of a type. -/
def replayBucket (update : PyDict → PyValue → List PyDict → List PyDict) : Py ReplayState := do
  let members ← Py.members details
  let type := read members "type" .none
  if !Py.hashable type then throw .typeError
  match type with
  | .str trait =>
    let bucket := update members (read members "id" .none) (s.memoryBuckets trait)
    return { s with memoryBuckets := Function.update s.memoryBuckets trait bucket }
  | _ => return s

def deleteNodes (_details : PyDict) (id : PyValue) (bucket : List PyDict) : List PyDict :=
  bucket.filter fun node => !H.same (read node "id" .none) id

def replayCalibration : Py ReplayState := do
  let key ← Py.get details "key" .none
  let val ← Py.get details "value" .none
  if Py.truth key && Py.truth val then
    if Py.hashable key then return { s with calibrations := s.calibrations ++ [(key, val)] }
    else throw .typeError
  else return s

def replayIgnite : Py ReplayState := do
  let glyph ← Py.get details "glyph" .none
  let meaning ← Py.get details "meaning" .none
  if Py.truth glyph then
    let key := .str (lit "symbol." ++ H.str glyph)
    return { s with calibrations := s.calibrations ++ [(key, .str (H.str meaning))] }
  else return s

/-- The events that leave the signal alone. -/
def applyOther (kind : PyText) : Py ReplayState :=
  if kind = lit "user_message" then replayMessage s details (lit "user")
  else if kind = lit "turn_complete" then replayMessage s details (lit "assistant")
  else if kind = lit "loop.pulse" then replayPulse H s details
  else if kind = lit "policy_engine.mode" then replayMode s details
  else if kind = lit "runtime.operator_authority" then replayAuthority H s details
  else if kind = lit "runtime.execution_mode" then replayExecutionMode s details
  else if kind = lit "runtime.killswitch_engaged" then replayEngaged H s details
  else if kind = lit "runtime.killswitch_released" then
    .ok { s with killswitchEngaged := false, killswitchReason := [], killswitchAt := none }
  else if kind = lit "seed.identity_confirmed" then replayConfirmed H s details
  else if kind = lit "seed.identity_edited" then replayBucket s details (editNode H)
  else if kind = lit "seed.identity_deleted" then replayBucket s details (deleteNodes H)
  else if kind = lit "seed.calibration_updated" then replayCalibration s details
  else if kind = lit "symbol.ignite" then replayIgnite H s details
  else .ok s

/-- The loop of `signal.shift` over the items of the details. -/
def replayShift (d : PyDict) : List PyText → SignalState → Py SignalState
  | [], signal => .ok signal
  | name :: names, signal =>
    if signal.core.contains name then do
      let value ← H.builtins.float ((PyValue.get? name d).getD .none)
      replayShift d names (signal.shift H name value)
    else replayShift d names signal

end Replay

def applyEvent (s : ReplayState) (event : PyDict) : Py ReplayState :=
  let details := read event "details" (.dict [])
  match read event "kind" (.str []) with
  | .str kind =>
    if kind = lit "signal.shift" then do
      let members ← Py.members details
      return { s with signal := ← replayShift H members (keys members) s.signal }
    else if kind = lit "signal.decay" then do
      let factor ← H.builtins.float (← Py.get details "factor" (.float (lit "0.98")))
      return { s with signal := s.signal.decay H factor }
    else applyOther H s details kind
  | _ => .ok s

/-- `Replayer.replay`, of the events that were loaded -/
def replay (events : List PyDict) : Py ReplayState := events.foldlM (applyEvent H) {}

structure TrajectoryPoint where
  t : PyText
  seq : ℤ
  kind : PyText
  module : PyText
  cause : PyText
  sourceOperation : PyText
  sourceParentOperation : Option PyText
  /-- the shifts by name, or the factor -/
  delta : List (PyText × PyText)
  state : Snapshot

section Trajectory

/-- The value of a field of a shift, unless it is skipped. -/
def shiftValue : PyValue → Py (Option PyText)
  | .bool _ => .ok none
  | v@(.int _) | v@(.float _) => (H.builtins.float v).map some
  | v =>
    match H.builtins.float v with
    | .ok value => .ok (some value)
    | .error .typeError | .error .valueError => .ok none
    | .error e => .error e

/-- The loop over the names of a shift, with the shifts so far. -/
def trajectoryShift (d : PyDict) :
    List PyText → SignalState × List (PyText × PyText) → Py (SignalState × List (PyText × PyText))
  | [], acc => .ok acc
  | name :: names, (signal, delta) =>
    if signal.core.contains name then do
      match ← shiftValue H ((PyValue.get? name d).getD .none) with
      | none => trajectoryShift d names (signal, delta)
      | some value => trajectoryShift d names (signal.shift H name value, delta ++ [(name, value)])
    else trajectoryShift d names (signal, delta)

def decayFactor (d : PyDict) : Py PyText := do
  return (← floatIfNumber H (read d "factor" (.float (lit "0.98")))).getD (lit "0.98")

/-- The signal after an event, and the delta of its point if it has one. -/
def signalDelta (kind : PyText) (d : PyDict) (signal : SignalState) :
    Py (SignalState × Option (List (PyText × PyText))) :=
  if kind = lit "signal.shift" then do
    let (signal, delta) ← trajectoryShift H d (sortedKeys d) (signal, [])
    return (signal, if delta.isEmpty then none else some delta)
  else if kind = lit "signal.decay" then do
    let factor ← decayFactor H d
    return (signal.decay H factor, some [(lit "factor", factor)])
  else .ok (signal, none)

/-- `event.get("timestamp", 0.0) or 0.0` -/
def timestampOf (event : PyDict) : PyValue :=
  let timestamp := read event "timestamp" (.float (lit "0.0"))
  if Py.truth timestamp then timestamp else .float (lit "0.0")

def classifyTrajectoryCause (event : PyDict) : PyText :=
  let kind := H.str (read event "kind" (.str []))
  let module := H.str (read event "module" (.str []))
  if kind = lit "signal.decay" then lit "self_regulation"
  else if kind = lit "signal.shift" ∧ (module = lit "identity_engine" ∨ module = lit "policy_engine")
    then lit "governance_modulation"
  else if kind = lit "signal.shift" then lit "interaction_modulation"
  else lit "unknown"

/-- The event's id, if it is a text and not empty. -/
def eventId (event : PyDict) : Option PyText :=
  match read event "event_id" .none with
  | .str [] => none
  | .str t => some t
  | _ => none

def sourceOperation (event : PyDict) : PyText :=
  match eventId event with
  | some id => id
  | none =>
    let seq := read event "seq" .none
    if seq.asInt?.isSome then lit "seq:" ++ H.str seq else lit "unknown"

def seqToEventId (events : List PyDict) (seq : ℤ) : Option PyText :=
  (events.filterMap fun event => do
    return (← (read event "seq" .none).asInt?, ← eventId event)).reverse.lookup seq

/-- The point of an event that changed the signal. -/
def trajectoryPoint (events : List PyDict) (event : PyDict) (delta : List (PyText × PyText))
    (signal : SignalState) : Py TrajectoryPoint := do
  return {
    t := ← H.builtins.float (timestampOf event)
    seq := (read event "seq" .none).asInt?.getD (-1)
    kind := H.str (read event "kind" (.str []))
    module := H.str (read event "module" (.str []))
    cause := classifyTrajectoryCause H event
    sourceOperation := sourceOperation H event
    sourceParentOperation := (read event "parent_seq" .none).asInt?.bind (seqToEventId events)
    delta := delta
    state := signal.snapshot H }

/-- The loop body of `_affective_trajectory_window`. -/
def trajectoryStep (events : List PyDict) (acc : SignalState × List TrajectoryPoint)
    (event : PyDict) : Py (SignalState × List TrajectoryPoint) :=
  match read event "details" (.dict []) with
  | .dict d => do
    let (signal, delta) ← signalDelta H (H.str (read event "kind" (.str []))) d acc.1
    match delta with
    | none => return (signal, acc.2)
    | some delta => return (signal, acc.2 ++ [← trajectoryPoint H events event delta signal])
  | _ => .ok acc

/-- `_affective_trajectory_window`, of the events that were loaded -/
def affectiveTrajectoryWindow (events : List PyDict) (window : ℤ) : Py (List TrajectoryPoint) := do
  let (_, points) ← events.foldlM (trajectoryStep H events) (.new, [])
  return EventLog.sliceFrom points (-window)

end Trajectory

end ClawHarder.Truth
