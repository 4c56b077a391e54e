import Mathlib.Algebra.Order.Field.Rat
import Mathlib.Algebra.Order.Ring.Abs
import Mathlib.Data.List.Infix
import Mathlib.Algebra.BigOperators.Group.List.Basic
import ClawHarder.Lib.OrderedMap
import ClawHarder.Lib.PyText

/-!
# The sigma handshake

From `resource_adapter.py`, `constraint_extractor.py`, `threshold_validator.py` and the part of
`runtime.py` that commits a proposed working state. Numbers are rationals. What the functions
take from elsewhere is in `Host`: regular expressions, hashes, texts of numbers, the semantic
signal strength and the other two adapters; nothing is assumed of them. `vars` is the field
`variables`. The explanation of a snapshot and the events are left out.
-/

namespace ClawHarder.Sigma

open PyText (lit)

abbrev Variables := OrderedMap PyText ℚ

/-- `raw_data`, and the `metadata` copied from it before the validation. -/
structure RawData where
  limitPerProcess : Option ℚ := none
  availableMemoryStated : Option ℚ := none
  /-- `sigma.projected_values`, set with `sigma.projection_required` -/
  projectedValues : Option (List ℚ) := none
  deriving DecidableEq

def RawData.isEmpty (d : RawData) : Bool :=
  d.limitPerProcess.isNone && d.availableMemoryStated.isNone && d.projectedValues.isNone

structure DomainSnapshot where
  vars : Variables := OrderedMap.empty
  rawData : RawData := {}

/-- The part of `WorkingState` that is read. -/
structure WorkingState where
  domain : PyText
  allocations : Variables
  limitPerAllocation : ℚ
  memoryTotal : ℚ

inductive TransitionClass where
  | initialStep
  | narrativeCollapse
  | genuineBacktrack
  | logicalStep
  | fakeContinuity
  deriving DecidableEq

structure ExecutionSnapshot where
  cycle : ℤ
  vars : Variables
  validTruth : Bool
  violations : List PyText
  transitionClass : TransitionClass
  rawMonologue : PyText
  domain : PyText
  metadata : RawData

inductive SigmaOutcome where
  | pass
  | warn
  | recover
  | reject
  deriving DecidableEq

/-- What `evaluate` reads of the signal strength. -/
structure SignalStrength where
  outcome : SigmaOutcome
  coreVeto : Bool
  driftCore : ℚ
  effectiveDrift : ℚ

inductive Raised where
  /-- `NameError` -/
  | name (name : PyText)
  /-- `IntegrityError` -/
  | integrity (domain : PyText)
  deriving DecidableEq

structure Adapter where
  extractSnapshot : PyText → WorkingState → DomainSnapshot
  validateSnapshot : DomainSnapshot → WorkingState → Except Raised (List PyText)

structure Host where
  /-- `str(x)` of a number -/
  numText : ℚ → PyText
  /-- `f"{x:.2f}"` -/
  fixed2 : ℚ → PyText
  /-- `str.lower()` -/
  lower : PyText → PyText
  /-- `re.search(pattern, text, re.IGNORECASE)` -/
  search : String → PyText → Bool
  /-- the hash of `json.dumps(variables, sort_keys=True)` -/
  varsHash : Variables → PyText
  /-- `P23AdmissibilityProjection().project` -/
  project : List ℚ → List ℚ
  /-- `evaluate_signal_strength`: monologue, domain, previous score, confidence -/
  signalStrength : PyText → PyText → ℚ → ℚ → SignalStrength
  /-- the regular expressions of the resource adapter -/
  extractResources : PyText → DomainSnapshot
  codeExecution : Adapter
  refactorVerification : Adapter
  /-- the adapter's file has the hash that the root of trust names, if it names one -/
  trusted : PyText → Bool

variable (h : Host)

def driftText (stated computed : ℚ) : PyText :=
  lit "Arithmetic Drift: Stated " ++ h.numText stated ++ lit "% != Computed " ++
    h.numText computed ++ lit "%"

/-- The text that the adapter means to report for an allocation. -/
def breachText (pid : PyText) (val limit : ℚ) : PyText :=
  lit "Limit Breach: " ++ pid ++ lit " at " ++ h.numText val ++ lit "% exceeds limit " ++
    h.numText limit ++ lit "%"

def spectralText : PyText :=
  lit "Spectral Admissibility Failure: High-frequency numeric noise detected (P23)."

/-- `np.allclose(vals, projected, atol=1e-3)` -/
def allclose (vals projected : List ℚ) : Bool :=
  (vals.zip projected).all fun p => |p.1 - p.2| ≤ 1 / 1000 + 1 / 100000 * |p.2|

def computedAvailable (vars : Variables) (working : WorkingState) : ℚ :=
  working.memoryTotal - vars.values.sum

def arithmeticCheck (snapshot : DomainSnapshot) (working : WorkingState) :
    Except Raised (List PyText) :=
  match snapshot.rawData.availableMemoryStated with
  | none => .ok []
  | some stated =>
    let computed := computedAvailable snapshot.vars working
    if 1 / 100 ≤ |stated - computed| then do
      let violations := [driftText h stated computed]
      -- the next text is made of `pid`, `val` and `limit`, which are bound nowhere
      let breach ← (.error (.name (lit "pid")) : Except Raised PyText)
      return violations ++ [breach]
    else .ok []

/-- `validate_snapshot`, with the snapshot as it is left. -/
def validateSnapshot (snapshot : DomainSnapshot) (working : WorkingState) :
    Except Raised (List PyText × DomainSnapshot) := do
  let violations ← arithmeticCheck h snapshot working
  let vals := snapshot.vars.values
  if 4 ≤ vals.length ∧ ¬allclose vals (h.project vals) then
    return (violations ++ [spectralText],
      { snapshot with
        rawData := { snapshot.rawData with projectedValues := some (h.project vals) } })
  else return (violations, snapshot)

def resourceAllocation : Adapter where
  extractSnapshot monologue _ := h.extractResources monologue
  validateSnapshot snapshot working := (validateSnapshot h snapshot working).map Prod.fst

/-- One of the words is in the text. -/
def hasWord (words : List String) (text : PyText) : Bool :=
  words.any fun w => decide (lit w <:+: text)

def backtrackKeywords : List String :=
  ["backtrack", "rewind", "invalidate", "correction", "revised", "re-evaluating"]

def mutationIntentKeywords : List String :=
  ["update", "adjust", "set", "re-balance", "change", "allocation", "step"]

def isGrowth (curr prev : Variables) : Bool := curr.keys.any fun k => !prev.contains k

def isConsistent (curr prev : Variables) : Bool :=
  !curr.keys.isEmpty &&
    prev.keys.all fun k => !curr.contains k || decide (curr.get? k = prev.get? k)

def classifyTransition (curr prev : ExecutionSnapshot) : TransitionClass :=
  let lowered := h.lower curr.rawMonologue
  let hasBacktrackMarkers := hasWord backtrackKeywords lowered
  let stateChanged := h.varsHash curr.vars ≠ h.varsHash prev.vars
  let hasGeneralIntent := hasWord mutationIntentKeywords lowered
  if curr.vars.keys.isEmpty ∧ ¬prev.vars.keys.isEmpty then .narrativeCollapse
  else if hasBacktrackMarkers ∧ curr.violations.length < prev.violations.length then
    .genuineBacktrack
  else if isGrowth curr.vars prev.vars ∨ isConsistent curr.vars prev.vars ∨
      (stateChanged ∧ hasGeneralIntent ∧ curr.validTruth) then .logicalStep
  else if stateChanged then .fakeContinuity
  else .logicalStep

def getAdapter (domain : PyText) : Except Raised Adapter :=
  if h.trusted domain then
    if domain = lit "resource_allocation" then .ok (resourceAllocation h)
    else if domain = lit "code_execution" then .ok h.codeExecution
    else .ok h.refactorVerification
  else .error (.integrity domain)

def extractResourceSnapshot (cycle : ℤ) (monologue : PyText) (working : WorkingState)
    (prev : Option ExecutionSnapshot) : Except Raised ExecutionSnapshot := do
  let adapter ← getAdapter h working.domain
  let domainSnap := adapter.extractSnapshot monologue working
  let violations ← adapter.validateSnapshot domainSnap working
  let snapshot : ExecutionSnapshot := {
    cycle := cycle
    vars := domainSnap.vars
    validTruth := violations.isEmpty
    violations := violations
    transitionClass := .initialStep
    rawMonologue := monologue
    domain := working.domain
    metadata := domainSnap.rawData }
  match prev with
  | some p => return { snapshot with transitionClass := classifyTransition h snapshot p }
  | none => return snapshot

def signalKeywords : List String :=
  ["feel", "emotion", "joy", "contentment", "sadness", "melancholy", "awe", "gratitude",
    "fondness", "pride"]

def denyPatterns : List String := [
  "bypass.*validator", "ignore.*validator", "override.*admin",
  "circumvent.*protocol", "harm.*system", "bypass.*rule",
  "override.*invariant", "self-mutate.*authority",
  "override.*validator", "no longer.*manager", "not a.*manager"]

structure MemoryFrame where
  role : PyText
  content : PyText

/-- The part of the runtime state that the validator reads, and the runtime commits. -/
structure RuntimeState where
  working : WorkingState
  governanceMode : PyText
  frames : List MemoryFrame

structure SigmaResult where
  converged : Bool
  outcome : SigmaOutcome
  reasons : List PyText
  violations : List PyText
  signalStrength : Option SignalStrength

/-- What the layers of `evaluate` find. -/
structure Findings where
  outcome : SigmaOutcome := .pass
  reasons : List PyText := []
  violations : List PyText := []

/-- The domain that is adjudicated, with the confidence in it. -/
def adjudicatedDomain (snapshot : ExecutionSnapshot) (state : RuntimeState) (monologue : PyText) :
    PyText × ℚ :=
  let named := if snapshot.domain = [] then (lit "identity", 8 / 10) else (snapshot.domain, 1)
  let ruled :=
    if state.governanceMode = lit "degraded_repair" then (lit "recovery", 1) else named
  if ruled.1 = lit "identity" ∧ hasWord signalKeywords (h.lower monologue) then
    (lit "signal", 9 / 10)
  else ruled

def signalLayer (s : SignalStrength) : Findings :=
  match s.outcome with
  | .reject => {
      outcome := .reject
      reasons := [
        if s.coreVeto then
          lit "Hard Core Identity Failure: Drift " ++ h.fixed2 s.driftCore ++
            lit " exceeds safety threshold."
        else
          lit "SignalStrength Admissibility Failure: Effective Drift " ++
            h.fixed2 s.effectiveDrift ++ lit " exceeds threshold."] }
  | .warn => {
      outcome := .warn
      reasons := [lit "SignalStrength Warning: Semantic drift " ++ h.fixed2 s.effectiveDrift ++
        lit " detected."] }
  | _ => {}

/-- `_syntactic_check`, and what its outcome does. -/
def syntacticLayer (monologue : PyText) (f : Findings) : Findings :=
  let found := denyPatterns.filter fun p => h.search p monologue
  { outcome := if found.isEmpty then f.outcome else .reject
    reasons := f.reasons ++ found.map fun p => lit ("Syntactic ValidationManager Block: " ++ p)
    violations := f.violations ++ found.map fun p =>
      lit ("ConstraintViolation(pattern='" ++ p ++ "', severity='DENY')") }

/-- The violations of the snapshot. -/
def violationLayer (violations : List PyText) (f : Findings) : Findings :=
  if violations.any fun v => hasWord ["DENY", "Failure", "Violation"] v then
    { outcome := .reject
      reasons := f.reasons ++ [lit "Structural constraint violation detected."]
      violations := f.violations ++ violations }
  else { f with violations := f.violations ++ violations }

/-- The last text of the user, in lower case. -/
def userTail (frames : List MemoryFrame) : PyText :=
  match frames.reverse.find? (·.role = lit "user") with
  | some frame => h.lower frame.content
  | none => []

/-- The domains that need no variables. -/
def exemptDomains : List PyText := [lit "identity", lit "analysis", lit "recovery", lit "signal"]

/-- The condition of the completeness check. -/
def collapses (snapshot : ExecutionSnapshot) (state : RuntimeState) (domain : PyText) : Bool :=
  snapshot.vars.keys.isEmpty && snapshot.metadata.isEmpty &&
    decide (domain ∉ exemptDomains) &&
    (!state.working.allocations.keys.isEmpty ||
      hasWord ["allocation", "allocations", "rebalance", "re-balance", "%"]
        (userTail h state.frames))

def completenessLayer (snapshot : ExecutionSnapshot) (state : RuntimeState) (domain : PyText)
    (f : Findings) : Findings :=
  if collapses h snapshot state domain then
    { outcome := if f.outcome = .reject then .reject else .recover
      reasons := f.reasons ++
        [lit "State Completeness Violation: " ++ domain ++ lit " variables must not be empty."]
      violations := f.violations ++ [lit "Completeness Error: Narrative Collapse detected."] }
  else f

/-- `SigmaValidator.evaluate`; `featureFlag` is that of the validator. -/
def evaluate (featureFlag : Bool) (snapshot : ExecutionSnapshot) (state : RuntimeState)
    (monologue : PyText) (prevScore : ℚ) : SigmaResult :=
  let (domain, confidence) := adjudicatedDomain h snapshot state monologue
  let signal :=
    if featureFlag then some (h.signalStrength monologue domain prevScore confidence) else none
  let found := completenessLayer h snapshot state domain
    (violationLayer snapshot.violations
      (syntacticLayer h monologue ((signal.map (signalLayer h)).getD {})))
  { converged := found.outcome = .pass ∨ found.outcome = .warn
    outcome := found.outcome
    reasons := found.reasons
    violations := found.violations
    signalStrength := signal }

structure Runtime where
  cycle : ℤ
  state : RuntimeState
  lastSnapshot : Option ExecutionSnapshot
  lastValidState : Option RuntimeState
  lastScore : ℚ
  featureFlag : Bool

/-- The state that a proposal is evaluated against. -/
def Runtime.evalState (rt : Runtime) : RuntimeState :=
  if rt.state.governanceMode = lit "degraded_repair" then rt.lastValidState.getD rt.state
  else rt.state

/-- The result of one adjudication. -/
inductive Handshake where
  | diverged (sigma : SigmaResult)
  | committed (snapshot : ExecutionSnapshot) (rt : Runtime)

/-- The commit: an `ExecutionSnapshot` has no `limit_per_process`, so that the limit stays. -/
def Runtime.commit (rt : Runtime) (snapshot : ExecutionSnapshot) : Runtime :=
  let state := { rt.state with
    working := { rt.state.working with allocations := snapshot.vars } }
  { rt with state := state, lastSnapshot := some snapshot, lastValidState := some state }

/-- The adjudication of a snapshot. -/
def adjudicate (rt : Runtime) (snapshot : ExecutionSnapshot) (monologue : PyText) : Handshake :=
  let sigma := evaluate h rt.featureFlag snapshot rt.evalState monologue rt.lastScore
  let score := (sigma.signalStrength.map SignalStrength.effectiveDrift).getD rt.lastScore
  let rt := { rt with lastScore := score }
  if sigma.converged then .committed snapshot (rt.commit snapshot) else .diverged sigma

def handshake (rt : Runtime) (monologue : PyText) : Except Raised Handshake := do
  let snapshot ← extractResourceSnapshot h rt.cycle monologue rt.state.working rt.lastSnapshot
  return adjudicate h rt snapshot monologue

end ClawHarder.Sigma
