import ClawHarder.Lib.Run
import ClawHarder.Spec.EventLog

/-!
# The identity simulation

`SimulationProcessor` of `simulation.py`. It appends a confirmation for each trait with
proposals that are newer than the last confirmation of the trait. The hash of a result,
which nothing reads, is left out, and so is a strategy that `_resolve` does not know.
-/

namespace ClawHarder.EventLog

open PyText (lit)

structure IdentityProposal where
  source : PyText
  trait : PyText
  value : PyValue
  timestamp : ℚ
  confidence : ℚ := 1
  sessionId : PyText := []
  payload : Option IdentityItem := none

inductive Strategy where
  | lastWriteWins
  | confidenceWeightedLast
deriving DecidableEq

structure SimulationResult where
  trait : PyText
  resolvedValue : PyValue
  resolvedFrom : PyText
  resolutionMethod : PyText
  payload : Option IdentityItem

/-- `if not trait` -/
def nonEmpty (trait : Option PyText) : Option PyText := trait.filter (· ≠ [])

/-- The trait that an event confirms. -/
def Event.confirms (e : Event) : Option PyText :=
  match e.body with
  | .identityConfirmed type item => nonEmpty (type.or (item.bind IdentityItem.type))
  | _ => none

/-- The trait that an event proposes a value of. -/
def Event.proposes (e : Event) : Option PyText :=
  match e.body with
  | .identityProposed type _ => nonEmpty type
  | _ => none

/-- `last_confirmed_ts.get(trait, -1.0)` -/
def watermark (events : List Event) (trait : PyText) : ℚ :=
  let confirmations := events.filter fun e => e.confirms = some trait
  if confirmations = [] then -1 else (confirmations.map Event.timestamp).foldl max 0

/-- Does a run with this filter look at the session? -/
def coversSession (sessionId : Option PyText) (runId : PyText) : Bool :=
  sessionId = none || sessionId = some [] || sessionId = some runId

/-- Is the event a candidate? -/
def isCandidate (events : List Event) (sessionId : Option PyText) (e : Event) : Bool :=
  match e.proposes with
  | none => false
  | some trait => watermark events trait < e.timestamp && coversSession sessionId e.runId

/-- The `IdentityProposal` of an event. -/
def Event.proposal (e : Event) (trait : PyText) : IdentityProposal :=
  let item : Option IdentityItem :=
    match e.body with
    | .identityProposed _ item => item
    | _ => none
  { source := e.module
    trait
    value := (item.bind IdentityItem.content).getD (.str [])
    timestamp := e.timestamp
    confidence := (item.bind IdentityItem.confidence).getD 1
    sessionId := e.runId
    payload := item }

def collectProposals (events : List Event) (sessionId : Option PyText) : List IdentityProposal :=
  (events.filter (isCandidate events sessionId)).filterMap fun e => e.proposes.map e.proposal

def getConfirmedState (events : List Event) (trait : PyText) : Option PyValue :=
  (events.filter fun e => e.confirms = some trait).getLast?.map fun e =>
    match e.body with
    | .identityConfirmed _ item => (item.bind IdentityItem.content).getD .none
    | _ => .none

/-- `groups.setdefault(p.trait, []).append(p)` -/
def addToGroup (p : IdentityProposal) :
    List (PyText × List IdentityProposal) → List (PyText × List IdentityProposal)
  | [] => [(p.trait, [p])]
  | group :: rest =>
    if group.1 = p.trait then (group.1, group.2 ++ [p]) :: rest else group :: addToGroup p rest

def groupByTrait (proposals : List IdentityProposal) : List (PyText × List IdentityProposal) :=
  proposals.foldl (fun groups p => addToGroup p groups) []

section Resolve

variable (b : PyBuiltins) (strategy : Strategy)

/-- `sorted(candidates, key=lambda p: (p.timestamp, p.source))` -/
def sortCandidates (candidates : List IdentityProposal) : List IdentityProposal :=
  candidates.insertionSort fun p q =>
    p.timestamp < q.timestamp ∨ p.timestamp = q.timestamp ∧ ¬ q.source < p.source

/-- `max(p.confidence for p in candidates)` -/
def maxConfidence : List IdentityProposal → ℚ
  | [] => 0
  | p :: rest => rest.foldl (fun m q => max m q.confidence) p.confidence

/-- The name of a strategy in the results. -/
def Strategy.method : Strategy → PyText
  | .lastWriteWins => lit "last_write_wins"
  | .confidenceWeightedLast => lit "confidence_weighted_last"

/-- The candidates of which the last one wins. -/
def topCandidates (candidates : List IdentityProposal) : List IdentityProposal :=
  match strategy with
  | .lastWriteWins => candidates
  | .confidenceWeightedLast => candidates.filter fun p => maxConfidence candidates ≤ p.confidence

/-- `_resolve`; there is a winner, for there is a candidate. -/
def resolve (trait : PyText) (candidates : List IdentityProposal)
    (confirmed : PyText → Option PyValue) : Option SimulationResult :=
  if !(traitConfig trait).mutable ∧ (confirmed trait).isSome then none
  else
    let candidates := sortCandidates candidates
    if (traitConfig trait).merge then
      let existing := (confirmed trait).getD (.list [])
      let merged := candidates.foldl (fun m c => mergeIdentityTrait b trait m c.value) existing
      candidates.getLast?.map fun winner => {
        trait
        resolvedValue := merged
        resolvedFrom := winner.source
        resolutionMethod := lit "identity_merge"
        payload := some { winner.payload.getD {} with content := some merged } }
    else
      (topCandidates strategy candidates).getLast?.map fun winner => {
        trait
        resolvedValue := winner.value
        resolvedFrom := winner.source
        resolutionMethod := strategy.method
        payload := winner.payload }

def simulate (events : List Event) (sessionId : Option PyText) : List SimulationResult :=
  (groupByTrait (collectProposals events sessionId)).filterMap fun group =>
    resolve b strategy group.1 group.2 (getConfirmedState events)

/-- The confirmation of the `i`-th result, written at the `i`-th reading of the clock. -/
def confirmation (last : Option Event) (clock : ℕ → ℚ) (i : ℕ) (result : SimulationResult) :
    Event where
  runId := (last.map Event.runId).getD []
  cycle := (last.map Event.cycle).getD 0
  seq := (last.map Event.seq).getD 0 + i + 1
  module := lit "simulation"
  timestamp := clock i
  body := .identityConfirmed (some result.trait) result.payload

/-- The events that `SimulationProcessor.run` appends to the log. -/
def confirmations (log : List Event) (sessionId : Option PyText) (clock : ℕ → ℚ) : List Event :=
  let events := sortBySeq log
  (simulate b strategy events sessionId).mapIdx (confirmation events.getLast? clock)

inductive SimulationStep where
  /-- a proposal is appended, with whatever else its event has -/
  | propose (e : Event) (type : Option PyText) (item : Option IdentityItem)
  | run (sessionId : Option PyText) (clock : ℕ → ℚ)

def proposedEvent (e : Event) (type : Option PyText) (item : Option IdentityItem) : Event :=
  { e with body := .identityProposed type item }

def simulationStep (log : List Event) : SimulationStep → List Event
  | .propose e type item => log ++ [proposedEvent e type item]
  | .run sessionId clock => log ++ confirmations b strategy log sessionId clock

end Resolve

end ClawHarder.EventLog
