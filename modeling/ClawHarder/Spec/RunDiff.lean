import Mathlib.Data.List.Sort
import Mathlib.Data.Prod.Lex
import ClawHarder.Lib.PyJson
import ClawHarder.Spec.PublicClaims

/-!
# Comparing two runs

From `diff.py`, with `_load_events` of `replay.py`. A line of a log is an event, or it is
skipped: a blank line, or one that is no JSON. The details of an event are typed by its kind, as
the runtime and `fork_from` write them; the members that the comparison does not read are left
out, and so is the printed report.
-/

namespace ClawHarder.LogDiff

open PyText (lit)

structure ToolCall where
  name : PyText := []
  arguments : PyDict := []
  callId : Option PyText := none

/-- The kinds that are read, with their details. -/
inductive EventBody where
  | userMessage (content : PyText)
  | llmResponse (outputText : PyText) (toolCalls : List ToolCall)
  | turnComplete (content : PyText)
  | policyEngineMode (mode : PyText)
  /-- the `str` of `execution_mode`, if there is one, else `tool_use_enabled` -/
  | executionMode (mode : Option PyText) (toolUseEnabled : Option Bool)
  | forkCreated (parentRunId : Option PyText) (parentCycle : Option ℤ)
  | other (kind : PyText)

structure Event where
  runId : PyText := []
  cycle : ℕ := 0
  seq : ℤ := 0
  body : EventBody

/-- A line of the file: its event, if it is one. -/
abbrev Line := Option Event

/-- `_load_events`; the sort is stable. -/
def loadEvents (lines : List Line) : List Event :=
  (lines.filterMap id).insertionSort fun e e' => e.seq ≤ e'.seq

structure CycleSnapshot where
  cycle : ℕ
  userMessage : Option PyText := none
  llmResponse : Option PyText := none
  turnComplete : Option PyText := none
  toolCalls : List ToolCall := []
  governanceMode : Option PyText := none
  executionMode : Option PyText := none

inductive FieldValue where
  | text (value : Option PyText)
  | calls (value : List ToolCall)

structure FieldDelta where
  field : PyText
  valueA : FieldValue
  valueB : FieldValue

structure CycleDiff where
  cycle : ℕ
  deltas : List FieldDelta := []
  onlyInA : Bool := false
  onlyInB : Bool := false

def CycleDiff.diverged (d : CycleDiff) : Bool := !d.deltas.isEmpty || d.onlyInA || d.onlyInB

/-- The value of `groups` for a cycle, or no event. -/
def groupByCycle (events : List Event) (cycle : ℕ) : List Event :=
  events.filter fun e => e.cycle = cycle

def extractRunId : List Event → PyText
  | [] => []
  | e :: events => if e.runId = [] then extractRunId events else e.runId

def extractForkProvenance : List Event → Option (PyText × Option ℤ)
  | [] => none
  | e :: events =>
    match e.body with
    | .forkCreated (some parent) cycle =>
      if parent = [] then extractForkProvenance events else some (parent, cycle)
    | _ => extractForkProvenance events

section Snapshot

variable (U : Policy.Unicode)

/-- What an event changes in the snapshot of its cycle. -/
def applyEvent (snap : CycleSnapshot) (e : Event) : CycleSnapshot :=
  match e.body with
  | .userMessage content => { snap with userMessage := some content }
  | .llmResponse outputText toolCalls =>
    { snap with llmResponse := some outputText, toolCalls := toolCalls }
  | .turnComplete content => { snap with turnComplete := some content }
  | .policyEngineMode mode => { snap with governanceMode := some mode }
  | .executionMode (some mode) _ =>
    let label := Policy.lower U (PyText.strip mode)
    { snap with executionMode := if label = [] then none else some label }
  | .executionMode none (some enabled) =>
    { snap with executionMode := some (if enabled then lit "execute" else lit "plan") }
  | _ => snap

def buildSnapshot (cycleEvents : List Event) : CycleSnapshot :=
  cycleEvents.foldl (applyEvent U) { cycle := (cycleEvents.head?.map Event.cycle).getD 0 }

end Snapshot

/-- The fields that are compared as they are. -/
def comparedFields : List (PyText × (CycleSnapshot → Option PyText)) := [
  (lit "user_message", CycleSnapshot.userMessage),
  (lit "llm_response", CycleSnapshot.llmResponse),
  (lit "turn_complete", CycleSnapshot.turnComplete),
  (lit "governance_mode", CycleSnapshot.governanceMode),
  (lit "execution_mode", CycleSnapshot.executionMode)]

/-- A name with the arguments as they are written with sorted keys. -/
def callKey (c : ToolCall) : PyText ×ₗ PyText :=
  toLex (c.name, PyJson.dumps (PyJson.sortKeys (.dict c.arguments)))

def normaliseCalls (calls : List ToolCall) : List (PyText ×ₗ PyText) :=
  (calls.map callKey).insertionSort (· ≤ ·)

def diffSnapshots (a b : CycleSnapshot) : List FieldDelta :=
  (comparedFields.filterMap fun f =>
    if f.2 a ≠ f.2 b then some ⟨f.1, .text (f.2 a), .text (f.2 b)⟩ else none) ++
  if normaliseCalls a.toolCalls ≠ normaliseCalls b.toolCalls then
    [⟨lit "tool_calls", .calls a.toolCalls, .calls b.toolCalls⟩]
  else []

structure RunDiff where
  runIdA : PyText
  runIdB : PyText
  commonAncestorRunId : Option PyText := none
  forkCycle : Option ℤ := none
  cycles : List CycleDiff := []
  cyclesCompared : ℕ := 0
  cyclesDiverged : ℕ := 0
  cyclesOnlyInA : ℕ := 0
  cyclesOnlyInB : ℕ := 0

def RunDiff.identical (r : RunDiff) : Prop :=
  r.cyclesDiverged = 0 ∧ r.cyclesOnlyInA = 0 ∧ r.cyclesOnlyInB = 0

/-- The fork of which one of the two runs was made, by the events of both. -/
def forkProvenance (eventsA eventsB : List Event) : Option (PyText × Option ℤ) :=
  let isFork := fun (child parent : List Event) =>
    (extractForkProvenance child).filter fun p => p.1 = extractRunId parent
  (isFork eventsB eventsA).or (isFork eventsA eventsB)

section Diff

variable (U : Policy.Unicode)

def compareCycle (eventsA eventsB : List Event) (skipUpTo : ℤ) (result : RunDiff) (cycle : ℕ) :
    RunDiff :=
  if (cycle : ℤ) ≤ skipUpTo then result
  else
    match groupByCycle eventsA cycle, groupByCycle eventsB cycle with
    | [], [] => result
    | [], _ => { result with
        cycles := result.cycles ++ [{ cycle := cycle, onlyInB := true }]
        cyclesOnlyInB := result.cyclesOnlyInB + 1 }
    | _, [] => { result with
        cycles := result.cycles ++ [{ cycle := cycle, onlyInA := true }]
        cyclesOnlyInA := result.cyclesOnlyInA + 1 }
    | groupA, groupB =>
      let cd : CycleDiff := {
        cycle := cycle
        deltas := diffSnapshots (buildSnapshot U groupA) (buildSnapshot U groupB) }
      { result with
        cycles := result.cycles ++ [cd]
        cyclesCompared := result.cyclesCompared + 1
        cyclesDiverged := result.cyclesDiverged + if cd.diverged then 1 else 0 }

def diffRuns (logA logB : List Line) : RunDiff :=
  let eventsA := loadEvents logA
  let eventsB := loadEvents logB
  let provenance := forkProvenance eventsA eventsB
  let forkCycle := provenance.bind Prod.snd
  let allCycles := ((eventsA ++ eventsB).map Event.cycle).dedup.insertionSort (· ≤ ·)
  allCycles.foldl (compareCycle U eventsA eventsB (forkCycle.getD (-1))) {
    runIdA := extractRunId eventsA
    runIdB := extractRunId eventsB
    commonAncestorRunId := provenance.map Prod.fst
    forkCycle := forkCycle }

end Diff

end ClawHarder.LogDiff
