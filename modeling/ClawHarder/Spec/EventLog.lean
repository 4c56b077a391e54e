import ClawHarder.Spec.PolicyEngine
import Mathlib.Algebra.Order.Field.Rat
import Mathlib.Data.List.Sort

/-!
# The event log and its replay

From `events.py`, `replay.py` and `traits/validator.py`. A line of the log is an event,
or it is skipped: a blank line, or one that is no JSON. The `details` of an event are
typed by its kind, with the members that are read; a bucket that is missing is an empty
one. Left out is what no modelled field depends on: the memory, the signal, the
calibrations, the tick count and the budget.
-/

namespace ClawHarder.EventLog

open PyText (lit)
open Policy (GovernanceProfile)

structure TraitConfig where
  mutable : Bool := true
  merge : Bool := false

def identityTraitConfig : List (PyText × TraitConfig) := [
  (lit "name", { mutable := false }),
  (lit "purpose", {}),
  (lit "core_directive", {}),
  (lit "voice_style", { merge := true }),
  (lit "voice_avoid", { merge := true }),
  (lit "values", { merge := true }),
  (lit "constraints", { merge := true }),
  (lit "reinforced_symbols", { merge := true }),
  (lit "loop_count", {})]

/-- `IDENTITY_TRAIT_CONFIG.get(trait, {})`, whose `get`s have these defaults -/
def traitConfig (trait : PyText) : TraitConfig := (identityTraitConfig.lookup trait).getD {}

def validateIdentityTrait (trait : PyText) : Bool := (identityTraitConfig.lookup trait).isSome

/-- The traits that `normalize_identity_value` makes a list of. -/
def listTraits : List PyText :=
  [lit "values", lit "voice_style", lit "voice_avoid", lit "constraints"]

section Merge

variable (b : PyBuiltins)

/-- The texts of a value, stripped, without the empty ones. -/
def listItems : PyValue → List PyText
  | .str t => ((t.splitOn (PyText.codePoint ',')).map PyText.strip).filter (· ≠ [])
  | .list items => (items.map fun v => PyText.strip (Py.str b v)).filter (· ≠ [])
  | _ => []

def normalizeIdentityValue (trait : PyText) (value : PyValue) : PyValue :=
  if trait ∈ listTraits then .list ((listItems b value).map .str)
  else .str (PyText.strip (Py.str b value))

/-- `list(normalize_identity_value(trait, value))`: a text gives its characters. -/
def normalizedItems (trait : PyText) (value : PyValue) : List PyText :=
  if trait ∈ listTraits then listItems b value
  else (PyText.strip (Py.str b value)).map fun c => [c]

/-- `if val not in combined: combined.append(val)` -/
def combine (combined : List PyText) (val : PyText) : List PyText :=
  if val ∈ combined then combined else combined ++ [val]

def mergeIdentityTrait (trait : PyText) (existing new : PyValue) : PyValue :=
  if (traitConfig trait).merge then
    .list (((normalizedItems b trait new).foldl combine (normalizedItems b trait existing)).map .str)
  else if (traitConfig trait).mutable then normalizeIdentityValue b trait new
  else existing

end Merge

/-- An item of an identity bucket. -/
structure IdentityItem where
  id : Option PyText := none
  type : Option PyText := none
  content : Option PyValue := none
  confidence : Option ℚ := none
  updatedAt : Option ℚ := none
  sourceRefs : List PyText := []
  /-- the members that a replay does not read -/
  others : PyDict := []

/-- The kinds that are read, with their details. -/
inductive EventBody where
  | policyEngineMode (mode : PyText)
  | operatorAuthority (authority : PyText)
  /-- `execution_mode`, if it is a text, else `tool_use_enabled` -/
  | executionMode (mode : Option PyText) (toolUseEnabled : Option Bool)
  | killswitchEngaged (reason : PyText)
  | killswitchReleased
  /-- no item is a missing or an empty one -/
  | identityProposed (type : Option PyText) (item : Option IdentityItem)
  | identityConfirmed (type : Option PyText) (item : Option IdentityItem)
  | identityEdited (type id : Option PyText) (content : Option PyValue) (updatedAt : Option ℚ)
  | identityDeleted (type id : Option PyText)
  | other (kind : PyText)

structure Event where
  runId : PyText := []
  cycle : ℤ := 0
  seq : ℤ := 0
  module : PyText := []
  timestamp : ℚ := 0
  body : EventBody

/-- A line of the file: its event, if it is one. -/
abbrev Line := Option Event

/-- `events.sort(key=lambda e: e.get("seq", 0))`; the sort is stable. -/
def sortBySeq (events : List Event) : List Event :=
  events.insertionSort fun e e' => e.seq ≤ e'.seq

def loadEvents (lines : List Line) : List Event := sortBySeq (lines.filterMap id)

/-- `lines[start:]` -/
def sliceFrom {α : Type} (lines : List α) (start : ℤ) : List α :=
  if start < 0 then lines.drop (lines.length - start.natAbs) else lines.drop start.natAbs

/-- `trim_event_log`, on the lines -/
def trimEventLog (lines : List Line) (maxLines : ℤ) : List Line :=
  if (lines.length : ℤ) ≤ maxLines then lines else sliceFrom lines (-maxLines)

/-- What the modelled events are projected to. -/
structure RuntimeState where
  governance : GovernanceProfile := {}
  executionMode : PyText := lit "plan"
  killswitchEngaged : Bool := false
  killswitchReason : PyText := []
  memoryBuckets : PyText → List IdentityItem := fun _ => []

section Apply

variable (b : PyBuiltins)

/-- A confirmed item joins the bucket of its type. -/
def confirmItem (type : PyText) (bucket : List IdentityItem) (item : IdentityItem) :
    List IdentityItem :=
  match bucket with
  | [] => [item]
  | node :: rest =>
    { node with
      content := some (mergeIdentityTrait b type (node.content.getD .none)
        (item.content.getD .none))
      confidence := some (max (node.confidence.getD 0) (item.confidence.getD 0))
      updatedAt := item.updatedAt.or node.updatedAt
      sourceRefs := node.sourceRefs ++ item.sourceRefs } :: rest

/-- An edit of the first item of the bucket with the id. -/
def editItem (id : Option PyText) (content : Option PyValue) (updatedAt : Option ℚ) :
    List IdentityItem → List IdentityItem
  | [] => []
  | node :: rest =>
    if node.id = id then
      { node with
        content := content.or node.content
        updatedAt := updatedAt.or node.updatedAt } :: rest
    else node :: editItem id content updatedAt rest

def deleteItem (id : Option PyText) (bucket : List IdentityItem) : List IdentityItem :=
  bucket.filter fun n => n.id ≠ id

/-- What an event does to the bucket of a type. -/
def applyToBucket (type : PyText) (bucket : List IdentityItem) : EventBody → List IdentityItem
  | .identityConfirmed type' (some item) =>
    if type'.or item.type = some type ∧ type ≠ [] ∧ validateIdentityTrait type then
      confirmItem b type bucket item
    else bucket
  | .identityEdited type' id content updatedAt =>
    if type' = some type then editItem id content updatedAt bucket else bucket
  | .identityDeleted type' id => if type' = some type then deleteItem id bucket else bucket
  | _ => bucket

/-- The execution mode that an event sets. -/
def executionModeSet : EventBody → Option PyText
  | .executionMode (some mode) _ =>
    let lowered := RuntimeCore.lowerWord (PyText.strip mode)
    if lowered = lit "execute" ∨ lowered = lit "plan" then some lowered else none
  | .executionMode none enabled =>
    enabled.map fun on => if on then lit "execute" else lit "plan"
  | .killswitchEngaged _ => some (lit "plan")
  | _ => none

def applyEvent (s : RuntimeState) (e : Event) : RuntimeState :=
  match e.body with
  | .policyEngineMode mode =>
    if mode = [] then s
    else { s with governance := .forMode mode s.governance.operatorAuthority }
  | .operatorAuthority authority =>
    if authority = [] then s
    else { s with governance := { s.governance with operatorAuthority := authority } }
  | .executionMode mode enabled =>
    { s with executionMode := (executionModeSet (.executionMode mode enabled)).getD s.executionMode }
  | .killswitchEngaged reason =>
    { s with killswitchEngaged := true, killswitchReason := reason, executionMode := lit "plan" }
  | .killswitchReleased => { s with killswitchEngaged := false, killswitchReason := [] }
  | body => { s with memoryBuckets := fun type => applyToBucket b type (s.memoryBuckets type) body }

def replay (lines : List Line) : RuntimeState := (loadEvents lines).foldl (applyEvent b) {}

end Apply

/-- The events of one process; its counter has been at `seq`. -/
def emitAll (seq : ℤ) : List Event → List Event
  | [] => []
  | e :: events => { e with seq := seq + 1 } :: emitAll (seq + 1) events

/-- What successive processes append; the counter of each starts at zero. -/
def appended (runs : List (List Event)) : List Event := runs.flatMap (emitAll 0)

/-- The log of successive processes. -/
def logOf (runs : List (List Event)) : List Line := (appended runs).map some

end ClawHarder.EventLog
