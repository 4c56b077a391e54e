import Mathlib.Order.Defs.LinearOrder
import Mathlib.Algebra.Order.Ring.Unbundled.Rat
import ClawHarder.Lib.OrderedMap
import ClawHarder.Lib.Json

/-!
# The manifest's data model

The records of `types/manifest.ts`: facts, references, summaries, operations, the
manifest that holds them, and the indexes kept beside it. A fact, a reference and
a summary are filed under a key that the type alone does not tie to the record's
own id; `Manifest.Keyed` says that they agree.

Numbers are a type `N` with `JsNumber N`. What the code computes with them
(comparison, difference, sum) is used through that class only, so every rounding
of JavaScript's doubles is covered.
-/

namespace ClawHarder

/-- What the engine needs of a JavaScript number. Comparison is a linear order
(there is no NaN); addition and subtraction are left open. -/
class JsNumber (N : Type) extends LinearOrder N, Add N, Sub N, Neg N, OfScientific N where
  /-- `String(n)` -/
  toText : N → String
  /-- `n.toFixed(2)` -/
  toFixed2 : N → String

/-- The rationals, with every number printed as its fraction. -/
instance : JsNumber ℚ where
  toText q := toString q
  toFixed2 q := toString q

inductive FactState where
  | active
  | archived
  | superseded
  | invalidated
  | conflicted
  deriving DecidableEq, Repr

/-- `FACT_…`, so never the name of an inherited property. -/
abbrev FactId := String
/-- `REF_…` -/
abbrev RefId := String
/-- `SUM_…` -/
abbrev SummaryId := String

structure FactObservations where
  firstSeen : String
  lastSeen : String
  observationCount : ℕ
  deriving DecidableEq

structure Fact (N : Type) where
  factId : FactId
  factHash : String
  type : String
  value : List (String × Json N)
  identityKey : String
  confidence : N
  source : String
  derivedFrom : List FactId
  supersedes : Option FactId
  mergedFrom : Option (List FactId)
  state : FactState
  createdAt : String
  observations : FactObservations
  supportingSources : List String
  discoveryIndex : ℕ

structure Reference where
  refId : RefId
  source : String
  label : String
  path : String
  contentHash : String
  lineCount : ℕ
  byteSize : ℕ
  createdAt : String
  relatedFactIds : List FactId

inductive SummaryState where
  | active
  | superseded
  | archived
  deriving DecidableEq, Repr

structure Summary (N : Type) where
  summaryId : SummaryId
  type : String
  scope : String
  state : SummaryState
  stale : Bool
  confidence : N
  generatedAt : String
  sourceFactIds : List FactId
  sourceRefIds : List RefId
  keyPoints : List String
  conflicts : List String
  recommendedNextActions : List String

inductive OperationType where
  | factAdded
  | factSuperseded
  | factInvalidated
  | factConflicted
  | factObservationUpdated
  | factConsolidated
  | refAdded
  | summaryAdded
  | summaryStaled
  | summarySuperseded
  | manifestLoaded
  | manifestCommitted
  | revisionConflict
  | recallEvent
  deriving DecidableEq, Repr

structure Operation (N : Type) where
  opId : String
  type : OperationType
  actor : String
  timestamp : String
  revisionBefore : ℤ
  revisionAfter : ℤ
  metadata : List (String × Json N)

/-- The root document. `schema_version` is the literal `"1.0"`. -/
structure Manifest (N : Type) where
  revision : ℤ
  integrityHash : String
  createdAt : String
  updatedAt : String
  facts : OrderedMap FactId (Fact N)
  references : OrderedMap RefId Reference
  summaries : OrderedMap SummaryId (Summary N)
  operations : List (Operation N)
  lastFactIndex : ℕ

/-- Facts and summaries are filed under their own ids. -/
structure Manifest.Keyed {N : Type} (m : Manifest N) : Prop where
  facts : ∀ k f, m.facts.get? k = some f → f.factId = k
  summaries : ∀ k s, m.summaries.get? k = some s → s.summaryId = k

structure ManifestIndexes where
  factsByType : SetMap String FactId
  factsByIdentityKey : SetMap String FactId
  factsBySource : SetMap String FactId
  refsBySource : SetMap String RefId
  summaryDeps : SetMap FactId SummaryId
  activeFacts : OrderedSet FactId
  conflictedFacts : OrderedSet FactId

/-- Equal indexes, up to empty buckets and the order inside a bucket. -/
structure ManifestIndexes.Equiv (a b : ManifestIndexes) : Prop where
  factsByType : a.factsByType.Equiv b.factsByType
  factsByIdentityKey : a.factsByIdentityKey.Equiv b.factsByIdentityKey
  factsBySource : a.factsBySource.Equiv b.factsBySource
  refsBySource : a.refsBySource.Equiv b.refsBySource
  summaryDeps : a.summaryDeps.Equiv b.summaryDeps
  activeFacts : ∀ f, f ∈ a.activeFacts ↔ f ∈ b.activeFacts
  conflictedFacts : ∀ f, f ∈ a.conflictedFacts ↔ f ∈ b.conflictedFacts

structure AddFactInput (N : Type) where
  type : String
  value : List (String × Json N)
  confidence : N
  source : String
  derivedFrom : Option (List FactId) := none
  supportingSources : Option (List String) := none

/-- Artifact content, a string or a buffer: its UTF-8 text and its size in bytes. -/
structure Content where
  text : String
  byteSize : ℕ
  deriving DecidableEq

structure AddReferenceInput where
  source : String
  label : String
  content : Content
  relatedFactIds : Option (List FactId) := none

structure AddSummaryInput (N : Type) where
  type : String
  scope : String
  keyPoints : List String
  conflicts : Option (List String) := none
  recommendedNextActions : Option (List String) := none
  sourceFactIds : List FactId
  sourceRefIds : Option (List RefId) := none
  confidence : N

/-- The arbitration engine's verdict. -/
inductive ArbitrationDecision where
  | new (reason : String)
  | converge (existingId : FactId) (reason : String)
  | supersede (existingId : FactId) (reason : String)
  | conflict (existingId : FactId) (reason : String)
  | reject (existingId : FactId) (reason : String)

inductive Outcome where
  | new
  | converge
  | supersede
  | conflict
  | reject
  deriving DecidableEq, Repr

def ArbitrationDecision.outcome : ArbitrationDecision → Outcome
  | .new _ => .new
  | .converge _ _ => .converge
  | .supersede _ _ => .supersede
  | .conflict _ _ => .conflict
  | .reject _ _ => .reject

/-- `decision.existing_id`, which a verdict of `new` does not have. -/
def ArbitrationDecision.existingId? : ArbitrationDecision → Option FactId
  | .new _ => none
  | .converge id _ => some id
  | .supersede id _ => some id
  | .conflict id _ => some id
  | .reject id _ => some id

end ClawHarder
