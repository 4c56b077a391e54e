import ClawHarder.Spec.Manifest

/-!
# Building and validating the indexes

`indexing.ts`: `buildIndexes` derives every index from the manifest; it runs on
load. `validateIndexes` checks them against the manifest and returns its errors
(the warnings, which `load` ignores, are left out).
-/

namespace ClawHarder

variable {N : Type}

def ManifestIndexes.empty : ManifestIndexes where
  factsByType := .empty
  factsByIdentityKey := .empty
  factsBySource := .empty
  refsBySource := .empty
  summaryDeps := .empty
  activeFacts := []
  conflictedFacts := []

/-- Add a fact to every index. -/
def indexFact (indexes : ManifestIndexes) (fact : Fact N) : ManifestIndexes :=
  { indexes with
    factsByType := indexes.factsByType.add fact.type fact.factId
    factsByIdentityKey := indexes.factsByIdentityKey.add fact.identityKey fact.factId
    factsBySource := indexes.factsBySource.add fact.source fact.factId
    activeFacts :=
      if fact.state = .active then indexes.activeFacts.add fact.factId else indexes.activeFacts
    conflictedFacts :=
      if fact.state = .conflicted then indexes.conflictedFacts.add fact.factId
      else indexes.conflictedFacts }

def indexReference (indexes : ManifestIndexes) (ref : Reference) : ManifestIndexes :=
  { indexes with refsBySource := indexes.refsBySource.add ref.source ref.refId }

/-- Register a summary's dependencies. -/
def indexSummaryDeps (indexes : ManifestIndexes) (summaryId : SummaryId)
    (sourceFactIds : List FactId) : ManifestIndexes :=
  { indexes with
    summaryDeps := sourceFactIds.foldl (fun deps fid => deps.add fid summaryId)
      indexes.summaryDeps }

def buildIndexes (manifest : Manifest N) : ManifestIndexes :=
  let indexes := manifest.facts.values.foldl indexFact .empty
  let indexes := manifest.references.values.foldl indexReference indexes
  manifest.summaries.values.foldl
    (fun indexes s => indexSummaryDeps indexes s.summaryId s.sourceFactIds) indexes

def FactState.name : FactState → String
  | .active => "active"
  | .archived => "archived"
  | .superseded => "superseded"
  | .invalidated => "invalidated"
  | .conflicted => "conflicted"

/-- The errors of one state set: each id must name a fact in that state. -/
def stateSetErrors (manifest : Manifest N) (setName : String) (state : FactState)
    (ids : List FactId) : List String :=
  ids.flatMap fun fid =>
    match manifest.facts.get? fid with
    | none => [setName ++ " contains " ++ fid ++ " which is not in manifest.facts"]
    | some fact =>
      if fact.state ≠ state then
        [setName ++ " contains " ++ fid ++ " but manifest state is \"" ++ fact.state.name ++ "\""]
      else []

/-- The errors of `validateIndexes`; the indexes are consistent when there is none. -/
def validateIndexes (manifest : Manifest N) (indexes : ManifestIndexes) : List String :=
  (indexes.factsByType.entries.flatMap fun bucket =>
    bucket.2.flatMap fun fid =>
      if manifest.facts.contains fid then []
      else ["facts_by_type[" ++ bucket.1 ++ "] contains " ++ fid ++
        " which is not in manifest.facts"]) ++
  (manifest.facts.entries.flatMap fun entry =>
    if entry.1 ∈ indexes.factsByType.bucket entry.2.type then []
    else ["manifest.facts[" ++ entry.1 ++ "] not found in facts_by_type[" ++ entry.2.type ++ "]"]) ++
  stateSetErrors manifest "active_facts" .active indexes.activeFacts ++
  stateSetErrors manifest "conflicted_facts" .conflicted indexes.conflictedFacts ++
  (manifest.facts.entries.flatMap fun entry =>
    (if entry.2.state = .active ∧ entry.1 ∉ indexes.activeFacts then
      ["manifest.facts[" ++ entry.1 ++ "] is active but missing from active_facts index"]
    else []) ++
    (if entry.2.state = .conflicted ∧ entry.1 ∉ indexes.conflictedFacts then
      ["manifest.facts[" ++ entry.1 ++ "] is conflicted but missing from conflicted_facts index"]
    else [])) ++
  (indexes.refsBySource.entries.flatMap fun bucket =>
    bucket.2.flatMap fun rid =>
      if manifest.references.contains rid then []
      else ["refs_by_source[" ++ bucket.1 ++ "] contains " ++ rid ++
        " which is not in manifest.references"])

end ClawHarder
