import ClawHarder.Spec.Manifest

/-!
# The arbitration engine

`arbitration.ts`: which of the five outcomes a new observation has, the effect of
a converging observation, and the summaries that a changed fact makes stale.
-/

namespace ClawHarder

variable {N : Type} [JsNumber N]

/-- Confidence delta required for one observation to supersede another. -/
def CONFIDENCE_SUPERIORITY_THRESHOLD : N := 0.15

/-- Confidence bonus of one convergent observation. -/
def CONVERGENCE_BONUS : N := 0.02

def CONFIDENCE_MAX : N := 1.0

/-- One turn of the loop of `findAuthoritativeFact`. -/
def preferFact (manifest : Manifest N) (best : Option (Fact N)) (id : FactId) : Option (Fact N) :=
  match manifest.facts.get? id with
  | none => best
  | some fact =>
    if fact.state = .archived ∨ fact.state = .invalidated then best
    else
      match best with
      | none => some fact
      | some b =>
        -- prefer active over the rest; among equal states, the higher confidence
        if (fact.state = .active ∧ b.state ≠ .active) ∨
            (fact.state = b.state ∧ b.confidence < fact.confidence) then some fact
        else some b

def findAuthoritativeFact (ids : OrderedSet FactId) (manifest : Manifest N) : Option (Fact N) :=
  ids.foldl (preferFact manifest) none

/-- The observation that arbitration sees. -/
structure Incoming (N : Type) where
  factHash : String
  identityKey : String
  confidence : N
  source : String

/-- What to do with a new observation. -/
def arbitrate (incoming : Incoming N) (manifest : Manifest N) (indexes : ManifestIndexes) :
    ArbitrationDecision :=
  let existingIds := indexes.factsByIdentityKey.bucket incoming.identityKey
  if existingIds = [] then .new "No existing fact with this identity_key."
  else
    match findAuthoritativeFact existingIds manifest with
    | none => .new "All prior facts for this identity_key are retired."
    | some authoritative =>
      let threshold : N := CONFIDENCE_SUPERIORITY_THRESHOLD
      let delta := incoming.confidence - authoritative.confidence
      let fixed (n : N) := JsNumber.toFixed2 n
      if incoming.factHash = authoritative.factHash then
        .converge authoritative.factId
          "Identical value already observed (hash match). Strengthening confidence via convergence."
      else if threshold ≤ delta then
        .supersede authoritative.factId
          ("Incoming confidence " ++ fixed incoming.confidence ++ " exceeds existing " ++
            fixed authoritative.confidence ++ " by " ++ fixed delta ++ " (threshold: " ++
            JsNumber.toText threshold ++ "). Superseding.")
      else if threshold ≤ -delta then
        .reject authoritative.factId
          ("Existing confidence " ++ fixed authoritative.confidence ++ " exceeds incoming " ++
            fixed incoming.confidence ++ " by " ++ fixed (-delta) ++ " (threshold: " ++
            JsNumber.toText threshold ++
            "). Rejecting incoming. Recording as superseded for lineage.")
      else
        .conflict authoritative.factId
          ("Confidence delta " ++ fixed (max delta (-delta)) ++
            " is below superiority threshold " ++ JsNumber.toText threshold ++ ". Sources \"" ++
            authoritative.source ++ "\" and \"" ++ incoming.source ++
            "\" disagree. Marking both as conflicted.")

/-- A converging observation: one more sighting, one more source, the bonus. -/
def applyConvergence (existing : Fact N) (incomingSource now : String) : Fact N :=
  { existing with
    confidence := min CONFIDENCE_MAX (existing.confidence + CONVERGENCE_BONUS)
    observations :=
      { existing.observations with
        lastSeen := now
        observationCount := existing.observations.observationCount + 1 }
    supportingSources := OrderedSet.ofList (existing.supportingSources ++ [incomingSource]) }

/-- The summaries that depend on a fact. -/
def collectStaleSummaries (factId : FactId) (indexes : ManifestIndexes) : OrderedSet SummaryId :=
  indexes.summaryDeps.bucket factId

end ClawHarder
