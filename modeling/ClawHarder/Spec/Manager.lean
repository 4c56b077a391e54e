import ClawHarder.Lib.Run
import ClawHarder.Spec.Arbitration
import ClawHarder.Spec.Persistence

/-!
# The manifest manager

`manifest-manager.ts`, the only mutation boundary of the manifest: `Engine` is a
manager with the disk it is on, and each of its methods is a function on engines.
`Op` is a call of the API with its arguments, `step` its effect, and a session is
a run of `step` from an engine that `managerLoad` returns.

The clock and `randomUUID` are read through counters in `Sys`, in the order in
which the source reads them.
-/

namespace ClawHarder

variable {N : Type}

/-- A manager and its surroundings. -/
structure Engine (N : Type) where
  working : Manifest N
  indexes : ManifestIndexes
  dirty : Bool
  expectedRevision : ℤ
  actor : String
  disk : Disk N
  sys : Sys

/-- Keep the state indexes aligned with a state transition. -/
def alignStates (indexes : ManifestIndexes) (factId : FactId) (previousState newState : FactState) :
    ManifestIndexes :=
  let active := indexes.activeFacts
  let conflicted := indexes.conflictedFacts
  let active := if previousState = .active then OrderedSet.delete active factId else active
  let conflicted :=
    if previousState = .conflicted then OrderedSet.delete conflicted factId else conflicted
  let active := if newState = .active then OrderedSet.add active factId else active
  let conflicted := if newState = .conflicted then OrderedSet.add conflicted factId else conflicted
  { indexes with activeFacts := active, conflictedFacts := conflicted }

/-- Remove a summary's dependency mappings. -/
def unindexSummaryDeps (indexes : ManifestIndexes) (summaryId : SummaryId)
    (sourceFactIds : List FactId) : ManifestIndexes :=
  { indexes with
    summaryDeps := sourceFactIds.foldl (fun deps fid => deps.remove fid summaryId)
      indexes.summaryDeps }

/-- A fact in another state, last seen now. -/
def Fact.moved (fact : Fact N) (newState : FactState) (now : String) : Fact N :=
  { fact with state := newState, observations := { fact.observations with lastSeen := now } }

/-- Is the outcome one that `proposeRefinement` overrides? -/
def Outcome.forced (outcome : Outcome) : Bool := outcome ≠ .supersede && outcome ≠ .new

namespace Engine

/-- One reading of the clock. -/
def now (E : Env N) (s : Engine N) : String × Engine N :=
  ((E.clock s.sys.clockReads).iso,
    { s with sys := { s.sys with clockReads := s.sys.clockReads + 1 } })

/-- `shortId()` -/
def nextShortId (E : Env N) (s : Engine N) : String × Engine N :=
  (E.shortId s.sys.shortIds, { s with sys := { s.sys with shortIds := s.sys.shortIds + 1 } })

def recordOp (E : Env N) (type : OperationType) (metadata : List (String × Json N))
    (s : Engine N) : Engine N :=
  let opSeq := s.sys.opSeq + 1
  let op : Operation N :=
    { opId := opIdOf (E.clock s.sys.clockReads) opSeq
      type
      actor := s.actor
      timestamp := (E.clock (s.sys.clockReads + 1)).iso
      revisionBefore := s.working.revision
      revisionAfter := s.working.revision
      metadata }
  { s with
    working := { s.working with operations := s.working.operations ++ [op] }
    sys := { s.sys with clockReads := s.sys.clockReads + 2, opSeq } }

def setFact (id : FactId) (fact : Fact N) (s : Engine N) : Engine N :=
  { s with working := { s.working with facts := s.working.facts.set id fact } }

def setSummary (id : SummaryId) (summary : Summary N) (s : Engine N) : Engine N :=
  { s with working := { s.working with summaries := s.working.summaries.set id summary } }

def buildFact (E : Env N) (input : AddFactInput N) (identityKey factHash : String)
    (state : FactState) (supersedes : Option FactId) (now : String) (s : Engine N) :
    Fact N × Engine N :=
  let (id, s) := s.nextShortId E
  let discoveryIndex := s.working.lastFactIndex + 1
  ({ factId := "FACT_" ++ id
     factHash
     type := input.type
     value := input.value
     identityKey
     confidence := input.confidence
     source := input.source
     derivedFrom := input.derivedFrom.getD []
     supersedes
     mergedFrom := none
     state
     createdAt := now
     observations := { firstSeen := now, lastSeen := now, observationCount := 1 }
     supportingSources := input.source :: input.supportingSources.getD []
     discoveryIndex },
   { s with working := { s.working with lastFactIndex := discoveryIndex } })

def updateIndexesForFact (fact : Fact N) (s : Engine N) : Engine N :=
  { s with indexes := indexFact s.indexes fact }

def insertFact (fact : Fact N) (s : Engine N) : Engine N :=
  { (s.setFact fact.factId fact).updateIndexesForFact fact with dirty := true }

def transitionFact (factId : FactId) (newState : FactState) (now : String) (s : Engine N) :
    Engine N :=
  match s.working.facts.get? factId with
  | none => s
  | some fact =>
    { s.setFact factId (fact.moved newState now) with
      indexes := alignStates s.indexes factId fact.state newState
      dirty := true }

/-- One turn of the loop of `propagateStaleness`. -/
def markStale (E : Env N) (factId : FactId) (s : Engine N) (sid : SummaryId) : Engine N :=
  match s.working.summaries.get? sid with
  | none => s
  | some summary =>
    if summary.stale then s
    else
      (s.setSummary sid { summary with stale := true }).recordOp E .summaryStaled
        [("summary_id", .str sid), ("triggered_by_fact", .str factId)]

def propagateStaleness (E : Env N) (factId : FactId) (s : Engine N) : Engine N :=
  (collectStaleSummaries factId s.indexes).foldl (markStale E factId) s

def decisionJson : ArbitrationDecision → Json N
  | .new reason => .obj [("outcome", .str "new"), ("reason", .str reason)]
  | .converge id reason =>
    .obj [("outcome", .str "converge"), ("existing_id", .str id), ("reason", .str reason)]
  | .supersede id reason =>
    .obj [("outcome", .str "supersede"), ("existing_id", .str id), ("reason", .str reason)]
  | .conflict id reason =>
    .obj [("outcome", .str "conflict"), ("existing_id", .str id), ("reason", .str reason)]
  | .reject id reason =>
    .obj [("outcome", .str "reject"), ("existing_id", .str id), ("reason", .str reason)]

/-- What arbitration sees of an input. -/
def candidate [JsNumber N] (E : Env N) (input : AddFactInput N) : Incoming N where
  factHash := deriveFactHash E input.type input.value
  identityKey := deriveIdentityKey E input.type input.value
  confidence := input.confidence
  source := input.source

/-- The verdict of `addFact` on an input. -/
def decision [JsNumber N] (E : Env N) (input : AddFactInput N) (s : Engine N) :
    ArbitrationDecision :=
  arbitrate (candidate E input) s.working s.indexes

/-- The observations of an existing fact, after one more sighting. -/
def strengthen [JsNumber N] (id : FactId) (source now : String) (s : Engine N) : Engine N :=
  match s.working.facts.get? id with
  | none => s -- not reached: the id of a verdict names a fact
  | some existing => s.setFact existing.factId (applyConvergence existing source now)

/-- `addFact`: the verdict and the id of the fact that now carries the observation. -/
def addFact [JsNumber N] (E : Env N) (input : AddFactInput N) (s : Engine N) :
    ArbitrationDecision × FactId × Engine N :=
  let identityKey := deriveIdentityKey E input.type input.value
  let factHash := deriveFactHash E input.type input.value
  let decision := s.decision E input
  let (now, s) := s.now E
  match decision with
  | .new _ =>
    let (fact, s) := s.buildFact E input identityKey factHash .active none now
    let s := s.insertFact fact
    (decision, fact.factId, s.recordOp E .factAdded
      [("fact_id", .str fact.factId), ("identity_key", .str identityKey),
        ("decision", decisionJson decision)])
  | .converge existingId _ =>
    match s.working.facts.get? existingId with
    | none => (decision, existingId, s) -- not reached: the id of a verdict names a fact
    | some existing =>
      let updated := applyConvergence existing input.source now
      let s := s.setFact existing.factId updated
      (decision, existing.factId, s.recordOp E .factObservationUpdated
        [("fact_id", .str existing.factId), ("identity_key", .str identityKey),
          ("observation_count", jsonNat updated.observations.observationCount),
          ("new_confidence", .num updated.confidence), ("decision", decisionJson decision)])
  | .supersede existingId _ =>
    let (fact, s) := s.buildFact E input identityKey factHash .active none now
    let s := s.insertFact fact
    let s := s.transitionFact existingId .superseded now
    let s := s.propagateStaleness E existingId
    (decision, fact.factId, s.recordOp E .factSuperseded
      [("new_fact_id", .str fact.factId), ("superseded_id", .str existingId),
        ("identity_key", .str identityKey), ("decision", decisionJson decision)])
  | .reject existingId _ =>
    let (fact, s) := s.buildFact E input identityKey factHash .superseded none now
    let s := s.insertFact fact
    let s := s.strengthen existingId input.source now
    (decision, fact.factId, s.recordOp E .factAdded
      [("fact_id", .str fact.factId), ("state", .str "superseded"),
        ("reason", .str "rejected_by_existing"), ("identity_key", .str identityKey),
        ("decision", decisionJson decision)])
  | .conflict existingId _ =>
    let (fact, s) := s.buildFact E input identityKey factHash .conflicted none now
    let s := s.insertFact fact
    let s := s.transitionFact existingId .conflicted now
    let s := s.propagateStaleness E existingId
    let s := { s with indexes :=
      { s.indexes with
        conflictedFacts := OrderedSet.add s.indexes.conflictedFacts fact.factId } }
    (decision, fact.factId, s.recordOp E .factConflicted
      [("new_fact_id", .str fact.factId), ("conflicted_id", .str existingId),
        ("identity_key", .str identityKey), ("decision", decisionJson decision)])

/-- The record of a stored artifact. -/
def makeReference (E : Env N) (input : AddReferenceInput) (refId : RefId) (path now : String) :
    Reference where
  refId
  source := input.source
  label := input.label
  path
  contentHash := E.sha256 input.content.text
  lineCount := lineCount input.content.text
  byteSize := input.content.byteSize
  createdAt := now
  relatedFactIds := input.relatedFactIds.getD []

/-- `addReference`; `storeFails` is a failure of `storeArtifact`. -/
def addReference (E : Env N) (input : AddReferenceInput) (storeFails : Bool) (s : Engine N) :
    Engine N :=
  let (id, s) := s.nextShortId E
  let refId := "REF_" ++ id
  if storeFails then s
  else
    let path := artifactPath s.disk refId
    let s := { s with disk :=
      { s.disk with artifacts := s.disk.artifacts.set path input.content } }
    let (now, s) := s.now E
    let ref := makeReference E input refId path now
    let s := { s with
      working := { s.working with references := s.working.references.set refId ref }
      indexes := indexReference s.indexes ref }
    let s := s.recordOp E .refAdded
      [("ref_id", .str refId), ("source", .str input.source), ("label", .str input.label)]
    { s with dirty := true }

/-- The active summary that a new one of this type and scope replaces. -/
def replacedSummary (type scope : String) (s : Engine N) : Option (Summary N) :=
  s.working.summaries.values.find? fun e =>
    e.type = type ∧ e.scope = scope ∧ e.state = .active

/-- Supersede a summary and remove its dependency mappings. -/
def supersedeSummary (E : Env N) (summaryId : SummaryId) (existing : Summary N) (s : Engine N) :
    Engine N :=
  let s := s.setSummary existing.summaryId { existing with state := .superseded }
  let s := { s with
    indexes := unindexSummaryDeps s.indexes existing.summaryId existing.sourceFactIds }
  s.recordOp E .summarySuperseded
    [("superseded_id", .str existing.summaryId), ("replacement_id", .str summaryId)]

/-- The record of a new summary; its confidence is at most 0.8 while it has conflicts. -/
def makeSummary [JsNumber N] (input : AddSummaryInput N) (summaryId : SummaryId) (now : String) :
    Summary N :=
  let conflicts := input.conflicts.getD []
  { summaryId
    type := input.type
    scope := input.scope
    state := .active
    stale := false
    confidence := if conflicts = [] then input.confidence else min input.confidence 0.8
    generatedAt := now
    sourceFactIds := input.sourceFactIds
    sourceRefIds := input.sourceRefIds.getD []
    keyPoints := input.keyPoints
    conflicts
    recommendedNextActions := input.recommendedNextActions.getD [] }

def addSummary [JsNumber N] (E : Env N) (input : AddSummaryInput N) (s : Engine N) : Engine N :=
  let (id, s) := s.nextShortId E
  let summaryId := "SUM_" ++ id
  let (now, s) := s.now E
  let s :=
    match s.replacedSummary input.type input.scope with
    | none => s
    | some existing => s.supersedeSummary E summaryId existing
  let s := s.setSummary summaryId (makeSummary input summaryId now)
  let s := { s with indexes := indexSummaryDeps s.indexes summaryId input.sourceFactIds }
  let s := s.recordOp E .summaryAdded
    [("summary_id", .str summaryId), ("type", .str input.type), ("scope", .str input.scope)]
  { s with dirty := true }

/-- The result of `proposeRefinement` and `proposeConsolidation`. -/
inductive ProposeResult where
  | ok (newFactId supersededFactId : FactId) (decision : ArbitrationDecision)
  | failed (reason : String)

/-- The part of `proposeRefinement` that overrides arbitration: the new fact is
made active, the target superseded. -/
def forceRefinement (E : Env N) (targetFactId factId : FactId) (s : Engine N) : Engine N :=
  let s :=
    match s.working.facts.get? factId with
    | none => s -- not reached: `addFact` returned the id
    | some newFact => s.setFact factId { newFact with state := .active }
  let s :=
    match s.working.facts.get? targetFactId with
    | none => s
    | some _ =>
      let (now, s) := s.now E
      let s := s.transitionFact targetFactId .superseded now
      s.propagateStaleness E targetFactId
  s.recordOp E .factSuperseded
    [("new_fact_id", .str factId), ("superseded_id", .str targetFactId),
      ("via", .str "propose_refinement"), ("forced", .bool true)]

/-- One turn of the sweep of `proposeRefinement` over the conflicted facts. -/
def sweepConflict (E : Env N) (factId : FactId) (identityKey now : String) (s : Engine N)
    (fid : FactId) : Engine N :=
  if fid = factId then s
  else
    match s.working.facts.get? fid with
    | none => s
    | some f =>
      if f.identityKey = identityKey then
        let s := s.transitionFact fid .superseded now
        let s := s.propagateStaleness E fid
        s.recordOp E .factSuperseded
          [("superseded_id", .str fid), ("via", .str "propose_refinement"),
            ("reason", .str "conflict_resolution")]
      else s

/-- The input that `proposeRefinement` passes to `addFact`. -/
def refinementInput (targetFactId : FactId) (refinement : AddFactInput N) : AddFactInput N :=
  { refinement with derivedFrom := some [targetFactId] }

def proposeRefinement [JsNumber N] (E : Env N) (targetFactId : FactId)
    (refinement : AddFactInput N) (s : Engine N) : ProposeResult × Engine N :=
  match s.working.facts.get? targetFactId with
  | none => (.failed ("Fact " ++ targetFactId ++ " not found."), s)
  | some target =>
    if target.state = .invalidated then
      (.failed ("Cannot refine an invalidated fact (" ++ targetFactId ++ ")."), s)
    else
      let identityKey := target.identityKey
      let (decision, factId, s) := s.addFact E (refinementInput targetFactId refinement)
      let s :=
        if decision.outcome.forced then s.forceRefinement E targetFactId factId else s
      let (now, s) := s.now E
      -- the sweep runs over the conflicted facts as they are here
      (.ok factId targetFactId decision,
        s.indexes.conflictedFacts.foldl (sweepConflict E factId identityKey now) s)

/-- One turn of the loop of `proposeConsolidation` over its sources. -/
def supersedeSource (E : Env N) (now : String) (s : Engine N) (fid : FactId) : Engine N :=
  (s.transitionFact fid .superseded now).propagateStaleness E fid

/-- The sources that the consolidated facts bring. -/
def inheritedSources (sourceFactIds : List FactId) (s : Engine N) : List String :=
  sourceFactIds.flatMap fun fid =>
    match s.working.facts.get? fid with
    | none => []
    | some f => f.source :: f.supportingSources

/-- The record that consolidation creates, with the first `now` as its time. -/
def buildConsolidated [JsNumber N] (E : Env N) (sourceFactIds : List FactId)
    (consolidated : AddFactInput N) (inherited : List String) (now : String) (s : Engine N) :
    Fact N × Engine N :=
  let (id, s) := s.nextShortId E
  let discoveryIndex := s.working.lastFactIndex + 1
  ({ factId := "FACT_" ++ id
     factHash := deriveFactHash E consolidated.type consolidated.value
     type := consolidated.type
     value := consolidated.value
     identityKey := deriveIdentityKey E consolidated.type consolidated.value
     confidence := consolidated.confidence
     source := consolidated.source
     derivedFrom := sourceFactIds
     supersedes := none
     mergedFrom := some sourceFactIds
     state := .active
     createdAt := now
     observations := { firstSeen := now, lastSeen := now, observationCount := 1 }
     supportingSources := OrderedSet.ofList (consolidated.source :: inherited)
     discoveryIndex },
   { s with working := { s.working with lastFactIndex := discoveryIndex } })

def proposeConsolidation [JsNumber N] (E : Env N) (sourceFactIds : List FactId)
    (consolidated : AddFactInput N) (s : Engine N) : ProposeResult × Engine N :=
  match sourceFactIds with
  | first :: _ :: _ =>
    match sourceFactIds.find? fun fid => !s.working.facts.contains fid with
    | some fid => (.failed ("Source fact " ++ fid ++ " not found."), s)
    | none =>
      let inherited := s.inheritedSources sourceFactIds
      let (now, s) := s.now E
      let (fact, s) := s.buildConsolidated E sourceFactIds consolidated inherited now
      let s := (s.setFact fact.factId fact).updateIndexesForFact fact
      let s := sourceFactIds.foldl (supersedeSource E now) s
      let s := s.recordOp E .factConsolidated
        [("consolidated_fact_id", .str fact.factId),
          ("source_fact_ids", jsonStrings sourceFactIds), ("identity_key", .str fact.identityKey)]
      (.ok fact.factId first (.new "Consolidation creates a new authoritative fact."),
        { s with dirty := true })
  | _ => (.failed "Consolidation requires at least 2 source facts.", s)

def supersedeFact (E : Env N) (factId : FactId) (reason : String) (s : Engine N) :
    Except String (Engine N) :=
  match s.working.facts.get? factId with
  | none => .error ("Fact " ++ factId ++ " not found.")
  | some fact =>
    if fact.state = .invalidated then .error "Already invalidated."
    else
      let (now, s) := s.now E
      let s := s.transitionFact factId .superseded now
      let s := s.propagateStaleness E factId
      .ok (s.recordOp E .factSuperseded
        [("fact_id", .str factId), ("reason", .str reason), ("manual", .bool true)])

def invalidateFact (E : Env N) (factId : FactId) (reason : String) (s : Engine N) :
    Except String (Engine N) :=
  match s.working.facts.get? factId with
  | none => .error ("Fact " ++ factId ++ " not found.")
  | some _ =>
    let (now, s) := s.now E
    let s := s.transitionFact factId .invalidated now
    let s := s.propagateStaleness E factId
    let s := { s with indexes :=
      { s.indexes with
        activeFacts := OrderedSet.delete s.indexes.activeFacts factId
        conflictedFacts := OrderedSet.delete s.indexes.conflictedFacts factId } }
    .ok (s.recordOp E .factInvalidated
      [("fact_id", .str factId), ("reason", .str reason), ("invalidated", .bool true)])

def getReference (refId : RefId) (s : Engine N) : Option Reference :=
  s.working.references.get? refId

def commit [JsNumber N] (E : Env N) (io : Io) (s : Engine N) : CommitResult × Engine N :=
  if s.dirty then
    match ClawHarder.commit E io s.actor s.working s.expectedRevision s.disk s.sys with
    | (.ok revision integrityHash, disk, sys) =>
      (.ok revision integrityHash,
        { s with
          working := { s.working with revision, integrityHash }
          expectedRevision := revision
          dirty := false
          disk
          sys })
    | (result, disk, sys) => (result, { s with disk, sys })
  else (.ok s.working.revision s.working.integrityHash, s)

def reload [JsNumber N] (E : Env N) (io : Io) (s : Engine N) : Except String (Engine N) :=
  match load E io s.disk with
  | .failed reason detail => .error ("[" ++ reason.name ++ "] " ++ detail)
  | .ok manifest indexes =>
    let s := { s with
      working := manifest
      indexes
      expectedRevision := manifest.revision
      dirty := false }
    .ok (s.recordOp E .manifestLoaded [("event", .str "reload")])

end Engine

/-- `ManifestManager.load`; it throws (`none`) when the manifest cannot be loaded. -/
def managerLoad [JsNumber N] (E : Env N) (io : Io) (actor : String) (disk : Disk N) (sys : Sys) :
    Option (Engine N) :=
  match loadOrCreate E io actor actor disk sys with
  | some (.ok manifest indexes, disk, sys) =>
    some
      { working := manifest
        indexes
        dirty := false
        expectedRevision := manifest.revision
        actor
        disk
        sys }
  | _ => none

inductive Op (N : Type) where
  | addFact (input : AddFactInput N)
  | addReference (input : AddReferenceInput) (storeFails : Bool)
  | addSummary (input : AddSummaryInput N)
  | proposeRefinement (targetFactId : FactId) (refinement : AddFactInput N)
  | proposeConsolidation (sourceFactIds : List FactId) (consolidated : AddFactInput N)
  | supersedeFact (factId : FactId) (reason : String)
  | invalidateFact (factId : FactId) (reason : String)
  | recordOperation (type : OperationType) (metadata : List (String × Json N))
  | commit (io : Io)
  | reload (io : Io)

/-- The engine after a call; a call that fails leaves it as it was. -/
def step [JsNumber N] (E : Env N) (s : Engine N) : Op N → Engine N
  | .addFact input => (s.addFact E input).2.2
  | .addReference input storeFails => s.addReference E input storeFails
  | .addSummary input => s.addSummary E input
  | .proposeRefinement target refinement => (s.proposeRefinement E target refinement).2
  | .proposeConsolidation sources consolidated => (s.proposeConsolidation E sources consolidated).2
  | .supersedeFact factId reason => (s.supersedeFact E factId reason).toOption.getD s
  | .invalidateFact factId reason => (s.invalidateFact E factId reason).toOption.getD s
  | .recordOperation type metadata => s.recordOp E type metadata
  | .commit io => (s.commit E io).2
  | .reload io => (s.reload E io).toOption.getD s

end ClawHarder
