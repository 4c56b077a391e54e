import ClawHarder.Spec.Identity
import ClawHarder.Spec.Indexing

/-!
# Loading and committing the manifest file

`persistence.ts`. The disk holds the manifest file and the artifacts. `load`
checks the schema version, the integrity hash, the lineage and the artifacts
before it exposes anything; `commit` compares the revision on disk with the
expected one and replaces the file. File-system failures are parameters (`Io`).
The steps of a commit that other writers can come between are in
`Spec.CommitRace`.
-/

namespace ClawHarder

variable {N : Type}

/-- What `JSON.parse` finds in the manifest file. -/
inductive ManifestFile (N : Type) where
  /-- not JSON -/
  | garbled
  /-- JSON with another schema version -/
  | other (schemaVersion : String) (revision : Option ℤ)
  | manifest (m : Manifest N)

structure Disk (N : Type) where
  manifestPath : String
  artifactsDir : String
  manifestFile : Option (ManifestFile N)
  /-- the artifact files, by path -/
  artifacts : OrderedMap String Content

/-- The failures of the file system during one call. -/
structure Io where
  readFails : Bool := false
  writeFails : Bool := false

/-- How much of `Env` has been used, and the module-level counters. -/
structure Sys where
  clockReads : ℕ := 0
  shortIds : ℕ := 0
  opSeq : ℕ := 0
  opCounter : ℕ := 0

def jsonStrings (xs : List String) : Json N := .arr (xs.map .str)

def jsonNat [JsNumber N] (n : ℕ) : Json N := .num (OfScientific.ofScientific n false 0)

def jsonInt [JsNumber N] (n : ℤ) : Json N :=
  if 0 ≤ n then jsonNat n.natAbs
  else .num (-(OfScientific.ofScientific n.natAbs false 0 : N))

/-- A member that is left out when undefined. -/
def optional (key : String) (v : Option (Json N)) : List (String × Json N) :=
  v.toList.map fun j => (key, j)

def SummaryState.name : SummaryState → String
  | .active => "active"
  | .superseded => "superseded"
  | .archived => "archived"

def Fact.toJson [JsNumber N] (f : Fact N) : Json N :=
  .obj ([("fact_id", .str f.factId), ("fact_hash", .str f.factHash), ("type", .str f.type),
    ("value", .obj f.value), ("identity_key", .str f.identityKey), ("confidence", .num f.confidence),
    ("source", .str f.source), ("derived_from", jsonStrings f.derivedFrom)] ++
    optional "supersedes" (f.supersedes.map .str) ++
    optional "merged_from" (f.mergedFrom.map jsonStrings) ++
    [("state", .str f.state.name), ("created_at", .str f.createdAt),
    ("observations", .obj [("first_seen", .str f.observations.firstSeen),
      ("last_seen", .str f.observations.lastSeen),
      ("observation_count", jsonNat f.observations.observationCount)]),
    ("supporting_sources", jsonStrings f.supportingSources),
    ("discovery_index", jsonNat f.discoveryIndex)])

def Reference.toJson [JsNumber N] (r : Reference) : Json N :=
  .obj [("ref_id", .str r.refId), ("source", .str r.source), ("label", .str r.label),
    ("path", .str r.path), ("content_hash", .str r.contentHash),
    ("line_count", jsonNat r.lineCount), ("byte_size", jsonNat r.byteSize),
    ("created_at", .str r.createdAt), ("related_fact_ids", jsonStrings r.relatedFactIds)]

def Summary.toJson (s : Summary N) : Json N :=
  .obj [("summary_id", .str s.summaryId), ("type", .str s.type), ("scope", .str s.scope),
    ("state", .str s.state.name), ("stale", .bool s.stale), ("confidence", .num s.confidence),
    ("generated_at", .str s.generatedAt), ("source_fact_ids", jsonStrings s.sourceFactIds),
    ("source_ref_ids", jsonStrings s.sourceRefIds), ("key_points", jsonStrings s.keyPoints),
    ("conflicts", jsonStrings s.conflicts),
    ("recommended_next_actions", jsonStrings s.recommendedNextActions)]

/-- The hashed part of a manifest: everything but `integrity_hash` and `operations`. -/
def Manifest.stateJson [JsNumber N] (m : Manifest N) : Json N :=
  .obj [("schema_version", .str "1.0"), ("revision", jsonInt m.revision),
    ("created_at", .str m.createdAt), ("updated_at", .str m.updatedAt),
    ("facts", .obj (m.facts.entries.map fun e => (e.1, e.2.toJson))),
    ("references", .obj (m.references.entries.map fun e => (e.1, e.2.toJson))),
    ("summaries", .obj (m.summaries.entries.map fun e => (e.1, e.2.toJson))),
    ("last_fact_index", jsonNat m.lastFactIndex)]

def computeIntegrityHash [JsNumber N] (E : Env N) (manifest : Manifest N) : String :=
  E.sha256 (canonicalJson manifest.stateJson)

/-- The errors of `validateLineage`: ids that name no fact or reference. -/
def validateLineage (manifest : Manifest N) : List String :=
  (manifest.facts.values.flatMap fun fact =>
    (fact.derivedFrom.flatMap fun parentId =>
      if manifest.facts.contains parentId then []
      else ["Fact " ++ fact.factId ++ ": derived_from refs unknown " ++ parentId]) ++
    (fact.supersedes.toList.flatMap fun id =>
      if manifest.facts.contains id then []
      else ["Fact " ++ fact.factId ++ ": supersedes refs unknown " ++ id]) ++
    ((fact.mergedFrom.getD []).flatMap fun mergedId =>
      if manifest.facts.contains mergedId then []
      else ["Fact " ++ fact.factId ++ ": merged_from refs unknown " ++ mergedId])) ++
  (manifest.summaries.values.flatMap fun summary =>
    (summary.sourceFactIds.flatMap fun fid =>
      if manifest.facts.contains fid then []
      else ["Summary " ++ summary.summaryId ++ ": source_fact_ids refs unknown " ++ fid]) ++
    (summary.sourceRefIds.flatMap fun rid =>
      if manifest.references.contains rid then []
      else ["Summary " ++ summary.summaryId ++ ": source_ref_ids refs unknown " ++ rid]))

/-- The errors of `validateRefs`: references whose artifact is not on disk. -/
def validateRefs (disk : Disk N) (manifest : Manifest N) : List String :=
  manifest.references.values.flatMap fun ref =>
    if disk.artifacts.contains ref.path then []
    else ["Orphan ref " ++ ref.refId ++ ": artifact not found at " ++ ref.path]

inductive LoadFailureReason where
  | notFound
  | parseError
  | schemaMismatch
  | integrityFailure
  | lineageError
  | orphanRef
  | ioError
  deriving DecidableEq, Repr

def LoadFailureReason.name : LoadFailureReason → String
  | .notFound => "not_found"
  | .parseError => "parse_error"
  | .schemaMismatch => "schema_mismatch"
  | .integrityFailure => "integrity_failure"
  | .lineageError => "lineage_error"
  | .orphanRef => "orphan_ref"
  | .ioError => "io_error"

inductive LoadResult (N : Type) where
  | ok (manifest : Manifest N) (indexes : ManifestIndexes)
  | failed (reason : LoadFailureReason) (detail : String)

def joinErrors (errors : List String) : String := String.intercalate "; " errors

/-- The checks of `load` on a parsed manifest. -/
def loadManifest [JsNumber N] (E : Env N) (disk : Disk N) (manifest : Manifest N) :
    LoadResult N :=
  let expected := computeIntegrityHash E manifest
  if expected ≠ manifest.integrityHash then
    .failed .integrityFailure ("Integrity hash mismatch. Expected " ++ expected ++ ", stored " ++
      manifest.integrityHash)
  else if validateLineage manifest ≠ [] then
    .failed .lineageError (joinErrors (validateLineage manifest))
  else if validateRefs disk manifest ≠ [] then
    .failed .orphanRef (joinErrors (validateRefs disk manifest))
  else
    let indexes := buildIndexes manifest
    if validateIndexes manifest indexes ≠ [] then
      .failed .lineageError ("Index validation failed (bug in buildIndexes): " ++
        joinErrors (validateIndexes manifest indexes))
    else .ok manifest indexes

def load [JsNumber N] (E : Env N) (io : Io) (disk : Disk N) : LoadResult N :=
  match disk.manifestFile with
  | none => .failed .notFound disk.manifestPath
  | some file =>
    if io.readFails then .failed .ioError "readFile failed"
    else
      match file with
      | .garbled => .failed .parseError "Invalid JSON"
      | .other v _ => .failed .schemaMismatch ("Expected schema_version \"1.0\", got: " ++ v)
      | .manifest m => loadManifest E disk m

inductive CommitFailureReason where
  | revisionConflict
  | validationError
  | ioError
  deriving DecidableEq, Repr

inductive CommitResult where
  | ok (revision : ℤ) (integrityHash : String)
  | failed (reason : CommitFailureReason) (detail : String)
  deriving DecidableEq

def padStart (width : ℕ) (s : String) : String :=
  String.ofList (List.replicate (width - s.length) '0' ++ s.toList)

/-- `OP_<millis>_<counter>` -/
def opIdOf (now : Instant) (counter : ℕ) : String :=
  "OP_" ++ toString now.millis ++ "_" ++ padStart 4 (toString counter)

def makeOperation (E : Env N) (sys : Sys) (type : OperationType) (actor : String)
    (revisionBefore revisionAfter : ℤ) (metadata : List (String × Json N)) : Operation N × Sys :=
  let opCounter := sys.opCounter + 1
  ({ opId := opIdOf (E.clock sys.clockReads) opCounter
     type, actor
     timestamp := (E.clock (sys.clockReads + 1)).iso
     revisionBefore, revisionAfter, metadata },
   { sys with clockReads := sys.clockReads + 2, opCounter })

/-- The revision on disk, `-1` when there is no file; `none` when it cannot be read. -/
def readRevision (io : Io) (disk : Disk N) : Option ℤ :=
  match disk.manifestFile with
  | none => some (-1)
  | some file =>
    if io.readFails then none
    else
      match file with
      | .garbled => none
      | .other _ revision => revision
      | .manifest m => some m.revision

/-- The manifest that a commit at `diskRevision` writes. -/
def nextManifest [JsNumber N] (E : Env N) (sys : Sys) (actor : String) (manifest : Manifest N)
    (diskRevision : ℤ) : Manifest N × Sys :=
  let now := (E.clock sys.clockReads).iso
  let sys := { sys with clockReads := sys.clockReads + 1 }
  let (commitOp, sys) := makeOperation E sys .manifestCommitted actor diskRevision
    (diskRevision + 1) [("ts", .str now)]
  let next := { manifest with
    revision := diskRevision + 1
    updatedAt := now
    operations := manifest.operations ++ [commitOp]
    integrityHash := "" }
  ({ next with integrityHash := computeIntegrityHash E next }, sys)

/-- `commit`, with the disk and the counters after it. -/
def commit [JsNumber N] (E : Env N) (io : Io) (actor : String) (manifest : Manifest N)
    (expectedRevision : ℤ) (disk : Disk N) (sys : Sys) : CommitResult × Disk N × Sys :=
  match readRevision io disk with
  | none => (.failed .ioError "Could not read current revision", disk, sys)
  | some diskRevision =>
    if diskRevision ≠ expectedRevision then
      (.failed .revisionConflict ("Expected revision " ++ toString expectedRevision ++
        ", disk has " ++ toString diskRevision ++ ". Reload and replan."), disk, sys)
    else
      let (final, sys) := nextManifest E sys actor manifest diskRevision
      if io.writeFails then (.failed .ioError "Atomic write failed", disk, sys)
      else
        (.ok final.revision final.integrityHash,
          { disk with manifestFile := some (.manifest final) }, sys)

/-- The manifest that `loadOrCreate` makes when there is none. -/
def freshManifest [JsNumber N] (E : Env N) (sys : Sys) (actor sessionId : String) :
    Manifest N × Sys :=
  let now := (E.clock sys.clockReads).iso
  let sys := { sys with clockReads := sys.clockReads + 1 }
  let (op, sys) := makeOperation E sys .manifestLoaded actor 0 0
    [("session_id", .str sessionId), ("event", .str "created")]
  let fresh : Manifest N :=
    { revision := 0, integrityHash := "", createdAt := now, updatedAt := now, facts := .empty,
      references := .empty, summaries := .empty, operations := [op], lastFactIndex := 0 }
  ({ fresh with integrityHash := computeIntegrityHash E fresh }, sys)

/-- `loadOrCreate`; `commitRaw` of a fresh manifest may throw (`none`). -/
def loadOrCreate [JsNumber N] (E : Env N) (io : Io) (actor sessionId : String) (disk : Disk N)
    (sys : Sys) : Option (LoadResult N × Disk N × Sys) :=
  match load E io disk with
  | .failed .notFound _ =>
    let (manifest, sys) := freshManifest E sys actor sessionId
    if io.writeFails then none
    else
      some (.ok manifest (buildIndexes manifest),
        { disk with manifestFile := some (.manifest manifest) }, sys)
  | result => some (result, disk, sys)

/-- The lines of a text: a final newline ends the last one. -/
def lineCount (text : String) : ℕ :=
  let chars := text.toList
  let newlines := chars.count '\n'
  if chars = [] ∨ chars.getLast? = some '\n' then newlines else newlines + 1

def artifactPath (disk : Disk N) (refId : RefId) : String :=
  disk.artifactsDir ++ "/" ++ refId ++ ".artifact"

end ClawHarder
