import ClawHarder.Lib.OrderedMap
import ClawHarder.Spec.Injection
import ClawHarder.Spec.Persistence

/-!
# Loading whatever the manifest file holds

`load` of `persistence.ts` on any text, before anything is known of the parsed value:
`parsed as Manifest` checks nothing. `none` is an exception, which a property read of
`undefined` or `null`, a loop over what cannot be iterated, a template with an object
that cannot be made a text, and a comparison of buffers of different lengths raise.

An optional value is one that may be `undefined`. What `JSON.parse`, `stat`, SHA-256
and `Buffer.from` do, and what a container inherits, is the host's (`LoadHost`). The
checks are those of `Spec.Persistence` and `Spec.Indexing` on a well-typed manifest.
-/

namespace ClawHarder

namespace AnyManifest

variable {N : Type}

/-- What the loader takes from its surroundings. -/
structure LoadHost (N : Type) where
  /-- `JSON.parse`, which may throw (`none`) -/
  parse : String → Option (Json N)
  /-- the hexadecimal SHA-256 of a text -/
  sha256 : String → String
  /-- Does `stat(path)` find a file? What is no path is not found. -/
  stat : Option (Json N) → Bool
  /-- the bytes of `Buffer.from(v, "utf8")` for a `v` that is no text; it may throw -/
  bufferFrom : Json N → Option (List UInt8)
  /-- Has the value a truthy property of this name besides its entries: one of its
  prototype, or the length of an array? -/
  inherits : Json N → String → Bool

variable [JsNumber N]

omit [JsNumber N] in
/-- `value.name`, for a name that no prototype has. -/
def get (value : Option (Json N)) (name : String) : Option (Option (Json N)) :=
  match value with
  | none => none
  | some .null => none
  | some (.obj members) => some (Json.member? name members)
  | some _ => some none

/-- The text of a value in a template. -/
def text (value : Option (Json N)) : Option String :=
  match value with
  | none => some "undefined"
  | some v => jsText v

omit [JsNumber N] in
/-- `Object.entries(value)`. The single units of a text are read by nothing. -/
def entries (value : Option (Json N)) : Option (List (String × Json N)) :=
  match value with
  | none => none
  | some .null => none
  | some (.obj members) => some members
  | some (.arr items) => some (items.zipIdx.map fun e => (toString e.2, e.1))
  | some (.str s) =>
    some ((utf16 s).zipIdx.map fun e => (toString e.2, .str (String.singleton (Char.ofNat e.1))))
  | some _ => some []

omit [JsNumber N] in
/-- `for (const item of value)`: only texts and arrays are iterated. -/
def iterate (value : Option (Json N)) : Option (List (Json N)) :=
  match value with
  | some (.arr items) => some items
  | some (.str s) => some (s.toList.map fun c => .str (String.singleton c))
  | _ => none

omit [JsNumber N] in
/-- `value ?? []`, iterated -/
def iterateOrNone (value : Option (Json N)) : Option (List (Json N)) :=
  match value with
  | none => some []
  | some .null => some []
  | v => iterate v

omit [JsNumber N] in
/-- `names.has(v)` -/
def has (names : List String) : Json N → Bool
  | .str s => s ∈ names
  | _ => false

def truthy : Json N → Bool
  | .null => false
  | .bool b => b
  | .num n => n ≠ (0.0 : N)
  | .str s => s ≠ ""
  | _ => true

/-- `computeIntegrityHash`, of the members of a manifest -/
def computeIntegrityHash (H : LoadHost N) (members : List (String × Json N)) : String :=
  H.sha256 (canonicalJson (.obj
    (members.filter fun e => e.1 ≠ "integrity_hash" ∧ e.1 ≠ "operations")))

/-- `length === b.length` -/
def lengthIs (length : ℕ) : Json N → Bool
  | .str s => (utf16 s).length = length
  | .arr items => items.length = length
  | .obj members =>
    match Json.member? "length" members with
    | some (.num n) => n = OfScientific.ofScientific length false 0
    | _ => false
  | _ => false

omit [JsNumber N] in
/-- `Buffer.from(b, "utf8")` -/
def buffer (H : LoadHost N) : Json N → Option (List UInt8)
  | .str s => some s.toUTF8.toList
  | b => H.bufferFrom b

/-- `timingSafeEqualStrings`; `timingSafeEqual` throws on buffers of different lengths. -/
def timingSafeEqualStrings (H : LoadHost N) (a : String) (b : Option (Json N)) : Option Bool :=
  match b with
  | none => none
  | some .null => none
  | some b =>
    if lengthIs (utf16 a).length b then do
      let bytes ← buffer H b
      if a.toUTF8.toList.length = bytes.length then some (a.toUTF8.toList = bytes) else none
    else some false

/-- The errors of one list of ids of a fact or summary. -/
def unknownErrors (known : List String) (kind : String) (owner : Option (Json N)) (label : String)
    (ids : List (Json N)) : Option (List String) :=
  (ids.filter fun id => !has known id).mapM fun id => do
    return kind ++ " " ++ (← text owner) ++ ": " ++ label ++ " refs unknown " ++ (← jsText id)

def factErrors (known : List String) (fact : Json N) : Option (List String) := do
  let derived ← iterate (← get (some fact) "derived_from")
  let owner ← get (some fact) "fact_id"
  let fromDerived ← unknownErrors known "Fact" owner "derived_from" derived
  let supersedes ← get (some fact) "supersedes"
  let fromSupersedes ← unknownErrors known "Fact" owner "supersedes" supersedes.toList
  let merged ← iterateOrNone (← get (some fact) "merged_from")
  let fromMerged ← unknownErrors known "Fact" owner "merged_from" merged
  return fromDerived ++ fromSupersedes ++ fromMerged

/-- The errors of one summary. -/
def summaryErrors (knownFacts knownRefs : List String) (summary : Json N) :
    Option (List String) := do
  let owner ← get (some summary) "summary_id"
  let facts ← iterate (← get (some summary) "source_fact_ids")
  let fromFacts ← unknownErrors knownFacts "Summary" owner "source_fact_ids" facts
  let refs ← iterate (← get (some summary) "source_ref_ids")
  let fromRefs ← unknownErrors knownRefs "Summary" owner "source_ref_ids" refs
  return fromFacts ++ fromRefs

def validateLineage (manifest : Json N) : Option (List String) := do
  let facts ← entries (← get (some manifest) "facts")
  let refs ← entries (← get (some manifest) "references")
  let fromFacts ← facts.mapM fun e => factErrors (facts.map Prod.fst) e.2
  let summaries ← entries (← get (some manifest) "summaries")
  let fromSummaries ←
    summaries.mapM fun e => summaryErrors (facts.map Prod.fst) (refs.map Prod.fst) e.2
  return fromFacts.flatten ++ fromSummaries.flatten

/-- The errors of one reference. What `ref.path` throws is caught, and `ref.ref_id`
throws it again. -/
def refErrors (H : LoadHost N) (ref : Json N) : Option (List String) := do
  let path ← get (some ref) "path"
  if H.stat path then return []
  else
    let refId ← get (some ref) "ref_id"
    return ["Orphan ref " ++ (← text refId) ++ ": artifact not found at " ++ (← text path)]

def validateRefs (H : LoadHost N) (manifest : Json N) : Option (List String) := do
  let refs ← entries (← get (some manifest) "references")
  return (← refs.mapM fun e => refErrors H e.2).flatten

/-- A value as a key of a `Map` or an element of a `Set`: an object is the same only as
itself, known by its place, and has the text that a template makes of it. -/
inductive Key (N : Type) where
  | undefined
  | null
  | bool (b : Bool)
  | num (n : N)
  | str (s : String)
  | object (place : ℕ) (text : Option String)
  deriving DecidableEq

def keyOf (place : ℕ) : Option (Json N) → Key N
  | none => .undefined
  | some .null => .null
  | some (.bool b) => .bool b
  | some (.num n) => .num n
  | some (.str s) => .str s
  | some v => .object place (jsText v)

def Key.text : Key N → Option String
  | .undefined => some "undefined"
  | .null => some "null"
  | .bool b => some (if b then "true" else "false")
  | .num n => some (JsNumber.toText n)
  | .str s => some s
  | .object _ text => text

/-- What the indexes hold of a fact. -/
structure FactRow (N : Type) where
  key : String
  factId : Key N
  type : Key N
  state : Option (Json N)

def factRow (e : (String × Json N) × ℕ) : Option (FactRow N) := do
  return {
    key := e.1.1
    factId := keyOf e.2 (← get (some e.1.2) "fact_id")
    type := keyOf e.2 (← get (some e.1.2) "type")
    state := ← get (some e.1.2) "state" }

omit [JsNumber N] in
/-- `fact.state === state` -/
def isState (state : String) : Option (Json N) → Bool
  | some (.str s) => s = state
  | _ => false

/-- What the indexes hold of a reference. -/
structure RefRow (N : Type) where
  source : Key N
  refId : Key N

def refRow (e : (String × Json N) × ℕ) : Option (RefRow N) := do
  return {
    source := keyOf e.2 (← get (some e.1.2) "source")
    refId := keyOf e.2 (← get (some e.1.2) "ref_id") }

/-- The sources of a summary, with the summary's id. -/
def summaryRows (e : (String × Json N) × ℕ) : Option (List (Key N × Key N)) := do
  let ids ← iterate (← get (some e.1.2) "source_fact_ids")
  let summaryId := keyOf e.2 (← get (some e.1.2) "summary_id")
  return ids.map fun id => (keyOf e.2 (some id), summaryId)

/-- The indexes that `validateIndexes` reads. -/
structure Indexes (N : Type) [DecidableEq N] where
  factsByType : SetMap (Key N) (Key N)
  refsBySource : SetMap (Key N) (Key N)
  summaryDeps : SetMap (Key N) (Key N)
  activeFacts : OrderedSet (Key N)
  conflictedFacts : OrderedSet (Key N)

/-- The ids of the facts in a state. -/
def idsIn (state : String) (rows : List (FactRow N)) : OrderedSet (Key N) :=
  OrderedSet.ofList ((rows.filter fun row => isState state row.state).map (·.factId))

def buildIndexes (manifest : Json N) : Option (Indexes N) := do
  let facts ← (← entries (← get (some manifest) "facts")).zipIdx.mapM factRow
  let refs ← (← entries (← get (some manifest) "references")).zipIdx.mapM refRow
  let summaries ← (← entries (← get (some manifest) "summaries")).zipIdx.mapM summaryRows
  return {
    factsByType := facts.foldl (fun map row => map.add row.type row.factId) .empty
    refsBySource := refs.foldl (fun map row => map.add row.source row.refId) .empty
    summaryDeps := summaries.flatten.foldl (fun map row => map.add row.1 row.2) .empty
    activeFacts := idsIn "active" facts
    conflictedFacts := idsIn "conflicted" facts }

/-- What `container[name]` finds. -/
inductive Found (N : Type) where
  | missing
  | own (v : Json N)
  | inherited

omit [JsNumber N] in
/-- `container[name]` -/
def lookup (H : LoadHost N) (container : Option (Json N)) (name : String) : Option (Found N) := do
  let own ← entries container
  match Json.member? name own with
  | some v => return .own v
  | none =>
    return if container.any fun c => H.inherits c name then .inherited else .missing

def Found.truthy : Found N → Bool
  | .missing => false
  | .own v => AnyManifest.truthy v
  | .inherited => true

/-- `found.state`, of what is truthy -/
def Found.state : Found N → Option (Option (Json N))
  | .missing => none
  | .own v => get (some v) "state"
  | .inherited => some none

/-- The errors of one of the two state sets. -/
def stateSetErrors (H : LoadHost N) (facts : Option (Json N)) (setName state : String)
    (ids : OrderedSet (Key N)) : Option (List (List String)) :=
  ids.mapM fun fid => do
    let name ← fid.text
    let found ← lookup H facts name
    if found.truthy then
      let actual ← found.state
      if isState state actual then return []
      else
        return [setName ++ " contains " ++ name ++ " but manifest state is \"" ++
          (← text actual) ++ "\""]
    else return [setName ++ " contains " ++ name ++ " which is not in manifest.facts"]

/-- The errors of the buckets of one index, whose ids name something in a container. -/
def bucketErrors (H : LoadHost N) (container : Option (Json N)) (index name : String)
    (map : SetMap (Key N) (Key N)) : Option (List (List String)) := do
  let errors ← map.entries.mapM fun bucket => bucket.2.mapM fun id => do
    let idText ← id.text
    let found ← lookup H container idText
    if found.truthy then return []
    else return [index ++ "[" ++ (← bucket.1.text) ++ "] contains " ++ idText ++
      " which is not in manifest." ++ name]
  return errors.flatten

/-- The text of an element in a `join`. -/
def Key.joined : Key N → Option String
  | .undefined => some ""
  | .null => some ""
  | key => key.text

/-- The warnings of the summaries' sources. -/
def depWarnings (H : LoadHost N) (facts : Option (Json N)) (deps : SetMap (Key N) (Key N)) :
    Option (List (List String)) :=
  deps.entries.mapM fun bucket => do
    let fid ← bucket.1.text
    let found ← lookup H facts fid
    if found.truthy then return []
    else
      let summaries ← bucket.2.mapM Key.joined
      return ["summary_deps[" ++ fid ++ "] references a fact not in manifest.facts (orphan dep, " ++
        "summaries: [" ++ String.intercalate "," summaries ++ "])"]

/-- The errors of a fact that its type's bucket does not hold. -/
def typeErrors (ix : Indexes N) (row : FactRow N) : Option (List String) :=
  if Key.str row.key ∈ ix.factsByType.bucket row.type then some []
  else do
    return ["manifest.facts[" ++ row.key ++ "] not found in facts_by_type[" ++
      (← row.type.text) ++ "]"]

/-- The errors of a fact that the set of its state does not hold. -/
def unlistedErrors (ix : Indexes N) (row : FactRow N) : List String :=
  (if isState "active" row.state ∧ Key.str row.key ∉ ix.activeFacts then
    ["manifest.facts[" ++ row.key ++ "] is active but missing from active_facts index"]
  else []) ++
  (if isState "conflicted" row.state ∧ Key.str row.key ∉ ix.conflictedFacts then
    ["manifest.facts[" ++ row.key ++ "] is conflicted but missing from conflicted_facts index"]
  else [])

/-- The errors of `validateIndexes`. -/
def validateIndexes (H : LoadHost N) (manifest : Json N) (ix : Indexes N) :
    Option (List String) := do
  let facts ← get (some manifest) "facts"
  let inBuckets ← bucketErrors H facts "facts_by_type" "facts" ix.factsByType
  let rows ← (← entries facts).zipIdx.mapM factRow
  let ofTypes ← rows.mapM (typeErrors ix)
  let active ← stateSetErrors H facts "active_facts" "active" ix.activeFacts
  let conflicted ← stateSetErrors H facts "conflicted_facts" "conflicted" ix.conflictedFacts
  let unlisted := rows.map (unlistedErrors ix)
  let _ ← depWarnings H facts ix.summaryDeps
  let refs ← get (some manifest) "references"
  let inRefs ← bucketErrors H refs "refs_by_source" "references" ix.refsBySource
  return (inBuckets ++ ofTypes ++ active ++ conflicted ++ unlisted ++ inRefs).flatten

inductive Outcome where
  | ok
  | failed (reason : LoadFailureReason) (detail : String)

/-- Is it an object with the schema version? -/
def schemaMatches : Json N → Bool
  | .obj members =>
    match Json.member? "schema_version" members with
    | some (.str version) => version = "1.0"
    | _ => false
  | _ => false

omit [JsNumber N] in
/-- `parsed?.["schema_version"]` -/
def schemaVersion : Json N → Option (Json N)
  | .obj members => Json.member? "schema_version" members
  | _ => none

/-- The checks of `load` on a manifest with the schema version. -/
def loadMembers (H : LoadHost N) (members : List (String × Json N)) : Option Outcome := do
  let expected := computeIntegrityHash H members
  let stored := Json.member? "integrity_hash" members
  if ← timingSafeEqualStrings H expected stored then
    let lineage ← validateLineage (.obj members)
    if lineage ≠ [] then return .failed .lineageError (joinErrors lineage)
    else
      let orphans ← validateRefs H (.obj members)
      if orphans ≠ [] then return .failed .orphanRef (joinErrors orphans)
      else
        let indexes ← buildIndexes (.obj members)
        let errors ← validateIndexes H (.obj members) indexes
        if errors ≠ [] then
          return .failed .lineageError
            ("Index validation failed (bug in buildIndexes): " ++ joinErrors errors)
        else return .ok
  else
    return .failed .integrityFailure ("Integrity hash mismatch. Expected " ++ expected ++
      ", stored " ++ (← text stored))

/-- `load`, of a file with this content -/
def load (H : LoadHost N) (content : String) : Option Outcome :=
  match H.parse content with
  | none => some (.failed .parseError "Invalid JSON")
  | some parsed =>
    match parsed with
    | .obj members =>
      if schemaMatches parsed then loadMembers H members
      else do
        return .failed .schemaMismatch ("Expected schema_version \"1.0\", got: " ++
          (← text (schemaVersion parsed)))
    | _ => do
      return .failed .schemaMismatch ("Expected schema_version \"1.0\", got: " ++
        (← text (schemaVersion parsed)))

end AnyManifest

end ClawHarder
