import Mathlib.Algebra.Order.Field.Rat
import ClawHarder.Lib.PyCodec
import ClawHarder.Lib.PyJson

/-!
# Fault diagnosis

From `validation_manager.py`: `diagnose`, with the case law that it reads. A fault is given by
what is read of the exception, the runtime by what is read of it; `Host` has the hash, the
search for the missing name, the new id, the order of a set, the numbers of Python and the lines
that a file gives before its decoding fails. The time and the weights are rationals.
-/

namespace ClawHarder.Diagnosis

open PyText (lit)

inductive Raised where
  /-- `NameError` -/
  | name (name : PyText)
  /-- `AttributeError` -/
  | attribute (name : PyText)
  /-- `KeyError` -/
  | key (key : PyText)
  /-- `TypeError` -/
  | type
  /-- `UnicodeDecodeError` -/
  | decode
  deriving DecidableEq

structure Host where
  /-- the hexadecimal SHA-256 of the text -/
  sha256 : PyText → PyText
  /-- `repr` of the float that a text denotes -/
  floatRepr : PyText → PyText
  /-- the group of `name '(.+?)' is not defined` -/
  missingName : PyText → Option PyText
  /-- eight hexadecimal digits of a new id -/
  newId : PyText
  /-- the members of a set of texts, in the order in which they are met -/
  setOrder : List PyText → List PyText
  /-- `str` of a list or a dictionary -/
  reprOf : PyValue → PyText
  /-- a number in arithmetic -/
  number : PyValue → Except Raised ℚ
  /-- the lines that a file gives before its bytes cannot be decoded -/
  linesBefore : Bytes → List PyText

/-- One entry of the traceback. -/
structure TracebackEntry where
  file : PyText
  line : PyText
  name : PyText
  lineText : PyText

structure Fault where
  exceptionType : PyText
  message : PyText
  /-- `isinstance(exc, NameError)` -/
  isNameError : Bool
  /-- `isinstance(exc, ImportError)` -/
  isImportError : Bool
  traceback : List TracebackEntry

/-- What is read of the runtime and of its files. -/
structure RuntimeView where
  cycle : ℤ
  executionMode : PyText
  governanceMode : PyText
  permissionMode : PyText
  killswitched : Bool
  statusSnapshot : PyDict
  /-- `_get_state_hash(runtime.state)` -/
  stateHash : PyText
  /-- the file of the state -/
  persistedState : Option Bytes
  /-- `case_law.jsonl` -/
  caseLaw : Option Bytes

inductive RepairClass where
  | symbolMissing
  | importMissing
  | unknown
  deriving DecidableEq

def RepairClass.text : RepairClass → PyText
  | .symbolMissing => lit "symbol_missing"
  | .importMissing => lit "import_missing"
  | .unknown => lit "unknown"

structure ValidationAnchor where
  runtimeStateHash : PyText
  persistedStateHash : PyText
  statusSnapshotHash : PyText
  anchorConsistent : Bool

/-- A row of the case law with its `relevance_weight`. -/
structure Precedent where
  row : PyDict
  relevanceWeight : ℚ

structure DiagnosticArtifact where
  artifactId : PyText
  cycle : ℤ
  exceptionType : PyText
  exceptionMessage : PyText
  tracebackSummary : List TracebackEntry
  offendingFile : Option PyText
  offendingSymbol : Option PyText
  runtimePhase : PyText
  executionMode : PyText
  governanceMode : PyText
  permissionMode : PyText
  killswitchEngaged : Bool
  precommitState : PyDict
  stateHash : PyText
  validationAnchor : ValidationAnchor
  repairClass : RepairClass
  repairAllowed : Bool
  reasons : List PyText
  severity : PyText
  impactDomain : PyText
  urgencyLevel : PyText
  confidenceLevel : PyText
  confidenceReason : PyText
  precedents : List Precedent := []
  precedentSummary : PyText := lit "No relevant precedents found."

variable (h : Host)

def hashPersistedState (file : Option Bytes) : PyText :=
  match file with
  | none => lit "missing"
  | some bytes =>
    match (PyText.decodeUtf8 bytes).bind fun t =>
        PyJson.loads h.floatRepr (PyText.universalNewlines t) with
    | some payload => h.sha256 (PyJson.dumps (PyJson.sortKeys payload))
    | none => lit "unreadable"

def buildValidationAnchor (runtime : RuntimeView) : ValidationAnchor where
  runtimeStateHash := runtime.stateHash
  persistedStateHash := hashPersistedState h runtime.persistedState
  statusSnapshotHash := h.sha256 (PyJson.dumps (PyJson.sortKeys (.dict runtime.statusSnapshot)))
  anchorConsistent := runtime.stateHash = hashPersistedState h runtime.persistedState

/-- The lines of a text, each with its end. -/
def fileLines : PyText → List PyText
  | [] => []
  | c :: rest =>
    if c.val = 10 then [c] :: fileLines rest
    else
      match fileLines rest with
      | [] => [[c]]
      | line :: lines => (c :: line) :: lines

/-- The lines of a file, and whether its reading fails after them. -/
def readLines (bytes : Bytes) : List PyText × Bool :=
  match PyText.decodeUtf8 bytes with
  | some t => (fileLines (PyText.universalNewlines t), false)
  | none => (h.linesBefore bytes, true)

def contextText (summary : List TracebackEntry) : PyText :=
  (summary.map fun t => t.file ++ lit ":" ++ t.line ++ lit ":" ++ t.name).flatten

/-- `row.get(key)`, if it is a text. -/
def textField (key : String) (row : PyDict) : Option PyText :=
  (PyValue.get? (lit key) row).bind PyValue.asStr?

/-- A row that was parsed, with its weight. -/
def weighRow (currentHash : PyText) (repairClass : RepairClass) :
    PyValue → Except Raised Precedent
  | .dict row => do
    let weight : ℚ :=
      if textField "context_hash" row = some currentHash then 1
      else if textField "repair_class" row = some repairClass.text then 1 / 2
      else 1 / 10
    -- `time` is imported nowhere in the module
    let now ← (.error (.name (lit "time")) : Except Raised ℚ)
    let timestamp ← h.number ((PyValue.get? (lit "timestamp") row).getD (.int 0))
    let ageDays := (now - timestamp) / 86400
    let decay := max (1 / 2) (1 - ageDays / 30)
    return ⟨row, weight * decay⟩
  | _ => .error (.attribute (lit "get"))

/-- The loop over the lines; a line that is no JSON is passed over. -/
def weighLines (currentHash : PyText) (repairClass : RepairClass) :
    List PyText → Except Raised (List Precedent)
  | [] => .ok []
  | line :: lines =>
    match PyJson.loads h.floatRepr line with
    | none => weighLines currentHash repairClass lines
    | some value => do
      let precedent ← weighRow h currentHash repairClass value
      let rest ← weighLines currentHash repairClass lines
      return precedent :: rest

def getPrecedent (caseLaw : Option Bytes) (artifact : DiagnosticArtifact) :
    Except Raised (List Precedent) :=
  match caseLaw with
  | none => .ok []
  | some bytes => do
    let currentHash := h.sha256 (contextText artifact.tracebackSummary)
    let (lines, fails) := readLines h bytes
    let history ← weighLines h currentHash artifact.repairClass lines
    if fails then .error .decode
    else return history.mergeSort fun p q => decide (q.relevanceWeight ≤ p.relevanceWeight)

/-- `p[key]` -/
def rowField (key : String) (p : Precedent) : Except Raised PyValue :=
  match PyValue.get? (lit key) p.row with
  | some v => .ok v
  | none => .error (.key (lit key))

def isText (text : String) : PyValue → Bool
  | .str s => s = lit text
  | _ => false

/-- The rows with a decision. -/
def decided (decision : String) (precedents : List Precedent) : Except Raised (List Precedent) :=
  precedents.filterM fun p => (rowField "decision" p).map (isText decision)

/-- `', '.join(set(p['reason'] for p in rows))` -/
def joinReasons (rows : List Precedent) : Except Raised PyText := do
  let reasons ← rows.mapM fun p => do
    match ← rowField "reason" p with
    | .str s => return s
    | _ => .error .type
  return PyText.join (lit ", ") (h.setOrder reasons)

def summarizePrecedents (precedents : List Precedent) : Except Raised PyText :=
  if precedents.isEmpty then
    .ok (lit "No relevant precedents found. This case is architecturally novel.")
  else do
    let rejections ← decided "reject" precedents
    let approvals ← decided "approve" precedents
    let rejected ←
      if rejections.isEmpty then pure []
      else do
        let reasons ← joinReasons h rejections
        pure [lit ("Rejected " ++ toString rejections.length ++ " similar cases due to: ") ++ reasons]
    let approved ←
      if approvals.isEmpty then pure []
      else do
        let reasons ← joinReasons h approvals
        pure [lit ("Approved " ++ toString approvals.length ++ " similar cases when: ") ++ reasons]
    let patterns ← precedents.mapM (rowField "alternative_pattern")
    let recommended :=
      match patterns.filter fun v => !isText "none" v with
      | [] => []
      | pattern :: _ => [lit "Recommended Pattern: " ++ PyValue.text h.reprOf pattern]
    return PyText.join (lit " | ") (rejected ++ approved ++ recommended)

def sensitiveFiles : List String := ["policy_engine.py", "barrier.py", "threshold_validator.py"]

def holds (word : String) (text : PyText) : Bool := decide (lit word <:+: text)

def repairClassOf (exc : Fault) : RepairClass :=
  if exc.isNameError then .symbolMissing
  else if exc.isImportError then .importMissing
  else .unknown

/-- The artifact before the case law is read. -/
def buildArtifact (exc : Fault) (runtime : RuntimeView) (phase : PyText) : DiagnosticArtifact :=
  let offendingFile := exc.traceback.getLast?.map TracebackEntry.file
  let anchor := buildValidationAnchor h runtime
  let repairClass := repairClassOf exc
  let sensitive := offendingFile.any fun file => sensitiveFiles.any fun p => holds p file
  let repairAllowed := !sensitive && anchor.anchorConsistent
  { artifactId := lit ("diag_" ++ toString runtime.cycle ++ "_") ++ h.newId
    cycle := runtime.cycle
    exceptionType := exc.exceptionType
    exceptionMessage := exc.message
    tracebackSummary := exc.traceback
    offendingFile := offendingFile
    offendingSymbol := if exc.isNameError then h.missingName exc.message else none
    runtimePhase := phase
    executionMode := runtime.executionMode
    governanceMode := runtime.governanceMode
    permissionMode := runtime.permissionMode
    killswitchEngaged := runtime.killswitched
    precommitState := runtime.statusSnapshot
    stateHash := anchor.persistedStateHash
    validationAnchor := anchor
    repairClass := repairClass
    repairAllowed := repairAllowed
    reasons :=
      (if sensitive then [lit "Fault detected in sensitive governance core. Repair prohibited."]
        else []) ++
      if anchor.anchorConsistent then []
        else [lit ("Validation anchor mismatch: runtime_state_hash differs from " ++
          "persisted_state_hash. Single-layer state-derived validation is not admissible.")]
    severity := if offendingFile.any (holds "runtime_core") then lit "high" else lit "medium"
    impactDomain :=
      if phase = lit "repair" then lit "repair"
      else if phase = lit "governance" then lit "governance"
      else lit "runtime"
    urgencyLevel := if repairAllowed then lit "immediate" else lit "blocking"
    confidenceLevel := if repairClass = .unknown then lit "medium" else lit "high"
    confidenceReason :=
      if repairClass = .unknown then
        lit "Exception caught but underlying state transition is complex."
      else lit "Inferred missing symbol with 100% forensic alignment." }

def diagnose (exc : Fault) (runtime : RuntimeView) (phase : PyText) :
    Except Raised DiagnosticArtifact := do
  let artifact := buildArtifact h exc runtime phase
  let precedents ← getPrecedent h runtime.caseLaw artifact
  let summary ← summarizePrecedents h precedents
  return { artifact with precedents := precedents, precedentSummary := summary }

end ClawHarder.Diagnosis
