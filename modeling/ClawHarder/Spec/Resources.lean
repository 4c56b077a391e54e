import ClawHarder.Lib.DirTree
import ClawHarder.Lib.PyBuiltins
import ClawHarder.Spec.Transactions

/-!
# The root directory of a sandbox

The operations of `sandbox.py` over everything that they keep on the disk: `memory.json`,
`manifest.json`, `files` and `snapshots`, and the temporary files that they write through.
A JSON document is given by its value. As before no caller turns `use_memory_json` off;
links, receipts and operations that only list are left out.
-/

namespace ClawHarder.Resources

open PyText (lit codePoint)
open ClawHarder.Runtime (SandboxFault ResourcePath ResourceBudget Memory WriteFileResult
  DeleteFileResult parseResourceId parseRelativeResourcePath tmpPath intText)
open ClawHarder.Transactions (MemoryOperation parseCost)

/-- What a file holds: the JSON document that it parses to, or bytes that parse to none. -/
inductive Document where
  | bytes (raw : List UInt8)
  | json (v : PyValue)

/-- `ResourceBudget`; none is `inf`. -/
structure Budget where
  memoryWrites : Option ℚ
  fileReads : Option ℚ
  fileWrites : Option ℚ

/-- What is below `self.root`, and the budget. -/
structure Root where
  tree : DirTree PyText Document
  budget : Option Budget

/-- An exception of the sandbox, or one of Python's builtins. -/
inductive Raised where
  | fault (f : SandboxFault)
  | python (e : PyRaised)

/-- A computation in a sandbox. An exception keeps what was written before it. -/
abbrev RootM (α : Type) := EStateM Raised Root α

/-- What the sandbox calls that is not defined here. -/
structure Host where
  /-- `sha256(raw).hexdigest()` -/
  sha256 : List UInt8 → PyText
  /-- `json.dumps(v, indent=2, sort_keys=True, ensure_ascii=True)`, encoded -/
  dumps : PyValue → List UInt8
  /-- `json.dumps(v, sort_keys=True, separators=(",", ":"), ensure_ascii=True)`, encoded -/
  compact : PyValue → List UInt8
  /-- `v + 1` of a float -/
  increment : PyText → PyText
  /-- `v == w` -/
  same : PyValue → PyValue → Bool
  builtins : PyBuiltins

/-- `path.read_bytes()` -/
def Document.raw (h : Host) : Document → List UInt8
  | .bytes raw => raw
  | .json v => h.dumps v

def filesRoot : ResourcePath := [lit "files"]

def memoryPath : ResourcePath := [lit "memory.json"]

def manifestPath : ResourcePath := [lit "manifest.json"]

def snapshotsRoot : ResourcePath := [lit "snapshots"]

section Steps

variable {α : Type}

def raise (f : SandboxFault) : RootM α := throw (.fault f)

def ofFault : Except SandboxFault α → Except Raised α
  | .ok a => .ok a
  | .error f => .error (.fault f)

def ofPython : Py α → Except Raised α
  | .ok a => .ok a
  | .error e => .error (.python e)

def lift : Except Raised α → RootM α
  | .ok a => pure a
  | .error raised => throw raised

/-- An operation on the files and directories. -/
def onTree (change : DirTree PyText Document → Option (DirTree PyText Document)) :
    RootM Unit := do
  let s ← get
  match change s.tree with
  | none => raise .osError
  | some tree => set { s with tree := tree }

end Steps

inductive BudgetKind where
  | memoryWrites
  | fileReads
  | fileWrites

namespace Budget

def get (b : Budget) : BudgetKind → Option ℚ
  | .memoryWrites => b.memoryWrites
  | .fileReads => b.fileReads
  | .fileWrites => b.fileWrites

def deduct (cost : ℚ) (b : Budget) : BudgetKind → Budget
  | .memoryWrites => { b with memoryWrites := ResourceBudget.less b.memoryWrites cost }
  | .fileReads => { b with fileReads := ResourceBudget.less b.fileReads cost }
  | .fileWrites => { b with fileWrites := ResourceBudget.less b.fileWrites cost }

end Budget

def checkBudget (kind : BudgetKind) (cost : ℚ) : RootM Unit := do
  let s ← get
  if s.budget.all (fun b => ResourceBudget.covers (b.get kind) cost) then pure ()
  else raise .budgetExhausted

def deductBudget (kind : BudgetKind) (cost : ℚ) : RootM Unit :=
  modify fun s => { s with budget := s.budget.map fun b => b.deduct cost kind }

/-- `json.loads(path.read_text(encoding="utf-8"))` -/
def readJson (p : ResourcePath) : RootM PyValue := do
  let s ← get
  match s.tree.files p with
  | none => raise .osError
  | some (.bytes _) => throw (.python .valueError)
  | some (.json v) => pure v

/-- `path.write_text(json.dumps(v, ...), encoding="utf-8")` -/
def writeText (p : ResourcePath) (v : PyValue) : RootM Unit :=
  onTree fun t => t.put p (.json v)

/-- `_write_memory` and `_write_manifest`: through `path.with_suffix(".json.tmp")`. -/
def writeDocument (p : ResourcePath) (v : PyValue) : RootM Unit := do
  onTree fun t => t.mkdirs []
  writeText (tmpPath p) v
  onTree fun t => t.rename (tmpPath p) p

def emptyMemory : PyDict := [
  (lit "context", .dict []),
  (lit "facts", .dict []),
  (lit "tasks", .list []),
  (lit "artifacts", .list []),
  (lit "metadata", .dict [(lit "revision", .int 0)]),
  (lit "version", .int 1)]

/-- `if key not in memory: memory[key] = deepcopy(default)` -/
def setDefault (memory : PyDict) (default : PyText × PyValue) : PyDict :=
  match PyValue.get? default.1 memory with
  | none => PyValue.set default.1 default.2 memory
  | some _ => memory

/-- `isinstance(v, list)` -/
def isList : PyValue → Bool
  | .list _ => true
  | _ => false

/-- What `_normalize_memory` asks of the members, in its order. -/
def memberTypes : List (PyText × (PyValue → Bool) × String) := [
  (lit "context", Py.isDict, "memory.context must be an object"),
  (lit "facts", Py.isDict, "memory.facts must be an object"),
  (lit "tasks", isList, "memory.tasks must be a list"),
  (lit "artifacts", isList, "memory.artifacts must be a list"),
  (lit "metadata", Py.isDict, "memory.metadata must be an object")]

def checkMember (memory : PyDict) (m : PyText × (PyValue → Bool) × String) :
    Except Raised Unit :=
  if (PyValue.get? m.1 memory).any m.2.1 then .ok ()
  else .error (.fault (.valueError m.2.2))

def normalizeMemory (h : Host) (memory : PyDict) : Except Raised PyDict := do
  let memory := emptyMemory.foldl setDefault memory
  memberTypes.forM (checkMember memory)
  let metadata := PyValue.child (lit "metadata") memory
  let revision ← ofPython
    (Py.int h.builtins ((PyValue.get? (lit "revision") metadata).getD (.int 0)))
  let memory := PyValue.set (lit "version") (.int 1) memory
  pure (PyValue.set (lit "metadata")
    (.dict (PyValue.set (lit "revision") (.int revision) metadata)) memory)

/-- What `_load_memory` returns. -/
def Root.memory (h : Host) (s : Root) : Except Raised PyDict :=
  match s.tree.files memoryPath with
  | none =>
    if s.tree.dirs memoryPath then .error (.fault .osError) else normalizeMemory h emptyMemory
  | some (.bytes _) => .error (.python .valueError)
  | some (.json (.dict payload)) => normalizeMemory h payload
  | some (.json _) => .error (.fault (.valueError "sandbox memory must be a JSON object"))

def loadMemory (h : Host) : RootM PyDict := do
  let s ← get
  lift (s.memory h)

def writeMemory (memory : PyValue) : RootM Unit := writeDocument memoryPath memory

def ensureMemory (h : Host) : RootM Unit := do
  let s ← get
  if s.tree.present memoryPath then do
    let payload ← readJson memoryPath
    match payload with
    | .dict members => do
      let memory ← lift (normalizeMemory h members)
      if h.same (.dict memory) (.dict members) then pure () else writeMemory (.dict memory)
    | _ => raise (.valueError "sandbox memory must be a JSON object")
  else writeMemory (.dict emptyMemory)

def readMemory (h : Host) : RootM PyDict := do
  ensureMemory h
  loadMemory h

/-- `memory[key]`, of a list -/
def listAt (key : PyText) (memory : PyDict) : List PyValue :=
  match PyValue.get? key memory with
  | some (.list items) => items
  | _ => []

/-- `int(memory["metadata"].get("revision", 0))` -/
def revisionOf (memory : PyDict) : ℤ :=
  match PyValue.get? (lit "revision") (PyValue.child (lit "metadata") memory) with
  | some (.int n) => n
  | _ => 0

/-- The members of a memory that the operations work on. -/
def workingMemory (memory : PyDict) : Memory where
  context := PyValue.child (lit "context") memory
  facts := PyValue.child (lit "facts") memory
  tasks := listAt (lit "tasks") memory
  artifacts := listAt (lit "artifacts") memory
  revision := revisionOf memory

/-- A memory whose members were worked on. -/
def workedMemory (working : Memory) (memory : PyDict) : PyDict :=
  let metadata := PyValue.set (lit "revision") (.int working.revision)
    (PyValue.child (lit "metadata") memory)
  PyValue.set (lit "metadata") (.dict metadata)
    (PyValue.set (lit "artifacts") (.list working.artifacts)
      (PyValue.set (lit "tasks") (.list working.tasks)
        (PyValue.set (lit "facts") (.dict working.facts)
          (PyValue.set (lit "context") (.dict working.context) memory))))

/-- The checks of an operation on the memory that come before its transaction. -/
def checkArguments : MemoryOperation → Except SandboxFault Unit
  | .setFact key _ | .rollbackSetFact key _ _ => discard (Runtime.parseKey key)
  | .appendTask description status _ => do
    Runtime.requireText description "task description cannot be empty"
    Runtime.requireText status "task status cannot be empty"
  | .updateTask taskId description status _ => do
    let _ ← parseResourceId taskId "task id"
    if description = none ∧ status = none then
      .error (.valueError "update_task requires description or status")
    else .ok ()
  | .rollbackUpdateTask taskId _ | .removeTask taskId =>
    discard (parseResourceId taskId "task id")
  | .storeArtifact name path _ _ => do
    Runtime.requireText name "artifact name cannot be empty"
    discard (parseRelativeResourcePath path)
  | .removeArtifact artifactId => discard (parseResourceId artifactId "artifact id")
  | .appendContextNote note => Runtime.requireText note "note cannot be empty"
  | .removeContextNote _ | .pruneMemory _ => .ok ()
  | .compressMemory maxNotes =>
    if maxNotes < 0 then .error (.valueError "max_notes must be non-negative") else .ok ()

/-- `mutate`, with the revision that the transaction gives. -/
def mutate (cost : ℚ) (op : MemoryOperation) (memory : Memory) : Except SandboxFault Memory :=
  match (op.perform cost).run ⟨memory, Transactions.noFiles, none⟩ with
  | .ok _ s => .ok s.memory
  | .error raised _ => .error raised

/-- An operation on the memory, with `_transaction`. -/
def onMemory (h : Host) (cost : ℚ) (op : MemoryOperation) : RootM Unit := do
  lift (ofFault (checkArguments op))
  let cost ← lift (ofFault (parseCost cost))
  checkBudget .memoryWrites cost
  let before ← loadMemory h
  let working ← lift (ofFault (mutate cost op (workingMemory before)))
  writeMemory (.dict (workedMemory working before))
  deductBudget .memoryWrites cost

/-- `{"resources": [], "version": MANIFEST_SCHEMA_VERSION}` -/
def emptyManifest : PyDict := [(lit "resources", .list []), (lit "version", .int 1)]

/-- `if not isinstance(payload.get("resources"), list): payload["resources"] = []` -/
def withResources (payload : PyDict) : PyDict :=
  if (PyValue.get? (lit "resources") payload).any isList then payload
  else PyValue.set (lit "resources") (.list []) payload

/-- What `_load_manifest` returns. Bytes that are no UTF-8 are not caught. -/
def Root.manifest (s : Root) : Except Raised PyDict :=
  match s.tree.files manifestPath with
  | none => .ok emptyManifest
  | some (.bytes raw) =>
    match PyText.decodeUtf8 raw with
    | none => .error (.fault .unicodeError)
    | some _ => .ok emptyManifest
  | some (.json (.dict payload)) => .ok (withResources payload)
  | some (.json _) => .error (.fault (.valueError "sandbox manifest must be a JSON object"))

def loadManifest : RootM PyDict := do
  let s ← get
  lift s.manifest

def writeManifest (manifest : PyValue) : RootM Unit := writeDocument manifestPath manifest

/-- `r.get("path") == path` -/
def hasPath (path : PyText) : PyValue → Except Raised Bool
  | .dict members =>
    match PyValue.get? (lit "path") members with
    | some (.str t) => .ok (t = path)
    | _ => .ok false
  | _ => .error (.python .attributeError)

/-- `next((r for r in resources if r.get("path") == path), None)` -/
def existingEntry (path : PyText) : List PyValue → Except Raised (Option PyDict)
  | [] => .ok none
  | r :: rest => do
    if ← hasPath path r then pure (PyValue.asDict? r) else existingEntry path rest

/-- `[r for r in resources if r.get("path") != path]` -/
def withoutEntry (path : PyText) : List PyValue → Except Raised (List PyValue)
  | [] => .ok []
  | r :: rest => do
    let found ← hasPath path r
    let rest ← withoutEntry path rest
    pure (if found then rest else r :: rest)

/-- `[updated if r.get("path") == path else r for r in resources]` -/
def replaceEntry (path : PyText) (updated : PyValue) : List PyValue → Except Raised (List PyValue)
  | [] => .ok []
  | r :: rest => do
    let found ← hasPath path r
    let rest ← replaceEntry path updated rest
    pure ((if found then updated else r) :: rest)

/-- `existing.get("version", 0) + 1` -/
def nextVersion (h : Host) (existing : PyDict) : Except Raised PyValue :=
  match (PyValue.get? (lit "version") existing).getD (.int 0) with
  | .bool b => .ok (.int (if b then 2 else 1))
  | .int n => .ok (.int (n + 1))
  | .float r => .ok (.float (h.increment r))
  | _ => .error (.python .typeError)

/-- The entry of a file that was listed. -/
def updatedEntry (h : Host) (raw : List UInt8) (now : PyText) (existing : PyDict) :
    Except Raised PyDict := do
  let version ← nextVersion h existing
  pure (PyValue.set (lit "updated_at") (.float now)
    (PyValue.set (lit "version") version
      (PyValue.set (lit "size_bytes") (.int raw.length)
        (PyValue.set (lit "hash") (.str (h.sha256 raw)) existing))))

/-- The entry of a file that was not. -/
def newEntry (h : Host) (path : PyText) (raw : List UInt8) (now : PyText) : PyDict := [
  (lit "type", .str (lit "file")),
  (lit "path", .str path),
  (lit "version", .int 1),
  (lit "hash", .str (h.sha256 raw)),
  (lit "size_bytes", .int raw.length),
  (lit "created_at", .float now),
  (lit "updated_at", .float now)]

/-- The resources after a write. -/
def listed (h : Host) (path : PyText) (raw : List UInt8) (now : PyText)
    (resources : List PyValue) : Except Raised (List PyValue) := do
  match ← existingEntry path resources with
  | some existing => do
    let updated ← updatedEntry h raw now existing
    replaceEntry path (.dict updated) resources
  | none => pure (resources ++ [.dict (newEntry h path raw now)])

/-- `_update_manifest_entry(path, file_path, "write")` -/
def listEntry (h : Host) (path : PyText) (p : ResourcePath) (now : PyText) : RootM Unit := do
  let manifest ← loadManifest
  let s ← get
  match s.tree.files p with
  | none => raise .osError
  | some file => do
    let resources ← lift (listed h path (file.raw h) now (listAt (lit "resources") manifest))
    writeManifest (.dict (PyValue.set (lit "resources") (.list resources) manifest))

/-- `_update_manifest_entry(path, file_path, "delete")` -/
def unlistEntry (path : PyText) : RootM Unit := do
  let manifest ← loadManifest
  let resources ← lift (withoutEntry path (listAt (lit "resources") manifest))
  writeManifest (.dict (PyValue.set (lit "resources") (.list resources) manifest))

def resolveSandboxFilePath (path : PyText) : RootM (PyText × ResourcePath) := do
  let (normalized, p) ← lift (ofFault (parseRelativeResourcePath path))
  pure (normalized, filesRoot ++ p)

/-- `raw.decode("utf-8")` of a file, none if the path is no file. -/
def readPrevious (h : Host) (p : ResourcePath) : RootM (Option PyText) := do
  let s ← get
  match s.tree.files p with
  | none => pure none
  | some file =>
    match PyText.decodeUtf8 (file.raw h) with
    | none => raise .unicodeError
    | some text => pure (some text)

/-- `content.encode("utf-8")` -/
def encode (content : PyText) : RootM (List UInt8) :=
  match PyText.encodeUtf8 content with
  | none => raise .unicodeError
  | some raw => pure raw

/-- Write a file through its temporary file. -/
def writeThroughTmp (p : ResourcePath) (raw : List UInt8) : RootM Unit := do
  onTree fun t => t.mkdirs p.dropLast
  onTree fun t => t.put (tmpPath p) (.bytes raw)
  onTree fun t => t.rename (tmpPath p) p

/-- Remove a file if there is one. -/
def unlinkPresent (p : ResourcePath) : RootM Unit := do
  let s ← get
  if s.tree.present p then onTree fun t => t.unlink p else pure ()

section Files

variable (h : Host) (cost : ℚ) (now : PyText)

structure ReadFileResult where
  path : PyText
  content : PyText
  sizeBytes : ℕ

def readFile (path : PyText) : RootM ReadFileResult := do
  let (normalized, p) ← resolveSandboxFilePath path
  let cost ← lift (ofFault (parseCost cost))
  checkBudget .fileReads cost
  let s ← get
  match s.tree.files p with
  | none =>
    if s.tree.dirs p then raise (.valueError "sandbox path is not a file") else raise .osError
  | some file =>
    match PyText.decodeUtf8 (file.raw h) with
    | none => raise .unicodeError
    | some content => do
      deductBudget .fileReads cost
      pure ⟨normalized, content, (file.raw h).length⟩

def writeFile (path content : PyText) : RootM WriteFileResult := do
  let (normalized, p) ← resolveSandboxFilePath path
  let cost ← lift (ofFault (parseCost cost))
  checkBudget .fileWrites cost
  let previousContent ← readPrevious h p
  let raw ← encode content
  writeThroughTmp p raw
  listEntry h normalized p now
  deductBudget .fileWrites cost
  pure ⟨normalized, previousContent.isSome, previousContent⟩

/-- The branches of `rollback_write_file`. -/
def putBack (normalized : PyText) (p : ResourcePath) (existed : Bool)
    (previousContent : Option PyText) : RootM Unit :=
  match existed, previousContent with
  | true, some text => do
    let raw ← encode text
    writeThroughTmp p raw
    listEntry h normalized p now
  | _, _ => do
    unlinkPresent p
    unlistEntry normalized

def rollbackWriteFile (path : PyText) (previousContent : Option PyText) (existed : Bool) :
    RootM Unit := do
  let (normalized, p) ← resolveSandboxFilePath path
  let cost ← lift (ofFault (parseCost cost))
  checkBudget .fileWrites cost
  putBack h now normalized p existed previousContent
  deductBudget .fileWrites cost

/-- `delete_file` of a path where something is. -/
def deletePresent (normalized : PyText) (p : ResourcePath) : RootM DeleteFileResult := do
  let s ← get
  if s.tree.dirs p then raise (.valueError "sandbox path is not a file")
  else do
    let previousContent ← readPrevious h p
    onTree fun t => t.unlink p
    unlistEntry normalized
    deductBudget .fileWrites cost
    pure ⟨normalized, true, previousContent⟩

def deleteFile (path : PyText) : RootM DeleteFileResult := do
  let (normalized, p) ← resolveSandboxFilePath path
  let cost ← lift (ofFault (parseCost cost))
  checkBudget .fileWrites cost
  let s ← get
  if s.tree.present p then deletePresent h cost normalized p
  else pure ⟨normalized, false, none⟩

/-- `rollback_delete_file`; of `None` there is no `encode`. -/
def rollbackDeleteFile (path : PyText) (previousContent : Option PyText) : RootM Unit := do
  let (normalized, p) ← resolveSandboxFilePath path
  let cost ← lift (ofFault (parseCost cost))
  checkBudget .fileWrites cost
  match previousContent with
  | none => throw (.python .attributeError)
  | some text => do
    let raw ← encode text
    writeThroughTmp p raw
    listEntry h normalized p now
    deductBudget .fileWrites cost

end Files

/-- What `_generate_snapshot_id` draws: `int(time() * 1000)` and `uuid4().hex[:8]`. -/
structure SnapshotDraw where
  ts : ℤ
  uid : List (Fin 16)

/-- `_generate_snapshot_id` -/
def SnapshotDraw.id (draw : SnapshotDraw) : PyText :=
  lit "snap-" ++ intText draw.ts ++ lit "-" ++
    draw.uid.map fun digit => codePoint (Nat.digitChar digit.val)

/-- `self.snapshots_root / snapshot_id` -/
def snapshotDir (id : PyText) : ResourcePath := snapshotsRoot ++ [id]

/-- `meta.json` of a snapshot -/
def snapshotMeta (h : Host) (id label : PyText) (now : PyText) (memory : PyDict) : PyDict := [
  (lit "snapshot_id", .str id),
  (lit "label", .str label),
  (lit "created_at", .float now),
  (lit "memory_hash", .str (h.sha256 (h.compact (.dict memory)))),
  (lit "memory_revision", .int (revisionOf memory))]

section Lifecycle

variable (h : Host) (cost : ℚ)

def snapshotState (label now : PyText) (draw : SnapshotDraw) : RootM PyText := do
  let cost ← lift (ofFault (parseCost cost))
  checkBudget .fileWrites cost
  let dir := snapshotDir draw.id
  onTree fun t => t.mkdirs dir
  let memory ← loadMemory h
  let manifest ← loadManifest
  writeText (dir ++ [lit "meta.json"]) (.dict (snapshotMeta h draw.id label now memory))
  writeText (dir ++ [lit "memory.json"]) (.dict memory)
  writeText (dir ++ [lit "manifest.json"]) (.dict manifest)
  let s ← get
  if s.tree.present filesRoot then
    onTree fun t => t.copyTree filesRoot (dir ++ filesRoot)
  else pure ()
  deductBudget .fileWrites cost
  pure draw.id

/-- `files_root` as in the snapshot -/
def restoreFiles (dir : ResourcePath) : RootM Unit := do
  let s ← get
  if s.tree.present filesRoot then onTree fun t => t.rmtree filesRoot else pure ()
  let s ← get
  if s.tree.present (dir ++ filesRoot) then
    onTree fun t => t.copyTree (dir ++ filesRoot) filesRoot
  else onTree fun t => t.mkdirs filesRoot

/-- `manifest.json` as in the snapshot, where it is there -/
def restoreManifest (dir : ResourcePath) : RootM Unit := do
  let s ← get
  if s.tree.present (dir ++ [lit "manifest.json"]) then do
    let manifest ← readJson (dir ++ [lit "manifest.json"])
    writeManifest manifest
  else pure ()

def restoreSnapshot (snapshotId : PyText) : RootM Unit := do
  let id ← lift (ofFault (parseResourceId snapshotId "snapshot id"))
  let dir := snapshotDir id
  let cost ← lift (ofFault (parseCost cost))
  checkBudget .fileWrites cost
  let s ← get
  if s.tree.present (dir ++ [lit "meta.json"]) then do
    let _ ← loadMemory h
    let memory ← readJson (dir ++ [lit "memory.json"])
    writeMemory memory
    restoreFiles dir
    restoreManifest dir
    deductBudget .fileWrites cost
  else raise .osError

def reset : RootM Unit := do
  writeMemory (.dict emptyMemory)
  let s ← get
  if s.tree.present filesRoot then do
    onTree fun t => t.rmtree filesRoot
    onTree fun t => t.mkdirs filesRoot
  else pure ()
  unlinkPresent manifestPath
  ensureMemory h

end Lifecycle

/-- `__init__` -/
def openSandbox (h : Host) (budget : Option Budget) : RootM Unit := do
  modify fun s => { s with budget := budget }
  onTree fun t => t.mkdirs []
  ensureMemory h

/-- Nothing at `self.root`. -/
def blank : Root where
  tree := {
    files := fun _ => none
    dirs := fun _ => false
    parent := fun _ _ hq => absurd hq (by simp)
    no_file := fun _ _ => rfl }
  budget := none

def created (h : Host) (budget : Option Budget) : Root :=
  Effectful.final (openSandbox h budget) blank

/-- A call of an operation, with its cost, the reading of the clock and what is drawn. -/
inductive Call where
  | openSandbox (budget : Option Budget)
  | setBudget (budget : Budget)
  | readMemory
  | memory (cost : ℚ) (op : MemoryOperation)
  | readFile (cost : ℚ) (path : PyText)
  | writeFile (cost : ℚ) (now path content : PyText)
  | rollbackWriteFile (cost : ℚ) (now path : PyText) (previousContent : Option PyText)
      (existed : Bool)
  | deleteFile (cost : ℚ) (path : PyText)
  | rollbackDeleteFile (cost : ℚ) (now path : PyText) (previousContent : Option PyText)
  | snapshotState (cost : ℚ) (label now : PyText) (draw : SnapshotDraw)
  | restoreSnapshot (cost : ℚ) (snapshotId : PyText)
  | reset

def Call.perform (h : Host) : Call → RootM Unit
  | .openSandbox budget => Resources.openSandbox h budget
  | .setBudget budget => modify fun s => { s with budget := some budget }
  | .readMemory => discard (Resources.readMemory h)
  | .memory cost op => onMemory h cost op
  | .readFile cost path => discard (Resources.readFile h cost path)
  | .writeFile cost now path content => discard (Resources.writeFile h cost now path content)
  | .rollbackWriteFile cost now path previousContent existed =>
    Resources.rollbackWriteFile h cost now path previousContent existed
  | .deleteFile cost path => discard (Resources.deleteFile h cost path)
  | .rollbackDeleteFile cost now path previousContent =>
    Resources.rollbackDeleteFile h cost now path previousContent
  | .snapshotState cost label now draw =>
    discard (Resources.snapshotState h cost label now draw)
  | .restoreSnapshot cost snapshotId => Resources.restoreSnapshot h cost snapshotId
  | .reset => Resources.reset h

def step (h : Host) (s : Root) (call : Call) : Root := Effectful.final (call.perform h) s

/-- The draw of a call of `snapshot_state`. -/
def Call.draw : Call → Option SnapshotDraw
  | .snapshotState _ _ _ draw => some draw
  | _ => none

end ClawHarder.Resources
