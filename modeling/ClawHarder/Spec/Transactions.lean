import ClawHarder.Spec.Sandbox

/-!
# Operations of the sandbox at any cost

The operations of `sandbox.py` with their cost as an argument, and with them those that
no tool rolls back: `compress_memory`, `prune_memory`, snapshots and `reset`. An argument
that `json.dumps` refuses is `none`. Operations that only read the memory, a directory
or the list of snapshots are left out.
-/

namespace ClawHarder.Transactions

open PyText (lit codePoint)
open ClawHarder.Runtime (SandboxFault SandboxM StateSandbox SandboxFiles Memory ResourcePath ResourceBudget
  SetFactResult WriteFileResult DeleteFileResult transaction parseKey parseResourceId
  parseRelativeResourcePath requireText intText)

/-- `_parse_cost` of a finite number -/
def parseCost (cost : ℚ) : Except SandboxFault ℚ :=
  if cost < 0 then
    .error (.valueError "sandbox transaction cost must be a finite non-negative number")
  else .ok cost

/-- `_transaction` -/
def costed {α : Type} (cost : ℚ) (mutate : Memory → Except SandboxFault (α × Memory)) :
    SandboxM α := do
  let cost ← SandboxM.lift (parseCost cost)
  transaction cost mutate

/-- `_assert_json_serializable`, for the argument that goes into the memory -/
def serializable {α : Type} : Option α → Except SandboxFault α
  | some v => .ok v
  | none => .error (.valueError "sandbox memory must be JSON serializable")

section Memory

variable (cost : ℚ)

def setFact (key : PyText) (value : Option PyValue) : SandboxM SetFactResult := do
  let parts ← SandboxM.lift (parseKey key)
  costed cost fun memory => do
    let target := PyValue.innermost parts.containers memory.facts
    let value ← serializable value
    pure (⟨key, (PyValue.get? parts.name target).getD .none,
        (PyValue.get? parts.name target).isSome⟩,
      { memory with
        facts := PyValue.inside (PyValue.set parts.name value) parts.containers memory.facts })

def rollbackSetFact (key : PyText) (previous : PyValue) (existed : Bool) : SandboxM Unit := do
  let parts ← SandboxM.lift (parseKey key)
  costed cost fun memory =>
    let restore := if existed then PyValue.set parts.name previous else PyValue.pop parts.name
    .ok ((), { memory with facts := PyValue.inside restore parts.containers memory.facts })

def appendTask (description status created : PyText) : SandboxM PyDict := do
  SandboxM.lift (requireText description "task description cannot be empty")
  SandboxM.lift (requireText status "task status cannot be empty")
  costed cost fun memory =>
    let task : PyDict := [
      (lit "id", .str (lit "task-" ++ intText (memory.revision + 1))),
      (lit "description", .str description),
      (lit "status", .str status),
      (lit "created_at", .float created)]
    .ok (task, { memory with tasks := memory.tasks ++ [.dict task] })

/-- `update_task`: the task before the update. -/
def updateTask (taskId : PyText) (description status : Option PyText) (updated : PyText) :
    SandboxM PyDict := do
  let id ← SandboxM.lift (parseResourceId taskId "task id")
  SandboxM.lift (if description = none ∧ status = none then
    .error (.valueError "update_task requires description or status") else .ok ())
  costed cost fun memory => do
    let (previous, tasks) ←
      Runtime.changeTask id (Runtime.updatedTask description status updated) memory.tasks
    pure (previous, { memory with tasks := tasks })

def rollbackUpdateTask (taskId : PyText) (previous : PyDict) : SandboxM Unit := do
  let id ← SandboxM.lift (parseResourceId taskId "task id")
  costed cost fun memory => do
    let (_, tasks) ← Runtime.changeTask id (fun _ => .ok previous) memory.tasks
    pure ((), { memory with tasks := tasks })

def removeTask (taskId : PyText) : SandboxM Unit := do
  let id ← SandboxM.lift (parseResourceId taskId "task id")
  costed cost fun memory => do
    let tasks ← Runtime.removeLast id memory.tasks
    pure ((), { memory with tasks := tasks })

def storeArtifact (name path : PyText) (metadata : Option PyDict) (created : PyText) :
    SandboxM PyDict := do
  SandboxM.lift (requireText name "artifact name cannot be empty")
  let (normalized, _) ← SandboxM.lift (parseRelativeResourcePath path)
  costed cost fun memory => do
    let metadata ← serializable metadata
    let artifact : PyDict := [
      (lit "id", .str (lit "artifact-" ++ intText (memory.revision + 1))),
      (lit "name", .str name),
      (lit "path", .str normalized),
      (lit "metadata", .dict metadata),
      (lit "created_at", .float created)]
    pure (artifact, { memory with artifacts := memory.artifacts ++ [.dict artifact] })

def removeArtifact (artifactId : PyText) : SandboxM Unit := do
  let id ← SandboxM.lift (parseResourceId artifactId "artifact id")
  costed cost fun memory => do
    let artifacts ← Runtime.removeLast id memory.artifacts
    pure ((), { memory with artifacts := artifacts })

/-- Change the context's notes, and return this. -/
def changeNotes {α : Type} (result : α) (change : List PyValue → List PyValue) : SandboxM α :=
  costed cost fun memory => do
    let notes ← Runtime.contextNotes memory.context
    pure (result, { memory with
      context := PyValue.set (lit "notes") (.list (change notes)) memory.context })

/-- `append_context_note`: the note that was stored. -/
def appendContextNote (note : PyText) : SandboxM PyText := do
  SandboxM.lift (requireText note "note cannot be empty")
  changeNotes cost note (· ++ [.str note])

def removeContextNote (note : PyText) : SandboxM Unit :=
  changeNotes cost () fun notes => (notes.reverse.eraseP (Runtime.isNote note)).reverse

/-- `notes[-max_notes:] if max_notes > 0 else []`, of more notes than that -/
def lastNotes (maxNotes : ℤ) (notes : List PyValue) : List PyValue :=
  if maxNotes < notes.length then notes.drop (notes.length - maxNotes.toNat) else notes

def compressMemory (maxNotes : ℤ) : SandboxM Unit := do
  SandboxM.lift (if maxNotes < 0 then .error (.valueError "max_notes must be non-negative")
    else .ok ())
  changeNotes cost () (lastNotes maxNotes)

/-- `t.get("status") not in _done_statuses`, of a status that is a text or missing -/
def isDone : PyDict → Bool := fun task =>
  match PyValue.get? (lit "status") task with
  | some (.str t) => [lit "done", lit "closed", lit "completed"].contains t
  | _ => false

def keptTasks : List PyValue → Except SandboxFault (List PyValue)
  | [] => .ok []
  | .dict task :: rest => do
    let rest ← keptTasks rest
    pure (if isDone task then rest else .dict task :: rest)
  | _ :: _ => .error .attributeError

def pruneMemory (pruneDoneTasks : Bool) : SandboxM Unit :=
  costed cost fun memory => do
    let tasks ← if pruneDoneTasks then keptTasks memory.tasks else .ok memory.tasks
    pure ((), { memory with tasks := tasks })

end Memory

section Files

variable (cost : ℚ)

def writeFile (path content : PyText) : SandboxM WriteFileResult := do
  let (normalized, p) ← SandboxM.lift (parseRelativeResourcePath path)
  let cost ← SandboxM.lift (parseCost cost)
  Runtime.checkFileBudget cost
  let previousContent ← Runtime.readPrevious p
  let raw ← Runtime.encode content
  Runtime.writeThroughTmp p raw
  Runtime.deductFileBudget cost
  pure ⟨normalized, previousContent.isSome, previousContent⟩

def rollbackWriteFile (path : PyText) (previousContent : Option PyText) (existed : Bool) :
    SandboxM Unit := do
  let (_, p) ← SandboxM.lift (parseRelativeResourcePath path)
  let cost ← SandboxM.lift (parseCost cost)
  Runtime.checkFileBudget cost
  Runtime.putBack p existed previousContent
  Runtime.deductFileBudget cost

/-- `delete_file` of a path where something is. -/
def deletePresent (normalized : PyText) (p : ResourcePath) : SandboxM DeleteFileResult := do
  let s ← get
  if s.files.dirs p then throw (.valueError "sandbox path is not a file")
  else do
    let previousContent ← Runtime.readPrevious p
    Runtime.onFiles fun t => t.unlink p
    Runtime.deductFileBudget cost
    pure ⟨normalized, true, previousContent⟩

def deleteFile (path : PyText) : SandboxM DeleteFileResult := do
  let (normalized, p) ← SandboxM.lift (parseRelativeResourcePath path)
  let cost ← SandboxM.lift (parseCost cost)
  Runtime.checkFileBudget cost
  let s ← get
  if s.files.present p then deletePresent cost normalized p
  else pure ⟨normalized, false, none⟩

def rollbackDeleteFile (path previousContent : PyText) : SandboxM Unit := do
  let (_, p) ← SandboxM.lift (parseRelativeResourcePath path)
  let cost ← SandboxM.lift (parseCost cost)
  Runtime.checkFileBudget cost
  let raw ← Runtime.encode previousContent
  Runtime.writeThroughTmp p raw
  Runtime.deductFileBudget cost

end Files

/-- `snapshots/<id>`: its memory, and its `files` if there are any. -/
structure Snapshot where
  memory : Memory
  files : Option SandboxFiles

/-- A sandbox with what its other operations use. `updates` are the arguments and the
values of the calls of `update_task` that returned. -/
structure Session where
  sandbox : StateSandbox
  fileReads : ℚ
  snapshots : PyText → Option Snapshot
  updates : List (PyText × PyDict)

abbrev SessionM (α : Type) := EStateM SandboxFault Session α

/-- An operation on the sandbox alone. -/
def inSandbox {α : Type} (m : SandboxM α) : SessionM α := fun s =>
  match m.run s.sandbox with
  | .ok a sandbox => .ok a { s with sandbox := sandbox }
  | .error raised sandbox => .error raised { s with sandbox := sandbox }

def emptyMemory : Memory := ⟨[], [], [], [], 0⟩

/-- An empty `files` directory. -/
def emptyFiles : SandboxFiles where
  files := fun _ => none
  dirs := fun p => p = []
  dirs_above := fun _ h => absurd h Bool.false_ne_true
  no_file := fun _ _ => rfl

/-- No `files` directory. -/
def noFiles : SandboxFiles where
  files := fun _ => none
  dirs := fun _ => false
  dirs_above := fun _ h => absurd h Bool.false_ne_true
  no_file := fun _ _ => rfl

/-- `files_root.exists()` -/
def hasRoot (t : SandboxFiles) : Bool := t.dirs []

section Session

variable (cost : ℚ)

def readFile (path : PyText) : SessionM PyText := do
  let (_, p) ← inSandbox (SandboxM.lift (parseRelativeResourcePath path))
  let cost ← inSandbox (SandboxM.lift (parseCost cost))
  let s ← get
  if s.fileReads < cost then throw .budgetExhausted
  else if s.sandbox.files.dirs p then throw (.valueError "sandbox path is not a file")
  else
    match s.sandbox.files.files p with
    | none => throw .osError
    | some raw =>
      match PyText.decodeUtf8 raw with
      | none => throw .unicodeError
      | some content => do
        set { s with fileReads := max 0 (s.fileReads - cost) }
        pure content

/-- `snapshot_state`, with the id that is drawn; `copytree` refuses a directory that is
there. -/
def snapshotState (snapshotId : PyText) : SessionM Unit := do
  let cost ← inSandbox (SandboxM.lift (parseCost cost))
  inSandbox (Runtime.checkFileBudget cost)
  let s ← get
  let old := (s.snapshots snapshotId).bind Snapshot.files
  let put := fun files => Function.update s.snapshots snapshotId (some ⟨s.sandbox.memory, files⟩)
  if hasRoot s.sandbox.files then
    if old.isSome then do
      set { s with snapshots := put old }
      throw .osError
    else set { s with snapshots := put (some s.sandbox.files) }
  else set { s with snapshots := put old }
  inSandbox (Runtime.deductFileBudget cost)

def restoreSnapshot (snapshotId : PyText) : SessionM Unit := do
  let id ← inSandbox (SandboxM.lift (parseResourceId snapshotId "snapshot id"))
  let cost ← inSandbox (SandboxM.lift (parseCost cost))
  inSandbox (Runtime.checkFileBudget cost)
  let s ← get
  match s.snapshots id with
  | none => throw .osError
  | some snapshot => do
    set { s with sandbox := { s.sandbox with
      memory := snapshot.memory
      files := snapshot.files.getD emptyFiles } }
    inSandbox (Runtime.deductFileBudget cost)

def reset : SessionM Unit :=
  modify fun s => { s with sandbox := { s.sandbox with
    memory := emptyMemory
    files := if hasRoot s.sandbox.files then emptyFiles else s.sandbox.files } }

end Session

/-- The operations on the memory. The last argument of some is the reading of the clock. -/
inductive MemoryOperation where
  | setFact (key : PyText) (value : Option PyValue)
  | rollbackSetFact (key : PyText) (previous : PyValue) (existed : Bool)
  | appendTask (description status now : PyText)
  | updateTask (taskId : PyText) (description status : Option PyText) (now : PyText)
  | rollbackUpdateTask (taskId : PyText) (previous : PyDict)
  | removeTask (taskId : PyText)
  | storeArtifact (name path : PyText) (metadata : Option PyDict) (now : PyText)
  | removeArtifact (artifactId : PyText)
  | appendContextNote (note : PyText)
  | removeContextNote (note : PyText)
  | compressMemory (maxNotes : ℤ)
  | pruneMemory (pruneDoneTasks : Bool)

/-- The operation, and the arguments of a `rollback_update_task` that takes it back. -/
def MemoryOperation.perform (cost : ℚ) : MemoryOperation → SandboxM (List (PyText × PyDict))
  | .setFact key value => do let _ ← Transactions.setFact cost key value; pure []
  | .rollbackSetFact key previous existed => do
    Transactions.rollbackSetFact cost key previous existed; pure []
  | .appendTask description status now => do
    let _ ← Transactions.appendTask cost description status now; pure []
  | .updateTask taskId description status now => do
    let previous ← Transactions.updateTask cost taskId description status now
    pure [(taskId, previous)]
  | .rollbackUpdateTask taskId previous => do
    Transactions.rollbackUpdateTask cost taskId previous; pure []
  | .removeTask taskId => do Transactions.removeTask cost taskId; pure []
  | .storeArtifact name path metadata now => do
    let _ ← Transactions.storeArtifact cost name path metadata now; pure []
  | .removeArtifact artifactId => do Transactions.removeArtifact cost artifactId; pure []
  | .appendContextNote note => do let _ ← Transactions.appendContextNote cost note; pure []
  | .removeContextNote note => do Transactions.removeContextNote cost note; pure []
  | .compressMemory maxNotes => do Transactions.compressMemory cost maxNotes; pure []
  | .pruneMemory pruneDoneTasks => do Transactions.pruneMemory cost pruneDoneTasks; pure []

inductive SandboxOperation where
  | memory (op : MemoryOperation)
  | readFile (path : PyText)
  | writeFile (path content : PyText)
  | rollbackWriteFile (path : PyText) (previousContent : Option PyText) (existed : Bool)
  | deleteFile (path : PyText)
  | rollbackDeleteFile (path previousContent : PyText)
  | snapshotState (snapshotId : PyText)
  | restoreSnapshot (snapshotId : PyText)
  | reset

def SandboxOperation.perform (cost : ℚ) : SandboxOperation → SessionM Unit
  | .memory op => do
    let updates ← inSandbox (op.perform cost)
    modify fun s => { s with updates := s.updates ++ updates }
  | .readFile path => do let _ ← Transactions.readFile cost path; pure ()
  | .writeFile path content => do
    let _ ← inSandbox (Transactions.writeFile cost path content); pure ()
  | .rollbackWriteFile path previousContent existed =>
    inSandbox (Transactions.rollbackWriteFile cost path previousContent existed)
  | .deleteFile path => do let _ ← inSandbox (Transactions.deleteFile cost path); pure ()
  | .rollbackDeleteFile path previousContent =>
    inSandbox (Transactions.rollbackDeleteFile cost path previousContent)
  | .snapshotState snapshotId => Transactions.snapshotState cost snapshotId
  | .restoreSnapshot snapshotId => Transactions.restoreSnapshot cost snapshotId
  | .reset => Transactions.reset

/-- A call: an operation and its cost. -/
abbrev SandboxCall := SandboxOperation × ℚ

def sandboxStep (s : Session) (call : SandboxCall) : Session :=
  Effectful.final (call.1.perform call.2) s

/-- The call that a tool comes to, at the default cost. -/
def toolOperation : Runtime.ToolCall → SandboxCall
  | .setFact key value => (.memory (.setFact key (some value)), 1)
  | .appendTask description status now => (.memory (.appendTask description status now), 1)
  | .updateTask taskId description status now =>
    (.memory (.updateTask taskId description status now), 1)
  | .storeArtifact name path metadata now =>
    (.memory (.storeArtifact name path (some metadata) now), 1)
  | .remember note => (.memory (.appendContextNote note), 1)
  | .writeSandboxFile path content => (.writeFile path content, 1)
  | .deleteSandboxFile path => (.deleteFile path, 1 / 2)

/-- A budget without `inf`. -/
structure FiniteBudget where
  memoryWrites : ℚ
  fileReads : ℚ
  fileWrites : ℚ
  memoryWrites_nonneg : 0 ≤ memoryWrites
  fileReads_nonneg : 0 ≤ fileReads
  fileWrites_nonneg : 0 ≤ fileWrites

/-- An empty sandbox with a budget. -/
def FiniteBudget.session (b : FiniteBudget) : Session where
  sandbox := ⟨emptyMemory, noFiles, some ⟨some b.memoryWrites, some b.fileWrites⟩⟩
  fileReads := b.fileReads
  snapshots := fun _ => none
  updates := []

/-- What `update_task` returned is what its rollback gets. -/
def Permitted (s : Session) (call : SandboxCall) : Prop :=
  match call.1 with
  | .memory (.rollbackUpdateTask taskId previous) => (taskId, previous) ∈ s.updates
  | _ => True

/-- The cost of a call, if it is an operation on the memory that is committed. -/
def committedCost (s : Session) (call : SandboxCall) : ℚ :=
  match call.1 with
  | .memory op =>
    match (op.perform call.2).run s.sandbox with
    | .ok _ _ => call.2
    | .error _ _ => 0
  | _ => 0

/-- The total cost of the operations on the memory that a run commits. -/
def totalCost : Session → List SandboxCall → ℚ
  | _, [] => 0
  | s, call :: calls => committedCost s call + totalCost (sandboxStep s call) calls

end ClawHarder.Transactions
