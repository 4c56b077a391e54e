import Mathlib.Algebra.Order.Field.Rat
import ClawHarder.Lib.Effectful
import ClawHarder.Lib.FileTree
import ClawHarder.Lib.PyCodec
import ClawHarder.Lib.PyValue

/-!
# The sandbox and its reversible tools

From `sandbox.py` and `tools/__init__.py`: the memory and the files of a sandbox,
the operations that the tools call, and the rollback that is registered with each
tool. A memory is as `_load_memory` returns it, with its keys in any order (the file
has them sorted); a file is given by its bytes.

No caller turns `use_memory_json` off, and links are left out. So are the receipts and
`manifest.json`, which no operation reads a file, a fact or a task from.
-/

namespace ClawHarder.Runtime

open PyText (lit codePoint)

abbrev ResourcePath := List PyText

/-- The exceptions of the sandbox. -/
inductive SandboxFault where
  | valueError (message : String)
  | keyError (message : String)
  | attributeError
  | unicodeError
  | osError
  | budgetExhausted
deriving DecidableEq

/-- `ResourceBudget`; none is `inf`. -/
structure ResourceBudget where
  memoryWrites : Option ℚ
  fileWrites : Option ℚ

namespace ResourceBudget

/-- `check` -/
def covers (remaining : Option ℚ) (cost : ℚ) : Bool := remaining.all fun r => cost ≤ r

/-- `deduct` -/
def less (remaining : Option ℚ) (cost : ℚ) : Option ℚ := remaining.map fun r => max 0 (r - cost)

end ResourceBudget

structure Memory where
  context : PyDict
  facts : PyDict
  tasks : List PyValue
  artifacts : List PyValue
  revision : ℤ

def parents : ResourcePath → List ResourcePath
  | [] => []
  | dir :: rest => [] :: (parents rest).map (dir :: ·)

/-- The files of a sandbox: what is above a file is a directory, and a directory is no
file. -/
structure SandboxFiles extends FileTree ResourcePath Bytes where
  dirs_above : ∀ p, (files p).isSome = true → ∀ q ∈ parents p, dirs q = true
  no_file : ∀ p, dirs p = true → files p = none

structure StateSandbox where
  memory : Memory
  files : SandboxFiles
  budget : Option ResourceBudget

/-- A computation in a sandbox. An exception keeps what was written before it. -/
abbrev SandboxM (α : Type) := EStateM SandboxFault StateSandbox α

def isAsciiAlnum (c : CodePoint) : Bool :=
  (48 ≤ c.val && c.val ≤ 57) || (65 ≤ c.val && c.val ≤ 90) || (97 ≤ c.val && c.val ≤ 122)

/-- `KEY_SEGMENT_RE` -/
def isKeySegment (part : PyText) : Bool :=
  part.all (fun c => isAsciiAlnum c || c.val = 95 || c.val = 45) &&
    1 ≤ part.length && part.length ≤ 64

/-- `SANDBOX_ID_RE` -/
def isSandboxId : PyText → Bool
  | [] => false
  | c :: rest =>
    isAsciiAlnum c && rest.length ≤ 63 &&
      rest.all fun c => isAsciiAlnum c || c.val = 95 || c.val = 46 || c.val = 45

/-- A parsed key: the containers on the way, `parts[:-1]`, and the name in the last. -/
structure FactKey where
  containers : List PyText
  name : PyText

def parseKey (key : PyText) : Except SandboxFault FactKey :=
  let parts := (key.splitOn (codePoint '.')).map PyText.strip
  if parts.any (· = []) then .error (.valueError "fact key cannot be empty")
  else if parts.all isKeySegment then .ok ⟨parts.dropLast, parts.getLast?.getD []⟩
  else .error (.valueError "fact key contains an invalid segment")

def parseResourceId (value : PyText) (label : String) : Except SandboxFault PyText :=
  let normalized := PyText.strip value
  if isSandboxId normalized then .ok normalized
  else .error (.valueError
    (label ++ " must be 1-64 characters of letters, numbers, dot, dash, or underscore"))

/-- `_parse_relative_resource_path`, with the segments of the path -/
def parseRelativeResourcePath (path : PyText) : Except SandboxFault (PyText × ResourcePath) :=
  let normalized :=
    (PyText.strip path).map fun c => if c = codePoint '\\' then codePoint '/' else c
  let parts := normalized.splitOn (codePoint '/')
  if normalized = [] then .error (.valueError "artifact path cannot be empty")
  else if parts.any (fun part => part = [] || part = lit "." || part = lit "..") then
    .error (.valueError "artifact path cannot contain empty or relative traversal segments")
  else .ok (normalized, parts)

/-- Take a memory write from the budget. -/
def deductMemory (cost : ℚ) (budget : ResourceBudget) : ResourceBudget :=
  { budget with memoryWrites := ResourceBudget.less budget.memoryWrites cost }

/-- The sandbox after a transaction that leaves this memory. -/
def StateSandbox.commit (s : StateSandbox) (cost : ℚ) (working : Memory) : StateSandbox :=
  { s with
    memory := { working with revision := s.memory.revision + 1 }
    budget := s.budget.map (deductMemory cost) }

def transaction {α : Type} (cost : ℚ) (mutate : Memory → Except SandboxFault (α × Memory)) :
    SandboxM α := fun s =>
  if s.budget.all (fun b => ResourceBudget.covers b.memoryWrites cost) then
    match mutate s.memory with
    | .error raised => .error raised s
    | .ok (result, working) => .ok result (s.commit cost working)
  else .error .budgetExhausted s

/-- A check outside a transaction. -/
def SandboxM.lift {α : Type} : Except SandboxFault α → SandboxM α
  | .ok a => pure a
  | .error raised => throw raised

structure SetFactResult where
  key : PyText
  previous : PyValue
  existed : Bool

def setFact (key : PyText) (value : PyValue) : SandboxM SetFactResult := do
  let parts ← SandboxM.lift (parseKey key)
  transaction 1 fun memory =>
    let target := PyValue.innermost parts.containers memory.facts
    .ok (⟨key, (PyValue.get? parts.name target).getD .none, (PyValue.get? parts.name target).isSome⟩,
      { memory with
        facts := PyValue.inside (PyValue.set parts.name value) parts.containers memory.facts })

def rollbackSetFact (key : PyText) (previous : PyValue) (existed : Bool) : SandboxM Unit := do
  let parts ← SandboxM.lift (parseKey key)
  transaction 0 fun memory =>
    let restore := if existed then PyValue.set parts.name previous else PyValue.pop parts.name
    .ok ((), { memory with facts := PyValue.inside restore parts.containers memory.facts })

/-- `int` in an f-string. -/
def intText (n : ℤ) : PyText := lit (toString n)

/-- `d.get("id") == id` -/
def hasId (id : PyText) (members : PyDict) : Bool :=
  match PyValue.get? (lit "id") members with
  | some (.str t) => t = id
  | _ => false

/-- A text that is not blank. -/
def requireText (text : PyText) (message : String) : Except SandboxFault Unit :=
  if PyText.strip text = [] then .error (.valueError message) else .ok ()

/-- `append_task` at a reading of the clock -/
def appendTask (description status created : PyText) : SandboxM PyDict := do
  SandboxM.lift (requireText description "task description cannot be empty")
  SandboxM.lift (requireText status "task status cannot be empty")
  transaction 1 fun memory =>
    let task : PyDict := [
      (lit "id", .str (lit "task-" ++ intText (memory.revision + 1))),
      (lit "description", .str description),
      (lit "status", .str status),
      (lit "created_at", .float created)]
    .ok (task, { memory with tasks := memory.tasks ++ [.dict task] })

/-- The loops over the tasks: change the first with this id. -/
def changeTask (id : PyText) (change : PyDict → Except SandboxFault PyDict) :
    List PyValue → Except SandboxFault (PyDict × List PyValue)
  | [] => .error (.keyError "Unknown task id")
  | .dict task :: rest =>
    if hasId id task then do
      let task' ← change task
      pure (task, .dict task' :: rest)
    else do
      let (previous, rest') ← changeTask id change rest
      pure (previous, .dict task :: rest')
  | _ :: _ => .error .attributeError

/-- An optional field of `update_task`. -/
def updateField (name : String) (text : Option PyText) (message : String) (task : PyDict) :
    Except SandboxFault PyDict :=
  match text with
  | none => .ok task
  | some t => do
    requireText t message
    pure (PyValue.set (lit name) (.str t) task)

/-- The body of the loop of `update_task`. -/
def updatedTask (description status : Option PyText) (updated : PyText) (task : PyDict) :
    Except SandboxFault PyDict := do
  let task ← updateField "description" description "task description cannot be empty" task
  let task ← updateField "status" status "task status cannot be empty" task
  pure (PyValue.set (lit "updated_at") (.float updated) task)

/-- `update_task`: the task before the update. -/
def updateTask (taskId : PyText) (description status : Option PyText) (updated : PyText) :
    SandboxM PyDict := do
  let id ← SandboxM.lift (parseResourceId taskId "task id")
  SandboxM.lift (if description = none ∧ status = none then
    .error (.valueError "update_task requires description or status") else .ok ())
  transaction 1 fun memory => do
    let (previous, tasks) ← changeTask id (updatedTask description status updated) memory.tasks
    pure (previous, { memory with tasks := tasks })

def rollbackUpdateTask (taskId : PyText) (previous : PyDict) : SandboxM Unit := do
  let id ← SandboxM.lift (parseResourceId taskId "task id")
  transaction 0 fun memory => do
    let (_, tasks) ← changeTask id (fun _ => .ok previous) memory.tasks
    pure ((), { memory with tasks := tasks })

/-- The loops that remove the last entry with an id, over the reversed list. -/
def removeFirst (id : PyText) : List PyValue → Except SandboxFault (List PyValue)
  | [] => .ok []
  | .dict entry :: rest =>
    if hasId id entry then .ok rest
    else do
      let rest' ← removeFirst id rest
      pure (.dict entry :: rest')
  | _ :: _ => .error .attributeError

def removeLast (id : PyText) (entries : List PyValue) : Except SandboxFault (List PyValue) := do
  let rest ← removeFirst id entries.reverse
  pure rest.reverse

def removeTask (taskId : PyText) : SandboxM Unit := do
  let id ← SandboxM.lift (parseResourceId taskId "task id")
  transaction 0 fun memory => do
    let tasks ← removeLast id memory.tasks
    pure ((), { memory with tasks := tasks })

/-- `store_artifact` at a reading of the clock -/
def storeArtifact (name path : PyText) (metadata : PyDict) (created : PyText) :
    SandboxM PyDict := do
  SandboxM.lift (requireText name "artifact name cannot be empty")
  let (normalized, _) ← SandboxM.lift (parseRelativeResourcePath path)
  transaction 1 fun memory =>
    let artifact : PyDict := [
      (lit "id", .str (lit "artifact-" ++ intText (memory.revision + 1))),
      (lit "name", .str name),
      (lit "path", .str normalized),
      (lit "metadata", .dict metadata),
      (lit "created_at", .float created)]
    .ok (artifact, { memory with artifacts := memory.artifacts ++ [.dict artifact] })

def removeArtifact (artifactId : PyText) : SandboxM Unit := do
  let id ← SandboxM.lift (parseResourceId artifactId "artifact id")
  transaction 0 fun memory => do
    let artifacts ← removeLast id memory.artifacts
    pure ((), { memory with artifacts := artifacts })

/-- `memory["context"].setdefault("notes", [])` -/
def contextNotes (context : PyDict) : Except SandboxFault (List PyValue) :=
  match PyValue.get? (lit "notes") context with
  | none => .ok []
  | some (.list notes) => .ok notes
  | some _ => .error (.valueError "memory.context.notes must be a list")

/-- `append_context_note`: the note that was stored. -/
def appendContextNote (note : PyText) : SandboxM PyText := do
  SandboxM.lift (requireText note "note cannot be empty")
  transaction 1 fun memory => do
    let notes ← contextNotes memory.context
    pure (note, { memory with
      context := PyValue.set (lit "notes") (.list (notes ++ [.str note])) memory.context })

/-- `notes[index] == note` -/
def isNote (note : PyText) : PyValue → Bool
  | .str t => t = note
  | _ => false

def removeContextNote (note : PyText) : SandboxM Unit :=
  transaction 0 fun memory => do
    let notes ← contextNotes memory.context
    let kept := (notes.reverse.eraseP (isNote note)).reverse
    pure ((), { memory with
      context := PyValue.set (lit "notes") (.list kept) memory.context })

/-- `resolved.with_suffix(resolved.suffix + ".tmp")` -/
def tmpPath : ResourcePath → ResourcePath
  | [] => []
  | [name] => [name ++ lit ".tmp"]
  | dir :: dir' :: rest => dir :: tmpPath (dir' :: rest)

/-- Take a file write from the budget. -/
def deductFile (cost : ℚ) (budget : ResourceBudget) : ResourceBudget :=
  { budget with fileWrites := ResourceBudget.less budget.fileWrites cost }

/-- `_check_budget("file_writes", cost)` -/
def checkFileBudget (cost : ℚ) : SandboxM Unit := do
  let s ← get
  if s.budget.all (fun b => ResourceBudget.covers b.fileWrites cost) then pure ()
  else throw .budgetExhausted

/-- `_deduct_budget("file_writes", cost)` -/
def deductFileBudget (cost : ℚ) : SandboxM Unit :=
  modify fun s => { s with budget := s.budget.map (deductFile cost) }

namespace SandboxFiles

/-- `resolved.parent.mkdir(parents=True, exist_ok=True)`; none is an `OSError`. -/
def mkdirParents (t : SandboxFiles) (p : ResourcePath) : Option SandboxFiles :=
  if h : ∀ q ∈ parents p, t.files q = none then
    some {
      files := t.files
      dirs := fun q => t.dirs q || (parents p).contains q
      dirs_above := fun q hq d hd => by rw [t.dirs_above q hq d hd, Bool.true_or]
      no_file := fun q hq => by
        rcases Bool.or_eq_true_iff.1 hq with hq | hq
        · exact t.no_file q hq
        · exact h q (List.contains_iff_mem.1 hq) }
  else none

/-- `path.write_bytes(raw)` -/
def writeBytes (t : SandboxFiles) (p : ResourcePath) (raw : Bytes) : Option SandboxFiles :=
  if h : t.dirs p = false ∧ ∀ q ∈ parents p, t.dirs q = true then
    some {
      t.write p raw with
      dirs_above := fun q hq => by
        by_cases hqp : q = p
        · rw [hqp]
          exact h.2
        · rw [FileTree.files_write, if_neg hqp] at hq
          exact t.dirs_above q hq
      no_file := fun q hq => by
        have hqp : q ≠ p := fun hqp => Bool.false_ne_true (h.1.symm.trans (hqp ▸ hq))
        rw [FileTree.files_write, if_neg hqp]
        exact t.no_file q hq }
  else none

/-- `tmp.replace(path)` of a file `tmp` -/
def replace (t : SandboxFiles) (tmp p : ResourcePath) : Option SandboxFiles :=
  if h : (t.files tmp).isSome = true ∧ t.dirs p = false ∧ ∀ q ∈ parents p, t.dirs q = true then
    some {
      t.move tmp p with
      dirs_above := fun q hq => by
        rw [FileTree.files_move] at hq
        by_cases hqp : q = p
        · rw [hqp]
          exact h.2.2
        · rw [if_neg hqp] at hq
          by_cases hqt : q = tmp
          · rw [hqt]
            exact t.dirs_above tmp h.1
          · rw [if_neg hqt] at hq
            exact t.dirs_above q hq
      no_file := fun q hq => by
        have hqp : q ≠ p := fun hqp => Bool.false_ne_true (h.2.1.symm.trans (hqp ▸ hq))
        rw [FileTree.files_move, if_neg hqp]
        split
        · rfl
        · exact t.no_file q hq }
  else none

/-- `path.unlink()` -/
def unlink (t : SandboxFiles) (p : ResourcePath) : Option SandboxFiles :=
  if h : t.dirs p = false then
    some {
      t.clean p with
      dirs_above := fun q hq => by
        rw [FileTree.files_clean h] at hq
        split at hq
        · cases hq
        · rw [FileTree.dirs_clean]
          exact t.dirs_above q hq
      no_file := fun q hq => by
        rw [FileTree.files_clean h]
        rw [FileTree.dirs_clean] at hq
        split
        · rfl
        · exact t.no_file q hq }
  else none

end SandboxFiles

/-- An operation on the files. -/
def onFiles (change : SandboxFiles → Option SandboxFiles) : SandboxM Unit := do
  let s ← get
  match change s.files with
  | none => throw .osError
  | some files => set { s with files := files }

/-- Write a file through its temporary file. -/
def writeThroughTmp (p : ResourcePath) (raw : Bytes) : SandboxM Unit := do
  onFiles fun t => t.mkdirParents p
  onFiles fun t => t.writeBytes (tmpPath p) raw
  onFiles fun t => t.replace (tmpPath p) p

/-- `raw.decode("utf-8")` of a file, none if the path is no file -/
def readPrevious (p : ResourcePath) : SandboxM (Option PyText) := do
  let s ← get
  match s.files.files p with
  | none => pure none
  | some raw =>
    match PyText.decodeUtf8 raw with
    | none => throw .unicodeError
    | some text => pure (some text)

/-- `content.encode("utf-8")` -/
def encode (content : PyText) : SandboxM Bytes :=
  match PyText.encodeUtf8 content with
  | none => throw .unicodeError
  | some raw => pure raw

structure WriteFileResult where
  path : PyText
  existed : Bool
  previousContent : Option PyText

def writeFile (path content : PyText) : SandboxM WriteFileResult := do
  let (normalized, p) ← SandboxM.lift (parseRelativeResourcePath path)
  checkFileBudget 1
  let previousContent ← readPrevious p
  let raw ← encode content
  writeThroughTmp p raw
  deductFileBudget 1
  pure ⟨normalized, previousContent.isSome, previousContent⟩

/-- Remove a file if there is one. -/
def unlinkPresent (p : ResourcePath) : SandboxM Unit := do
  let s ← get
  if s.files.present p then onFiles fun t => t.unlink p else pure ()

/-- The two branches of `rollback_write_file`. -/
def putBack (p : ResourcePath) (existed : Bool) (previousContent : Option PyText) :
    SandboxM Unit :=
  match existed, previousContent with
  | true, some text => do
    let raw ← encode text
    writeThroughTmp p raw
  | _, _ => unlinkPresent p

def rollbackWriteFile (path : PyText) (previousContent : Option PyText) (existed : Bool) :
    SandboxM Unit := do
  let (_, p) ← SandboxM.lift (parseRelativeResourcePath path)
  checkFileBudget 0
  putBack p existed previousContent
  deductFileBudget 0

structure DeleteFileResult where
  path : PyText
  removed : Bool
  previousContent : Option PyText

/-- `delete_file` of a path where something is. -/
def deletePresent (normalized : PyText) (p : ResourcePath) : SandboxM DeleteFileResult := do
  let s ← get
  if s.files.dirs p then throw (.valueError "sandbox path is not a file")
  else do
    let previousContent ← readPrevious p
    onFiles fun t => t.unlink p
    deductFileBudget (1 / 2)
    pure ⟨normalized, true, previousContent⟩

def deleteFile (path : PyText) : SandboxM DeleteFileResult := do
  let (normalized, p) ← SandboxM.lift (parseRelativeResourcePath path)
  checkFileBudget (1 / 2)
  let s ← get
  if s.files.present p then deletePresent normalized p
  else pure ⟨normalized, false, none⟩

def rollbackDeleteFile (path previousContent : PyText) : SandboxM Unit := do
  let (_, p) ← SandboxM.lift (parseRelativeResourcePath path)
  checkFileBudget 0
  let raw ← encode previousContent
  writeThroughTmp p raw
  deductFileBudget 0

/-- A call of a tool with a rollback. The arguments are what `json.loads` gives; the last
one of some is the reading of the clock. -/
inductive ToolCall where
  | setFact (key : PyText) (value : PyValue)
  | appendTask (description status now : PyText)
  | updateTask (taskId : PyText) (description status : Option PyText) (now : PyText)
  | storeArtifact (name path : PyText) (metadata : PyDict) (now : PyText)
  | remember (note : PyText)
  | writeSandboxFile (path content : PyText)
  | deleteSandboxFile (path : PyText)

/-- What a tool returns, as far as its rollback reads it. -/
inductive ToolResult where
  | fact (result : SetFactResult)
  | task (task : PyDict)
  | previousTask (previous : PyDict)
  | artifact (artifact : PyDict)
  | note (stored : PyText)
  | written (result : WriteFileResult)
  | deleted (result : DeleteFileResult)

def ToolCall.perform : ToolCall → SandboxM ToolResult
  | .setFact key value => do return .fact (← Runtime.setFact key value)
  | .appendTask description status now => do
    return .task (← Runtime.appendTask description status now)
  | .updateTask taskId description status now => do
    return .previousTask (← Runtime.updateTask taskId description status now)
  | .storeArtifact name path metadata now => do
    return .artifact (← Runtime.storeArtifact name path metadata now)
  | .remember note => do return .note (← appendContextNote note)
  | .writeSandboxFile path content => do return .written (← writeFile path content)
  | .deleteSandboxFile path => do return .deleted (← deleteFile path)

/-- `str(entry["id"])`, where the entry has an id that counts as true -/
def entryId (entry : PyDict) : Option PyText :=
  match PyValue.get? (lit "id") entry with
  | some (.str t) => if t = [] then none else some t
  | _ => none

/-- `rollback_remember`: the stored note, or else the argument. -/
def rollbackRemember (stored argument : PyText) : SandboxM Unit :=
  let note := if stored = [] then argument else stored
  if note = [] then pure () else removeContextNote note

/-- The rollback that is registered with the tool. -/
def ToolCall.rollback : ToolCall → ToolResult → SandboxM Unit
  | .setFact .., .fact r => Runtime.rollbackSetFact r.key r.previous r.existed
  | .appendTask .., .task task =>
    match entryId task with
    | some id => removeTask id
    | none => pure ()
  | .updateTask taskId .., .previousTask previous =>
    if taskId = [] then pure () else rollbackUpdateTask taskId previous
  | .storeArtifact .., .artifact artifact =>
    match entryId artifact with
    | some id => removeArtifact id
    | none => pure ()
  | .remember note, .note stored => rollbackRemember stored note
  | .writeSandboxFile .., .written r => rollbackWriteFile r.path r.previousContent r.existed
  | .deleteSandboxFile .., .deleted r =>
    match r.previousContent with
    | some text => if r.path = [] then pure () else rollbackDeleteFile r.path text
    | none => pure ()
  | _, _ => pure ()

/-- `memory.get("context", {}).get("notes", [])`, as `recall_notes` reads it -/
def Memory.notes (memory : Memory) : List PyValue :=
  match PyValue.get? (lit "notes") memory.context with
  | some (.list notes) => notes
  | _ => []

end ClawHarder.Runtime
