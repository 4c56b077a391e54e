import ClawHarder.Lib.FileTree
import ClawHarder.Lib.PyCodec
import ClawHarder.Spec.Comms

/-!
# The patch machinery

`_build_atomic_patch_plan` and `_commit_atomic_patch_plan`: patches are planned on
the contents of their files, then staged beside them, the old files moved to
backups and the staged ones into place; a failure undoes this. A `Volume` is the
file system during a request. Each call of it that is not a clean-up may fail with
an `OSError`, as `Workspace` says.
-/

namespace ClawHarder.Comms

open PyText (lit)

/-- An absolute path, by its components. -/
abbrev Path := List PyText

structure Workspace where
  root : Path
  /-- `(root / candidate).resolve()`; none when it raises -/
  resolve : PyText → Option Path
  /-- Does this call fail with an `OSError`? -/
  fault : ℕ → Bool
  /-- the directories that a failed `mkdir` has made -/
  made : ℕ → Path → Bool
  /-- the bytes that a failed `write` leaves -/
  written : ℕ → Bytes
  /-- `uuid.uuid4().hex` -/
  uuid : ℕ → PyText

structure Volume where
  tree : FileTree Path Bytes
  calls : ℕ
  drawn : ℕ

/-- The exceptions that `_commit_atomic_patch_plan` catches. -/
inductive Raised where
  | osError
  | valueError

inductive ReadResult where
  | text (t : PyText)
  | osError
  | undecodable

variable (W : Workspace)

namespace Volume

/-- Count a call of the file system; does it fail? -/
def call (v : Volume) : Bool × Volume := (W.fault v.calls, { v with calls := v.calls + 1 })

/-- `path.exists()`; none when it raises. -/
def pathExists (p : Path) (v : Volume) : Option Bool × Volume :=
  let (failed, v) := v.call W
  (if failed then none else some (v.tree.present p), v)

/-- `path.is_dir()`; none when it raises. -/
def isDir (p : Path) (v : Volume) : Option Bool × Volume :=
  let (failed, v) := v.call W
  (if failed then none else some (v.tree.dirs p), v)

/-- `path.read_text(encoding="utf-8")` -/
def readText (p : Path) (v : Volume) : ReadResult × Volume :=
  let (failed, v) := v.call W
  if failed then (.osError, v)
  else
    match v.tree.files p with
    | none => (.osError, v)
    | some bytes =>
      match PyText.decodeUtf8 bytes with
      | none => (.undecodable, v)
      | some t => (.text (PyText.universalNewlines t), v)

/-- Make these directories, where there is no file. -/
def addDirs (made : Path → Bool) (v : Volume) : Volume :=
  { v with tree := { v.tree with
    dirs := fun q => v.tree.dirs q || (made q && (v.tree.files q).isNone) } }

/-- `dir.mkdir(parents=True, exist_ok=True)`; false when it raises. -/
def mkdir (dir : Path) (v : Volume) : Bool × Volume :=
  let n := v.calls
  let (failed, v) := v.call W
  if failed then (false, v.addDirs fun q => q <+: dir && W.made n q)
  else if dir.inits.any fun q => (v.tree.files q).isSome then (false, v)
  else (true, v.addDirs fun q => q <+: dir)

/-- `path.write_text(content, encoding="utf-8")`: the file is there once it is open. -/
def writeText (p : Path) (content : PyText) (v : Volume) : Option Raised × Volume :=
  let (failed, v) := v.call W
  if failed || v.tree.dirs p then (some .osError, v)
  else
    match PyText.encodeUtf8 content with
    | none => (some .valueError, { v with tree := v.tree.write p [] })
    | some bytes =>
      let n := v.calls
      let (failed, v) := v.call W
      if failed then (some .osError, { v with tree := v.tree.write p (W.written n) })
      else (none, { v with tree := v.tree.write p bytes })

/-- `path.rename(other)` in one directory; false when it raises. -/
def rename (p q : Path) (v : Volume) : Bool × Volume :=
  let (failed, v) := v.call W
  if failed then (false, v)
  else if (v.tree.files p).isSome && !v.tree.dirs q then (true, { v with tree := v.tree.move p q })
  else (false, v)

/-- `target.with_name(f".{target.name}{tag}{uuid4().hex}")` -/
def drawName (target : Path) (tag : String) (v : Volume) : Path × Volume :=
  (target.dropLast ++ [lit "." ++ target.getLast?.getD [] ++ lit tag ++ W.uuid v.drawn],
    { v with drawn := v.drawn + 1 })

end Volume

/-- `_resolve_workspace_target`; none when it raises. -/
def resolveWorkspaceTarget (filePath : PyText) : Option (Option Path) :=
  let candidate := PyText.strip filePath
  if candidate = [] then some none
  else
    match W.resolve candidate with
    | none => none
    | some joined =>
      if joined = W.root then some none
      else if W.root <+: joined then some (some joined)
      else some none

/-- A file as the patches leave it. -/
structure Entry where
  path : Path
  originalExists : Bool
  present : Bool
  content : Option PyText

/-- What `_ensure_entry` finds. -/
inductive Lookup where
  | entry (e : Entry)
  | refused (reason : PatchFailure)
  | raised

inductive Planning where
  | planned (virtual : OrderedMap Path Entry)
  | refused (reason : PatchFailure) (patchId : Option Stripped)
  | raised

structure Plan where
  writes : List (Path × PyText)
  deletes : List Path

def ensureEntry (virtual : OrderedMap Path Entry) (target : Path) (v : Volume) :
    Lookup × Volume :=
  match virtual.get? target with
  | some existing => (.entry existing, v)
  | none =>
    match v.pathExists W target with
    | (none, v) => (.raised, v)
    | (some false, v) =>
      (.entry { path := target, originalExists := false, present := false, content := none }, v)
    | (some true, v) =>
      match v.isDir W target with
      | (none, v) => (.raised, v)
      | (some true, v) => (.refused .invalidPatch, v)
      | (some false, v) =>
        match v.readText W target with
        | (.osError, v) => (.refused .ioError, v)
        | (.undecodable, v) => (.raised, v)
        | (.text t, v) =>
          (.entry { path := target, originalExists := true, present := true, content := some t }, v)

/-- `_apply_replace_range_content`; none is `range_conflict`. -/
def applyReplaceRangeContent (currentContent : PyText) (startLine endLine : ℤ)
    (replacementContent : PyText) : Option PyText :=
  let lines := PyText.splitKeepends currentContent
  if startLine < 1 ∨ endLine < startLine then none
  else if startLine > lines.length ∨ endLine > lines.length then none
  else
    let updated := lines.take (startLine - 1).toNat ++ PyText.splitKeepends replacementContent ++
      lines.drop endLine.toNat
    some updated.flatten

def applyOp (entry : Entry) : PatchOp → Except PatchFailure Entry
  | .createFile content =>
    if entry.present then .error .fileAlreadyExists
    else .ok { entry with present := true, content := some content }
  | .deleteFile =>
    if !entry.present then .error .fileNotFound
    else .ok { entry with present := false, content := none }
  | .replaceRange startLine endLine content =>
    if !entry.present then .error .fileNotFound
    else
      match entry.content with
      | none => .error .invalidPatch
      | some current =>
        match applyReplaceRangeContent current startLine endLine content with
        | none => .error .rangeConflict
        | some updated => .ok { entry with content := some updated }

/-- `str(patch.get("patch_id", "")).strip() or None` -/
def Patch.givenId (patch : Patch) : Option Stripped :=
  if patch.patchId.text = [] then none else some patch.patchId

/-- One turn of the loop over the patches; a plan that has stopped stays. -/
def planPatch (state : Planning × Volume) (patch : Patch) : Planning × Volume :=
  match state with
  | (.planned virtual, v) =>
    match resolveWorkspaceTarget W patch.file.text with
    | none => (.raised, v)
    | some none => (.refused .invalidPatch patch.givenId, v)
    | some (some target) =>
      match ensureEntry W virtual target v with
      | (.raised, v) => (.raised, v)
      | (.refused reason, v) => (.refused reason patch.givenId, v)
      | (.entry entry, v) =>
        match applyOp entry patch.op with
        | .error reason => (.refused reason patch.givenId, v)
        | .ok entry => (.planned (virtual.set target entry), v)
  | stopped => stopped

/-- The writes and deletes of the files, in order; none when a content is missing. -/
def collectPlan : List Entry → Option Plan
  | [] => some { writes := [], deletes := [] }
  | entry :: rest =>
    match collectPlan rest with
    | none => none
    | some plan =>
      if entry.present then
        entry.content.map fun content => { plan with writes := (entry.path, content) :: plan.writes }
      else if entry.originalExists then some { plan with deletes := entry.path :: plan.deletes }
      else some plan

inductive PlanOutcome where
  | plan (plan : Plan)
  | refused (reason : PatchFailure) (patchId : Option Stripped)
  | raised

def buildAtomicPatchPlan (patches : List Patch) (v : Volume) : PlanOutcome × Volume :=
  match patches.foldl (planPatch W) (.planned .empty, v) with
  | (.raised, v) => (.raised, v)
  | (.refused reason patchId, v) => (.refused reason patchId, v)
  | (.planned virtual, v) =>
    match collectPlan virtual.values with
    | none => (.refused .invalidPatch none, v)
    | some plan => (.plan plan, v)

/-- The staging loop: the temporary files, with their targets. -/
def stageWrites : List (Path × PyText) → List (Path × Path) → Volume →
    Option Raised × List (Path × Path) × Volume
  | [], temps, v => (none, temps, v)
  | (target, content) :: rest, temps, v =>
    match v.mkdir W target.dropLast with
    | (false, v) => (some .osError, temps, v)
    | (true, v) =>
      let (tmp, v) := v.drawName W target ".bh_tmp_"
      match v.writeText W tmp content with
      | (some raised, v) => (some raised, temps, v)
      | (none, v) => stageWrites rest (temps ++ [(tmp, target)]) v

/-- The backup loops, over the targets of the writes and then of the deletes. -/
def backUpAll : List Path → List (Path × Path) → Volume →
    Option Raised × List (Path × Path) × Volume
  | [], backups, v => (none, backups, v)
  | target :: rest, backups, v =>
    match v.pathExists W target with
    | (none, v) => (some .osError, backups, v)
    | (some false, v) => backUpAll rest backups v
    | (some true, v) =>
      match v.isDir W target with
      | (none, v) => (some .osError, backups, v)
      | (some true, v) => (some .valueError, backups, v)
      | (some false, v) =>
        let (backup, v) := v.drawName W target ".bh_bak_"
        match v.rename W target backup with
        | (false, v) => (some .osError, backups, v)
        | (true, v) => backUpAll rest (backups ++ [(backup, target)]) v

/-- The activation loop: the targets that are in place. -/
def activateAll : List (Path × Path) → List Path → Volume → Option Raised × List Path × Volume
  | [], activated, v => (none, activated, v)
  | (tmp, target) :: rest, activated, v =>
    match v.rename W tmp target with
    | (false, v) => (some .osError, activated, v)
    | (true, v) => activateAll rest (activated ++ [target]) v

/-- The undo, and the clean-up after it: `_cleanup_path` is `clean`. -/
def rollBack (temps backups : List (Path × Path)) (activated : List Path) (v : Volume) : Volume :=
  let temps := temps.map Prod.fst
  let tree := activated.reverse.foldl FileTree.clean v.tree
  let tree := backups.reverse.foldl FileTree.restore tree
  { v with tree := temps.foldl FileTree.clean (temps.foldl FileTree.clean tree) }

/-- The failure that an exception becomes. -/
def Raised.failure : Raised → PatchFailure
  | .osError => .ioError
  | .valueError => .invalidPatch

def commitAtomicPatchPlan (plan : Plan) (v : Volume) : Option PatchFailure × Volume :=
  match stageWrites W plan.writes [] v with
  | (some raised, temps, v) => (some raised.failure, rollBack temps [] [] v)
  | (none, temps, v) =>
    match backUpAll W (temps.map Prod.snd ++ plan.deletes) [] v with
    | (some raised, backups, v) => (some raised.failure, rollBack temps backups [] v)
    | (none, backups, v) =>
      match activateAll W temps [] v with
      | (some raised, activated, v) => (some raised.failure, rollBack temps backups activated v)
      | (none, _, v) =>
        let tree := (backups.map Prod.fst).foldl FileTree.clean v.tree
        (none, { v with tree := (temps.map Prod.fst).foldl FileTree.clean tree })

/-- The application of patches, as `_handle_patch_execution` calls it. -/
def applyPatchesTo (patches : List Patch) (v : Volume) : PatchOutcome × Volume :=
  match patches.foldl (planPatch W) (.planned .empty, v) with
  | (.raised, v) => (.raised, v)
  | (.refused reason patchId, v) => (.refused reason patchId, v)
  | (.planned virtual, v) =>
    match collectPlan virtual.values with
    | none => (.refused .invalidPatch none, v)
    | some plan =>
      match commitAtomicPatchPlan W plan v with
      | (none, v) => (.applied, v)
      | (some failure, v) => (.rolledBack failure, v)

end ClawHarder.Comms
