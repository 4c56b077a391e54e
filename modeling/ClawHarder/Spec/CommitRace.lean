import Mathlib.Logic.Function.Basic
import ClawHarder.Spec.Manager

/-!
# The steps of a commit

`ManifestManager.commit` and `ManifestPersistence.commit` between their awaits. A
commit stands at one of its awaits (`Stage`); `advance` is the effect of the awaited
call on the files and the code that runs from there to the next await.

A descriptor follows its file through a rename, so files are inodes. `commit` copies
the scalars and the log of the working manifest into the manifest it writes and shares
the records with it; they are read once for the hash, when it is built, and again when
it is serialized.

Two systems are made of these steps: committers that race on one path, and a manager
that is called while its commit is in flight.
-/

namespace ClawHarder

variable {N : Type}

/-- What a file holds, as `JSON.parse` finds it, and its length. -/
structure Blob (N : Type) where
  file : ManifestFile N
  length : ℕ

/-- The files at the manifest path and at `manifestPath.tmp`. -/
structure Files (N : Type) where
  inodes : ℕ → Blob N
  /-- the next unused inode -/
  fresh : ℕ
  manifest : Option ℕ
  tmp : Option ℕ

/-- What comes of an awaited call. -/
structure Fate (N : Type) where
  fails : Bool := false
  /-- what is left of a file that a write does not replace whole: it failed on the way,
  or the file was longer -/
  left : Blob N := { file := .garbled, length := 0 }

namespace Files

/-- What the manifest path shows. -/
def visible (files : Files N) : Option (ManifestFile N) :=
  files.manifest.map fun i => (files.inodes i).file

/-- `readRevision`, `none` when it throws. -/
def revision (files : Files N) : Option ℤ :=
  match files.visible with
  | none => some (-1)
  | some .garbled => none
  | some (.other _ revision) => revision
  | some (.manifest m) => some m.revision

/-- `open(tmp, "w")`: the descriptor; an existing file is emptied. -/
def openTmp (files : Files N) : ℕ × Files N :=
  let fd := files.tmp.getD files.fresh
  (fd,
    { files with
      inodes := Function.update files.inodes fd { file := .garbled, length := 0 }
      fresh := if files.tmp = none then files.fresh + 1 else files.fresh
      tmp := some fd })

def put (fd : ℕ) (blob : Blob N) (files : Files N) : Files N :=
  { files with inodes := Function.update files.inodes fd blob }

/-- A text of this length from the start of a file: a longer file keeps its end. -/
def write (fd length : ℕ) (m : Manifest N) (left : Blob N) (files : Files N) : Files N :=
  files.put fd
    (if (files.inodes fd).length ≤ length then { file := .manifest m, length } else left)

/-- `rename(tmp, manifestPath)`, which throws (`none`) when there is no `tmp`. -/
def renameTmp (files : Files N) : Option (Files N) :=
  files.tmp.map fun i => { files with manifest := some i, tmp := none }

/-- A directory with at most a manifest in it. -/
def holding (file : Option (ManifestFile N)) : Files N where
  inodes _ := { file := file.getD .garbled, length := 0 }
  fresh := 1
  manifest := file.map fun _ => 0
  tmp := none

end Files

inductive Stage (N : Type) where
  /-- `readFile` in `readRevision` -/
  | reading
  /-- the revision was read (`none`: it could not be) -/
  | read (revision : Option ℤ)
  /-- `next` is built and hashed -/
  | hashing (next : Manifest N)
  /-- `mkdir` in `commitRaw` -/
  | makingDir (next : Manifest N)
  /-- `open` -/
  | opening (file : Manifest N)
  /-- `fd.writeFile` -/
  | writing (file : Manifest N) (fd : ℕ)
  /-- `fd.sync` -/
  | syncing (file : Manifest N) (fd : ℕ)
  /-- `fd.close`, after a failure or not -/
  | closing (file : Manifest N) (fd : ℕ) (failed : Bool)
  /-- `rename` -/
  | replacing (file : Manifest N)
  /-- the file is in place -/
  | replaced (file : Manifest N)
  | returned (result : CommitResult)

/-- The records of a manifest that is serialized, which it shares with the working one. -/
def Manifest.fill (next working : Manifest N) : Manifest N :=
  { next with
    facts := working.facts
    references := working.references
    summaries := working.summaries }

/-- The failure of `commitRaw`. -/
def writeFailed : CommitResult := .failed .ioError "Atomic write failed"

/-- The awaited call is done, with this fate, and the commit goes on to its next await.
`length` is the length of the text of a manifest. -/
def advance [JsNumber N] (E : Env N) (length : Manifest N → ℕ) (actor : String)
    (working : Manifest N) (expectedRevision : ℤ) (fate : Fate N) (files : Files N) (sys : Sys) :
    Stage N → Stage N × Files N × Sys
  | .reading => (.read (if fate.fails then none else files.revision), files, sys)
  | .read none =>
    (.returned (.failed .ioError "Could not read current revision"), files, sys)
  | .read (some diskRevision) =>
    if diskRevision ≠ expectedRevision then
      (.returned (.failed .revisionConflict ("Expected revision " ++ toString expectedRevision ++
        ", disk has " ++ toString diskRevision ++ ". Reload and replan.")), files, sys)
    else
      let (next, sys) := nextManifest E sys actor working diskRevision
      (.hashing next, files, sys)
  | .hashing next => (.makingDir next, files, sys)
  | .makingDir next =>
    if fate.fails then (.returned writeFailed, files, sys)
    else (.opening (next.fill working), files, sys)
  | .opening file =>
    if fate.fails then (.returned writeFailed, files, sys)
    else (.writing file files.openTmp.1, files.openTmp.2, sys)
  | .writing file fd =>
    if fate.fails then (.closing file fd true, files.put fd fate.left, sys)
    else (.syncing file fd, files.write fd (length file) file fate.left, sys)
  | .syncing file fd => (.closing file fd fate.fails, files, sys)
  | .closing file _ failed =>
    if failed || fate.fails then (.returned writeFailed, files, sys)
    else (.replacing file, files, sys)
  | .replacing file =>
    match if fate.fails then none else files.renameTmp with
    | none => (.returned writeFailed, files, sys)
    | some files => (.replaced file, files, sys)
  | .replaced file => (.returned (.ok file.revision file.integrityHash), files, sys)
  | .returned result => (.returned result, files, sys)

/-- A persistence instance in a call of `commit`. -/
structure Committer (N : Type) where
  actor : String
  manifest : Manifest N
  expectedRevision : ℤ
  stage : Stage N

structure Race (ι N : Type) where
  committers : ι → Committer N
  files : Files N
  sys : Sys

/-- One committer goes one step. -/
def Race.tick {ι : Type} [DecidableEq ι] [JsNumber N] (E : Env N) (length : Manifest N → ℕ)
    (race : Race ι N) (e : ι × Fate N) : Race ι N :=
  let c := race.committers e.1
  let (stage, files, sys) :=
    advance E length c.actor c.manifest c.expectedRevision e.2 race.files race.sys c.stage
  { committers := Function.update race.committers e.1 { c with stage }, files, sys }

structure InFlight (N : Type) where
  engine : Engine N
  files : Files N
  stage : Stage N
  /-- what `ManifestManager.commit` returned -/
  result : Option CommitResult

/-- `ManifestManager.commit` of a dirty manager, up to its first await. -/
def InFlight.start (engine : Engine N) (files : Files N) : InFlight N where
  engine
  files
  stage := .reading
  result := none

/-- The manager after `persistence.commit` returned. -/
def Engine.settle (result : CommitResult) (s : Engine N) : Engine N :=
  match result with
  | .ok revision integrityHash =>
    { s with
      working := { s.working with revision, integrityHash }
      expectedRevision := revision
      dirty := false }
  | .failed _ _ => s

inductive FlightEvent (N : Type) where
  /-- a call of the API between two steps of the commit -/
  | call (op : Op N)
  | advance (fate : Fate N)

/-- The next step of the commit: of `persistence.commit`, or of its caller after it. -/
def InFlight.advance [JsNumber N] (E : Env N) (length : Manifest N → ℕ) (fate : Fate N)
    (c : InFlight N) : InFlight N :=
  match c.stage, c.result with
  | .returned result, none =>
    { c with engine := c.engine.settle result, result := some result }
  | _, _ =>
    let (stage, files, sys) := ClawHarder.advance E length c.engine.actor c.engine.working
      c.engine.expectedRevision fate c.files c.engine.sys c.stage
    { c with engine := { c.engine with sys }, files, stage }

def InFlight.tick [JsNumber N] (E : Env N) (length : Manifest N → ℕ) (c : InFlight N) :
    FlightEvent N → InFlight N
  | .call op => { c with engine := step E c.engine op }
  | .advance fate => c.advance E length fate

end ClawHarder
