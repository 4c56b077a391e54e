import ClawHarder.Lib.Catalog
import ClawHarder.Lib.Run
import ClawHarder.Spec.Resources

/-!
# The files of a sandbox as a finite map

What `write_file`, `delete_file` and their rollbacks are for: a map from paths to texts,
which `read_file` reads and of which the manifest is the catalog. A session keeps, beside
the sandbox, the text that was last written to each path.
-/

namespace ClawHarder.FileStore

open PyText (lit codePoint)
open ClawHarder.Runtime (ResourcePath ResourceBudget parseRelativeResourcePath tmpPath)
open ClawHarder.Resources

/-- A call of an operation on the files, with its cost and the reading of the clock. -/
inductive StoreCall where
  | writeFile (cost : ℚ) (now path content : PyText)
  | rollbackWriteFile (cost : ℚ) (now path : PyText) (previousContent : Option PyText)
      (existed : Bool)
  | deleteFile (cost : ℚ) (path : PyText)
  | rollbackDeleteFile (cost : ℚ) (now path : PyText) (previousContent : Option PyText)

namespace StoreCall

def perform (h : Host) : StoreCall → RootM Unit
  | writeFile cost now path content => do
    let _ ← Resources.writeFile h cost now path content
    pure ()
  | rollbackWriteFile cost now path previousContent existed =>
    Resources.rollbackWriteFile h cost now path previousContent existed
  | deleteFile cost path => do
    let _ ← Resources.deleteFile h cost path
    pure ()
  | rollbackDeleteFile cost now path previousContent =>
    Resources.rollbackDeleteFile h cost now path previousContent

def cost : StoreCall → ℚ
  | writeFile cost .. | rollbackWriteFile cost .. | deleteFile cost .. |
    rollbackDeleteFile cost .. => cost

def path : StoreCall → PyText
  | writeFile _ _ path _ | rollbackWriteFile _ _ path _ _ | deleteFile _ path |
    rollbackDeleteFile _ _ path _ => path

/-- What the path holds after the call. -/
def content : StoreCall → Option PyText
  | writeFile _ _ _ content => some content
  | rollbackWriteFile _ _ _ previousContent existed => if existed then previousContent else none
  | deleteFile _ _ => none
  | rollbackDeleteFile _ _ _ previousContent => previousContent

end StoreCall

/-- The segments of a path that parses. -/
def segments (path : PyText) : ResourcePath :=
  match parseRelativeResourcePath path with
  | .ok (_, p) => p
  | .error _ => []

/-- A sandbox, and the text that was last written to each path. -/
structure Session where
  root : Root
  view : ResourcePath → Option PyText

/-- A call, which may raise; only one that returns changes the view. -/
def step (h : Host) (s : Session) (call : StoreCall) : Session :=
  match (call.perform h).run s.root with
  | .ok _ root => ⟨root, Function.update s.view (segments call.path) call.content⟩
  | .error _ root => { s with root := root }

/-- A new sandbox, to which nothing was written. -/
def fresh (h : Host) (budget : Option Budget) : Session := ⟨created h budget, fun _ => none⟩

/-- The files below `files`. -/
def below (x : Root) (p : ResourcePath) : Option Document := x.tree.files (filesRoot ++ p)

def content (h : Host) (x : Root) (p : ResourcePath) : Option PyText :=
  (below x p).bind fun file => PyText.decodeUtf8 (file.raw h)

/-- `"/".join(p)` -/
def joined (p : ResourcePath) : PyText := [codePoint '/'].intercalate p

/-- `entry.get("path")`, of an entry with a text there -/
def entryPath : PyValue → Option PyText
  | .dict members =>
    match PyValue.get? (lit "path") members with
    | some (.str t) => some t
    | _ => none
  | _ => none

/-- An entry of the manifest with the path, the hash and the size of a file. -/
def Describes (h : Host) (p : ResourcePath) (file : Document) (entry : PyValue) : Prop :=
  ∃ members, entry = .dict members ∧
    PyValue.get? (lit "path") members = some (.str (joined p)) ∧
    PyValue.get? (lit "hash") members = some (.str (h.sha256 (file.raw h))) ∧
    PyValue.get? (lit "size_bytes") members = some (.int (file.raw h).length) ∧
    ∃ version, PyValue.get? (lit "version") members = some (.int version)

/-- The manifest lists exactly the files, each once. -/
def Listed (h : Host) (files : ResourcePath → Option Document) (entries : List PyValue) : Prop :=
  Catalog (Describes h) entryPath files entries

/-- The budget covers a cost. -/
def Covers (x : Root) (kind : BudgetKind) (cost : ℚ) : Prop :=
  x.budget.all (fun b => ResourceBudget.covers (b.get kind) cost) = true

/-- **The sandbox is the map of what was last written**, and its manifest lists the files. -/
structure Refined (h : Host) (s : Session) : Prop where
  content : ∀ p, content h s.root p = s.view p
  reads : ∀ cost path, 0 ≤ cost → Covers s.root .fileReads cost →
    (Effectful.result (readFile h cost path) s.root).map ReadFileResult.content =
      s.view (segments path)
  manifest : ∃ manifest, s.root.manifest = .ok manifest ∧
    Listed h (below s.root) (listAt (lit "resources") manifest)

/-- A call that gets to its temporary file: its checks pass, and it has bytes to write in a
directory that is there or can be made. -/
structure Stages (x : Root) (call : StoreCall) : Prop where
  parses : ∃ normalized, parseRelativeResourcePath call.path = .ok (normalized, segments call.path)
  cost : 0 ≤ call.cost
  covers : Covers x .fileWrites call.cost
  encodes : ((call.content.bind PyText.encodeUtf8).isSome) = true
  parent : (x.tree.mkdirs (filesRoot ++ segments call.path).dropLast).isSome = true

/-- Where a call gets to its temporary file, no file is in that place and the path itself is
no directory; or a directory is in that place, and the call fails. -/
def Clear (s : Session) (call : StoreCall) : Prop :=
  Stages s.root call →
    s.root.tree.dirs (tmpPath (filesRoot ++ segments call.path)) = true ∨
      (s.root.tree.files (tmpPath (filesRoot ++ segments call.path)) = none ∧
        s.root.tree.dirs (filesRoot ++ segments call.path) = false)

end ClawHarder.FileStore
