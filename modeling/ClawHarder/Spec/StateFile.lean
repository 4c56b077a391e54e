import ClawHarder.Lib.Run

/-!
# The state file

`RuntimeState.save` writes the payload to a temporary file, moves the current file
to the backup and the temporary one into place; `RuntimeState.load` reads the file,
and the backup when the file does not decode. `save` is the list of its atomic
steps, so a crash point is a prefix of it. The payload reaches the temporary file
in chunks, and each of the three renames may fail.

`decode` is `from_dict(json.loads(text))`.
-/

namespace ClawHarder.Runtime

/-- The file at `path`, the one at `.bak` and the one at `.tmp`. -/
structure StateFiles (β : Type*) where
  main : Option (List β)
  backup : Option (List β)
  temp : Option (List β)

/-- What decoding a text comes to: a state, one of the exceptions that `load`
catches, or another exception. -/
inductive Decoded (S : Type*) where
  | state (s : S)
  | caught
  | escaped

inductive Loaded (S : Type*) where
  | decoded (s : S)
  /-- `cls()` -/
  | fresh
  | raised

/-- The renames that fail with an `OSError`. -/
structure RenameFaults where
  aside : Bool
  into : Bool
  back : Bool

inductive SaveStep (β : Type*) where
  /-- `temp_path.open("w")` -/
  | openTemp
  | writeTemp (chunk : List β)
  /-- `path.replace(backup_path)` -/
  | moveAside
  /-- `temp_path.replace(path)` -/
  | moveInto
  /-- `backup_path.replace(path)` -/
  | moveBack

variable {β S : Type*}

namespace StateFiles

def step (f : StateFiles β) : SaveStep β → StateFiles β
  | .openTemp => { f with temp := some [] }
  | .writeTemp chunk => { f with temp := f.temp.map (· ++ chunk) }
  | .moveAside => { f with main := none, backup := f.main }
  | .moveInto => { f with main := f.temp, temp := none }
  | .moveBack => { f with main := f.backup, backup := none }

/-- `save`, of a payload that is written in these chunks. -/
def save (r : RenameFaults) (chunks : List (List β)) (f : StateFiles β) : List (SaveStep β) :=
  let written := .openTemp :: chunks.map .writeTemp
  let hadExisting := f.main.isSome
  let aside := if hadExisting && !r.aside then [.moveAside] else []
  let f := Machine.run step f (written ++ aside)
  let placed :=
    if !r.into then [.moveInto]
    -- the handler of a failed `temp_path.replace(path)`
    else if hadExisting && f.backup.isSome && !f.main.isSome && !r.back then [.moveBack]
    else []
  written ++ aside ++ placed

/-- The files after a crash before step `k` of the save. -/
def crashed (r : RenameFaults) (chunks : List (List β)) (f : StateFiles β) (k : ℕ) :
    StateFiles β :=
  Machine.run step f ((save r chunks f).take k)

/-- The handler of `load`: the backup, if it decodes. -/
def loadBackup (decode : List β → Decoded S) (f : StateFiles β) : Loaded S :=
  match f.backup with
  | none => .fresh
  | some text =>
    match decode text with
    | .state s => .decoded s
    | .caught => .fresh
    | .escaped => .raised

def load (decode : List β → Decoded S) (f : StateFiles β) : Loaded S :=
  match f.main with
  | none => .fresh
  | some text =>
    match decode text with
    | .state s => .decoded s
    | .caught => f.loadBackup decode
    | .escaped => .raised

end StateFiles

end ClawHarder.Runtime
