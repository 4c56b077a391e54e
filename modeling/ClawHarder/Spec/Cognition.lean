import ClawHarder.Lib.Csv

/-!
# The cognition sheet

From `cognition_logger.py` the columns, and from `state_refiner.py` `_read_trajectory` and
`prune_trajectory`. The file is absent or has bytes. `Refiner` has the floats; where a call
raises, the result is `none`, or it is marked that the call did not return.
-/

namespace ClawHarder.Cognition

open PyText (lit)
open Csv (Cell Row)

def fieldnames : Csv.Record :=
  [lit "cycle", lit "run_id", lit "timestamp", lit "thought_snippet", lit "delta_r",
    lit "signal_state", lit "identity_proposal", lit "seq_ref", lit "summary"]

structure Refiner (F : Type) where
  /-- `float(text)`; none is `ValueError` -/
  float : PyText → Option F
  /-- `a < b` -/
  less : F → F → Bool
  /-- `abs(a - b)` -/
  distance : F → F → F
  /-- `0.25` -/
  high : F
  /-- `0.05` -/
  low : F
  /-- `0.1` -/
  jump : F
  mean : List F → F
  variance : List F → F
  /-- `f"{x:.4f}"` -/
  fixed : F → PyText
  /-- `str` of a list of texts -/
  reprOf : Csv.Record → PyText
  /-- A number is printed in visible ASCII. -/
  fixed_visible : ∀ x, ∀ c ∈ fixed x, 33 ≤ c.val ∧ c.val < 127

variable {F : Type} (H : Refiner F) (runId : PyText)

/-- `row[key]`; none is `KeyError`. -/
def item (row : Row) (key : String) : Option Cell := row.get? (some (lit key))

def isText (t : PyText) : Cell → Bool
  | .text u => u = t
  | _ => false

/-- `bool(v)` -/
def truth : Cell → Bool
  | .none => false
  | .text t => t ≠ []
  | .rest fields => fields ≠ []

/-- `f"{v}"` -/
def printed : Cell → PyText
  | .none => lit "None"
  | .text t => t
  | .rest fields => H.reprOf fields

/-- `float(v)` -/
def floatOf : Cell → Option F
  | .text t => H.float t
  | _ => none

/-- `[row for row in reader if row["run_id"] == run_id]` -/
def ownRows : List Row → Option (List Row)
  | [] => some []
  | row :: rows => do
    let owner ← item row "run_id"
    let rows ← ownRows rows
    return if isText runId owner then row :: rows else rows

/-- `list(csv.DictReader(f))` of the file; none when it raises. -/
def readRows : Option Bytes → Option (List Row)
  | none => some []
  | some bytes => do Csv.readDicts (PyText.universalNewlines (← PyText.decodeUtf8 bytes))

def readTrajectory (file : Option Bytes) : Option (List Row) := do
  ownRows runId (← readRows file)

/-- `r["signal_state"].split("|")[0].split(":")[0]` -/
def topSignal (row : Row) : Option PyText := do
  match ← item row "signal_state" with
  | .text t =>
    return (t.takeWhile (· ≠ PyText.codePoint '|')).takeWhile (· ≠ PyText.codePoint ':')
  | _ => none

/-- `max(signal_counts, key=signal_counts.get)`; the first of the most frequent. -/
def modalSignal (tops : List PyText) : PyText :=
  let signalCounts : OrderedMap PyText ℕ :=
    tops.foldl (fun counts top => counts.set top ((counts.get? top).getD 0 + 1)) .empty
  (signalCounts.entries.foldl (fun best e => if best.2 < e.2 then e else best) ([], 0)).1

/-- The row for a buffer, by its first and last row. -/
def summaryRow (first last : Row) (buffer : List Row) : Option Row := do
  let drs ← buffer.mapM fun r => do floatOf H (← item r "delta_r")
  let tops ← buffer.mapM topSignal
  let start ← item first "cycle"
  let stop ← item last "cycle"
  let timestamp ← item last "timestamp"
  let items : List (String × Cell) := [
    ("cycle", .text (printed H start ++ lit "-" ++ printed H stop)),
    ("timestamp", timestamp),
    ("run_id", .text runId),
    ("thought_snippet", .text (lit ("[" ++ toString buffer.length ++ " cycles collapsed]"))),
    ("delta_r", .text (lit "mean:" ++ H.fixed (H.mean drs) ++ lit "|var:" ++
      H.fixed (H.variance drs))),
    ("signal_state", .text (lit "modal:" ++ modalSignal tops)),
    ("identity_proposal", .text []),
    ("summary", .text (lit "True"))]
  return items.foldl (fun row e => row.set (some (lit e.1)) e.2) .empty

structure Pruning where
  prunedRows : List Row
  buffer : List Row

def flushBuffer (s : Pruning) : Option Pruning :=
  match s.buffer with
  | [] => some s
  | [row] => some ⟨s.prunedRows ++ [row], []⟩
  | row :: next :: rest =>
    (summaryRow H runId row ((next :: rest).getLast (List.cons_ne_nil _ _)) s.buffer).map
      fun summary => ⟨s.prunedRows ++ [summary], []⟩

/-- `dr`: none of a summary row -/
def deltaR (row : Row) : Option (Option F) := do
  if isText (lit "True") (← item row "summary") then return none
  else return some (← floatOf H (← item row "delta_r"))

/-- `abs(dr - last_dr) > 0.1`, where there are both -/
def isInflection : Option F → Option F → Bool
  | some lastDr, some dr => H.less H.jump (H.distance dr lastDr)
  | _, _ => false

/-- `dr > 0.25 or dr < 0.05`, where there is one -/
def isExtreme : Option F → Bool
  | some dr => H.less H.high dr || H.less dr H.low
  | none => false

/-- The loop over the rows: the place of a row, the `dr` before it, and the rows from it on. -/
def pruneLoop (total : ℕ) : ℕ → Option F → Pruning → List Row → Option Pruning
  | _, _, s, [] => some s
  | i, lastDr, s, row :: rows => do
    let dr ← deltaR H row
    let hasProposal := truth (← item row "identity_proposal")
    let isBoundary := i = 0 ∨ i + 1 = total
    if isExtreme H dr ∨ hasProposal ∨ isBoundary ∨ isInflection H lastDr dr then
      let s ← flushBuffer H runId s
      pruneLoop total (i + 1) dr { s with prunedRows := s.prunedRows ++ [row] } rows
    else pruneLoop total (i + 1) dr { s with buffer := s.buffer ++ [row] } rows

def pruneRows (rows : List Row) : Option (List Row) := do
  let s ← pruneLoop H runId rows.length 0 none ⟨[], []⟩ rows
  return (← flushBuffer H runId s).prunedRows

/-- The file is written anew, under the keys of the first row; does the call return? -/
def writeBack (first : Row) (prunedRows : List Row) : Option Bytes × Bool :=
  let (text, returned) := Csv.writeDicts H.reprOf first.keys prunedRows
  match PyText.encodeUtf8 (Csv.writeHeader first.keys ++ text) with
  | some bytes => (some bytes, returned)
  | none => (some [], false)

/-- `prune_trajectory`: the file after it, and whether it returns -/
def pruneTrajectory (file : Option Bytes) : Option Bytes × Bool :=
  match readTrajectory runId file with
  | none => (file, false)
  | some [] => (file, true)
  | some (first :: rows) =>
    match pruneRows H runId (first :: rows) with
    | none => (file, false)
    | some prunedRows => writeBack H first prunedRows

end ClawHarder.Cognition
