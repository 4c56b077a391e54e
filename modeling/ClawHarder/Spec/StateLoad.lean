import Mathlib.Algebra.GroupWithZero.Nat
import ClawHarder.Spec.RuntimeState
import ClawHarder.Spec.StateFile

/-!
# Loading the runtime state

From `state.py` and `vitals_engine.py`: `RuntimeState.load`, over the bytes of the
state file and of its backup, with `VitalsEngine.compute` for a payload that has no
vitals. What `json.loads(path.read_text())` does with the bytes is given; the float
arithmetic of the vitals is that of some counts.
-/

namespace ClawHarder.RuntimeCore

open PyText (lit)

/-- `v == word` -/
def isWord (word : String) : PyValue → Bool
  | .str t => t = lit word
  | _ => false

/-- `word in v` -/
def hasWord (word : String) : PyValue → Py Bool
  | .list vs => .ok (vs.any (isWord word))
  | .dict members => .ok (members.any fun m => m.1 = lit word)
  | .str t => .ok (decide (lit word <:+: t))
  | _ => .error .typeError

/-- The edges of a revision whose `edge.get("type")` is one of these. -/
def countEdges (kinds : List String) (r : Revision) : Py ℕ := do
  let edges ← Py.items r.edges
  let types ← edges.mapM fun edge => Py.get edge "type" .none
  return types.countP fun t => kinds.any fun kind => isWord kind t

/-- The arithmetic of `VitalsEngine.compute`, from the numbers of the revisions, of the
contradictions, of the reconciliations and of the reinterpreted revisions. -/
abbrev VitalsArithmetic := ℕ → ℕ → ℕ → ℕ → InstitutionalVitals

/-- `VitalsEngine.compute` -/
def computeVitals (arithmetic : VitalsArithmetic) (revisions : List Revision) :
    Py InstitutionalVitals :=
  if revisions.isEmpty then .ok {}
  else do
    let contradictions ← revisions.mapM (countEdges ["contradiction"])
    let reconciliations ← revisions.mapM (countEdges ["reconciliation", "supersession"])
    let reinterpreted ← revisions.mapM fun r => hasWord "REINTERPRETED" r.continuityFlags
    return arithmetic revisions.length contradictions.sum reconciliations.sum
      (reinterpreted.count true)

/-- `TypeError` and `ValueError`; the `JSONDecodeError` of `load` is a `ValueError`. -/
def Caught : PyRaised → Prop
  | .typeError | .valueError => True
  | .attributeError | .keyError | .overflowError => False

instance : DecidablePred Caught
  | .typeError | .valueError => inferInstanceAs (Decidable True)
  | .attributeError | .keyError | .overflowError => inferInstanceAs (Decidable False)

/-- What `json.loads(path.read_text(encoding="utf-8"))` comes to: a value, an exception
that `load` catches (`OSError`, `UnicodeDecodeError`, `JSONDecodeError`), or another one
(`RecursionError`). -/
inductive Parsed where
  | value (payload : PyValue)
  | caught
  | escaped

variable {β : Type} (b : PyBuiltins) (fresh : Fresh) (arithmetic : VitalsArithmetic)
  (parse : List β → Parsed)

/-- `cls.from_dict(json.loads(path.read_text(encoding="utf-8")))` -/
def decode (text : List β) : Runtime.Decoded RuntimeState :=
  match parse text with
  | .caught => .caught
  | .escaped => .escaped
  | .value payload =>
    match RuntimeState.fromDict b ⟨fresh, computeVitals arithmetic⟩ payload with
    | .ok s => .state s
    | .error e => if Caught e then .caught else .escaped

def RuntimeState.load (f : Runtime.StateFiles β) : Runtime.Loaded RuntimeState :=
  f.load (decode b fresh arithmetic parse)

end ClawHarder.RuntimeCore
