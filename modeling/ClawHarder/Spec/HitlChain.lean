import ClawHarder.Lib.PyText

/-!
# The hash chain of the public human-in-the-loop log

`_write_hitl_log` and `_load_hitl_chain_tail` of `runtime.py`. SHA-256 is a parameter,
on the text that is hashed; the capture point and the latencies of an entry, which no
hash covers, are left out.
-/

namespace ClawHarder.Hitl

open PyText (lit)

/-- The failures that `PUBLIC_HITL_FAILURE_LABELS` knows. -/
inductive FailureClass where
  | runtimeError
  | timeout
  | refused
deriving DecidableEq

/-- `failure_token`, without a failure `null` -/
def FailureClass.token : Option FailureClass → PyText
  | none => lit "null"
  | some .runtimeError => lit "runtime_error"
  | some .timeout => lit "timeout"
  | some .refused => lit "refused"

/-- `PUBLIC_HITL_FAILURE_LABELS` -/
def FailureClass.label : FailureClass → PyText
  | .runtimeError => lit "[runtime error]"
  | .timeout => lit "[timeout]"
  | .refused => lit "[refused]"

/-- What a record says; another output of a failure is refused. -/
@[ext] structure Row where
  prompt : PyText
  rawOutput : PyText
  failureClass : Option FailureClass
  timestamp : PyText
  runtimeVersion : PyText
  output_of_failure : ∀ failure, failureClass = some failure → rawOutput = failure.label

structure Entry where
  row : Row
  rowHash : PyText
  prevChainHash : PyText
  chainHash : PyText

/-- The delimiter of the hashed texts. -/
def delimiter : PyText := lit "||"

def rowMaterial (r : Row) : PyText :=
  r.prompt ++ delimiter ++ r.rawOutput ++ delimiter ++ FailureClass.token r.failureClass ++
    delimiter ++ r.timestamp ++ delimiter ++ r.runtimeVersion

section Chain

variable (sha256 : PyText → PyText)

def chainMaterial (prevChainHash : PyText) (r : Row) : PyText :=
  prevChainHash ++ delimiter ++ sha256 (rowMaterial r)

/-- The entry of `_write_hitl_log`. -/
def entryOf (prevChainHash : PyText) (r : Row) : Entry where
  row := r
  rowHash := sha256 (rowMaterial r)
  prevChainHash := prevChainHash
  chainHash := sha256 (chainMaterial sha256 prevChainHash r)

/-- The hash of the chain after them. -/
def finalHash (chainHash : PyText) (rows : List Row) : PyText :=
  rows.foldl (fun hash r => (entryOf sha256 hash r).chainHash) chainHash

end Chain

end ClawHarder.Hitl
