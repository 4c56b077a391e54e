import ClawHarder.Spec.Resources

/-!
# The facts of a sandbox

`set_fact` and `get_fact` of `sandbox.py` over the root directory, with their keys, costs and
transactions. The switch `use_memory_json`, which every caller leaves on, is part of the sandbox;
what is not there is that the value is refused by `json.dumps` (`none`) and that the cost is no
finite number (`none`).
-/

namespace ClawHarder.FactStore

open PyText (lit)
open ClawHarder.Runtime (SandboxFault FactKey SetFactResult parseKey)
open ClawHarder.Resources

/-- A sandbox: what it calls, and whether it keeps `memory.json`. -/
structure StateSandbox where
  host : Host
  useMemoryJson : Bool := true

def parts (key : FactKey) : List PyText := key.containers ++ [key.name]

def parseCost : Option ℚ → Except SandboxFault ℚ
  | some cost => Transactions.parseCost cost
  | none =>
    .error (.valueError "sandbox transaction cost must be a finite non-negative number")

section Operations

variable (b : StateSandbox)

def loadMemory : RootM PyDict :=
  if b.useMemoryJson then Resources.loadMemory b.host else pure emptyMemory

def writeMemory (memory : PyValue) : RootM Unit :=
  if b.useMemoryJson then Resources.writeMemory memory else pure ()

def readMemory : RootM PyDict :=
  if b.useMemoryJson then Resources.readMemory b.host else pure emptyMemory

/-- `working["metadata"]["revision"] = revision` -/
def revise (revision : ℤ) (working : PyDict) : PyDict :=
  PyValue.set (lit "metadata")
    (.dict (PyValue.set (lit "revision") (.int revision)
      (PyValue.child (lit "metadata") working))) working

def transaction {α : Type} (cost : Option ℚ)
    (mutate : PyDict → Except SandboxFault (α × PyDict)) : RootM α := do
  let cost ← lift (ofFault (parseCost cost))
  checkBudget .memoryWrites cost
  let before ← loadMemory b
  let (result, working) ← lift (ofFault (mutate before))
  let working ← lift (normalizeMemory b.host working)
  writeMemory b (.dict (revise (revisionOf before + 1) working))
  deductBudget .memoryWrites cost
  pure result

/-- The `mutate` of `set_fact`. -/
def assignFact (key : PyText) (parsed : FactKey) (value : Option PyValue) (memory : PyDict) :
    Except SandboxFault (SetFactResult × PyDict) := do
  let facts := PyValue.child (lit "facts") memory
  let target := PyValue.innermost parsed.containers facts
  let value ← Transactions.serializable value
  pure (⟨key, (PyValue.get? parsed.name target).getD .none,
      (PyValue.get? parsed.name target).isSome⟩,
    PyValue.set (lit "facts")
      (.dict (PyValue.inside (PyValue.set parsed.name value) parsed.containers facts)) memory)

def setFact (key : PyText) (value : Option PyValue) (cost : Option ℚ) : RootM SetFactResult := do
  let parsed ← lift (ofFault (parseKey key))
  transaction b cost (assignFact key parsed value)

structure GetFactResult where
  key : PyText
  value : PyValue
  found : Bool

/-- The loop of `get_fact`. -/
def walk : List PyText → PyValue → Option PyValue
  | [], target => some target
  | part :: parts, .dict members => (PyValue.get? part members).bind (walk parts)
  | _ :: _, _ => none

def getFact (key : PyText) : RootM GetFactResult := do
  let parsed ← lift (ofFault (parseKey key))
  let memory ← readMemory b
  match walk (parts parsed) (.dict (PyValue.child (lit "facts") memory)) with
  | some target => pure ⟨key, target, true⟩
  | none => pure ⟨key, .none, false⟩

end Operations

end ClawHarder.FactStore
