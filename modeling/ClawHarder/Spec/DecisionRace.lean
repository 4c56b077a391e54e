import ClawHarder.Spec.Comms

/-!
# Decision submissions on several threads

The server handles each request on a thread of its own. A decision submission reads
the ledger twice (for the request, for an existing decision), draws two numbers under
the lock and appends its row under the lock again; each of these is one step here,
and the steps of any number of handlers interleave. Other handlers draw numbers and
append their rows in between, and a restart ends all handlers.
-/

namespace ClawHarder.Comms

/-- Where a handler of a decision submission is. -/
inductive Phase where
  | idle
  /-- the body is checked -/
  | parsed (t : RequestType) (b : DecisionBody)
  /-- the request is found -/
  | located (t : RequestType) (b : DecisionBody) (request : OperationRecord)
  /-- no decision was found -/
  | undecided (t : RequestType) (b : DecisionBody) (request : OperationRecord)
  /-- the decision has its id -/
  | numbered (t : RequestType) (b : DecisionBody) (request : OperationRecord) (decisionId : ℕ)
  /-- the row is made up -/
  | drafted (row : OperationRecord)
  | done (reply : Reply)

/-- The server, and each handler. -/
structure Threads where
  server : Server
  handlers : ℕ → Phase

/-- One step of a handler, on its own. -/
def advance (clock : ℕ → ℚ) (s : Server) : Phase → Phase × Server
  | .parsed t b =>
    match locateForDecision t b s.ledger with
    | .error reply => (.done reply, s)
    | .ok request => (.located t b request, s)
  | .located t b request =>
    match findDecisionRecord t b.requestId s.ledger with
    | some existing => (.done (alreadyDecided b existing), s)
    | none => (.undecided t b request, s)
  | .undecided t b request =>
    (.numbered t b request (s.decisionCounter + 1),
      { s with decisionCounter := s.decisionCounter + 1 })
  | .numbered t b request decisionId =>
    (.drafted ((decisionDraft t b request decisionId).row (s.opCounter + 1) (clock s.clockReads)),
      { s with opCounter := s.opCounter + 1, clockReads := s.clockReads + 1 })
  | .drafted row => (.done (.receipt row), { s with ledger := s.ledger ++ [row] })
  | phase => (phase, s)

/-- A row of another handler, which is no decision. -/
structure ForeignRow where
  row : OperationRecord
  undecided : ∀ t, row.operationType ≠ .decision t

inductive Tick where
  /-- a submission starts -/
  | submit (i : ℕ) (t : RequestType) (body : PyDict)
  /-- a handler goes one step -/
  | step (i : ℕ)
  /-- another handler draws an operation id -/
  | number
  /-- another handler appends a row -/
  | foreign (r : ForeignRow)
  | restart

/-- A handler that is given a body; a busy one stays as it is. -/
def submit (reprOf : PyValue → PyText) (t : RequestType) (body : PyDict) : Phase → Phase
  | .idle =>
    match parseDecision reprOf body with
    | .error message => .done (.error 400 message)
    | .ok b => .parsed t b
  | phase => phase

def tick (reprOf : PyValue → PyText) (clock : ℕ → ℚ) (s : Threads) : Tick → Threads
  | .submit i t body =>
    { s with handlers := fun j => if j = i then submit reprOf t body (s.handlers i) else s.handlers j }
  | .step i =>
    let (phase, server) := advance clock s.server (s.handlers i)
    { server, handlers := fun j => if j = i then phase else s.handlers j }
  | .number =>
    { s with server :=
      { s.server with opCounter := s.server.opCounter + 1, clockReads := s.server.clockReads + 1 } }
  | .foreign r => { s with server := { s.server with ledger := s.server.ledger ++ [r.row] } }
  | .restart =>
    { server := .start s.server.ledger s.server.clockReads, handlers := fun _ => .idle }

/-- A server with an empty ledger, and no submission. -/
def Threads.initial : Threads := { server := .start [] 0, handlers := fun _ => .idle }

end ClawHarder.Comms
