import ClawHarder.Spec.Epochs

/-!
# The promotion membrane

`PromotionMembrane.execute` of `salience.py` on the stores of `memory.py`, and the keys under
which `ingestion.py` proposes what it saw in the workspace. The outcome of a decision is given;
`Host` has what a process takes from elsewhere.
-/

namespace ClawHarder.Salience

open PyText (lit codePoint)
open RuntimeCore (MemoryFrame SemanticItem semanticWrite appendEpisodic)

inductive Destination where
  | episodic
  | semantic
  | procedural
deriving DecidableEq

inductive Outcome where
  | approved
  | denied
deriving DecidableEq

structure ProposalMutation where
  content : PyText
  destination : Destination
  cycle : ℤ
  key : Option PyText := none
  content_ne : PyText.strip content ≠ []

structure ArbitrationDecision where
  proposal : ProposalMutation
  outcome : Outcome

structure MemoryStore where
  episodic : List MemoryFrame
  semantic : List SemanticItem
  procedural : PyDict

/-- `SemanticStore.read` -/
def semanticRead (key : PyText) (items : List SemanticItem) : Option SemanticItem :=
  items.find? fun item => item.key = key

structure Host where
  /-- `hash` of a text, which is another one in every process -/
  hash : PyText → ℤ
  /-- what `time()` is at each turn of the loop -/
  clock : ℕ → PyText

variable (h : Host)

/-- `p.key or default` -/
def ProposalMutation.keyOr (p : ProposalMutation) (default : PyText) : PyText :=
  if p.key.getD [] = [] then default else p.key.getD []

/-- The key that a proposal is written under. -/
def keyOf (p : ProposalMutation) : PyText :=
  match p.destination with
  | .semantic => p.keyOr (lit ("promotion_c" ++ toString p.cycle ++ "_" ++
      toString ((h.hash p.content).natAbs % 100000)))
  | .procedural => p.keyOr (lit ("policy_c" ++ toString p.cycle))
  | .episodic => []

/-- A frame of the episodic store that holds a promoted content. -/
def promotedFrame (content ts : PyText) : MemoryFrame :=
  ⟨.str (lit "promoted"), .str content, .float ts⟩

/-- The write of one decision. -/
def promote (ts : PyText) (p : ProposalMutation) (memory : MemoryStore) : MemoryStore :=
  match p.destination with
  | .semantic =>
    { memory with semantic := semanticWrite (keyOf h p) (.str p.content) ts none memory.semantic }
  | .episodic =>
    { memory with episodic := appendEpisodic memory.episodic (promotedFrame p.content ts) }
  | .procedural =>
    { memory with procedural := PyValue.set (keyOf h p) (.str p.content) memory.procedural }

section Promote

variable {p : ProposalMutation} (ts : PyText) (memory : MemoryStore)

theorem promote_semantic (hp : p.destination = .semantic) :
    promote h ts p memory =
      { memory with semantic := semanticWrite (keyOf h p) (.str p.content) ts none memory.semantic } := by
  unfold promote
  rw [hp]

theorem promote_episodic (hp : p.destination = .episodic) :
    promote h ts p memory =
      { memory with episodic := appendEpisodic memory.episodic (promotedFrame p.content ts) } := by
  unfold promote
  rw [hp]

theorem promote_procedural (hp : p.destination = .procedural) :
    promote h ts p memory =
      { memory with procedural := PyValue.set (keyOf h p) (.str p.content) memory.procedural } := by
  unfold promote
  rw [hp]

end Promote

/-- The loop of `execute`, at a turn of it: the promoted decisions, and the memory. -/
def executeFrom (i : ℕ) (memory : MemoryStore) :
    List ArbitrationDecision → List ArbitrationDecision × MemoryStore
  | [] => ([], memory)
  | decision :: decisions =>
    if decision.outcome = .approved then
      let (promoted, memory) :=
        executeFrom (i + 1) (promote h (h.clock i) decision.proposal memory) decisions
      (decision :: promoted, memory)
    else executeFrom (i + 1) memory decisions

def execute (decisions : List ArbitrationDecision) (memory : MemoryStore) :
    List ArbitrationDecision × MemoryStore :=
  executeFrom h 0 memory decisions

structure WorkspaceEvent where
  kind : PyText
  path : Option PyText := none
  symbol : Option PyText := none
  command : Option PyText := none

/-- `a or b`, of texts that may be `None` -/
def orText (a : Option PyText) (b : PyText) : PyText := if a.getD [] = [] then b else a.getD []

def WorkspaceEvent.entity (e : WorkspaceEvent) : PyText :=
  orText e.path (orText e.symbol (e.command.getD []))

def deriveKey (e : WorkspaceEvent) (destination : Destination) : Option PyText :=
  if destination = .episodic ∨ e.entity = [] then none
  else
    let safe := e.entity.map fun c =>
      if c = codePoint '/' ∨ c = codePoint '.' ∨ c = codePoint ' ' then codePoint '_' else c
    some ((lit "ws_" ++ e.kind ++ lit "_" ++ safe).take 80)

end ClawHarder.Salience
