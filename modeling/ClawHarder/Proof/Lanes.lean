import ClawHarder.Proof.Site

/-!
# The lanes of the requests

A request that is approved is ready until it is reconciled, and closed as soon as any
row with a terminal status names it. The attempt row of an execution has one, so
between it and the reconciliation the request is in both lanes.

* `mem_lane`: the lanes are read off the tracks.
* `lanes_partition_iff`: **every request is in exactly one lane if and only if the
  approved requests are reconciled exactly when they were closed since the approval.**
-/

namespace ClawHarder.Comms

open PyText (lit)

variable {t : RequestType} {id : Stripped} {L : List OperationRecord}

def InLane (lane : List RequestState) (id : Stripped) : Prop := ∃ st ∈ lane, st.requestId = id

instance (lane : List RequestState) (id : Stripped) : Decidable (InLane lane id) := by
  unfold InLane
  infer_instance

def ExactlyOne (a b c : Prop) : Prop := (a ∧ ¬ b ∧ ¬ c) ∨ (¬ a ∧ b ∧ ¬ c) ∨ (¬ a ∧ ¬ b ∧ c)

def InOneLane (t : RequestType) (id : Stripped) (L : List OperationRecord) : Prop :=
  ExactlyOne (InLane ((rebuildRequestProjections L).pending t) id)
    (InLane ((rebuildRequestProjections L).ready t) id)
    (InLane ((rebuildRequestProjections L).closed t) id)

/-- **A lane is read off the tracks.** -/
theorem mem_lane (f : RequestState → Bool) :
    InLane (((projectRows L).states t).values.filter f) id ↔
      ∃ st, track t id L = some st ∧ f st = true := by
  constructor
  · rintro ⟨st, hst, hid⟩
    obtain ⟨hval, hf⟩ := List.mem_filter.1 hst
    obtain ⟨k, hk⟩ := OrderedMap.mem_values.1 hval
    rw [states_projectRows] at hk
    have hreads := track_spec t k L
    rw [hk] at hreads
    have hkid : st.requestId = k := hreads.requestId
    rw [← hid, hkid]
    exact ⟨st, hk, hf⟩
  · rintro ⟨st, htrack, hf⟩
    have hreads := track_spec t id L
    rw [htrack] at hreads
    refine ⟨st, List.mem_filter.2 ⟨OrderedMap.mem_values.2 ⟨id, ?_⟩, hf⟩, hreads.requestId⟩
    rw [states_projectRows]
    exact htrack

theorem Made.reads (h : Made t id L) : ∃ st, track t id L = some st ∧ Reads t id L st := by
  have hspec := track_spec t id L
  cases htrack : track t id L with
  | none =>
    rw [htrack] at hspec
    exact absurd h hspec
  | some st =>
    rw [htrack] at hspec
    exact ⟨st, rfl, hspec⟩

theorem inLane_iff {st : RequestState} (htrack : track t id L = some st)
    (f : RequestState → Bool) :
    InLane (((projectRows L).states t).values.filter f) id ↔ f st = true := by
  rw [mem_lane, htrack]
  simp

/-- A request that was made is in one lane exactly when, if approved, it is reconciled
and closed together. -/
theorem inOneLane_iff (h : Made t id L) :
    InOneLane t id L ↔ (Approved t id L → (Reconciled t id L ↔ ClosedSince t id L)) := by
  obtain ⟨st, htrack, hreads⟩ := h.reads
  have hlanes : InOneLane t id L ↔
      ExactlyOne (st.pending = true) (st.ready = true) (st.closed = true) := by
    unfold InOneLane rebuildRequestProjections
    simp only [inLane_iff htrack]
  rw [hlanes, ← hreads.approved, ← hreads.reconciled]
  unfold ExactlyOne RequestState.pending RequestState.ready RequestState.closed
  rw [hreads.seen]
  cases happ : st.approved with
  | false =>
    -- not approved: pending or closed, never ready
    cases st.closedStatus <;> simp
  | true =>
    rw [← hreads.closed happ]
    cases st.closedStatus <;> cases st.reconciled <;> simp

/-- **The lanes partition the requests of a ledger** if and only if, for every request
whose last decision approves it, it is reconciled exactly when a row has closed it
since that approval. -/
theorem lanes_partition_iff (L : List OperationRecord) :
    (∀ t id, Made t id L → InOneLane t id L) ↔
      ∀ t id, Approved t id L → (Reconciled t id L ↔ ClosedSince t id L) := by
  constructor
  · intro h t id happ
    exact (inOneLane_iff happ.made).1 (h t id happ.made) happ
  · intro h t id hmade
    exact (inOneLane_iff hmade).2 (h t id)

def Host.quiet : Host Unit where
  reprOf _ := []
  clock n := n
  ingestInput _ w := (.ok (lit "INTENT_1"), w)
  dispatchInputIntent _ w := (.ok { ok := true, intentId := none }, w)
  pendingTool _ := none
  applyPatches _ w := (.applied, w)
  registry := { known := fun _ => true, argumentErrors := fun _ _ => false
                execute := fun _ _ w => (true, w) }

/-- The body of a proposal with one patch, which creates a file, and no request ids. -/
def proposal (file : String) : PyDict :=
  [(lit "instruction", .str (lit "write it")), (lit "execute", .bool false),
    (lit "patches", .list [.dict [(lit "op", .str (lit "create_file")),
      (lit "file", .str (lit file)), (lit "content", .str (lit "text"))]])]

def approval : PyDict :=
  [(lit "request_id", .str (lit "PATCH_REQ_001")), (lit "decision", .str (lit "approved")),
    (lit "actor", .str (lit "operator")), (lit "rationale", .str (lit "fine"))]

def execution : PyDict :=
  [(lit "request_id", .str (lit "PATCH_REQ_001")), (lit "actor", .str (lit "operator"))]

def quietLedger (es : List (Event Unit)) : List OperationRecord :=
  (Machine.run (serve Host.quiet) (Site.initial ()) es).server.ledger

def oneExecution : List (Event Unit) :=
  [.ideExecute (proposal "a.txt"), .decision .patch approval, .execution .patch execution]

/-- **The lanes overlap inside an execution**: after the attempt row the request is
ready and closed. -/
theorem lanes_overlap :
    ¬ ∀ (es : List (Event Unit)) (L : List OperationRecord), L <+: quietLedger es →
      ∀ t id, Made t id L → InOneLane t id L := by
  intro h
  have hpre : (quietLedger oneExecution).take 4 <+: quietLedger oneExecution := List.take_prefix _ _
  have hone := h oneExecution _ hpre .patch (.of (lit "PATCH_REQ_001")) (by
    unfold Made
    decide +kernel)
  have hready : InLane ((rebuildRequestProjections ((quietLedger oneExecution).take 4)).ready .patch)
      (.of (lit "PATCH_REQ_001")) := by decide +kernel
  have hclosed : InLane
      ((rebuildRequestProjections ((quietLedger oneExecution).take 4)).closed .patch)
      (.of (lit "PATCH_REQ_001")) := by decide +kernel
  rcases hone with ⟨-, hnot, -⟩ | ⟨-, -, hnot⟩ | ⟨-, hnot, -⟩
  · exact hnot hready
  · exact hnot hclosed
  · exact hnot hready

end ClawHarder.Comms
