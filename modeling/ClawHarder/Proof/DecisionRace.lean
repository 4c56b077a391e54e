import ClawHarder.Spec.DecisionRace
import ClawHarder.Proof.Execution

/-!
# One decision for each request

Between its look for an existing decision and its append a handler holds the request.
Nothing keeps a second handler from looking in that time.

* `exclusive_tick`: a request has one row or one holder, if nobody looks while another
  holds.
* `one_decision`: **then every request has at most one decision.**
-/

namespace ClawHarder.Comms

open PyText (lit)

variable {reprOf : PyValue → PyText} {clock : ℕ → ℚ} {s : Threads} {t : RequestType} {id : Stripped}

def alone (clock : ℕ → ℚ) : ℕ → Phase × Server → Phase × Server
  | 0, x => x
  | n + 1, x => alone clock n (advance clock x.2 x.1)

theorem alone_done (n : ℕ) (reply : Reply) (s : Server) :
    alone clock n (.done reply, s) = (.done reply, s) := by
  induction n with
  | zero => rfl
  | succ n ih => exact ih

/-- **A handler left alone is the sequential one.** -/
theorem alone_decides (body : PyDict) (s : Server) :
    alone clock 5 (submit reprOf t body .idle, s) =
      (.done (handleDecisionSubmission reprOf clock t body s).1,
        (handleDecisionSubmission reprOf clock t body s).2) := by
  unfold submit handleDecisionSubmission
  cases hparse : parseDecision reprOf body with
  | error message => exact alone_done 5 _ s
  | ok b =>
    have hparsed : alone clock 5 (.parsed t b, s) = alone clock 4 (advance clock s (.parsed t b)) :=
      rfl
    show alone clock 5 (.parsed t b, s) = _
    rw [hparsed]
    cases hloc : locateForDecision t b s.ledger with
    | error reply =>
      have hstep : advance clock s (.parsed t b) = (.done reply, s) := by
        simp only [advance, hloc]
      rw [hstep, alone_done]
      simp only [hloc]
    | ok request =>
      have hstep : advance clock s (.parsed t b) = (.located t b request, s) := by
        simp only [advance, hloc]
      have hlocated : alone clock 4 (.located t b request, s) =
          alone clock 3 (advance clock s (.located t b request)) := rfl
      rw [hstep, hlocated]
      cases hdec : findDecisionRecord t b.requestId s.ledger with
      | some existing =>
        have hstep' : advance clock s (.located t b request) =
            (.done (alreadyDecided b existing), s) := by
          simp only [advance, hdec]
        rw [hstep', alone_done]
        simp only [hloc, hdec]
      | none =>
        have hstep' : advance clock s (.located t b request) = (.undecided t b request, s) := by
          simp only [advance, hdec]
        rw [hstep']
        simp only [hloc, hdec]
        rfl

/-- The handler has seen no decision on the request, and has not appended its own. -/
def Phase.Holds (t : RequestType) (id : Stripped) : Phase → Prop
  | .undecided t' b _ => t' = t ∧ b.requestId = id
  | .numbered t' b _ _ => t' = t ∧ b.requestId = id
  | .drafted row => decides t id row = true
  | _ => False

def decisionsOn (t : RequestType) (id : Stripped) (L : List OperationRecord) : List OperationRecord :=
  L.filter (decides t id)

/-- A request has at most one decision and one holder, and not both. -/
structure Exclusive (s : Threads) : Prop where
  rows : ∀ t id, (decisionsOn t id s.server.ledger).length ≤ 1
  holders : ∀ t id i j, (s.handlers i).Holds t id → (s.handlers j).Holds t id → i = j
  apart : ∀ t id i, (s.handlers i).Holds t id → decisionsOn t id s.server.ledger = []

/-- The steps that keep requests apart: a handler that finds no decision is the only
one to hold the request, and there is none in the part of the ledger it does not read. -/
def LooksAlone (s : Threads) : Tick → Prop
  | .step i =>
    ∀ t b request, s.handlers i = .located t b request →
      findDecisionRecord t b.requestId s.server.ledger = none →
      decisionsOn t b.requestId s.server.ledger = [] ∧
        ∀ j, ¬ (s.handlers j).Holds t b.requestId
  | _ => True

def Phase.looking : Phase → Bool
  | .located .. => true
  | _ => false

theorem looksAlone_step {i : ℕ} (h : (s.handlers i).looking = false) : LooksAlone s (.step i) := by
  intro t b request hphase
  rw [hphase] at h
  exact absurd h (by simp [Phase.looking])

theorem decides_draft {b : DecisionBody} {t' : RequestType} {request : OperationRecord}
    {n decisionId : ℕ} {ts : ℚ} :
    decides t id ((decisionDraft t' b request decisionId).row n ts) = true ↔
      t' = t ∧ b.requestId = id := by
  simp only [decides, Draft.row, decisionDraft, Option.map_some, Option.getD_some, Bool.and_eq_true,
    decide_eq_true_eq, OperationType.decision.injEq]
  exact and_congr_right fun _ => decide_eq_true_iff

variable (clock) in
theorem advance_cases (phase : Phase) (s : Server) :
    -- it holds what it held, and appends nothing
    ((advance clock s phase).2.ledger = s.ledger ∧
      (∀ t id, (advance clock s phase).1.Holds t id → phase.Holds t id)) ∨
    -- it looks, and takes hold
    ((advance clock s phase).2.ledger = s.ledger ∧
      ∃ t b request, phase = .located t b request ∧
        findDecisionRecord t b.requestId s.ledger = none ∧
        ∀ t' id', (advance clock s phase).1.Holds t' id' → t' = t ∧ id' = b.requestId) ∨
    -- it appends, and lets go
    (∃ row, phase = .drafted row ∧ (advance clock s phase).2.ledger = s.ledger ++ [row] ∧
      ∀ t id, ¬ (advance clock s phase).1.Holds t id) := by
  cases phase with
  | idle => exact Or.inl ⟨rfl, fun _ _ h => h⟩
  | parsed t b =>
    refine Or.inl ?_
    cases hloc : locateForDecision t b s.ledger with
    | error reply =>
      simp only [advance, hloc]
      exact ⟨trivial, fun _ _ h => h.elim⟩
    | ok request =>
      simp only [advance, hloc]
      exact ⟨trivial, fun _ _ h => h.elim⟩
  | located t b request =>
    cases hdec : findDecisionRecord t b.requestId s.ledger with
    | some existing =>
      refine Or.inl ?_
      simp only [advance, hdec]
      exact ⟨trivial, fun _ _ h => h.elim⟩
    | none =>
      refine Or.inr (Or.inl ?_)
      simp only [advance, hdec]
      exact ⟨trivial, t, b, request, rfl, hdec, fun t' id' h => ⟨h.1.symm, h.2.symm⟩⟩
  | undecided t b request => exact Or.inl ⟨rfl, fun _ _ h => h⟩
  | numbered t b request decisionId => exact Or.inl ⟨rfl, fun _ _ h => decides_draft.1 h⟩
  | drafted row => exact Or.inr (Or.inr ⟨row, rfl, rfl, fun _ _ h => h⟩)
  | done reply => exact Or.inl ⟨rfl, fun _ _ h => h⟩

theorem decisionsOn_concat (L : List OperationRecord) (row : OperationRecord) :
    decisionsOn t id (L ++ [row]) = decisionsOn t id L ++ if decides t id row then [row] else [] := by
  unfold decisionsOn
  rw [List.filter_append, List.filter_cons, List.filter_nil]

/-- **Requests stay apart**, when nobody looks while another holds. -/
theorem exclusive_tick (s : Threads) (e : Tick) (h : Exclusive s) (he : LooksAlone s e) :
    Exclusive (tick reprOf clock s e) := by
  cases e with
  | number => exact ⟨h.rows, h.holders, h.apart⟩
  | restart => exact ⟨h.rows, fun t id i j hi => hi.elim, fun t id i hi => hi.elim⟩
  | foreign r =>
    have hrow : ∀ t id, decides t id r.row = false := by
      intro t id
      simp [decides, r.undecided t]
    have hsame : ∀ t id, decisionsOn t id (s.server.ledger ++ [r.row]) =
        decisionsOn t id s.server.ledger := by
      intro t id
      rw [decisionsOn_concat, hrow]
      simp
    refine ⟨fun t id => ?_, h.holders, fun t id i hi => ?_⟩
    · show (decisionsOn t id (s.server.ledger ++ [r.row])).length ≤ 1
      rw [hsame]
      exact h.rows t id
    · show decisionsOn t id (s.server.ledger ++ [r.row]) = []
      rw [hsame]
      exact h.apart t id i hi
  | submit i t' body =>
    -- a new submission holds nothing
    have hback : ∀ t id j, ((tick reprOf clock s (.submit i t' body)).handlers j).Holds t id →
        (s.handlers j).Holds t id := by
      intro t id j hj
      unfold tick at hj
      simp only at hj
      split at hj
      · rename_i hji
        subst hji
        unfold submit at hj
        cases hphase : s.handlers j with
        | idle =>
          rw [hphase] at hj
          cases hparse : parseDecision reprOf body with
          | error message => simp only [hparse] at hj; exact hj.elim
          | ok b => simp only [hparse] at hj; exact hj.elim
        | _ => rw [hphase] at hj; exact hj
      · exact hj
    exact ⟨h.rows, fun t id j k hj hk => h.holders t id j k (hback t id j hj) (hback t id k hk),
      fun t id j hj => h.apart t id j (hback t id j hj)⟩
  | step i =>
    have hother : ∀ j, j ≠ i → (tick reprOf clock s (.step i)).handlers j = s.handlers j :=
      fun j hj => if_neg hj
    have hself : (tick reprOf clock s (.step i)).handlers i =
        (advance clock s.server (s.handlers i)).1 := if_pos rfl
    rcases advance_cases clock (s.handlers i) s.server with
      ⟨hL, hkeep⟩ | ⟨hL, t', b, request, hphase, hnone, htake⟩ | ⟨row, hphase, hL, hfree⟩
    · -- nothing new is held
      have hback : ∀ t id j, ((tick reprOf clock s (.step i)).handlers j).Holds t id →
          (s.handlers j).Holds t id := by
        intro t id j hj
        by_cases hji : j = i
        · subst hji
          rw [hself] at hj
          exact hkeep t id hj
        · rw [hother j hji] at hj
          exact hj
      refine ⟨fun t id => ?_, fun t id j k hj hk => h.holders t id j k (hback t id j hj)
        (hback t id k hk), fun t id j hj => ?_⟩
      · show (decisionsOn t id (advance clock s.server (s.handlers i)).2.ledger).length ≤ 1
        rw [hL]
        exact h.rows t id
      · show decisionsOn t id (advance clock s.server (s.handlers i)).2.ledger = []
        rw [hL]
        exact h.apart t id j (hback t id j hj)
    · -- the handler takes hold of a request that nobody holds
      obtain ⟨hempty, halone⟩ := he t' b request hphase hnone
      have hback : ∀ t id j, ((tick reprOf clock s (.step i)).handlers j).Holds t id →
          (j = i ∧ t = t' ∧ id = b.requestId) ∨ (j ≠ i ∧ (s.handlers j).Holds t id) := by
        intro t id j hj
        by_cases hji : j = i
        · subst hji
          rw [hself] at hj
          exact Or.inl ⟨rfl, htake t id hj⟩
        · rw [hother j hji] at hj
          exact Or.inr ⟨hji, hj⟩
      refine ⟨fun t id => ?_, fun t id j k hj hk => ?_, fun t id j hj => ?_⟩
      · show (decisionsOn t id (advance clock s.server (s.handlers i)).2.ledger).length ≤ 1
        rw [hL]
        exact h.rows t id
      · rcases hback t id j hj with ⟨hji, ht, hid⟩ | ⟨-, hj'⟩
        · rcases hback t id k hk with ⟨hki, -⟩ | ⟨-, hk'⟩
          · rw [hji, hki]
          · rw [ht, hid] at hk'
            exact absurd hk' (halone k)
        · rcases hback t id k hk with ⟨-, ht, hid⟩ | ⟨-, hk'⟩
          · rw [ht, hid] at hj'
            exact absurd hj' (halone j)
          · exact h.holders t id j k hj' hk'
      · show decisionsOn t id (advance clock s.server (s.handlers i)).2.ledger = []
        rw [hL]
        rcases hback t id j hj with ⟨-, ht, hid⟩ | ⟨-, hj'⟩
        · rw [ht, hid]
          exact hempty
        · exact h.apart t id j hj'
    · -- the holder appends its decision
      have hback : ∀ t id j, ((tick reprOf clock s (.step i)).handlers j).Holds t id →
          j ≠ i ∧ (s.handlers j).Holds t id := by
        intro t id j hj
        by_cases hji : j = i
        · subst hji
          rw [hself] at hj
          exact absurd hj (hfree t id)
        · rw [hother j hji] at hj
          exact ⟨hji, hj⟩
      have hheld : ∀ t id, decides t id row = true → (s.handlers i).Holds t id := by
        intro t id hd
        rw [hphase]
        exact hd
      refine ⟨fun t id => ?_, fun t id j k hj hk => h.holders t id j k (hback t id j hj).2
        (hback t id k hk).2, fun t id j hj => ?_⟩
      · show (decisionsOn t id (advance clock s.server (s.handlers i)).2.ledger).length ≤ 1
        rw [hL, decisionsOn_concat]
        by_cases hd : decides t id row = true
        · rw [h.apart t id i (hheld t id hd), if_pos hd]
          simp
        · rw [if_neg hd, List.append_nil]
          exact h.rows t id
      · show decisionsOn t id (advance clock s.server (s.handlers i)).2.ledger = []
        obtain ⟨hji, hj'⟩ := hback t id j hj
        have hnd : ¬ decides t id row = true := by
          intro hd
          exact hji (h.holders t id j i hj' (hheld t id hd))
        rw [hL, decisionsOn_concat, if_neg hnd, List.append_nil]
        exact h.apart t id j hj'

theorem exclusive_initial : Exclusive Threads.initial where
  rows t id := by simp [Threads.initial, Server.start, decisionsOn]
  holders t id i j hi := hi.elim
  apart t id i hi := hi.elim

/-- **In a run in which nobody looks while another holds**, every request has at most
one decision, however the handlers interleave. -/
theorem one_decision {ticks : List Tick}
    (hg : Machine.Guarded (tick reprOf clock) LooksAlone Threads.initial ticks)
    (t : RequestType) (id : Stripped) :
    (decisionsOn t id (Machine.run (tick reprOf clock) Threads.initial ticks).server.ledger).length
      ≤ 1 :=
  (Machine.run_inv exclusive_tick exclusive_initial hg).rows t id

def storedRequest : ForeignRow where
  row := (patchRequestDraft (lit "INTENT_1") [] 1
    { requestId := .of (lit "PATCH_REQ_001"), patchIds := [], risk := .high
      requiresApproval := true, reason := .empty }).row 2 0
  undecided t := by simp [Draft.row, patchRequestDraft]

def denial : PyDict :=
  [(lit "request_id", .str (lit "PATCH_REQ_001")), (lit "decision", .str (lit "denied")),
    (lit "actor", .str (lit "operator")), (lit "rationale", .str (lit "not fine"))]

def quietThreads (ticks : List Tick) : Threads :=
  Machine.run (tick Host.quiet.reprOf Host.quiet.clock) Threads.initial ticks

def inTurn : List Tick :=
  [.foreign storedRequest, .submit 0 .patch approval, .step 0] ++ [.step 0] ++
    [.step 0, .step 0, .step 0, .submit 1 .patch denial, .step 1] ++ [.step 1]

def atOnce : List Tick :=
  [.foreign storedRequest, .submit 0 .patch approval, .submit 1 .patch denial, .step 0, .step 1,
    .step 0, .step 1, .step 0, .step 0, .step 0, .step 1, .step 1, .step 1]

theorem inTurn_one :
    (decisionsOn .patch (.of (lit "PATCH_REQ_001")) (quietThreads inTurn).server.ledger).length
      ≤ 1 := by
  have hfirst : LooksAlone (quietThreads (inTurn.take 3)) (.step 0) := by
    intro t b request hphase _
    refine ⟨?_, fun j hj => ?_⟩
    · have hledger : (quietThreads (inTurn.take 3)).server.ledger = [storedRequest.row] := rfl
      rw [hledger]
      simp [decisionsOn, decides, storedRequest.undecided t]
    · by_cases hj0 : j = 0
      · rw [hj0, hphase] at hj
        exact hj
      · have hidle : (quietThreads (inTurn.take 3)).handlers j = .idle :=
          (if_neg hj0).trans (if_neg hj0)
        rw [hidle] at hj
        exact hj
  have hsecond : LooksAlone (quietThreads (inTurn.take 9)) (.step 1) := by
    intro t b request hphase hnone
    have hfound : ∃ b' request', (quietThreads (inTurn.take 9)).handlers 1 =
        .located .patch b' request' ∧
        (findDecisionRecord .patch b'.requestId (quietThreads (inTurn.take 9)).server.ledger).isSome :=
      ⟨_, _, rfl, by decide +kernel⟩
    obtain ⟨b', request', hphase', hsome⟩ := hfound
    rw [hphase] at hphase'
    cases hphase'
    rw [hnone] at hsome
    exact absurd hsome (by decide)
  have hg : Machine.Guarded (tick Host.quiet.reprOf Host.quiet.clock) LooksAlone Threads.initial
      inTurn :=
    ⟨trivial, trivial, looksAlone_step (by decide +kernel), hfirst,
      looksAlone_step (by decide +kernel), looksAlone_step (by decide +kernel),
      looksAlone_step (by decide +kernel), trivial, looksAlone_step (by decide +kernel), hsecond,
      trivial⟩
  exact one_decision hg .patch (.of (lit "PATCH_REQ_001"))

/-- **Two operators at once**: both decisions are recorded. -/
theorem atOnce_two :
    ¬ ∀ (ticks : List Tick) t id,
      (decisionsOn t id (quietThreads ticks).server.ledger).length ≤ 1 := by
  intro h
  have htwo : ((decisionsOn .patch (.of (lit "PATCH_REQ_001"))
      (quietThreads atOnce).server.ledger).map (·.status)) = [.approved, .denied] := by
    decide +kernel
  have hone := h atOnce .patch (.of (lit "PATCH_REQ_001"))
  rw [← List.length_map, htwo] at hone
  exact absurd hone (by decide)

end ClawHarder.Comms
