import ClawHarder.Proof.Approval

/-!
# Executions against the ready lane

The execution endpoints ask for an approval and nothing more. The ready lane also
asks that the request was made and not yet reconciled; an endpoint that is called
again passes its check again.

* `sound_append`: what the rows of executions that are made once keep.
* `executions_once`: **in a session that attempts every request at most once, an
  endpoint goes on with requests of the ready lane only.**
-/

namespace ClawHarder.Comms

open PyText (lit)

variable {t : RequestType} {id : Stripped} {L : List OperationRecord} {row : OperationRecord}

instance (t : RequestType) (id : Stripped) (row : OperationRecord) :
    Decidable (Attempts t id row) := by
  unfold Attempts
  infer_instance

/-- Approvals are of requests that were made, and attempts are the first of a request. -/
def AppendPolicy.once : AppendPolicy where
  ask _ _ _ := True
  approve L t id := Made t id L
  run L t id := ¬ Attempted t id L

structure Sound (L : List OperationRecord) : Prop where
  /-- patch requests ask for something -/
  patches : ∀ r ∈ L, r.operationType = .request .patch → (requestPayload r .patch).isSome = true
  /-- decisions carry the id of their request -/
  decisions : ∀ r ∈ L, ∀ t, r.operationType = .decision t →
    ∃ fields, r.extra = some fields ∧ fields.requestId.text ≠ []
  approvals : ∀ t id, ¬ Splits (fun A d _ => ApprovalOf t id d ∧ ¬ Made t id A) L
  reconciled : ∀ t id, Reconciled t id L → Attempted t id L
  once : ∀ t id, (L.filter (Attempts t id ·)).length ≤ 1

theorem Attempted.mono (h : Attempted t id L) : Attempted t id (L ++ [row]) := by
  obtain ⟨r, hr, hatt⟩ := h
  exact ⟨r, List.mem_append_left _ hr, hatt⟩

theorem reconciles_attempted {P : AppendPolicy} (happend : Append P L row)
    (h : Reconciles t id row) : Attempted t id L := by
  obtain ⟨hty, hnames⟩ := h
  cases happend with
  | reconciliation t' id' hty' hrefs hprev =>
    obtain ⟨rfl, rfl⟩ := hrefs t id hnames
    exact hprev
  | unrelated hty' hrefs => exact absurd hnames (hrefs t id)
  | request t' hty' => rw [hty] at hty'; cases hty'
  | decision t' id' v request hty' => rw [hty] at hty'; cases hty'
  | attempt t' id' request hatt => exact absurd (hty.symm.trans hatt.1) (by simp)
  | result t' id' hty' => rw [hty] at hty'; cases hty'

theorem attempts_first (happend : Append AppendPolicy.once L row) (h : Attempts t id row) :
    ¬ Attempted t id L := by
  obtain ⟨hty, hid, hne⟩ := h
  cases happend with
  | attempt t' id' request hatt happ hp =>
    obtain ⟨hty', hid', -⟩ := hatt
    rw [hty] at hty'
    cases hty'
    rw [← hid, hid']
    exact hp
  | request t' hty' => rw [hty] at hty'; cases hty'
  | decision t' id' v request hty' => rw [hty] at hty'; cases hty'
  | result t' id' hty' => rw [hty] at hty'; cases hty'
  | reconciliation t' id' hty' => rw [hty] at hty'; cases hty'
  | unrelated hty' => rw [hty] at hty'; rcases hty' with h | h | h <;> cases h

/-- A decision that is appended carries the id of its request, and approves what was
made. -/
theorem decision_carries {P : AppendPolicy} (happend : Append P L row)
    (hty : row.operationType = .decision t) :
    ∃ fields, row.extra = some fields ∧ fields.requestId.text ≠ [] ∧
      (fields.decision = .approved → P.approve L t fields.requestId) := by
  cases happend with
  | decision t' id' v request hty' hid hv hfound hnone hp =>
    rw [hty] at hty'
    cases hty'
    cases hextra : row.extra with
    | none => rw [hextra] at hid; cases hid
    | some fields =>
      rw [hextra] at hid hv
      cases hid
      cases hv
      exact ⟨fields, rfl, (find_request hfound).2.2.2, hp⟩
  | request t' hty' => rw [hty] at hty'; cases hty'
  | attempt t' id' request hatt => exact absurd (hty.symm.trans hatt.1) (by simp)
  | result t' id' hty' => rw [hty] at hty'; cases hty'
  | reconciliation t' id' hty' => rw [hty] at hty'; cases hty'
  | unrelated hty' => rw [hty] at hty'; rcases hty' with h | h | h <;> cases h

theorem patch_payload {P : AppendPolicy} (happend : Append P L row)
    (hty : row.operationType = .request .patch) : (requestPayload row .patch).isSome = true := by
  cases happend with
  | request t' hty' hstatus hpay =>
    rw [hty] at hty'
    cases hty'
    exact hpay rfl
  | decision t' id' v request hty' => rw [hty] at hty'; cases hty'
  | attempt t' id' request hatt => exact absurd (hty.symm.trans hatt.1) (by simp)
  | result t' id' hty' => rw [hty] at hty'; cases hty'
  | reconciliation t' id' hty' => rw [hty] at hty'; cases hty'
  | unrelated hty' => rw [hty] at hty'; rcases hty' with h | h | h <;> cases h

/-- **Rows of executions that are made once keep the ledger sound.** -/
theorem sound_append (happend : Append AppendPolicy.once L row) (h : Sound L) :
    Sound (L ++ [row]) where
  patches r hr := by
    rcases List.mem_append.1 hr with hr | hr
    · exact h.patches r hr
    · rw [List.mem_singleton.1 hr]
      exact patch_payload happend
  decisions r hr t hty := by
    rcases List.mem_append.1 hr with hr | hr
    · exact h.decisions r hr t hty
    · rw [List.mem_singleton.1 hr] at hty ⊢
      obtain ⟨fields, hextra, hne, -⟩ := decision_carries happend hty
      exact ⟨fields, hextra, hne⟩
  approvals t id hsplits := by
    rcases splits_concat.1 hsplits with ⟨⟨hty, hid, hv⟩, hno⟩ | hold
    · obtain ⟨fields, hextra, -, hmade⟩ := decision_carries happend hty
      rw [hextra] at hid hv
      cases hid
      exact hno (hmade (Option.some.inj hv))
    · exact h.approvals t id hold
  reconciled t id hrec := by
    rcases reconciled_concat.1 hrec with ⟨hrow, -⟩ | hold
    · exact (reconciles_attempted happend hrow).mono
    · exact (h.reconciled t id hold).mono
  once t id := by
    have hold := h.once t id
    rw [List.filter_append, List.length_append]
    by_cases hatt : Attempts t id row
    · -- the first attempt of this request
      have hnone : L.filter (Attempts t id ·) = [] := by
        rw [List.filter_eq_nil_iff]
        intro r hr hr'
        exact attempts_first happend hatt ⟨r, hr, by simpa using hr'⟩
      rw [hnone]
      simp [hatt]
    · simpa [hatt] using hold

theorem Sound.approved (h : Sound L) {d : OperationRecord} (hdec : findDecisionRecord t id L = some d)
    (hv : d.extra.map (·.decision) = some .approved) (hne : id.text ≠ []) : Approved t id L := by
  obtain ⟨A, B, hread, hdecides, hlast⟩ := find_decision hdec
  obtain ⟨C, hC⟩ := readAll_suffix L
  have hL : L = (C ++ A) ++ d :: B := by rw [← hC, hread, List.append_assoc]
  simp only [decides, Bool.and_eq_true, decide_eq_true_eq] at hdecides
  obtain ⟨hty, hid⟩ := hdecides
  have hd : d ∈ L := by rw [hL]; simp
  obtain ⟨fields, hextra, -⟩ := h.decisions d hd t hty
  rw [hextra] at hid hv
  have hfid : fields.requestId = id := hid
  refine ⟨C ++ A, d, B, hL, ⟨hty, ?_, hne, by rw [hextra]; exact hv⟩, ?_, ?_⟩
  · unfold decidedId
    rw [hextra]
    simp only [hfid, hne, if_false]
  · by_contra hno
    exact h.approvals t id ⟨C ++ A, d, B, hL, ⟨hty, by rw [hextra]; exact congrArg some hfid,
      by rw [hextra]; exact hv⟩, hno⟩
  · rintro b hb ⟨v, hbty, hbid, -, -⟩
    -- a later decision would have been found
    have hbL : b ∈ L := by rw [hL]; simp [hb]
    obtain ⟨bfields, hbextra, hbne⟩ := h.decisions b hbL t hbty
    have hbid' : bfields.requestId = id := by
      unfold decidedId at hbid
      rw [hbextra] at hbid
      simpa only [hbne, if_false] using hbid
    have hnot := hlast b hb
    simp [decides, hbty, hbextra, hbid'] at hnot

theorem Sound.ready (h : Sound L) (happ : approvedRequest t id L = .ok row)
    (hfirst : ¬ Attempted t id L) :
    InLane ((rebuildRequestProjections L).ready t) id := by
  obtain ⟨hfound, d, hdec, hv⟩ := approvedRequest_ok happ
  have hA : Approved t id L := h.approved hdec hv (find_request hfound).2.2.2
  obtain ⟨st, htrack, hreads⟩ := hA.made.reads
  have hready : st.ready = true := by
    have happ : st.approved = true := hreads.approved.2 hA
    have hrec : ¬ st.reconciled = true := fun hr => hfirst (h.reconciled t id (hreads.reconciled.1 hr))
    simp [RequestState.ready, hreads.seen, happ, hrec]
  exact (inLane_iff htrack (·.ready)).2 hready

variable {σ : Type} {H : Host σ}

/-- The events after which the endpoints and the lanes agree: an execution is of a
request not yet attempted, and a tool request that is approved names a tool. -/
def OnceSafe (H : Host σ) (site : Site σ) : Event σ → Prop
  | .decision .tool body =>
    ∀ b request, parseDecision H.reprOf body = .ok b →
      findRequestOperation b.requestId site.server.ledger = some (.tool, request) →
      b.decision = .approved → Made .tool b.requestId site.server.ledger
  | .execution t body =>
    ∀ id actor request, admitExecution H.reprOf t body site.server.ledger = .ok (id, actor, request) →
      ¬ Attempted t id site.server.ledger
  | _ => True

theorem OnceSafe.allows {site : Site σ} {e : Event σ} (hS : Sound site.server.ledger)
    (h : OnceSafe H site e) : AppendPolicy.once.Allows H site e := by
  cases e with
  | ideExecute body => exact fun _ _ _ _ => trivial
  | decision t body =>
    cases t with
    | patch =>
      intro b request _ hfound _
      obtain ⟨hin, hty, hnames⟩ := find_request hfound
      have hmem := mem_of_readAll hin
      exact ⟨request, hmem, hty, hnames, hS.patches request hmem hty⟩
    | tool => exact h
  | execution t body => exact h
  | restart => trivial
  | outside w => trivial

theorem sound_serve (site : Site σ) (e : Event σ) (h : Sound site.server.ledger)
    (he : OnceSafe H site e) : Sound (serve H site e).server.ledger :=
  (serve_grows (he.allows h)).inv (fun _ _ => sound_append) h

theorem sound_nil : Sound [] where
  patches r hr := by cases hr
  decisions r hr := by cases hr
  approvals t id := by
    rintro ⟨A, d, B, hnil, -⟩
    simp at hnil
  reconciled t id := by
    rintro ⟨A, d, B, hnil, -⟩
    simp at hnil
  once t id := by simp

/-- **In a session that attempts every request at most once**, no request has two
attempts, and the requests that the next such execution goes on with are in the ready
lane. -/
theorem executions_once (w : σ) {es : List (Event σ)}
    (hg : Machine.Guarded (serve H) (OnceSafe H) (Site.initial w) es) :
    let s := Machine.run (serve H) (Site.initial w) es
    (∀ t id, (s.server.ledger.filter (Attempts t id ·)).length ≤ 1) ∧
    ∀ t body, OnceSafe H s (.execution t body) → ∀ id actor row,
      admitExecution H.reprOf t body s.server.ledger = .ok (id, actor, row) →
      InLane ((rebuildRequestProjections s.server.ledger).ready t) id := by
  intro s
  have hsound : Sound s.server.ledger := Machine.run_inv sound_serve sound_nil hg
  refine ⟨hsound.once, ?_⟩
  intro t body hsafe id actor row hadmit
  exact hsound.ready (admit_ok hadmit).2 (hsafe id actor row hadmit)

/-- The first execution of an approved request is in the ready lane, and is the only
attempt after it. -/
theorem oneExecution_once :
    InLane ((rebuildRequestProjections (quietLedger (oneExecution.take 2))).ready .patch)
      (.of (lit "PATCH_REQ_001")) ∧
    ((quietLedger oneExecution).filter
      (Attempts .patch (.of (lit "PATCH_REQ_001")) ·)).length ≤ 1 := by
  have hsafe : OnceSafe Host.quiet (Machine.run (serve Host.quiet) (Site.initial ())
      (oneExecution.take 2)) (.execution .patch execution) := by
    rintro id actor request - ⟨r, hr, hty, -⟩
    have hnone : ∀ r ∈ quietLedger (oneExecution.take 2), r.operationType ≠ .applyAttempt .patch := by
      decide +kernel
    exact hnone r hr hty
  have hproposed : Machine.Guarded (serve Host.quiet) (OnceSafe Host.quiet) (Site.initial ())
      (oneExecution.take 2) := ⟨trivial, trivial, trivial⟩
  have hexecuted : Machine.Guarded (serve Host.quiet) (OnceSafe Host.quiet) (Site.initial ())
      oneExecution := ⟨trivial, trivial, hsafe, trivial⟩
  have hok : ∃ x, admitExecution Host.quiet.reprOf .patch execution
      (quietLedger (oneExecution.take 2)) = .ok x ∧ x.1 = .of (lit "PATCH_REQ_001") := by
    refine ⟨_, rfl, ?_⟩
    decide +kernel
  obtain ⟨⟨id, actor, row⟩, hadmit, rfl⟩ := hok
  exact ⟨(executions_once () hproposed).2 .patch execution hsafe _ actor row hadmit,
    (executions_once () hexecuted).1 _ _⟩

/-- **A second execution passes the check**: its request is not ready any more, and
has two attempts then. -/
theorem secondExecution_passes :
    (¬ ∀ (es : List (Event Unit)) t body id actor row,
      admitExecution Host.quiet.reprOf t body (quietLedger es) = .ok (id, actor, row) →
      InLane ((rebuildRequestProjections (quietLedger es)).ready t) id) ∧
    ¬ ∀ (es : List (Event Unit)) t id,
      ((quietLedger es).filter (Attempts t id ·)).length ≤ 1 := by
  refine ⟨?_, ?_⟩
  · intro h
    have hok : ∃ x, admitExecution Host.quiet.reprOf .patch execution
        (quietLedger oneExecution) = .ok x ∧ x.1 = .of (lit "PATCH_REQ_001") := by
      refine ⟨_, rfl, ?_⟩
      decide +kernel
    obtain ⟨⟨id, actor, row⟩, hadmit, rfl⟩ := hok
    have hready := h oneExecution .patch execution _ actor row hadmit
    have hnot : ¬ InLane ((rebuildRequestProjections (quietLedger oneExecution)).ready .patch)
        (.of (lit "PATCH_REQ_001")) := by decide +kernel
    exact hnot hready
  · intro h
    have htwo : ((quietLedger (oneExecution ++ [.execution .patch execution])).filter
        (Attempts .patch (.of (lit "PATCH_REQ_001")) ·)).length = 2 := by decide +kernel
    have hone := h (oneExecution ++ [.execution .patch execution]) .patch (.of (lit "PATCH_REQ_001"))
    omega

end ClawHarder.Comms
