import ClawHarder.Proof.Lanes

/-!
# An approval is for what it is applied to

The execution endpoints look up the latest request row and the latest decision with an
id, each on its own. When an id is used again after its approval, the approval is
older than the request that it lets through.

* `ordered_append`: without such reuse no request row follows an approval of its id.
* `approval_follows`: **in a session that reuses no approved id, what is executed was
  approved after it was requested.**
-/

namespace ClawHarder.Comms

open PyText (lit)

variable {t : RequestType} {id : Stripped} {L : List OperationRecord}

def ApprovalOf (t : RequestType) (id : Stripped) (row : OperationRecord) : Prop :=
  row.operationType = .decision t ∧ row.extra.map (·.requestId) = some id ∧
    row.extra.map (·.decision) = some .approved

instance (t : RequestType) (id : Stripped) (row : OperationRecord) :
    Decidable (ApprovalOf t id row) := by
  unfold ApprovalOf
  infer_instance

def RequestRowOf (t : RequestType) (id : Stripped) (row : OperationRecord) : Prop :=
  row.operationType = .request t ∧ Names t id row

def AppendPolicy.fresh : AppendPolicy where
  ask L t id := ∀ d ∈ readAllOperations L, ¬ ApprovalOf t id d
  approve _ _ _ := True
  run _ _ _ := True

/-- Among the rows read, no request row follows an approval of its id. -/
def Ordered (L : List OperationRecord) : Prop :=
  ∀ t id, ¬ Splits (fun _ d B => ApprovalOf t id d ∧ ∃ r ∈ B, RequestRowOf t id r)
    (readAllOperations L)

theorem Splits.of_suffix {L' : List OperationRecord}
    {P : OperationRecord → List OperationRecord → Prop}
    (hsuf : L' <:+ L) (h : Splits (fun _ d B => P d B) L') : Splits (fun _ d B => P d B) L := by
  obtain ⟨C, rfl⟩ := hsuf
  obtain ⟨A, d, B, rfl, hP⟩ := h
  exact ⟨C ++ A, d, B, by simp, hP⟩

theorem ordered_append {row : OperationRecord} (happend : Append AppendPolicy.fresh L row)
    (h : Ordered L) : Ordered (L ++ [row]) := by
  intro t id hsplits
  rcases splits_concat.1 (hsplits.of_suffix (readAll_append L [row])) with
    ⟨-, r, hr, -⟩ | ⟨A, d, B, hL, hd, r, hr, hreq⟩
  · cases hr
  · rcases List.mem_append.1 hr with hr | hr
    · exact h t id ⟨A, d, B, hL, hd, r, hr, hreq⟩
    · -- the request row is the new one, so its id was asked for
      rw [List.mem_singleton.1 hr] at hreq
      obtain ⟨hty, hnames⟩ := hreq
      cases happend with
      | request t' hty' hstatus hpay hp =>
        rw [hty] at hty'
        cases hty'
        have hask : ¬ ApprovalOf t (row.references.requestId t) d := hp d (by rw [hL]; simp)
        rw [hnames.1] at hask
        exact hask hd
      | decision t' id' v request hty' => rw [hty] at hty'; cases hty'
      | attempt t' id' request hatt => exact absurd (hty.symm.trans hatt.1) (by simp)
      | result t' id' hty' => rw [hty] at hty'; cases hty'
      | reconciliation t' id' hty' => rw [hty] at hty'; cases hty'
      | unrelated hty' => rw [hty] at hty'; rcases hty' with h | h | h <;> cases h

theorem Ordered.approved {row : OperationRecord} (h : Ordered L)
    (happ : approvedRequest t id L = .ok row) :
    ∃ A d B, L = A ++ d :: B ∧ ApprovalOf t id d ∧ row ∈ A ∧
      ∀ r ∈ B, ¬ RequestRowOf t id r := by
  obtain ⟨hfound, d, hdec, hverdict⟩ := approvedRequest_ok happ
  obtain ⟨hin, hty, hnames⟩ := find_request hfound
  obtain ⟨A, B, hread, hdecides, -⟩ := find_decision hdec
  have happroval : ApprovalOf t id d := by
    simp only [decides, Bool.and_eq_true, decide_eq_true_eq] at hdecides
    refine ⟨hdecides.1, ?_, hverdict⟩
    cases hextra : d.extra with
    | none => rw [hextra] at hverdict; cases hverdict
    | some fields =>
      rw [hextra] at hdecides
      exact congrArg some hdecides.2
  have hafter : ∀ r ∈ B, ¬ RequestRowOf t id r :=
    fun r hr hreq => h t id ⟨A, d, B, hread, happroval, r, hr, hreq⟩
  have hbefore : row ∈ A := by
    rw [hread] at hin
    rcases List.mem_append.1 hin with hA | hrest
    · exact hA
    · rcases List.mem_cons.1 hrest with rfl | hB
      · exact absurd (hty.symm.trans happroval.1) (by simp)
      · exact absurd ⟨hty, hnames⟩ (hafter row hB)
  obtain ⟨C, hC⟩ := readAll_suffix L
  refine ⟨C ++ A, d, B, ?_, happroval, List.mem_append_right _ hbefore, hafter⟩
  rw [← hC, hread, List.append_assoc]

variable {σ : Type} {H : Host σ}

/-- The events that reuse no approved id: `/api/ide/execute` records no request id
that has an approval of the same type among the rows that the server reads. -/
def FreshIds (H : Host σ) (site : Site σ) : Event σ → Prop
  | .ideExecute body =>
    ∀ q ∈ asked H body site.host, ∀ d ∈ readAllOperations site.server.ledger,
      ¬ ApprovalOf q.1 q.2 d
  | _ => True

theorem FreshIds.allows {site : Site σ} {e : Event σ} (h : FreshIds H site e) :
    AppendPolicy.fresh.Allows H site e := by
  cases e with
  | ideExecute body =>
    intro q hq M hM d hd happroval
    obtain ⟨added, rfl, hadded⟩ := hM
    rcases List.mem_append.1 ((readAll_append _ added).subset hd) with hd | hd
    · exact h q hq d hd happroval
    · exact hadded d hd q.1 happroval.1
  | decision t body => exact fun _ _ _ _ _ => trivial
  | execution t body => exact fun _ _ _ _ => trivial
  | restart => trivial
  | outside w => trivial

theorem ordered_serve (site : Site σ) (e : Event σ) (h : Ordered site.server.ledger)
    (he : FreshIds H site e) : Ordered (serve H site e).server.ledger :=
  (serve_grows he.allows).inv (fun _ _ => ordered_append) h

/-- **In a session that reuses no approved id**, whatever request row an execution
endpoint goes on with, an approval of its id was recorded after it, and no other row
has requested the id since. -/
theorem approval_follows (w : σ) {es : List (Event σ)}
    (hg : Machine.Guarded (serve H) (FreshIds H) (Site.initial w) es) :
    let s := Machine.run (serve H) (Site.initial w) es
    ∀ t body id actor row,
      admitExecution H.reprOf t body s.server.ledger = .ok (id, actor, row) →
      ∃ A d B, s.server.ledger = A ++ d :: B ∧ ApprovalOf t id d ∧ row ∈ A ∧
        ∀ r ∈ B, ¬ RequestRowOf t id r := by
  intro s t body id actor row hadmit
  have hempty : Ordered (Site.initial w).server.ledger := by
    rintro t id ⟨A, d, B, hnil, -⟩
    have hnil' : [] = A ++ d :: B := hnil
    simp at hnil'
  have hordered : Ordered s.server.ledger := Machine.run_inv ordered_serve hempty hg
  exact hordered.approved (admit_ok hadmit).2

instance (body : PyDict) (site : Site Unit) :
    Decidable (FreshIds Host.quiet site (.ideExecute body)) := by
  unfold FreshIds
  infer_instance

theorem oneExecution_approved :
    ∃ A d B, quietLedger (oneExecution.take 2) = A ++ d :: B ∧
      ApprovalOf .patch (.of (lit "PATCH_REQ_001")) d ∧
      ∃ row ∈ A, (extractRequestPatches row).isSome = true := by
  have hg : Machine.Guarded (serve Host.quiet) (FreshIds Host.quiet) (Site.initial ())
      (oneExecution.take 2) := ⟨by decide +kernel, trivial, trivial⟩
  have hok : ∃ x, admitExecution Host.quiet.reprOf .patch execution
      (quietLedger (oneExecution.take 2)) = .ok x ∧ x.1 = .of (lit "PATCH_REQ_001") ∧
      (extractRequestPatches x.2.2).isSome = true := by
    refine ⟨_, rfl, ?_, ?_⟩ <;> decide +kernel
  obtain ⟨⟨id, actor, row⟩, hadmit, rfl, hpatches⟩ := hok
  obtain ⟨A, d, B, hL, hd, hrow, -⟩ := approval_follows () hg .patch execution _ actor row hadmit
  exact ⟨A, d, B, hL, hd, row, hrow, hpatches⟩

/-- A proposal that is approved, and another one without request ids. -/
def reusedId : List (Event Unit) :=
  [.ideExecute (proposal "a.txt"), .decision .patch approval, .ideExecute (proposal "b.txt")]

/-- **A reused id is executed on an old approval**: the second proposal goes under the
default id of the first, and passes on its approval. -/
theorem reusedId_unapproved :
    ¬ ∀ (es : List (Event Unit)) t body id actor row,
      admitExecution Host.quiet.reprOf t body (quietLedger es) = .ok (id, actor, row) →
      ∃ A d B, quietLedger es = A ++ d :: B ∧ ApprovalOf t id d ∧ row ∈ A := by
  intro h
  have hok : ∃ x, admitExecution Host.quiet.reprOf .patch execution (quietLedger reusedId) = .ok x ∧
      x.1 = .of (lit "PATCH_REQ_001") ∧ x.2.2.operationId = 5 := by
    refine ⟨_, rfl, ?_, ?_⟩ <;> decide +kernel
  obtain ⟨⟨id, actor, row⟩, hadmit, rfl, hrow⟩ := hok
  obtain ⟨A, d, B, hL, happroval, hin⟩ := h reusedId .patch execution _ actor row hadmit
  have hsplits : Splits (fun A d _ => ApprovalOf .patch (.of (lit "PATCH_REQ_001")) d ∧
      ∃ r ∈ A, r.operationId = 5) (quietLedger reusedId) := ⟨A, d, B, hL, happroval, row, hin, hrow⟩
  have hnone : ¬ ∃ n ∈ List.range (quietLedger reusedId).length, ∃ d ∈ (quietLedger reusedId)[n]?,
      ApprovalOf .patch (.of (lit "PATCH_REQ_001")) d ∧
        ∃ r ∈ (quietLedger reusedId).take n, r.operationId = 5 := by decide +kernel
  exact hnone hsplits.index

end ClawHarder.Comms
