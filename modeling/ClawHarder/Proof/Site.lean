import Mathlib.Logic.Relation
import ClawHarder.Lib.Effectful
import ClawHarder.Spec.Comms
import ClawHarder.Proof.Ledger

/-!
# The server appends rows

Every event only appends to the ledger. `Append` lists the rows that may be appended
to a ledger, under what a policy asks of a request row, of an approval and of an
apply attempt.

* `serve_grows`: **an event is a sequence of such appends.**
* `Grown.inv`: what every append keeps, every sequence keeps.
-/

namespace ClawHarder.Comms

open Relation PyText
open Effectful (bind_ok)

theorem strip_ne_nil {x : PyText} {c : CodePoint} (hin : c ∈ x) (hc : isSpace c = false) :
    strip x ≠ [] := by
  intro h
  unfold strip at h
  have hall : ∀ d ∈ x.dropWhile isSpace, isSpace d = true := List.rdropWhile_eq_nil_iff.1 h
  cases hd : x.dropWhile isSpace with
  | nil =>
    have hspace := List.dropWhile_eq_nil_iff.1 hd c hin
    rw [hc] at hspace
    cases hspace
  | cons d rest =>
    have hne : x.dropWhile isSpace ≠ [] := by rw [hd]; simp
    have hhead := List.head_dropWhile_not isSpace hne
    rw [hall _ (List.head_mem hne)] at hhead
    cases hhead

theorem own_or_made (own : Stripped) (c : CodePoint) (hc : isSpace c = false) (x y : PyText) :
    (if own.text = [] then Stripped.of (c :: x ++ y) else own).text ≠ [] := by
  split
  · exact strip_ne_nil (by simp) hc
  · assumption

section Validated

variable {reprOf : PyValue → PyText} {index : ℕ}

theorem validatePatchOp_id {patchId : Stripped} {raw : PyDict} {patch : Patch}
    (h : validatePatchOp reprOf index patchId raw = .ok patch) : patch.patchId = patchId := by
  unfold validatePatchOp at h
  simp only at h
  split at h
  · obtain ⟨_, -, h⟩ := bind_ok h
    obtain ⟨_, -, h⟩ := bind_ok h
    obtain ⟨_, -, h⟩ := bind_ok h
    obtain ⟨_, -, h⟩ := bind_ok h
    obtain ⟨_, -, h⟩ := bind_ok h
    cases h
    rfl
  split at h
  · obtain ⟨_, -, h⟩ := bind_ok h
    obtain ⟨_, -, h⟩ := bind_ok h
    obtain ⟨_, -, h⟩ := bind_ok h
    cases h
    rfl
  split at h
  · obtain ⟨_, -, h⟩ := bind_ok h
    obtain ⟨_, -, h⟩ := bind_ok h
    cases h
    rfl
  · cases h

variable {items : List PyValue}

theorem validateOps_ids {seen : List Stripped} {patches : List Patch}
    (h : validateOps reprOf index seen items = .ok patches) :
    ∀ p ∈ patches, p.patchId.text ≠ [] := by
  induction items generalizing index seen patches with
  | nil =>
    cases h
    intro p hp
    cases hp
  | cons raw rest ih =>
    unfold validateOps at h
    split at h
    · cases h
    · rename_i members _
      simp only at h
      split at h
      · cases h
      · obtain ⟨patch, hpatch, h⟩ := bind_ok h
        obtain ⟨others, hothers, h⟩ := bind_ok h
        cases h
        intro p hp
        rcases List.mem_cons.1 hp with rfl | hp
        · rw [validatePatchOp_id hpatch]
          exact own_or_made _ (codePoint 'P') (by decide) _ _
        · exact ih hothers p hp

theorem validatePatchOps_ids {raw : Option PyValue} {patches : List Patch}
    (h : validatePatchOps reprOf raw = .ok patches) : ∀ p ∈ patches, p.patchId.text ≠ [] := by
  unfold validatePatchOps at h
  split at h
  · cases h
    intro p hp
    cases hp
  · split at h
    · cases h
    · exact validateOps_ids h

def NamesPatches (ids : List Stripped) : Prop := ids ≠ [] ∧ ∀ x ∈ ids, x.text ≠ []

theorem validatePatchIds_names {known chosen ids : List Stripped}
    (h : validatePatchIds reprOf index known chosen items = .ok ids)
    (hchosen : ∀ x ∈ chosen, x.text ≠ []) :
    (items ≠ [] ∨ chosen ≠ [] → ids ≠ []) ∧ ∀ x ∈ ids, x.text ≠ [] := by
  induction items generalizing chosen with
  | nil =>
    cases h
    exact ⟨fun hne => hne.elim (absurd rfl) fun hne => hne, hchosen⟩
  | cons candidate rest ih =>
    unfold validatePatchIds at h
    simp only at h
    split at h
    · cases h
    · rename_i hne
      split at h
      · rename_i hin
        obtain ⟨h1, h2⟩ := ih h hchosen
        exact ⟨fun _ => h1 (Or.inr (List.ne_nil_of_mem hin)), h2⟩
      · split at h
        · cases h
        · obtain ⟨h1, h2⟩ := ih h (by
            intro x hx
            rcases List.mem_append.1 hx with hx | hx
            · exact hchosen x hx
            · rw [List.mem_singleton.1 hx]
              exact hne)
          exact ⟨fun _ => h1 (Or.inr (by simp)), h2⟩

theorem validatePatchRequest_names {known : List Stripped} {requestId : Stripped} {raw : PyDict}
    {request : PatchRequest}
    (h : validatePatchRequest reprOf index known requestId raw = .ok request) :
    NamesPatches request.patchIds := by
  unfold validatePatchRequest at h
  obtain ⟨items, hitems, h⟩ := bind_ok h
  have hne : items ≠ [] := by
    unfold require at hitems
    split at hitems
    · rename_i found hfound
      cases hitems
      have hfull := (Option.filter_eq_some_iff.1 hfound).2
      simpa using hfull
    · cases hitems
  obtain ⟨ids, hids, h⟩ := bind_ok h
  obtain ⟨_, -, h⟩ := bind_ok h
  obtain ⟨_, -, h⟩ := bind_ok h
  obtain ⟨_, -, h⟩ := bind_ok h
  obtain ⟨_, -, h⟩ := bind_ok h
  cases h
  obtain ⟨h1, h2⟩ := validatePatchIds_names hids (by simp)
  exact ⟨h1 (Or.inl hne), h2⟩

theorem validateRequests_name {known seen : List Stripped}
    {requests : List PatchRequest}
    (h : validateRequests reprOf index known seen items = .ok requests) :
    ∀ q ∈ requests, NamesPatches q.patchIds := by
  induction items generalizing index seen requests with
  | nil =>
    cases h
    intro q hq
    cases hq
  | cons raw rest ih =>
    unfold validateRequests at h
    split at h
    · cases h
    · simp only at h
      split at h
      · cases h
      · split at h
        · cases h
        · obtain ⟨request, hrequest, h⟩ := bind_ok h
          obtain ⟨others, hothers, h⟩ := bind_ok h
          cases h
          intro q hq
          rcases List.mem_cons.1 hq with rfl | hq
          · exact validatePatchRequest_names hrequest
          · exact ih hothers q hq

/-- **Every validated patch request names patches.** -/
theorem patchRequests_name {body : PyDict} {r : IdeRequest} (h : parseIdeRequest reprOf body = .ok r) :
    ∀ q ∈ r.patchRequests, NamesPatches q.patchIds := by
  unfold parseIdeRequest at h
  obtain ⟨_, -, h⟩ := bind_ok h
  obtain ⟨_, -, h⟩ := bind_ok h
  obtain ⟨_, -, h⟩ := bind_ok h
  obtain ⟨_, -, h⟩ := bind_ok h
  obtain ⟨_, -, h⟩ := bind_ok h
  obtain ⟨_, -, h⟩ := bind_ok h
  obtain ⟨patches, hpatches, h⟩ := bind_ok h
  obtain ⟨requests, hrequests, h⟩ := bind_ok h
  cases h
  show ∀ q ∈ requests, NamesPatches q.patchIds
  unfold validatePatchRequests at hrequests
  split at hrequests
  · split at hrequests
    · cases hrequests
      intro q hq
      cases hq
    · rename_i hne
      cases hrequests
      intro q hq
      rw [List.mem_singleton.1 hq]
      refine ⟨hne, ?_⟩
      intro x hx
      obtain ⟨p, hp, rfl⟩ := List.mem_map.1 hx
      exact validatePatchOps_ids hpatches p hp
  · split at hrequests
    · cases hrequests
    · exact validateRequests_name hrequests

end Validated

structure AppendPolicy where
  /-- a request row, for this id -/
  ask : List OperationRecord → RequestType → Stripped → Prop
  /-- an approval -/
  approve : List OperationRecord → RequestType → Stripped → Prop
  /-- an apply attempt -/
  run : List OperationRecord → RequestType → Stripped → Prop

def AppendPolicy.any : AppendPolicy where
  ask _ _ _ := True
  approve _ _ _ := True
  run _ _ _ := True

def Attempts (t : RequestType) (id : Stripped) (row : OperationRecord) : Prop :=
  row.operationType = .applyAttempt t ∧ Names t id row

def Attempted (t : RequestType) (id : Stripped) (L : List OperationRecord) : Prop :=
  ∃ r ∈ L, Attempts t id r

inductive Append (P : AppendPolicy) (L : List OperationRecord) (row : OperationRecord) : Prop
  | request (t : RequestType) (hty : row.operationType = .request t)
      (hstatus : row.status = .proposed) (hpay : t = .patch → (requestPayload row t).isSome = true)
      (hp : P.ask L t (row.references.requestId t))
  | decision (t : RequestType) (id : Stripped) (v : Verdict) (request : OperationRecord)
      (hty : row.operationType = .decision t) (hid : (row.extra.map (·.requestId)) = some id)
      (hv : (row.extra.map (·.decision)) = some v)
      (hfound : findRequestOperation id L = some (t, request))
      (hnone : findDecisionRecord t id L = none) (hp : v = .approved → P.approve L t id)
  | attempt (t : RequestType) (id : Stripped) (request : OperationRecord)
      (h : Attempts t id row) (happ : approvedRequest t id L = .ok request) (hp : P.run L t id)
  | result (t : RequestType) (id : Stripped) (hty : row.operationType = .applyResult t)
      (hnames : Names t id row) (hprev : Attempted t id L)
  | reconciliation (t : RequestType) (id : Stripped)
      (hty : row.operationType = .executionReconciliation)
      (hnames : ∀ t' id', Names t' id' row → t' = t ∧ id' = id) (hprev : Attempted t id L)
  | unrelated (hty : row.operationType = .ideExecute ∨ row.operationType = .executionAttempt ∨
      row.operationType = .executionReconciliation) (hrefs : ∀ t id, ¬ Names t id row)

abbrev Grown (P : AppendPolicy) : List OperationRecord → List OperationRecord → Prop :=
  ReflTransGen fun L L' => ∃ row, L' = L ++ [row] ∧ Append P L row

variable {P : AppendPolicy} {L L' : List OperationRecord}

/-- **What every append keeps, every sequence keeps.** -/
theorem Grown.inv {I : List OperationRecord → Prop}
    (hstep : ∀ L row, Append P L row → I L → I (L ++ [row])) (h : Grown P L L') (hI : I L) :
    I L' := by
  induction h with
  | refl => exact hI
  | tail _ hrow ih =>
    obtain ⟨row, rfl, happend⟩ := hrow
    exact hstep _ row happend ih

theorem Grown.extends (h : Grown P L L') : L <+: L' :=
  h.inv (fun M row _ hpre => hpre.trans (List.prefix_append M [row])) (List.prefix_refl L)

theorem Grown.single {row : OperationRecord} (h : Append P L row) : Grown P L (L ++ [row]) :=
  ReflTransGen.single ⟨row, rfl, h⟩

section Find

variable {t : RequestType} {id : Stripped} {row : OperationRecord}

theorem readAll_append (L added : List OperationRecord) :
    readAllOperations (L ++ added) <:+ readAllOperations L ++ added := by
  unfold readAllOperations
  -- both sides are the last rows of the longer ledger
  have hshort : (L ++ added).reverse.take READ_LIMIT <+: (L ++ added).reverse := List.take_prefix _ _
  have hlong : added.reverse ++ L.reverse.take READ_LIMIT <+: (L ++ added).reverse := by
    rw [List.reverse_append]
    exact List.prefix_append_right_inj _ |>.2 (List.take_prefix _ _)
  have hlen : ((L ++ added).reverse.take READ_LIMIT).length ≤
      (added.reverse ++ L.reverse.take READ_LIMIT).length := by
    simp only [List.length_take, List.length_append, List.length_reverse]
    omega
  have hsuf := List.reverse_suffix.2 (List.prefix_of_prefix_length_le hshort hlong hlen)
  rwa [@List.reverse_append _ added.reverse, List.reverse_reverse added] at hsuf

theorem mem_of_readAll {row : OperationRecord} (h : row ∈ readAllOperations L) : row ∈ L := by
  have hin : row ∈ L.reverse.take READ_LIMIT := by simpa [readAllOperations] using h
  exact List.mem_reverse.1 (List.mem_of_mem_take hin)

theorem requestMatch_eq_some {r : RequestType × OperationRecord} :
    requestMatch id row = some r ↔
      r = (r.1, row) ∧ row.operationType = .request r.1 ∧ row.references.requestId r.1 = id := by
  obtain ⟨t, row'⟩ := r
  unfold requestMatch
  cases hty : row.operationType with
  | request t' =>
    simp only [Option.ite_none_right_eq_some, Option.some.injEq, Prod.mk.injEq,
      OperationType.request.injEq]
    constructor
    · rintro ⟨hid, rfl, rfl⟩
      exact ⟨⟨trivial, rfl⟩, rfl, hid⟩
    · rintro ⟨⟨-, rfl⟩, rfl, hid⟩
      exact ⟨hid, rfl, rfl⟩
  | _ => simp

theorem find_request (h : findRequestOperation id L = some (t, row)) :
    row ∈ readAllOperations L ∧ row.operationType = .request t ∧ Names t id row := by
  unfold findRequestOperation at h
  split at h
  · cases h
  · rename_i hne
    obtain ⟨r, hr, hmatch⟩ := List.exists_of_findSome?_eq_some h
    obtain ⟨heq, hty, hid⟩ := requestMatch_eq_some.1 hmatch
    cases heq
    exact ⟨List.mem_reverse.1 hr, hty, hid, hne⟩

theorem readAll_suffix (L : List OperationRecord) : readAllOperations L <:+ L := by
  have h := List.reverse_suffix.2 (List.take_prefix READ_LIMIT L.reverse)
  rwa [List.reverse_reverse] at h

theorem find_decision (h : findDecisionRecord t id L = some row) :
    ∃ A B, readAllOperations L = A ++ row :: B ∧ decides t id row = true ∧
      ∀ b ∈ B, decides t id b = false := by
  unfold findDecisionRecord at h
  obtain ⟨hrow, as, bs, hsplit, hnone⟩ := List.find?_eq_some_iff_append.1 h
  refine ⟨bs.reverse, as.reverse, ?_, hrow, ?_⟩
  · have hrev := congrArg List.reverse hsplit
    simpa using hrev
  · intro b hb
    have hb' := hnone b (List.mem_reverse.1 hb)
    simpa using hb'

theorem approvedRequest_ok (h : approvedRequest t id L = .ok row) :
    findRequestOperation id L = some (t, row) ∧
      ∃ d, findDecisionRecord t id L = some d ∧ d.extra.map (·.decision) = some .approved := by
  unfold approvedRequest at h
  cases hf : findRequestOperation id L with
  | none => rw [hf] at h; cases h
  | some found =>
    obtain ⟨actual, request⟩ := found
    rw [hf] at h
    simp only at h
    split at h
    · rename_i hactual
      cases hd : findDecisionRecord t id L with
      | none => rw [hd] at h; cases h
      | some d =>
        rw [hd] at h
        simp only at h
        split at h
        · rename_i happ
          cases h
          exact ⟨by rw [hactual], d, rfl, happ⟩
        · cases h
    · cases h

end Find

section Events

variable {σ : Type} {H : Host σ} {s : Server} {w : σ} {k : ℕ → ℚ}

@[simp] theorem ledger_record (d : Draft) :
    (s.record k d).2.ledger = s.ledger ++ [(s.record k d).1] := rfl

theorem requestId_to (t t' : RequestType) (intentId : PyText) (id : Stripped) :
    (References.to t intentId id).requestId t' = if t' = t then id else .empty := by
  cases t <;> cases t' <;> rfl

variable {t : RequestType} {intentId : PyText} {row : OperationRecord}

theorem names_to {t' : RequestType} {id id' : Stripped}
    (hrefs : row.references = .to t intentId id) (h : Names t' id' row) : t' = t ∧ id' = id := by
  obtain ⟨hid, hne⟩ := h
  rw [hrefs, requestId_to] at hid
  split at hid
  · exact ⟨by assumption, hid.symm⟩
  · rw [← hid] at hne
    exact absurd rfl hne

theorem names_self {id : Stripped}
    (hrefs : row.references = .to t intentId id) (hne : id.text ≠ []) : Names t id row := by
  refine ⟨?_, hne⟩
  rw [hrefs, requestId_to, if_pos rfl]

theorem conclude_grows {x : Execution} (hne : x.requestId.text ≠ []) (status : LifecycleStatus)
    (details : Details) (attempt : OperationRecord) (hprev : Attempted x.t x.requestId s.ledger) :
    Grown P s.ledger (x.conclude k status details attempt s).2.ledger := by
  have hresult : Append P s.ledger (s.record k (x.result status details attempt)).1 :=
    .result x.t x.requestId rfl (names_self rfl hne) hprev
  refine ReflTransGen.trans (Grown.single hresult) ?_
  refine Grown.single (.reconciliation x.t x.requestId rfl (fun t' id' => names_to rfl) ?_)
  obtain ⟨r, hr, hatt⟩ := hprev
  exact ⟨r, List.mem_append_left _ hr, hatt⟩

variable {body : PyDict}

theorem admit_ok {reprOf : PyValue → PyText}
    {id actor : Stripped} {request : OperationRecord}
    (h : admitExecution reprOf t body L = .ok (id, actor, request)) :
    id.text ≠ [] ∧ approvedRequest t id L = .ok request := by
  unfold admitExecution at h
  simp only at h
  split at h
  · cases h
  · rename_i hne
    split at h
    · cases h
    · cases happ : approvedRequest t (field reprOf body "request_id") L with
      | error reply => rw [happ] at h; cases h
      | ok row =>
        rw [happ] at h
        cases h
        exact ⟨hne, happ⟩

theorem attempt_grows {x : Execution} (hne : x.requestId.text ≠ [])
    (happ : approvedRequest x.t x.requestId s.ledger = .ok x.request)
    (hp : P.run s.ledger x.t x.requestId) (details : Details) :
    Grown P s.ledger (s.record k (x.attempt details)).2.ledger ∧
      Attempted x.t x.requestId (s.record k (x.attempt details)).2.ledger := by
  have hatt : Attempts x.t x.requestId (s.record k (x.attempt details)).1 :=
    ⟨rfl, names_self rfl hne⟩
  exact ⟨Grown.single (.attempt x.t x.requestId x.request hatt happ hp),
    _, List.mem_append_right _ (List.mem_singleton_self _), hatt⟩

def AllowsExecution (P : AppendPolicy) (H : Host σ) (t : RequestType) (body : PyDict) (s : Server) :
    Prop :=
  ∀ id actor request, admitExecution H.reprOf t body s.ledger = .ok (id, actor, request) →
    P.run s.ledger t id

theorem patchExecution_grows (hp : AllowsExecution P H .patch body s) :
    Grown P s.ledger (handlePatchExecution H body s w).2.1.ledger := by
  unfold handlePatchExecution
  cases hadmit : admitExecution H.reprOf .patch body s.ledger with
  | error reply => exact ReflTransGen.refl
  | ok found =>
    obtain ⟨id, actor, request⟩ := found
    obtain ⟨hne, happ⟩ := admit_ok hadmit
    have hrun := hp id actor request hadmit
    simp only
    cases extractRequestPatches request with
    | none =>
      obtain ⟨h1, h2⟩ := attempt_grows (k := H.clock)
        (x := { t := .patch, requestId := id, actor, request }) hne happ hrun (.patchAttempt [])
      exact ReflTransGen.trans h1 (conclude_grows hne _ _ _ h2)
    | some patches =>
      obtain ⟨h1, h2⟩ := attempt_grows (k := H.clock)
        (x := { t := .patch, requestId := id, actor, request }) hne happ hrun
        (.patchAttempt (patches.map (·.file)))
      simp only
      split
      · exact h1
      · exact ReflTransGen.trans h1 (conclude_grows hne _ _ _ h2)

theorem toolExecution_grows (hp : AllowsExecution P H .tool body s) :
    Grown P s.ledger (handleToolExecution H body s w).2.1.ledger := by
  unfold handleToolExecution
  cases hadmit : admitExecution H.reprOf .tool body s.ledger with
  | error reply => exact ReflTransGen.refl
  | ok found =>
    obtain ⟨id, actor, request⟩ := found
    obtain ⟨hne, happ⟩ := admit_ok hadmit
    have hrun := hp id actor request hadmit
    simp only
    cases extractRequestToolCalls request with
    | none =>
      obtain ⟨h1, h2⟩ := attempt_grows (k := H.clock)
        (x := { t := .tool, requestId := id, actor, request }) hne happ hrun (.toolAttempt [])
      exact ReflTransGen.trans h1 (conclude_grows hne _ _ _ h2)
    | some calls =>
      obtain ⟨h1, h2⟩ := attempt_grows (k := H.clock)
        (x := { t := .tool, requestId := id, actor, request }) hne happ hrun (.toolAttempt calls)
      exact ReflTransGen.trans h1 (conclude_grows hne _ _ _ h2)

def AllowsDecision (P : AppendPolicy) (H : Host σ) (t : RequestType) (body : PyDict) (s : Server) :
    Prop :=
  ∀ b request, parseDecision H.reprOf body = .ok b →
    findRequestOperation b.requestId s.ledger = some (t, request) → b.decision = .approved →
      P.approve s.ledger t b.requestId

theorem locate_ok {b : DecisionBody} {request : OperationRecord}
    (h : locateForDecision t b L = .ok request) :
    findRequestOperation b.requestId L = some (t, request) := by
  unfold locateForDecision at h
  split at h
  · cases h
  · rename_i actual row hfound
    split at h
    · rename_i hactual
      cases h
      rw [hfound, hactual]
    · cases h

theorem decision_grows (hp : AllowsDecision P H t body s) :
    Grown P s.ledger (handleDecisionSubmission H.reprOf H.clock t body s).2.ledger := by
  unfold handleDecisionSubmission
  split
  · exact ReflTransGen.refl
  · rename_i b hparse
    split
    · exact ReflTransGen.refl
    · rename_i request hloc
      split
      · exact ReflTransGen.refl
      · rename_i hdec
        have happend : Append P s.ledger (s.recordDecision H.clock t b request).1 :=
          .decision t b.requestId b.decision request rfl rfl rfl (locate_ok hloc) hdec
            (hp b request hparse (locate_ok hloc))
        exact Grown.single happend

/-! ### /api/ide/execute -/

/-- The id of the tool request that `finishIdeExecute` records, if any. -/
def askedTool (H : Host σ) (r : IdeRequest) (intentId : PyText) (w : σ) : Option Stripped :=
  let pendingId (w : σ) := (H.pendingTool w).map fun pending => Stripped.of pending.requestId
  if !r.execute then pendingId w
  else
    match H.dispatchInputIntent intentId w with
    | (.error _, _) => none
    | (.ok _, w) => pendingId w

/-- The request ids that `/api/ide/execute` records, with their types. -/
def asked (H : Host σ) (body : PyDict) (w : σ) : List (RequestType × Stripped) :=
  match parseIdeRequest H.reprOf body with
  | .error _ => []
  | .ok r =>
    match H.ingestInput r w with
    | (.error _, _) => []
    | (.ok intentId, w) =>
      r.patchRequests.map (fun q => (.patch, q.requestId)) ++
        ((askedTool H r intentId w).map fun id => (.tool, id)).toList

def Within (L₀ L : List OperationRecord) : Prop :=
  ∃ added, L = L₀ ++ added ∧ ∀ r ∈ added, ∀ t, r.operationType ≠ .decision t

/-- What a policy is asked of `/api/ide/execute`. -/
def AllowsAsked (P : AppendPolicy) (H : Host σ) (body : PyDict) (s : Server) (w : σ) : Prop :=
  ∀ q ∈ asked H body w, ∀ L, Within s.ledger L → P.ask L q.1 q.2

variable {L₀ : List OperationRecord}

theorem Within.refl (L : List OperationRecord) : Within L L := ⟨[], by simp, by simp⟩

theorem Within.record {d : Draft} (h : Within L₀ s.ledger)
    (hd : ∀ t, d.operationType ≠ .decision t) : Within L₀ (s.record k d).2.ledger := by
  obtain ⟨added, hL, hall⟩ := h
  refine ⟨added ++ [(s.record k d).1], by rw [ledger_record, hL, List.append_assoc], ?_⟩
  intro r hr
  rcases List.mem_append.1 hr with hr | hr
  · exact hall r hr
  · rw [List.mem_singleton.1 hr]
    exact hd

theorem recordAll_grows {ds : List Draft} (hw : Within L₀ s.ledger)
    (hd : ∀ d ∈ ds, ∀ t, d.operationType ≠ .decision t)
    (happend : ∀ d ∈ ds, ∀ L, Within L₀ L → ∀ n ts, Append P L (d.row n ts)) :
    Grown P s.ledger (s.recordAll k ds).ledger ∧ Within L₀ (s.recordAll k ds).ledger := by
  induction ds generalizing s with
  | nil => exact ⟨ReflTransGen.refl, hw⟩
  | cons d ds ih =>
    have hw' := hw.record (k := k) (hd d List.mem_cons_self)
    obtain ⟨h1, h2⟩ := ih hw' (fun d' hd' => hd d' (List.mem_cons_of_mem _ hd'))
      (fun d' hd' => happend d' (List.mem_cons_of_mem _ hd'))
    have hfirst : Append P s.ledger (s.record k d).1 :=
      happend d List.mem_cons_self s.ledger hw _ _
    exact ⟨ReflTransGen.trans (Grown.single hfirst) h1, h2⟩

theorem not_names (h1 : row.references.patchRequestId = none)
    (h2 : row.references.toolRequestId = none) (t : RequestType) (id : Stripped) :
    ¬ Names t id row := by
  rintro ⟨hid, hne⟩
  cases t
  · rw [References.requestId, h1] at hid
    rw [← hid] at hne
    exact hne rfl
  · rw [References.requestId, h2] at hid
    rw [← hid] at hne
    exact hne rfl

theorem patchRequest_payload {patches : List Patch} {parent n : ℕ}
    {q : PatchRequest} {ts : ℚ} (hq : NamesPatches q.patchIds) :
    (requestPayload ((patchRequestDraft intentId patches parent q).row n ts) .patch).isSome =
      true := by
  obtain ⟨hne, hall⟩ := hq
  obtain ⟨x, hx⟩ := List.exists_mem_of_ne_nil _ hne
  have hin : x ∈ (q.patchIds.filter (·.text ≠ [])).filter (·.text ≠ []) := by
    simp [hx, hall x hx]
  have hids : (q.patchIds.filter (·.text ≠ [])).filter (·.text ≠ []) ≠ [] :=
    List.ne_nil_of_mem hin
  show (if (q.patchIds.filter (·.text ≠ [])).filter (·.text ≠ []) = [] then none
    else some (Payload.patches _)).isSome = true
  rw [if_neg hids]
  rfl

theorem toolDrafts_append (intentId : PyText) (parent : ℕ) (pending : Option PendingTool)
    (hp : ∀ id, pending.map (fun p => Stripped.of p.requestId) = some id →
      ∀ L, Within L₀ L → P.ask L .tool id) :
    ∀ d ∈ toolRequestDrafts intentId parent pending,
      (∀ t, d.operationType ≠ .decision t) ∧
        ∀ L, Within L₀ L → ∀ n ts, Append P L (d.row n ts) := by
  intro d hd
  unfold toolRequestDrafts at hd
  cases pending with
  | none => cases hd
  | some p =>
    rw [Option.map_some, Option.toList_some, List.mem_singleton] at hd
    subst hd
    refine ⟨fun t => OperationType.noConfusion, ?_⟩
    intro L hL n ts
    exact .request .tool rfl rfl (fun h => by cases h) (hp _ rfl L hL)

theorem finish_grows {r : IdeRequest} {parent : ℕ} (hw : Within L₀ s.ledger)
    (hp : ∀ id, askedTool H r intentId w = some id → ∀ L, Within L₀ L → P.ask L .tool id) :
    Grown P s.ledger (finishIdeExecute H r intentId parent s w).2.1.ledger := by
  unfold finishIdeExecute
  unfold askedTool at hp
  by_cases hexec : (!r.execute) = true
  · rw [if_pos hexec]
    rw [if_pos hexec] at hp
    have hds := toolDrafts_append intentId parent (H.pendingTool w) hp
    exact (recordAll_grows hw (fun d hd => (hds d hd).1) (fun d hd => (hds d hd).2)).1
  · rw [if_neg hexec]
    rw [if_neg hexec] at hp
    cases hdis : H.dispatchInputIntent intentId w with
    | mk result w' =>
      rw [hdis] at hp
      cases result with
      | error message => exact ReflTransGen.refl
      | ok result =>
        have hds := toolDrafts_append (result.intentId.getD intentId) parent (H.pendingTool w') hp
        obtain ⟨h1, -⟩ := recordAll_grows (P := P) (k := H.clock) hw
          (fun d hd => (hds d hd).1) (fun d hd => (hds d hd).2)
        refine ReflTransGen.trans h1 (ReflTransGen.trans (Grown.single ?_) (Grown.single ?_))
        · exact .unrelated (Or.inr (Or.inl rfl)) (not_names rfl rfl)
        · exact .unrelated (Or.inr (Or.inr rfl)) (not_names rfl rfl)

theorem ideExecute_grows (hp : AllowsAsked P H body s w) :
    Grown P s.ledger (handleIdeExecute H body s w).2.1.ledger := by
  unfold handleIdeExecute
  unfold AllowsAsked asked at hp
  cases hparse : parseIdeRequest H.reprOf body with
  | error message => exact ReflTransGen.refl
  | ok r =>
    rw [hparse] at hp
    cases hing : H.ingestInput r w with
    | mk result w' =>
      simp only [hing] at hp ⊢
      cases result with
      | error message => exact ReflTransGen.refl
      | ok intentId =>
        simp only at hp ⊢
        have hide : Append P s.ledger (s.record H.clock (ideDraft r intentId)).1 :=
          .unrelated (Or.inl rfl) (not_names rfl rfl)
        have hw := (Within.refl s.ledger).record (k := H.clock) (d := ideDraft r intentId)
          (fun t => OperationType.noConfusion)
        have hrequests : ∀ d ∈ r.patchRequests.map (patchRequestDraft intentId r.patches
            (s.record H.clock (ideDraft r intentId)).1.operationId),
            (∀ t, d.operationType ≠ .decision t) ∧
              ∀ L, Within s.ledger L → ∀ n ts, Append P L (d.row n ts) := by
          intro d hd
          obtain ⟨q, hq, rfl⟩ := List.mem_map.1 hd
          refine ⟨fun t => OperationType.noConfusion, ?_⟩
          intro L hL n ts
          refine .request .patch rfl rfl (fun _ => ?_) ?_
          · exact patchRequest_payload (patchRequests_name hparse q hq)
          · exact hp (.patch, q.requestId)
              (List.mem_append_left _ (List.mem_map.2 ⟨q, hq, rfl⟩)) L hL
        obtain ⟨h1, h2⟩ := recordAll_grows (k := H.clock) hw
          (fun d hd => (hrequests d hd).1) (fun d hd => (hrequests d hd).2)
        refine ReflTransGen.trans (Grown.single hide) (ReflTransGen.trans h1 (finish_grows h2 ?_))
        intro id hid L hL
        exact hp (.tool, id) (List.mem_append_right _ (by simp [hid])) L hL

def AppendPolicy.Allows (P : AppendPolicy) (H : Host σ) (site : Site σ) : Event σ → Prop
  | .ideExecute body => AllowsAsked P H body site.server site.host
  | .decision t body => AllowsDecision P H t body site.server
  | .execution t body => AllowsExecution P H t body site.server
  | _ => True

/-- **An event is a sequence of appends.** -/
theorem serve_grows {site : Site σ} {e : Event σ} (hp : P.Allows H site e) :
    Grown P site.server.ledger (serve H site e).server.ledger := by
  cases e with
  | ideExecute body => exact ideExecute_grows hp
  | decision t body => exact decision_grows hp
  | execution t body =>
    cases t with
    | patch => exact patchExecution_grows hp
    | tool => exact toolExecution_grows hp
  | restart => exact ReflTransGen.refl
  | outside w => exact ReflTransGen.refl

end Events

end ClawHarder.Comms
