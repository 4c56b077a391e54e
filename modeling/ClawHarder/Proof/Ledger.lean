import ClawHarder.Spec.Ledger

/-!
# One request in the ledger

The projection treats the requests independently: `track` folds the rows into the
state of one of them.

* `states_projectRows`: the state of a request is its track.
* `track_spec`: **the flags of a state say what the ledger says**: whether the
  request was made, is approved, was reconciled, and was closed since the approval.
-/

namespace ClawHarder.Comms

namespace Projections

variable {p : Projections} {t t' : RequestType} {id : Stripped} {st : RequestState}

@[simp] theorem states_warn (w : RecoveryWarning) : (p.warn w).states t = p.states t := by
  cases t <;> rfl

@[simp] theorem states_noteOperationId (n : ℕ) : (p.noteOperationId n).states t = p.states t := by
  simp only [noteOperationId]
  split <;> cases t <;> rfl

theorem states_setState :
    (p.setState t' id st).states t = if t = t' then (p.states t).set id st else p.states t := by
  cases t <;> cases t' <;> rfl

@[simp] theorem seen?_noteOperationId (n : ℕ) : (p.noteOperationId n).seen? t id = p.seen? t id := by
  unfold seen?
  rw [states_noteOperationId]

end Projections

open Projections

section Rows

variable (t : RequestType) (id : Stripped) (row : OperationRecord)

def Names : Prop := row.references.requestId t = id ∧ id.text ≠ []

/-- The row makes the request: it has its id, and asks for something. -/
def Requests : Prop :=
  row.operationType = .request t ∧ Names t id row ∧ (requestPayload row t).isSome = true

def DecidesAs (verdict : Verdict) : Prop :=
  row.operationType = .decision t ∧ decidedId t row = id ∧ id.text ≠ [] ∧
    row.extra.map (·.decision) = some verdict

def Decides : Prop := ∃ verdict, DecidesAs t id row verdict

def Reconciles : Prop := row.operationType = .executionReconciliation ∧ Names t id row

/-- The row is of no kind that the projection knows, but names the request and has a
terminal status. -/
def Concludes : Prop :=
  Names t id row ∧ row.status.terminal = true ∧
    match row.operationType with
    | .request _ => False
    | .decision _ => False
    | .executionReconciliation => False
    | _ => True

def Closes : Prop :=
  Reconciles t id row ∨ Concludes t id row ∨
    (Requests t id row ∧ closesRequest row.status = true)

instance : Decidable (Names t id row) := by unfold Names; infer_instance

instance : Decidable (Requests t id row) := by unfold Requests; infer_instance

instance : Decidable (Reconciles t id row) := by unfold Reconciles; infer_instance

instance : Decidable (Concludes t id row) := by
  unfold Concludes
  cases row.operationType <;> infer_instance

end Rows

def RequestState.after (t : RequestType) (id : Stripped) (cur : Option RequestState)
    (row : OperationRecord) : Option RequestState :=
  match row.operationType with
  | .request t' =>
    if t' = t ∧ Names t id row then
      match requestPayload row t with
      | none => cur
      | some payload => some ((cur.getD (defaultProjection id)).proposed row payload)
    else cur
  | .decision t' =>
    if t' = t ∧ decidedId t row = id ∧ id.text ≠ [] then
      match row.extra with
      | none => cur
      | some fields => cur.map fun st => if st.seenRequest then st.decided row fields.decision else st
    else cur
  | .executionReconciliation =>
    if Names t id row then cur.map fun st => if st.seenRequest then st.reconcile row else st
    else cur
  | _ =>
    if Names t id row then cur.map fun st => if st.seenRequest then st.close row else st else cur

variable {p : Projections} {t t' : RequestType} {id : Stripped} {row : OperationRecord}
  {L : List OperationRecord}

theorem get?_requestRow :
    ((requestRow t' row p).states t).get? id =
      if t' = t ∧ Names t id row then
        match requestPayload row t with
        | none => (p.states t).get? id
        | some payload =>
          some ((((p.states t).get? id).getD (defaultProjection id)).proposed row payload)
      else (p.states t).get? id := by
  unfold requestRow
  cases hpay : requestPayload row t' with
  | none =>
    simp only [states_warn]
    split
    · rename_i h
      rw [← h.1, hpay]
    · rfl
  | some payload =>
    simp only
    by_cases hne : (row.references.requestId t').text = []
    · rw [if_pos hne, states_warn]
      split
      · rename_i h
        obtain ⟨rfl, hid, htext⟩ := h
        rw [hid] at hne
        exact absurd hne htext
      · rfl
    · rw [if_neg hne, states_setState]
      by_cases ht : t = t'
      · subst ht
        rw [if_pos rfl, OrderedMap.get?_set]
        by_cases hid : id = row.references.requestId t
        · have hnames : Names t id row := ⟨hid.symm, by rw [hid]; exact hne⟩
          rw [if_pos hid, if_pos ⟨rfl, hnames⟩, hpay, hid]
        · rw [if_neg hid, if_neg (fun h => hid h.2.1.symm)]
      · rw [if_neg ht, if_neg (fun h => ht h.1.symm)]

theorem get?_update {f : RequestState → RequestState} {id' : Stripped} {st : RequestState}
    (hseen : p.seen? t' id' = some st) :
    ((p.setState t' id' (f st)).states t).get? id =
      if t = t' ∧ id = id' then
        ((p.states t).get? id).map fun st => if st.seenRequest then f st else st
      else (p.states t).get? id := by
  obtain ⟨hget, hflag⟩ := Option.filter_eq_some_iff.1 hseen
  rw [states_setState]
  by_cases ht : t = t'
  · subst ht
    rw [if_pos rfl, OrderedMap.get?_set]
    by_cases hid : id = id'
    · rw [if_pos hid, if_pos ⟨rfl, hid⟩, hid, hget, Option.map_some, if_pos hflag]
    · rw [if_neg hid, if_neg (fun h => hid h.2)]
  · rw [if_neg ht, if_neg (fun h => ht h.1)]

theorem map_unseen {f : RequestState → RequestState} (hseen : p.seen? t id = none) :
    (((p.states t).get? id).map fun st => if st.seenRequest then f st else st) =
      (p.states t).get? id := by
  cases hget : (p.states t).get? id with
  | none => rfl
  | some st =>
    have hflag : ¬ st.seenRequest = true := by
      unfold seen? at hseen
      rw [hget] at hseen
      simpa [Option.filter] using hseen
    rw [Option.map_some, if_neg hflag]

theorem get?_decisionRow :
    ((decisionRow t' row p).states t).get? id =
      if t' = t ∧ decidedId t row = id ∧ id.text ≠ [] then
        match row.extra with
        | none => (p.states t).get? id
        | some fields => ((p.states t).get? id).map fun st =>
            if st.seenRequest then st.decided row fields.decision else st
      else (p.states t).get? id := by
  unfold decisionRow
  by_cases hne : (decidedId t' row).text = []
  · simp only [hne, if_true, states_warn]
    rw [if_neg]
    rintro ⟨rfl, hid, htext⟩
    rw [hid] at hne
    exact htext hne
  · simp only [hne, if_false]
    cases hseen : p.seen? t' (decidedId t' row) with
    | none =>
      simp only [states_warn]
      split
      · rename_i h
        obtain ⟨rfl, hid, -⟩ := h
        rw [hid] at hseen
        split
        · rfl
        · exact (map_unseen hseen).symm
      · rfl
    | some st =>
      cases hextra : row.extra with
      | none =>
        simp only
        split <;> rfl
      | some fields =>
        simp only
        rw [get?_update (f := fun st => st.decided row fields.decision) hseen]
        by_cases ht : t = t'
        · subst ht
          by_cases hid : id = decidedId t row
          · rw [if_pos ⟨rfl, hid⟩, if_pos ⟨rfl, hid.symm, by rw [hid]; exact hne⟩]
          · rw [if_neg (fun h => hid h.2), if_neg (fun h => hid h.2.1.symm)]
        · rw [if_neg (fun h => ht h.1), if_neg (fun h => ht h.1.symm)]

theorem get?_touch (f : OperationRecord → RequestState → RequestState) :
    ((touch f t' row p).states t).get? id =
      if t' = t ∧ Names t id row then
        ((p.states t).get? id).map fun st => if st.seenRequest then f row st else st
      else (p.states t).get? id := by
  unfold touch
  by_cases hne : (row.references.requestId t').text = []
  · simp only [hne, if_true]
    rw [if_neg]
    rintro ⟨rfl, hid, htext⟩
    rw [hid] at hne
    exact htext hne
  · simp only [hne, if_false]
    cases hseen : p.seen? t' (row.references.requestId t') with
    | none =>
      simp only
      split
      · rename_i h
        obtain ⟨rfl, hid, -⟩ := h
        rw [hid] at hseen
        exact (map_unseen hseen).symm
      · rfl
    | some st =>
      simp only
      rw [get?_update (f := f row) hseen]
      by_cases ht : t = t'
      · subst ht
        by_cases hid : id = row.references.requestId t
        · rw [if_pos ⟨rfl, hid⟩, if_pos ⟨rfl, hid.symm, by rw [hid]; exact hne⟩]
        · rw [if_neg (fun h => hid h.2), if_neg (fun h => hid h.2.1.symm)]
      · rw [if_neg (fun h => ht h.1), if_neg (fun h => ht h.1.symm)]

theorem get?_touch_both (f : OperationRecord → RequestState → RequestState) :
    ((touch f .tool row (touch f .patch row p)).states t).get? id =
      if Names t id row then
        ((p.states t).get? id).map fun st => if st.seenRequest then f row st else st
      else (p.states t).get? id := by
  rw [get?_touch, get?_touch]
  cases t <;> simp

/-- **One row acts on each request on its own.** -/
theorem get?_applyRow :
    ((applyRow p row).states t).get? id =
      RequestState.after t id ((p.states t).get? id) row := by
  unfold applyRow RequestState.after
  cases row.operationType with
  | request t' => simp only [get?_requestRow, states_noteOperationId]
  | decision t' => simp only [get?_decisionRow, states_noteOperationId]
  | executionReconciliation =>
    simp only [reconciliationRow]
    split
    · simp only [get?_touch_both, states_noteOperationId]
    · simp only [states_warn, get?_touch_both, states_noteOperationId]
  | _ => simp only [get?_touch_both, states_noteOperationId]

def track (t : RequestType) (id : Stripped) (L : List OperationRecord) : Option RequestState :=
  L.foldl (RequestState.after t id) none

theorem track_concat : track t id (L ++ [row]) = RequestState.after t id (track t id L) row := by
  unfold track
  rw [List.foldl_append]
  rfl

/-- **The state of a request is its track.** -/
theorem states_projectRows (L : List OperationRecord) :
    ((projectRows L).states t).get? id = track t id L := by
  induction L using List.reverseRecOn with
  | nil => cases t <;> rfl
  | append_singleton L row ih =>
    have hstep : projectRows (L ++ [row]) = applyRow (projectRows L) row := by
      unfold projectRows
      rw [List.foldl_append]
      rfl
    rw [hstep, get?_applyRow, ih, track_concat]

def Splits {α : Type} (P : List α → α → List α → Prop) (L : List α) : Prop :=
  ∃ A r B, L = A ++ r :: B ∧ P A r B

theorem splits_concat {α : Type} {P : List α → α → List α → Prop} {L : List α} {x : α} :
    Splits P (L ++ [x]) ↔ P L x [] ∨ Splits (fun A r B => P A r (B ++ [x])) L := by
  constructor
  · rintro ⟨A, r, B, heq, h⟩
    rcases List.eq_nil_or_concat B with rfl | ⟨B', y, rfl⟩
    · obtain ⟨rfl, hx⟩ := List.append_inj' heq rfl
      cases hx
      exact Or.inl h
    · have heq' : L ++ [x] = (A ++ r :: B') ++ [y] := by rw [heq]; simp
      obtain ⟨rfl, hy⟩ := List.append_inj' heq' rfl
      cases hy
      exact Or.inr ⟨A, r, B', rfl, by simpa using h⟩
  · rintro (h | ⟨A, r, B, rfl, h⟩)
    · exact ⟨L, x, [], rfl, h⟩
    · exact ⟨A, r, B ++ [x], by simp, h⟩

theorem Splits.index {α : Type} {P : List α → α → List α → Prop} {L : List α} (h : Splits P L) :
    ∃ n ∈ List.range L.length, ∃ d ∈ L[n]?, P (L.take n) d (L.drop (n + 1)) := by
  obtain ⟨A, d, B, rfl, hP⟩ := h
  refine ⟨A.length, by simp, d, by simp, ?_⟩
  simpa using hP

section History

variable (t : RequestType) (id : Stripped) (L : List OperationRecord)

def Made : Prop := ∃ r ∈ L, Requests t id r

/-- The last decision on the request, once it was made, approves it. -/
def Approved : Prop :=
  Splits (fun A r B => DecidesAs t id r .approved ∧ Made t id A ∧ ∀ b ∈ B, ¬ Decides t id b) L

def Reconciled : Prop := Splits (fun A r _ => Reconciles t id r ∧ Made t id A) L

/-- The request was closed since the approval that is its last decision. -/
def ClosedSince : Prop :=
  Splits (fun A r B => (DecidesAs t id r .approved ∧ Made t id A ∧ ∀ b ∈ B, ¬ Decides t id b) ∧
    ∃ b ∈ B, Closes t id b) L

end History

theorem made_concat : Made t id (L ++ [row]) ↔ Made t id L ∨ Requests t id row := by
  unfold Made
  simp [or_and_right, exists_or]

theorem approved_concat :
    Approved t id (L ++ [row]) ↔
      (DecidesAs t id row .approved ∧ Made t id L) ∨ (Approved t id L ∧ ¬ Decides t id row) := by
  unfold Approved
  rw [splits_concat]
  refine or_congr ?_ ?_
  · simp
  · constructor
    · rintro ⟨A, r, B, rfl, h1, h2, h3⟩
      have hrow := h3 row (by simp)
      exact ⟨⟨A, r, B, rfl, h1, h2, fun b hb => h3 b (List.mem_append_left _ hb)⟩, hrow⟩
    · rintro ⟨⟨A, r, B, rfl, h1, h2, h3⟩, hrow⟩
      refine ⟨A, r, B, rfl, h1, h2, ?_⟩
      intro b hb
      rcases List.mem_append.1 hb with hb | hb
      · exact h3 b hb
      · rw [List.mem_singleton.1 hb]
        exact hrow

theorem reconciled_concat :
    Reconciled t id (L ++ [row]) ↔ (Reconciles t id row ∧ Made t id L) ∨ Reconciled t id L := by
  unfold Reconciled
  rw [splits_concat]

theorem closedSince_concat :
    ClosedSince t id (L ++ [row]) ↔
      ¬ Decides t id row ∧ (ClosedSince t id L ∨ (Approved t id L ∧ Closes t id row)) := by
  unfold ClosedSince Approved
  rw [splits_concat]
  constructor
  · rintro (⟨-, b, hb, -⟩ | ⟨A, r, B, rfl, ⟨h1, h2, h3⟩, b, hb, hc⟩)
    · cases hb
    · have hold : ∀ b ∈ B, ¬ Decides t id b := fun b hb => h3 b (List.mem_append_left _ hb)
      refine ⟨h3 row (by simp), ?_⟩
      rcases List.mem_append.1 hb with hb | hb
      · exact Or.inl ⟨A, r, B, rfl, ⟨h1, h2, hold⟩, b, hb, hc⟩
      · rw [List.mem_singleton.1 hb] at hc
        exact Or.inr ⟨⟨A, r, B, rfl, h1, h2, hold⟩, hc⟩
  · rintro ⟨hrow, ⟨A, r, B, rfl, ⟨h1, h2, h3⟩, b, hb, hc⟩ | ⟨⟨A, r, B, rfl, h1, h2, h3⟩, hc⟩⟩
    all_goals
      have hall : ∀ b ∈ B ++ [row], ¬ Decides t id b := by
        intro b hb
        rcases List.mem_append.1 hb with hb | hb
        · exact h3 b hb
        · rw [List.mem_singleton.1 hb]
          exact hrow
    · exact Or.inr ⟨A, r, B, rfl, ⟨h1, h2, hall⟩, b, List.mem_append_left _ hb, hc⟩
    · exact Or.inr ⟨A, r, B, rfl, ⟨h1, h2, hall⟩, row, by simp, hc⟩

/-! ### A row is of one kind -/

section Kinds

theorem Requests.unlike (h : Requests t id row) :
    ¬ Decides t id row ∧ ¬ Reconciles t id row ∧ ¬ Concludes t id row := by
  obtain ⟨hty, -⟩ := h
  refine ⟨?_, ?_, ?_⟩
  · rintro ⟨v, hty', -⟩
    rw [hty] at hty'
    cases hty'
  · rintro ⟨hty', -⟩
    rw [hty] at hty'
    cases hty'
  · rintro ⟨-, -, hkind⟩
    rw [hty] at hkind
    exact hkind

theorem Decides.unlike (h : Decides t id row) :
    ¬ Requests t id row ∧ ¬ Reconciles t id row ∧ ¬ Concludes t id row := by
  obtain ⟨v, hty, -⟩ := h
  refine ⟨?_, ?_, ?_⟩
  · rintro ⟨hty', -⟩
    rw [hty] at hty'
    cases hty'
  · rintro ⟨hty', -⟩
    rw [hty] at hty'
    cases hty'
  · rintro ⟨-, -, hkind⟩
    rw [hty] at hkind
    exact hkind

variable {cur : Option RequestState}

theorem after_requests (cur : Option RequestState) (h : Requests t id row) :
    ∃ payload, RequestState.after t id cur row =
      some ((cur.getD (defaultProjection id)).proposed row payload) := by
  obtain ⟨hty, hnames, hpay⟩ := h
  obtain ⟨payload, hpay⟩ := Option.isSome_iff_exists.1 hpay
  refine ⟨payload, ?_⟩
  unfold RequestState.after
  rw [hty]
  simp only [hnames, and_self, if_true, hpay]

theorem after_decides {v : Verdict} (h : DecidesAs t id row v) :
    RequestState.after t id cur row =
      cur.map fun st => if st.seenRequest then st.decided row v else st := by
  obtain ⟨hty, hid, hne, hv⟩ := h
  obtain ⟨fields, hextra, rfl⟩ := Option.map_eq_some_iff.1 hv
  unfold RequestState.after
  rw [hty]
  simp only [hid, hne, hextra, ne_eq, not_false_eq_true, and_self, if_true]

theorem after_reconciles (h : Reconciles t id row) :
    RequestState.after t id cur row =
      cur.map fun st => if st.seenRequest then st.reconcile row else st := by
  obtain ⟨hty, hnames⟩ := h
  unfold RequestState.after
  rw [hty]
  simp only [hnames, if_true]

theorem after_concludes (h : Concludes t id row) :
    RequestState.after t id cur row =
      cur.map fun st => if st.seenRequest then
        { st with closedStatus := some row.status, closedOperationId := some row.operationId }
      else st := by
  obtain ⟨hnames, hterm, hkind⟩ := h
  have hclose (st : RequestState) : st.close row =
      { st with closedStatus := some row.status, closedOperationId := some row.operationId } := by
    unfold RequestState.close
    rw [if_pos hterm]
  unfold RequestState.after
  cases hty : row.operationType with
  | request t' => rw [hty] at hkind; exact hkind.elim
  | decision t' => rw [hty] at hkind; exact hkind.elim
  | executionReconciliation => rw [hty] at hkind; exact hkind.elim
  | _ => simp only [hnames, if_true, hclose]

theorem after_other (h1 : ¬ Requests t id row) (h2 : ¬ Decides t id row)
    (h3 : ¬ Reconciles t id row) (h4 : ¬ Concludes t id row) :
    RequestState.after t id cur row = cur := by
  have hsame (hterm : ¬ row.status.terminal = true) :
      (cur.map fun st => if st.seenRequest then st.close row else st) = cur := by
    have hclose (st : RequestState) : (if st.seenRequest then st.close row else st) = st := by
      unfold RequestState.close
      rw [if_neg hterm, ite_self]
    simp only [hclose, Option.map_id']
  unfold RequestState.after
  cases hty : row.operationType with
  | request t' =>
    simp only
    split
    · rename_i h
      obtain ⟨rfl, hnames⟩ := h
      cases hpay : requestPayload row t' with
      | none => rfl
      | some payload => exact absurd ⟨hty, hnames, by rw [hpay]; rfl⟩ h1
    · rfl
  | decision t' =>
    simp only
    split
    · rename_i h
      obtain ⟨rfl, hid, hne⟩ := h
      cases hextra : row.extra with
      | none => rfl
      | some fields =>
        exact absurd ⟨fields.decision, hty, hid, hne, by rw [hextra]; rfl⟩ h2
    · rfl
  | executionReconciliation =>
    simp only
    split
    · rename_i h
      exact absurd ⟨hty, h⟩ h3
    · rfl
  | _ =>
    simp only
    split
    · rename_i hnames
      apply hsame
      intro hterm
      exact h4 ⟨hnames, hterm, by rw [hty]; trivial⟩
    · rfl

end Kinds

/-! ### The flags -/

/-- The flags of a state say what the ledger says about its request. -/
structure Reads (t : RequestType) (id : Stripped) (L : List OperationRecord) (st : RequestState) :
    Prop where
  requestId : st.requestId = id
  seen : st.seenRequest = true
  made : Made t id L
  approved : st.approved = true ↔ Approved t id L
  reconciled : st.reconciled = true ↔ Reconciled t id L
  closed : st.approved = true → (st.closedStatus.isSome = true ↔ ClosedSince t id L)

/-- The track of a request after a ledger: nothing, or a state that reads it. -/
def Tracked (t : RequestType) (id : Stripped) (L : List OperationRecord) :
    Option RequestState → Prop
  | none => ¬ Made t id L
  | some st => Reads t id L st

theorem Approved.made (h : Approved t id L) : Made t id L := by
  obtain ⟨A, r, B, rfl, -, ⟨q, hq, hreq⟩, -⟩ := h
  exact ⟨q, List.mem_append_left _ hq, hreq⟩

theorem Reconciled.made (h : Reconciled t id L) : Made t id L := by
  obtain ⟨A, r, B, rfl, -, q, hq, hreq⟩ := h
  exact ⟨q, List.mem_append_left _ hq, hreq⟩

variable {cur : Option RequestState}

theorem Tracked.map_seen (hcur : Tracked t id L cur)
    (f : RequestState → RequestState) :
    (cur.map fun st => if st.seenRequest then f st else st) = cur.map f := by
  cases cur with
  | none => rfl
  | some st =>
    have hst : Reads t id L st := hcur
    simp [hst.seen]

theorem Tracked.request (hcur : Tracked t id L cur)
    (h : Requests t id row) : Tracked t id (L ++ [row]) (RequestState.after t id cur row) := by
  obtain ⟨hnd, hnr, hnc⟩ := h.unlike
  have hna : ¬ DecidesAs t id row .approved := fun hd => hnd ⟨_, hd⟩
  obtain ⟨payload, heq⟩ := after_requests cur h
  rw [heq]
  have hclose : Closes t id row ↔ closesRequest row.status = true := by
    simp [Closes, hnr, hnc, h]
  cases cur with
  | none =>
    have hno : ¬ Made t id L := hcur
    have hnoa : ¬ Approved t id L := fun ha => hno ha.made
    have hnor : ¬ Reconciled t id L := fun hr => hno hr.made
    refine ⟨rfl, rfl, made_concat.2 (Or.inr h), ?_, ?_, ?_⟩
    · rw [approved_concat]
      simp [RequestState.proposed, defaultProjection, hna, hnoa]
    · rw [reconciled_concat]
      simp [RequestState.proposed, defaultProjection, hnr, hnor]
    · intro happ
      cases happ
  | some st =>
    have hst : Reads t id L st := hcur
    refine ⟨hst.requestId, rfl, made_concat.2 (Or.inr h), ?_, ?_, ?_⟩
    · rw [approved_concat]
      show st.approved = true ↔ _
      rw [hst.approved]
      simp [hna, hnd]
    · rw [reconciled_concat]
      show st.reconciled = true ↔ _
      rw [hst.reconciled]
      simp [hnr]
    · intro happ
      have happ' : st.approved = true := happ
      rw [closedSince_concat, hclose, ← hst.closed happ']
      have hA := hst.approved.1 happ'
      by_cases hc : closesRequest row.status = true
      · simp [RequestState.proposed, hc, hnd, hA]
      · simp [RequestState.proposed, hc, hnd]

theorem Tracked.decide (hcur : Tracked t id L cur) {v : Verdict}
    (h : DecidesAs t id row v) : Tracked t id (L ++ [row]) (RequestState.after t id cur row) := by
  have hd : Decides t id row := ⟨v, h⟩
  obtain ⟨hnq, hnr, -⟩ := hd.unlike
  rw [after_decides h, hcur.map_seen]
  cases cur with
  | none =>
    show ¬ Made t id (L ++ [row])
    rw [made_concat]
    exact fun hm => hm.elim hcur hnq
  | some st =>
    have hst : Reads t id L st := hcur
    show Reads t id (L ++ [row]) (st.decided row v)
    have hmade : Made t id (L ++ [row]) := made_concat.2 (Or.inl hst.made)
    have hrec : st.reconciled = true ↔ Reconciled t id (L ++ [row]) := by
      rw [reconciled_concat, hst.reconciled]
      simp [hnr]
    have hnone : ¬ ClosedSince t id (L ++ [row]) := by
      rw [closedSince_concat]
      exact fun hc => hc.1 hd
    cases v with
    | approved =>
      refine ⟨hst.requestId, hst.seen, hmade, ?_, hrec, ?_⟩
      · simp [RequestState.decided, approved_concat, h, hst.made]
      · simp [RequestState.decided, hnone]
    | denied =>
      have hna : ¬ DecidesAs t id row .approved := by
        rintro ⟨-, -, -, hv⟩
        rw [h.2.2.2] at hv
        cases hv
      refine ⟨hst.requestId, hst.seen, hmade, ?_, hrec, ?_⟩
      · simp [RequestState.decided, approved_concat, hna, hd]
      · simp [RequestState.decided]

theorem Tracked.update (hcur : Tracked t id L cur)
    (hnq : ¬ Requests t id row) (hnd : ¬ Decides t id row) (f : RequestState → RequestState)
    (hid : ∀ st, (f st).requestId = st.requestId) (hseen : ∀ st, (f st).seenRequest = st.seenRequest)
    (happ : ∀ st, (f st).approved = st.approved)
    (hrec : ∀ st, (f st).reconciled = true ↔ st.reconciled = true ∨ Reconciles t id row)
    (hclosed : ∀ st, (f st).closedStatus.isSome = true ↔
      st.closedStatus.isSome = true ∨ Closes t id row) :
    Tracked t id (L ++ [row]) (cur.map f) := by
  have hna : ¬ DecidesAs t id row .approved := fun h => hnd ⟨_, h⟩
  cases cur with
  | none =>
    show ¬ Made t id (L ++ [row])
    rw [made_concat]
    exact fun hm => hm.elim hcur hnq
  | some st =>
    have hst : Reads t id L st := hcur
    refine ⟨(hid st).trans hst.requestId, (hseen st).trans hst.seen,
      made_concat.2 (Or.inl hst.made), ?_, ?_, ?_⟩
    · rw [happ, hst.approved, approved_concat]
      simp [hna, hnd]
    · rw [hrec, hst.reconciled, reconciled_concat]
      simp [hst.made, or_comm]
    · intro ha
      rw [happ] at ha
      rw [hclosed, hst.closed ha, closedSince_concat]
      simp [hnd, hst.approved.1 ha]

/-- **The flags of a state say what the ledger says.** -/
theorem track_spec (t : RequestType) (id : Stripped) (L : List OperationRecord) :
    Tracked t id L (track t id L) := by
  induction L using List.reverseRecOn with
  | nil =>
    show ¬ Made t id []
    rintro ⟨r, hr, -⟩
    cases hr
  | append_singleton L row ih =>
    rw [track_concat]
    by_cases hq : Requests t id row
    · exact ih.request hq
    by_cases hd : Decides t id row
    · obtain ⟨v, hv⟩ := hd
      exact ih.decide hv
    by_cases hr : Reconciles t id row
    · rw [after_reconciles hr, ih.map_seen]
      have hc : Closes t id row := Or.inl hr
      exact ih.update hq hd (·.reconcile row) (fun _ => rfl) (fun _ => rfl) (fun _ => rfl)
        (fun _ => by simp [RequestState.reconcile, hr]) (fun _ => by simp [RequestState.reconcile, hc])
    by_cases hc : Concludes t id row
    · rw [after_concludes hc, ih.map_seen]
      have hcl : Closes t id row := Or.inr (Or.inl hc)
      exact ih.update hq hd _ (fun _ => rfl) (fun _ => rfl) (fun _ => rfl)
        (fun _ => by simp [hr]) (fun _ => by simp [hcl])
    · rw [after_other hq hd hr hc]
      have hnc : ¬ Closes t id row := by
        rintro (h | h | h)
        · exact hr h
        · exact hc h
        · exact hq h.1
      have h := ih.update hq hd (fun st => st) (fun _ => rfl) (fun _ => rfl) (fun _ => rfl)
        (fun _ => by simp [hr]) (fun _ => by simp [hnc])
      rwa [Option.map_id'] at h

end ClawHarder.Comms
