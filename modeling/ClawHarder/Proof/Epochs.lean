import ClawHarder.Lib.Run
import ClawHarder.Lib.Window
import ClawHarder.Proof.StateRoundTrip
import ClawHarder.Spec.Epochs
import Mathlib.Data.List.Range

/-!
# The short-term memory is a window of the session ledger

`append` and `close_epoch` write two stores with different retention: the ledger keeps
every message, and the short-term memory the last epochs. Both are compared with the
journal of the conversation, which has no window.

* `memories_agree`: **over every run, the two stores agree.**
-/

namespace ClawHarder.RuntimeCore

open PyText (lit)

variable {b : PyBuiltins} {c : StmConfig} {clock : ℤ → PyText} {j : Journal} {m : Message}

namespace Journal

def evicted (c : StmConfig) (j : Journal) : List StmEpoch :=
  j.everClosed.take (j.everClosed.length - c.maxEpochs.toNat)

def endTurn (j : Journal) (t : Turn) : Journal := ⟨j.closed ++ [t], []⟩

theorem everClosed_length : j.everClosed.length = j.closed.length := List.length_mapIdx

theorem everClosed_endTurn (t : Turn) :
    (j.endTurn t).everClosed = j.everClosed ++ [t.epoch (j.closed.length + 1)] :=
  List.mapIdx_concat

theorem numbered_endTurn (t : Turn) : (j.endTurn t).numbered =
    (j.closed.mapIdx fun i t => t.messages.map fun m => ((i : ℤ) + 1, m)).flatten ++
      t.messages.map fun m => ((j.closed.length : ℤ) + 1, m) := by
  unfold numbered endTurn
  simp only [List.map_nil, List.append_nil]
  rw [List.mapIdx_concat, List.flatten_append]
  simp

theorem numbered_append (roles : List PyText) (j : Journal) (m : Message) :
    (j.append roles m).numbered = j.numbered ++ [((j.closed.length : ℤ) + 1, m)] := by
  by_cases hm : m.role ∈ roles
  · have hend : j.append roles m =
        j.endTurn ⟨j.current ++ [m], lit "assistant_turn_complete"⟩ := if_pos hm
    rw [hend, numbered_endTurn]
    simp [numbered]
  · have hgo : j.append roles m = ⟨j.closed, j.current ++ [m]⟩ := if_neg hm
    rw [hgo]
    simp [numbered]

theorem numbered_close (j : Journal) (reason : PyText) :
    (j.close reason).numbered = j.numbered := by
  unfold close
  split
  · rfl
  · exact numbered_endTurn _

end Journal

structure StmAgrees (c : StmConfig) (j : Journal) (s : StmStore) : Prop where
  maxEpochs : s.maxEpochs = c.maxEpochs
  closeRoles : s.closeRoles = c.closeRoles
  epochs : s.epochs = j.everClosed.rtake c.maxEpochs.toNat
  openEpoch : s.openEpoch = j.openEpoch
  nextEpochSeq : s.nextEpochSeq = j.opened + 1

section Stm

variable {s : StmStore}

theorem epochOf_append {n : ℤ} {ms : List Message} (hne : ms ≠ []) (m : Message) :
    epochOf n (ms ++ [m]) =
      { epochOf n ms with messages := (epochOf n ms).messages ++ [m.frame] } := by
  cases ms with
  | nil => exact absurd rfl hne
  | cons first rest => simp [epochOf]

theorem openOrBegin_spec (h : StmAgrees c j s) (m : Message) :
    ∃ begun, s.openOrBegin m.ts = (begun, { s with nextEpochSeq := j.closed.length + 2 }) ∧
      { begun with messages := begun.messages ++ [m.frame] } =
        epochOf (j.closed.length + 1) (j.current ++ [m]) := by
  have hopen := h.openEpoch
  have hnext := h.nextEpochSeq
  unfold Journal.openEpoch at hopen
  unfold Journal.opened at hnext
  unfold StmStore.openOrBegin
  by_cases hc : j.current = []
  · -- a new turn: its epoch takes the next number
    rw [if_pos hc] at hopen hnext
    have hseq : s.nextEpochSeq = j.closed.length + 1 := by
      rw [hnext]
      push_cast
      omega
    refine ⟨⟨epochIdOf s.nextEpochSeq, s.nextEpochSeq, m.ts, [], none, none⟩, ?_, ?_⟩
    · rw [hopen, hseq, Int.add_assoc]
      rfl
    · rw [hc, hseq]
      rfl
  · -- the turn goes on, and its epoch has its number
    rw [if_neg hc] at hopen hnext
    have hs : { s with nextEpochSeq := (j.closed.length : ℤ) + 2 } = s := by
      cases s
      simp only at hnext
      simp only [hnext, StmStore.mk.injEq, true_and]
      push_cast
      omega
    refine ⟨epochOf (j.closed.length + 1) j.current, ?_, (epochOf_append hc m).symm⟩
    rw [hs, hopen]

/-- **Closing an epoch moves the window by one turn**, and evicts what leaves it. -/
theorem evict_spec (h : StmAgrees c j s) (ms : List Message) (reason : PyText) {full : StmStore}
    (hfull : full = { s with nextEpochSeq := j.closed.length + 2 }.pushClosed
      (epochOf (j.closed.length + 1) ms) (ms.getLast?.map Message.ts) reason) :
    StmAgrees c (j.endTurn ⟨ms, reason⟩) full.evict ∧
      ∃ gone, (j.endTurn ⟨ms, reason⟩).evicted c = j.evicted c ++ gone ∧
        full.evictedIds = gone.map (·.epochId) := by
  -- the window before, and the epoch of the turn that ends
  have hepochs : full.epochs = j.everClosed.rtake c.maxEpochs.toNat ++
      [Turn.epoch (j.closed.length + 1) ⟨ms, reason⟩] := by
    rw [hfull, ← h.epochs]
    rfl
  have hmax : full.maxEpochs = c.maxEpochs := by
    rw [hfull, ← h.maxEpochs]
    rfl
  refine ⟨⟨hmax, ?_, ?_, ?_, ?_⟩, _, ?_, rfl⟩
  · rw [hfull]
    exact h.closeRoles
  · rw [Journal.everClosed_endTurn, ← List.rtake_concat, ← hepochs, ← hmax]
    rfl
  · rw [hfull]
    rfl
  · rw [hfull]
    simp only [StmStore.evict, StmStore.pushClosed, Journal.opened, Journal.endTurn, if_true,
      List.length_append, List.length_singleton]
    push_cast
    omega
  · unfold Journal.evicted
    rw [Journal.everClosed_endTurn, List.take_concat, ← hepochs, hmax]

theorem append_of_closing (hm : m.role ∈ c.closeRoles) : j.append c.closeRoles m =
    j.endTurn ⟨j.current ++ [m], lit "assistant_turn_complete"⟩ := if_pos hm

theorem append_of_open (hm : m.role ∉ c.closeRoles) :
    j.append c.closeRoles m = ⟨j.closed, j.current ++ [m]⟩ := if_neg hm

theorem openEpoch_isNone (h : StmAgrees c j s) :
    s.openEpoch.isNone = decide (j.current = []) := by
  rw [h.openEpoch]
  unfold Journal.openEpoch
  by_cases hc : j.current = []
  · rw [if_pos hc, decide_eq_true hc]
    rfl
  · rw [if_neg hc, decide_eq_false hc]
    rfl

/-- **A message joins the turn that goes on**, and its result tells what became of it. -/
theorem stmAgrees_append (h : StmAgrees c j s) (m : Message) :
    StmAgrees c (j.append c.closeRoles m) (s.appendFrame m).2 ∧
      ∃ gone, (j.append c.closeRoles m).evicted c = j.evicted c ++ gone ∧
        (s.appendFrame m).1 = ⟨epochIdOf (j.closed.length + 1), j.closed.length + 1,
          decide (m.role ∈ c.closeRoles), decide (j.current = []), gone.map (·.epochId)⟩ := by
  obtain ⟨begun, hbegin, hepoch⟩ := openOrBegin_spec h m
  have hid : begun.epochId = epochIdOf (j.closed.length + 1) := congrArg StmEpoch.epochId hepoch
  have hseq : begun.epochSeq = j.closed.length + 1 := congrArg StmEpoch.epochSeq hepoch
  unfold StmStore.appendFrame
  simp only [hbegin, hepoch, openEpoch_isNone h]
  rw [hid, hseq]
  by_cases hm : m.role ∈ c.closeRoles
  · -- the message ends the turn
    have hm' : m.role ∈ s.closeRoles := h.closeRoles ▸ hm
    rw [if_pos hm', append_of_closing hm, decide_eq_true hm]
    obtain ⟨hagrees, gone, hgone, hids⟩ := evict_spec h (j.current ++ [m])
      (lit "assistant_turn_complete") rfl
    rw [List.getLast?_concat] at hagrees hids
    refine ⟨hagrees, gone, hgone, ?_⟩
    rw [← hids]
    rfl
  · -- only the open epoch grows
    have hm' : m.role ∉ s.closeRoles := h.closeRoles ▸ hm
    rw [if_neg hm', append_of_open hm, decide_eq_false hm]
    refine ⟨⟨h.maxEpochs, h.closeRoles, h.epochs, ?_, ?_⟩, [], ?_, rfl⟩
    · simp [Journal.openEpoch]
    · simp [Journal.opened]
      omega
    · rw [List.append_nil]
      rfl

/-- **A forced close ends the turn that goes on.** -/
theorem stmAgrees_close (h : StmAgrees c j s) (reason : PyText) :
    StmAgrees c (j.close reason) (s.forceClose reason).2 ∧
      ∃ gone, (j.close reason).evicted c = j.evicted c ++ gone ∧
        (s.forceClose reason).1.2 = gone.map (·.epochId) ∧
        (s.forceClose reason).1.1 = if j.current = [] then none
          else some (Turn.epoch (j.closed.length + 1) ⟨j.current, reason⟩) := by
  have hopen := h.openEpoch
  unfold Journal.openEpoch at hopen
  unfold StmStore.forceClose Journal.close
  by_cases hc : j.current = []
  · rw [if_pos hc] at hopen
    rw [hopen]
    simp only [if_pos hc]
    exact ⟨h, [], (List.append_nil _).symm, rfl, trivial⟩
  · rw [if_neg hc] at hopen
    have hlast : (epochOf (j.closed.length + 1) j.current).messages.getLast? =
        some (j.current.getLast hc).frame := by
      simp only [epochOf]
      rw [List.getLast?_map, List.getLast?_eq_some_getLast hc]
      rfl
    have hnext : s.nextEpochSeq = j.closed.length + 2 := by
      rw [h.nextEpochSeq]
      simp only [Journal.opened, if_neg hc]
      omega
    have hs : { s with nextEpochSeq := (j.closed.length : ℤ) + 2 } = s := by rw [← hnext]
    obtain ⟨hagrees, gone, hgone, hids⟩ := evict_spec h j.current reason rfl
    rw [List.getLast?_eq_some_getLast hc, hs] at hagrees hids
    rw [hopen]
    simp only [hlast, if_neg hc]
    refine ⟨hagrees, gone, hgone, hids, ?_⟩
    simp only [StmStore.pushClosed]
    rw [List.getLast?_concat]
    unfold Turn.epoch
    rw [List.getLast?_eq_some_getLast hc]
    rfl

end Stm

def rowsOf (kind : EventKind) (l : SessionLedger) : List SessionLedgerEntry :=
  l.entries.filter (·.eventKind = kind.text)

def numberedRow (e : SessionLedgerEntry) : Option ℤ × Option PyText × Option PyText × PyText :=
  (e.epochSeq, e.role, e.content, e.ts)

def numberedMessage (p : ℤ × Message) : Option ℤ × Option PyText × Option PyText × PyText :=
  (some p.1, some p.2.role, some p.2.content, p.2.ts)

def evictedId (e : SessionLedgerEntry) : Option PyValue :=
  PyValue.get? (lit "epoch_id") e.metadata

def upTo (n : ℕ) : List (Option ℤ) := (List.range n).map fun i : ℕ => some ((i : ℤ) + 1)

theorem upTo_succ (n : ℕ) : upTo (n + 1) = upTo n ++ [some ((n : ℤ) + 1)] := by
  unfold upTo
  rw [List.range_succ, List.map_append]
  rfl

structure Contiguous (l : SessionLedger) : Prop where
  seqs : l.entries.map (·.seq) = (List.range l.entries.length).map fun i : ℕ => (i : ℤ) + 1
  nextSeq : l.nextSeq = l.entries.length + 1

structure LedgerAgrees (c : StmConfig) (j : Journal) (l : SessionLedger) : Prop where
  contiguous : Contiguous l
  messages : (rowsOf .messageAppended l).map numberedRow = j.numbered.map numberedMessage
  created : (rowsOf .epochCreated l).map (·.epochSeq) = upTo j.opened
  closed : (rowsOf .epochClosed l).map (·.epochSeq) = upTo j.closed.length
  evicted : ∀ kind ∈ [EventKind.stmEpochEvicted, .epochEvicted],
    (rowsOf kind l).map evictedId = (j.evicted c).map fun e => some (.str e.epochId)

section Ledger

variable {l : SessionLedger} {rows : List LedgerRow} {kind : EventKind}

theorem EventKind.text_inj {k k' : EventKind} : k.text = k'.text ↔ k = k' := by
  constructor
  · cases k <;> cases k' <;> first | exact fun _ => rfl | exact fun h => absurd h (by decide)
  · exact congrArg EventKind.text

theorem contiguous_appendEvents (h : Contiguous l) (rows : List LedgerRow) :
    Contiguous (rows.foldl (SessionLedger.appendEvent clock) l) := by
  induction rows generalizing l with
  | nil => exact h
  | cons row rows ih =>
    refine ih ⟨?_, ?_⟩
    · simp only [SessionLedger.appendEvent]
      rw [List.map_append, h.seqs, List.length_append, List.length_singleton, List.range_succ,
        List.map_append, List.map_singleton, List.map_singleton]
      simp only [LedgerRow.entry, h.nextSeq]
    · simp only [SessionLedger.appendEvent, h.nextSeq]
      rw [List.length_append, List.length_singleton]
      push_cast
      rfl

theorem rowsOf_appendEvent (row : LedgerRow) : rowsOf kind (l.appendEvent clock row) =
    rowsOf kind l ++ if row.kind = kind then [row.entry clock l.nextSeq] else [] := by
  unfold rowsOf
  simp only [SessionLedger.appendEvent]
  rw [List.filter_append, List.filter_singleton]
  by_cases hk : row.kind = kind
  · have htext : (row.entry clock l.nextSeq).eventKind = kind.text := EventKind.text_inj.2 hk
    rw [decide_eq_true htext, if_pos hk]
    rfl
  · have htext : (row.entry clock l.nextSeq).eventKind ≠ kind.text :=
      fun h => hk (EventKind.text_inj.1 h)
    rw [decide_eq_false htext, if_neg hk]
    rfl

/-- **What the rows of a kind show after a call**: what its rows of the kind show is
added. -/
theorem rowsOf_appendEvents {β : Type} {view : SessionLedgerEntry → β} (shown : LedgerRow → β)
    (hview : ∀ row ∈ rows, row.kind = kind → ∀ n, view (row.entry clock n) = shown row) :
    (rowsOf kind (rows.foldl (SessionLedger.appendEvent clock) l)).map view =
      (rowsOf kind l).map view ++ (rows.filter (·.kind = kind)).map shown := by
  induction rows generalizing l with
  | nil => simp
  | cons row rows ih =>
    have hrest : ∀ row ∈ rows, row.kind = kind → ∀ n, view (row.entry clock n) = shown row :=
      fun row hrow => hview row (List.mem_cons_of_mem _ hrow)
    rw [List.foldl_cons, ih hrest, rowsOf_appendEvent, List.map_append, List.append_assoc]
    by_cases hk : row.kind = kind
    · rw [if_pos hk, List.filter_cons_of_pos (by simpa using hk), List.map_singleton,
        hview row List.mem_cons_self hk, List.map_cons]
      rfl
    · rw [if_neg hk, List.filter_cons_of_neg (by simpa using hk)]
      rfl

/-! ### The rows of a call -/

variable {ids : List PyText} {extra : PyDict}

theorem evictedRows_kind {row : LedgerRow} (h : row ∈ evictedRows ids extra) :
    row.kind = .stmEpochEvicted ∨ row.kind = .epochEvicted := by
  obtain ⟨id, -, hrow⟩ := List.mem_flatMap.1 h
  rcases List.mem_pair.1 hrow with rfl | rfl
  · exact .inl rfl
  · exact .inr rfl

theorem filter_evictedRows_nil (hkind : kind ∉ [EventKind.stmEpochEvicted, .epochEvicted]) :
    (evictedRows ids extra).filter (·.kind = kind) = [] := by
  refine List.filter_eq_nil_iff.2 fun row hrow hk => hkind ?_
  have hk' : row.kind = kind := of_decide_eq_true hk
  rw [← hk']
  exact List.mem_pair.2 (evictedRows_kind hrow)

def Plain (extra : PyDict) : Prop :=
  ∀ id : PyValue, PyValue.get? (lit "epoch_id") (entry "epoch_id" id :: extra) = some id ∧
    PyValue.get? (lit "epoch_id")
      (entry "epoch_id" id :: extra ++ [entry "source" (.str (lit "stm_window"))]) = some id

theorem plain_nil : Plain [] := fun _ => ⟨rfl, rfl⟩

theorem plain_reason (reason : PyText) : Plain [entry "reason" (.str reason)] :=
  fun _ => ⟨rfl, rfl⟩

theorem filter_evictedRows (hkind : kind ∈ [EventKind.stmEpochEvicted, .epochEvicted])
    (hextra : Plain extra) (ids : List PyText) :
    ((evictedRows ids extra).filter (·.kind = kind)).map
        (fun row => PyValue.get? (lit "epoch_id") row.metadata) =
      ids.map fun id => some (.str id) := by
  induction ids with
  | nil => rfl
  | cons id ids ih =>
    have hcons : evictedRows (id :: ids) extra = _ ++ evictedRows ids extra := List.flatMap_cons
    rw [hcons, List.filter_append, List.map_append, ih]
    rcases List.mem_pair.1 hkind with rfl | rfl
    · exact congrArg (· :: _) (hextra (.str id)).1
    · exact congrArg (· :: _) (hextra (.str id)).2

section AppendRows

variable (m : Message) (r : StmAppendResult)

theorem filter_appendRows_message :
    (appendRows m r).filter (·.kind = .messageAppended) = [messageRow m r] := by
  unfold appendRows
  rw [List.filter_append, filter_evictedRows_nil (by decide), List.append_nil]
  cases r.epochCreated <;> cases r.epochClosed <;> rfl

theorem filter_appendRows_created :
    ((appendRows m r).filter (·.kind = .epochCreated)).map (·.epochSeq) =
      if r.epochCreated then [some r.epochSeq] else [] := by
  unfold appendRows
  rw [List.filter_append, filter_evictedRows_nil (by decide), List.append_nil]
  cases r.epochCreated <;> cases r.epochClosed <;> rfl

theorem filter_appendRows_closed :
    ((appendRows m r).filter (·.kind = .epochClosed)).map (·.epochSeq) =
      if r.epochClosed then [some r.epochSeq] else [] := by
  unfold appendRows
  rw [List.filter_append, filter_evictedRows_nil (by decide), List.append_nil]
  cases r.epochCreated <;> cases r.epochClosed <;> rfl

theorem filter_appendRows_evicted (hkind : kind ∈ [EventKind.stmEpochEvicted, .epochEvicted]) :
    ((appendRows m r).filter (·.kind = kind)).map
        (fun row => PyValue.get? (lit "epoch_id") row.metadata) =
      r.evictedEpochIds.map fun id => some (.str id) := by
  unfold appendRows
  rw [List.filter_append, List.map_append, filter_evictedRows hkind plain_nil]
  rcases List.mem_pair.1 hkind with rfl | rfl <;>
    cases r.epochCreated <;> cases r.epochClosed <;> rfl

end AppendRows

theorem opened_append (roles : List PyText) (j : Journal) (m : Message) :
    (j.append roles m).opened = j.opened + if j.current = [] then 1 else 0 := by
  unfold Journal.opened Journal.append
  by_cases hm : m.role ∈ roles <;> by_cases hc : j.current = [] <;> simp [hm, hc]

/-- **The rows of `append` are the message and what it opens, closes and evicts.** -/
theorem ledgerAgrees_append (clock : ℤ → PyText) (h : LedgerAgrees c j l) {gone : List StmEpoch}
    (hgone : (j.append c.closeRoles m).evicted c = j.evicted c ++ gone) :
    LedgerAgrees c (j.append c.closeRoles m)
      ((appendRows m ⟨epochIdOf (j.closed.length + 1), j.closed.length + 1,
        decide (m.role ∈ c.closeRoles), decide (j.current = []),
        gone.map (·.epochId)⟩).foldl (SessionLedger.appendEvent clock) l) := by
  refine ⟨contiguous_appendEvents h.contiguous _, ?_, ?_, ?_, ?_⟩
  · rw [rowsOf_appendEvents (fun row => (row.epochSeq, row.role, row.content, m.ts)),
      filter_appendRows_message, h.messages, Journal.numbered_append, List.map_append]
    · rfl
    · intro row hmem hkind n
      have hin := List.mem_filter (p := fun row => decide (row.kind = .messageAppended)).2
        ⟨hmem, decide_eq_true hkind⟩
      rw [filter_appendRows_message, List.mem_singleton] at hin
      rw [hin]
      rfl
  · rw [rowsOf_appendEvents (·.epochSeq) (fun _ _ _ _ => rfl),
      filter_appendRows_created, h.created, opened_append]
    by_cases hc : j.current = []
    · have hopened : j.opened = j.closed.length := by
        unfold Journal.opened
        rw [if_pos hc, Nat.add_zero]
      rw [if_pos hc, upTo_succ, hopened]
      simp [hc]
    · simp [hc]
  · rw [rowsOf_appendEvents (·.epochSeq) (fun _ _ _ _ => rfl),
      filter_appendRows_closed, h.closed]
    by_cases hm : m.role ∈ c.closeRoles
    · rw [append_of_closing hm]
      simp [hm, Journal.endTurn, upTo_succ]
    · rw [append_of_open hm]
      simp [hm]
  · intro kind hkind
    rw [rowsOf_appendEvents (fun row => PyValue.get? (lit "epoch_id") row.metadata)
        (fun _ _ _ _ => rfl),
      filter_appendRows_evicted m _ hkind, h.evicted kind hkind, hgone, List.map_append,
      List.map_map]
    rfl

/-- **The rows of `close_epoch` are what it closes and evicts.** -/
theorem ledgerAgrees_close (clock : ℤ → PyText) (h : LedgerAgrees c j l) (reason : PyText)
    {gone : List StmEpoch}
    (hgone : (j.close reason).evicted c = j.evicted c ++ gone) :
    LedgerAgrees c (j.close reason)
      ((closeRows reason (if j.current = [] then none
        else some (Turn.epoch (j.closed.length + 1) ⟨j.current, reason⟩))
        (gone.map (·.epochId))).foldl (SessionLedger.appendEvent clock) l) := by
  -- the other kinds have no row
  have hnil : ∀ kind ∉ [EventKind.stmEpochEvicted, .epochEvicted, .epochClosed],
      (closeRows reason (if j.current = [] then none
        else some (Turn.epoch (j.closed.length + 1) ⟨j.current, reason⟩))
        (gone.map (·.epochId))).filter (·.kind = kind) = [] := by
    intro kind hkind
    unfold closeRows
    rw [List.filter_append, filter_evictedRows_nil (by simp_all), List.append_nil]
    by_cases hc : j.current = []
    · rw [if_pos hc]
      rfl
    · rw [if_neg hc]
      exact List.filter_cons_of_neg (by simp_all [eq_comm])
  refine ⟨contiguous_appendEvents h.contiguous _, ?_, ?_, ?_, ?_⟩
  · rw [rowsOf_appendEvents (fun _ => (none, none, none, [])),
      hnil _ (by decide), h.messages, Journal.numbered_close]
    · exact List.append_nil _
    · intro row hmem hkind
      have hin := List.mem_filter (p := fun row => decide (row.kind = .messageAppended)).2
        ⟨hmem, decide_eq_true hkind⟩
      rw [hnil _ (by decide)] at hin
      cases hin
  · rw [rowsOf_appendEvents (·.epochSeq) (fun _ _ _ _ => rfl),
      hnil _ (by decide), h.created]
    unfold Journal.opened Journal.close
    by_cases hc : j.current = [] <;> simp [hc]
  · rw [rowsOf_appendEvents (·.epochSeq) (fun _ _ _ _ => rfl), h.closed]
    unfold closeRows Journal.close
    rw [List.filter_append, filter_evictedRows_nil (by decide), List.append_nil]
    by_cases hc : j.current = []
    · simp [hc]
    · simp [hc, upTo_succ, Turn.epoch, epochOf]
  · intro kind hkind
    rw [rowsOf_appendEvents (fun row => PyValue.get? (lit "epoch_id") row.metadata)
        (fun _ _ _ _ => rfl), h.evicted kind hkind, hgone, List.map_append]
    unfold closeRows
    rw [List.filter_append, List.map_append, filter_evictedRows hkind (plain_reason reason),
      List.map_map]
    by_cases hc : j.current = []
    · rw [if_pos hc]
      rfl
    · rw [if_neg hc]
      rcases List.mem_pair.1 hkind with rfl | rfl <;> rfl

end Ledger

def TextFrames (e : StmEpoch) : Prop := ∃ ms : List Message, e.messages = ms.map Message.frame

section RoundTrip

theorem mapM_ok {α β : Type} {f : α → Py β} {g : β → α} {xs : List β}
    (h : ∀ x ∈ xs, f (g x) = .ok x) : (xs.map g).mapM f = .ok xs := by
  induction xs with
  | nil => rfl
  | cons x xs ih =>
    rw [List.map_cons, List.mapM_cons, h x List.mem_cons_self,
      ih fun y hy => h y (List.mem_cons_of_mem _ hy)]
    rfl

theorem filter_isDict {α : Type} {g : α → PyValue} (hg : ∀ x, Py.isDict (g x) = true)
    (xs : List α) : (xs.map g).filter Py.isDict = xs.map g := by
  refine List.filter_eq_self.2 fun v hv => ?_
  obtain ⟨x, -, rfl⟩ := List.mem_map.1 hv
  exact hg x

theorem optional_optText (o : Option PyText) :
    Py.optional (fun v => .ok (Py.str b v)) (optText o) = .ok o := by
  cases o <;> rfl

-- a float is converted to itself
variable (hfloat : ∀ r, b.float (.float r) = .ok r)
include hfloat

theorem optional_optFloat (o : Option PyText) : Py.optional b.float (optFloat o) = .ok o := by
  cases o with
  | none => rfl
  | some r =>
    simp only [optFloat, Py.optional, hfloat]
    rfl

theorem messageFrom_toDict (m : Message) :
    StmEpoch.messageFrom b m.frame.toDict = .ok m.frame := by
  have hts : Py.get m.frame.toDict "ts" (.float b.now) = .ok (.float m.ts) := rfl
  unfold StmEpoch.messageFrom
  rw [hts]
  simp only [bind, Except.bind, hfloat]
  rfl

theorem epoch_fromDict_toDict {e : StmEpoch} (he : TextFrames e) :
    StmEpoch.fromDict b e.toDict = .ok e := by
  obtain ⟨ms, hms⟩ := he
  have hseq : Py.get e.toDict "epoch_seq" (.int 0) = .ok (.int e.epochSeq) := rfl
  have hopened : Py.get e.toDict "opened_at" (.float b.now) = .ok (.float e.openedAt) := rfl
  have hclosed : Py.get e.toDict "closed_at" .none = .ok (optFloat e.closedAt) := rfl
  have hreason : Py.get e.toDict "close_reason" .none = .ok (optText e.closeReason) := rfl
  have hmessages : Py.get e.toDict "messages" (.list []) =
      .ok (.list (e.messages.map MemoryFrame.toDict)) := rfl
  have hframes : (e.messages.map MemoryFrame.toDict).mapM (StmEpoch.messageFrom b) =
      .ok e.messages := by
    refine mapM_ok fun frame hframe => ?_
    rw [hms] at hframe
    obtain ⟨m, -, rfl⟩ := List.mem_map.1 hframe
    exact messageFrom_toDict hfloat m
  unfold StmEpoch.fromDict
  rw [hseq, hopened, hclosed, hreason, hmessages]
  simp only [bind, Except.bind, Py.int, hfloat, optional_optFloat hfloat, optional_optText,
    Py.items, filter_isDict (g := MemoryFrame.toDict) (fun _ => rfl), hframes]
  rfl

/-- **The short-term memory is read back as it was written.** -/
theorem stm_fromDict_toDict {s : StmStore} (hmax : 1 ≤ s.maxEpochs) (hroles : s.closeRoles ≠ [])
    (hnext : 1 ≤ s.nextEpochSeq) (hlen : (s.epochs.length : ℤ) ≤ s.maxEpochs)
    (hframes : ∀ e ∈ s.epochs ++ s.openEpoch.toList, TextFrames e) :
    StmStore.fromDict b s.toDict = .ok s := by
  have hcloseRoles : Py.get s.toDict "close_roles" (.list [.str (lit "assistant")]) =
      .ok (.list (s.closeRoles.map .str)) := rfl
  have hmaxEpochs : Py.get s.toDict "max_epochs" (.int 6) = .ok (.int s.maxEpochs) := rfl
  have hseq : Py.get s.toDict "next_epoch_seq" (.int 1) = .ok (.int s.nextEpochSeq) := rfl
  have hepochs : Py.get s.toDict "epochs" (.list []) =
      .ok (.list (s.epochs.map StmEpoch.toDict)) := rfl
  have hclosed : (s.epochs.map StmEpoch.toDict).mapM (StmEpoch.fromDict b) = .ok s.epochs :=
    mapM_ok fun e he => epoch_fromDict_toDict hfloat (hframes e (List.mem_append_left _ he))
  have hrolesFrom : StmStore.rolesFrom (s.closeRoles.map .str) = s.closeRoles := by
    have hmap : (s.closeRoles.map PyValue.str).filterMap PyValue.asStr? = s.closeRoles := by
      rw [List.filterMap_map]
      exact List.filterMap_some
    unfold StmStore.rolesFrom
    rw [hmap]
    cases hs : s.closeRoles with
    | nil => exact absurd hs hroles
    | cons role roles => rfl
  -- the window is not over its maximum, and nothing is evicted from it
  have hevict : s.evict = s := by
    have hzero : s.epochs.length - s.maxEpochs.toNat = 0 := by omega
    unfold StmStore.evict
    rw [hzero, List.drop_zero]
  unfold StmStore.fromDict
  rw [hcloseRoles, hmaxEpochs, hseq, hepochs]
  simp only [bind, Except.bind, Py.int, Py.items,
    filter_isDict (g := StmEpoch.toDict) (fun _ => rfl), hclosed, hrolesFrom,
    Int.max_eq_right hmax, Int.max_eq_right hnext]
  cases hopen : s.openEpoch with
  | none =>
    have hraw : Py.get s.toDict "open_epoch" .none = .ok .none := by
      unfold StmStore.toDict
      rw [hopen]
      rfl
    rw [hraw]
    simp only [Py.isDict, Bool.false_eq_true, if_false]
    rw [← hopen]
    exact congrArg Except.ok hevict
  | some e =>
    have hraw : Py.get s.toDict "open_epoch" .none = .ok e.toDict := by
      unfold StmStore.toDict
      rw [hopen]
      rfl
    have hback := epoch_fromDict_toDict hfloat
      (hframes e (List.mem_append_right _ (by rw [hopen]; exact List.mem_singleton_self e)))
    have hdict : Py.isDict e.toDict = true := rfl
    rw [hraw]
    simp only [hdict, if_true, hback, Except.map]
    rw [← hopen]
    exact congrArg Except.ok hevict

end RoundTrip

namespace Journal

theorem everClosed_seqs : ∀ turns : List Turn,
    (Journal.everClosed ⟨turns, []⟩).map (·.epochSeq) =
      (List.range turns.length).map fun i : ℕ => (i : ℤ) + 1 := by
  intro turns
  induction turns using List.reverseRecOn with
  | nil => rfl
  | append_singleton turns t ih =>
    have hend : (⟨turns ++ [t], []⟩ : Journal) = Journal.endTurn ⟨turns, []⟩ t := rfl
    rw [hend, everClosed_endTurn, List.map_append, ih, List.length_append, List.length_singleton,
      List.range_succ, List.map_append]
    rfl

theorem epochs_seqs (j : Journal) :
    (j.everClosed ++ j.openEpoch.toList).map (·.epochSeq) =
      (List.range j.opened).map fun i : ℕ => (i : ℤ) + 1 := by
  have hclosed := everClosed_seqs j.closed
  have hsame : Journal.everClosed ⟨j.closed, []⟩ = j.everClosed := rfl
  rw [hsame] at hclosed
  rw [List.map_append, hclosed]
  unfold opened openEpoch
  by_cases hc : j.current = []
  · rw [if_pos hc, if_pos hc]
    exact List.append_nil _
  · rw [if_neg hc, if_neg hc, List.range_succ, List.map_append]
    rfl

theorem epochs_consecutive (j : Journal) :
    (j.everClosed ++ j.openEpoch.toList).IsChain (fun e e' => e'.epochSeq = e.epochSeq + 1) := by
  have hchain : ((j.everClosed ++ j.openEpoch.toList).map (·.epochSeq)).IsChain
      (fun n n' => n' = n + 1) := by
    rw [epochs_seqs, List.isChain_map, List.isChain_range]
    intro n _
    push_cast
    rfl
  exact (List.isChain_map _).1 hchain

theorem epochs_textFrames (j : Journal) :
    ∀ e ∈ j.everClosed ++ j.openEpoch.toList, TextFrames e := by
  intro e he
  rcases List.mem_append.1 he with hclosed | hopen
  · obtain ⟨i, hi, rfl⟩ := List.mem_mapIdx.1 hclosed
    exact ⟨_, rfl⟩
  · rw [Option.mem_toList] at hopen
    unfold openEpoch at hopen
    split at hopen
    · cases hopen
    · cases hopen
      exact ⟨_, rfl⟩

/-- The messages of turns, with the numbers after `k`. -/
def numberedFrom (k : ℕ) (turns : List Turn) : List (ℤ × Message) :=
  (turns.mapIdx fun i t => t.messages.map fun m => (((i + k : ℕ) : ℤ) + 1, m)).flatten

theorem mem_numberedFrom {k : ℕ} {turns : List Turn} {p : ℤ × Message}
    (h : p ∈ numberedFrom k turns) : (k : ℤ) < p.1 ∧ p.1 ≤ k + turns.length := by
  obtain ⟨ps, hps, hp⟩ := List.mem_flatten.1 h
  obtain ⟨i, hi, rfl⟩ := List.mem_mapIdx.1 hps
  obtain ⟨m, -, rfl⟩ := List.mem_map.1 hp
  simp only
  omega

theorem numberedFrom_frames (k : ℕ) (turns : List Turn) :
    (numberedFrom k turns).map (fun p => p.2.frame) =
      turns.flatMap fun t => t.messages.map Message.frame := by
  induction turns using List.reverseRecOn with
  | nil => rfl
  | append_singleton turns t ih =>
    unfold numberedFrom at ih ⊢
    rw [List.mapIdx_concat, List.flatten_append, List.map_append, ih, List.flatMap_append]
    simp

theorem everClosed_frames (j : Journal) (n : ℕ) :
    (j.everClosed.drop n).flatMap (·.messages) =
      (j.closed.drop n).flatMap fun t => t.messages.map Message.frame := by
  have hmap : j.everClosed.map (·.messages) =
      j.closed.map fun t => t.messages.map Message.frame := by
    refine List.ext_getElem (by simp [everClosed]) fun i _ _ => ?_
    simp [everClosed, Turn.epoch, epochOf]
  rw [List.flatMap_def, List.flatMap_def, List.map_drop, List.map_drop, hmap]

/-- **The messages of the first turns, and those of the others.** -/
theorem numbered_split (j : Journal) {n : ℕ} (hn : n ≤ j.closed.length) :
    ∃ gone kept, j.numbered = gone ++ kept ∧
      (∀ p ∈ gone, p.1 ≤ (n : ℤ)) ∧ (∀ p ∈ kept, (n : ℤ) < p.1) ∧
      kept.map (fun p => p.2.frame) =
        (j.everClosed.drop n ++ j.openEpoch.toList).flatMap (·.messages) := by
  refine ⟨numberedFrom 0 (j.closed.take n), numberedFrom n (j.closed.drop n) ++
    j.current.map (fun m => ((j.closed.length : ℤ) + 1, m)), ?_, ?_, ?_, ?_⟩
  · unfold numbered numberedFrom
    nth_rewrite 1 [← List.take_append_drop n j.closed]
    rw [List.mapIdx_append, List.flatten_append, List.append_assoc, List.length_take,
      Nat.min_eq_left hn]
    rfl
  · intro p hp
    have := (mem_numberedFrom hp).2
    rw [List.length_take] at this
    omega
  · intro p hp
    rcases List.mem_append.1 hp with hclosed | hopen
    · exact (mem_numberedFrom hclosed).1
    · obtain ⟨m, -, rfl⟩ := List.mem_map.1 hopen
      simp only
      omega
  · rw [List.map_append, numberedFrom_frames, List.flatMap_append, everClosed_frames, List.map_map]
    congr 1
    unfold openEpoch
    by_cases hc : j.current = []
    · rw [if_pos hc, hc]
      rfl
    · rw [if_neg hc]
      simp [epochOf]

end Journal

def memoryRun (clock : ℤ → PyText) (c : StmConfig) (calls : List MemoryCall) : MemoryStore :=
  Machine.run (memoryStep clock) c.newMemory calls

def journalOf (c : StmConfig) (calls : List MemoryCall) : Journal :=
  Machine.run (Journal.step c.closeRoles) {} calls

def appended (calls : List MemoryCall) : List Message :=
  calls.filterMap fun
    | .append m => some m
    | .closeEpoch _ => none

def rowFrame (e : SessionLedgerEntry) : MemoryFrame :=
  ⟨optText e.role, optText e.content, .float e.ts⟩

theorem rowFrames_of_numbered {rows : List SessionLedgerEntry} {ps : List (ℤ × Message)}
    (h : rows.map numberedRow = ps.map numberedMessage) :
    rows.map rowFrame = ps.map fun p => p.2.frame := by
  have hframe := congrArg (List.map fun q : Option ℤ × Option PyText × Option PyText × PyText =>
    (⟨optText q.2.1, optText q.2.2.1, .float q.2.2.2⟩ : MemoryFrame)) h
  rw [List.map_map, List.map_map] at hframe
  exact hframe

theorem epochSeq_of_numbered {rows : List SessionLedgerEntry} {ps : List (ℤ × Message)}
    (h : rows.map numberedRow = ps.map numberedMessage) {row : SessionLedgerEntry}
    (hrow : row ∈ rows) : ∃ p ∈ ps, row.epochSeq = some p.1 := by
  have hmem : numberedRow row ∈ ps.map numberedMessage := h ▸ List.mem_map_of_mem hrow
  obtain ⟨p, hp, heq⟩ := List.mem_map.1 hmem
  exact ⟨p, hp, congrArg Prod.fst heq.symm⟩

/-- **A call keeps both stores in agreement with the journal.** -/
theorem agrees_step {s : MemoryStore} (hstm : StmAgrees c j s.stm) (hmtm : LedgerAgrees c j s.mtm)
    (call : MemoryCall) :
    StmAgrees c (j.step c.closeRoles call) (memoryStep clock s call).stm ∧
      LedgerAgrees c (j.step c.closeRoles call) (memoryStep clock s call).mtm := by
  cases call with
  | append m =>
    obtain ⟨hagrees, gone, hgone, hresult⟩ := stmAgrees_append hstm m
    refine ⟨hagrees, ?_⟩
    have hledger := ledgerAgrees_append clock hmtm hgone
    rw [← hresult] at hledger
    exact hledger
  | closeEpoch reason =>
    obtain ⟨hagrees, gone, hgone, hids, hclosed⟩ := stmAgrees_close hstm reason
    refine ⟨hagrees, ?_⟩
    have hledger := ledgerAgrees_close clock hmtm reason hgone
    rw [← hids, ← hclosed] at hledger
    exact hledger

theorem agrees_run (clock : ℤ → PyText) (c : StmConfig) (calls : List MemoryCall) :
    StmAgrees c (journalOf c calls) (memoryRun clock c calls).stm ∧
      LedgerAgrees c (journalOf c calls) (memoryRun clock c calls).mtm := by
  induction calls using List.reverseRecOn with
  | nil =>
    refine ⟨⟨rfl, rfl, (List.rtake_nil _).symm, rfl, rfl⟩, ⟨⟨rfl, rfl⟩, rfl, rfl, rfl, ?_⟩⟩
    intro kind _
    have hnone : (journalOf c []).evicted c = [] := List.take_nil
    rw [hnone]
    rfl
  | append_singleton calls call ih =>
    unfold journalOf memoryRun at ih ⊢
    rw [Machine.run_concat, Machine.run_concat]
    exact agrees_step ih.1 ih.2 call

theorem journalOf_messages (c : StmConfig) (calls : List MemoryCall) :
    (journalOf c calls).numbered.map Prod.snd = appended calls := by
  induction calls using List.reverseRecOn with
  | nil => rfl
  | append_singleton calls call ih =>
    unfold journalOf at ih ⊢
    rw [Machine.run_concat]
    unfold appended at ih ⊢
    rw [List.filterMap_append, ← ih]
    cases call with
    | append m =>
      simp only [Journal.step]
      rw [Journal.numbered_append, List.map_append]
      rfl
    | closeEpoch reason =>
      simp only [Journal.step]
      rw [Journal.numbered_close]
      exact (List.append_nil _).symm

def evictedCount (c : StmConfig) (calls : List MemoryCall) (s : MemoryStore) : ℕ :=
  (journalOf c calls).closed.length - s.stm.epochs.length

structure MemoriesAgree (b : PyBuiltins) (c : StmConfig) (calls : List MemoryCall)
    (s : MemoryStore) : Prop where
  /-- the window is bounded -/
  bounded : (s.stm.epochs.length : ℤ) ≤ c.maxEpochs
  /-- it holds the last of the epochs ever closed, and the open one -/
  suffix : s.stm.epochs <:+ (journalOf c calls).everClosed
  openEpoch : s.stm.openEpoch = (journalOf c calls).openEpoch
  consecutive : (s.stm.epochs ++ s.stm.openEpoch.toList).IsChain
    (fun e e' => e'.epochSeq = e.epochSeq + 1)
  /-- every message has one row, in order -/
  rows : (rowsOf .messageAppended s.mtm).map rowFrame = (appended calls).map Message.frame
  /-- the frames are those of the rows of the epochs that were not evicted -/
  frames : ∃ gone kept, rowsOf .messageAppended s.mtm = gone ++ kept ∧
    (∀ row ∈ gone, ∃ n ≤ (evictedCount c calls s : ℤ), row.epochSeq = some n) ∧
    (∀ row ∈ kept, ∃ n > (evictedCount c calls s : ℤ), row.epochSeq = some n) ∧
    kept.map rowFrame = s.stm.activePromptFrames
  contiguous : Contiguous s.mtm
  /-- every epoch that was opened, closed or evicted has its row -/
  created : (rowsOf .epochCreated s.mtm).map (·.epochSeq) = upTo (journalOf c calls).opened
  closed : (rowsOf .epochClosed s.mtm).map (·.epochSeq) = upTo (journalOf c calls).closed.length
  evicted : ∀ kind ∈ [EventKind.stmEpochEvicted, .epochEvicted],
    (rowsOf kind s.mtm).map evictedId = ((journalOf c calls).everClosed.take
      (evictedCount c calls s)).map fun e => some (.str e.epochId)
  roundTrip : StmStore.fromDict b s.stm.toDict = .ok s.stm

/-- **Short- and mid-term memory agree after every run.** -/
theorem memories_agree (clock : ℤ → PyText) (c : StmConfig) (calls : List MemoryCall)
    (hfloat : ∀ r, b.float (.float r) = .ok r) :
    MemoriesAgree b c calls (memoryRun clock c calls) := by
  obtain ⟨hstm, hmtm⟩ := agrees_run clock c calls
  generalize memoryRun clock c calls = s at hstm hmtm ⊢
  have hone := c.one_le
  have hlen : s.stm.epochs.length =
      min c.maxEpochs.toNat (journalOf c calls).closed.length := by
    rw [hstm.epochs, List.length_rtake, Journal.everClosed_length]
  have hcount : evictedCount c calls s =
      (journalOf c calls).everClosed.length - c.maxEpochs.toNat := by
    unfold evictedCount
    rw [hlen, Journal.everClosed_length]
    omega
  have hepochs : s.stm.epochs = (journalOf c calls).everClosed.drop (evictedCount c calls s) := by
    rw [hcount, hstm.epochs]
    rfl
  have hwindow : s.stm.epochs ++ s.stm.openEpoch.toList <:+
      (journalOf c calls).everClosed ++ (journalOf c calls).openEpoch.toList := by
    refine ⟨(journalOf c calls).everClosed.take (evictedCount c calls s), ?_⟩
    rw [hstm.openEpoch, hepochs, ← List.append_assoc, List.take_append_drop]
  -- the messages are split at the turns that have left the window, and the rows with them
  obtain ⟨goneMessages, keptMessages, hsplit, hgone, hkept, hframes⟩ :=
    (journalOf c calls).numbered_split (n := evictedCount c calls s) (Nat.sub_le _ _)
  have hmessages := hmtm.messages
  rw [hsplit, List.map_append] at hmessages
  obtain ⟨gone, kept, hrows, hgoneRows, hkeptRows⟩ := List.map_eq_append_iff.1 hmessages
  constructor
  case bounded => omega
  case suffix =>
    rw [hstm.epochs]
    exact List.rtake_suffix _ _
  case openEpoch => exact hstm.openEpoch
  case consecutive => exact (journalOf c calls).epochs_consecutive.suffix hwindow
  case rows =>
    rw [rowFrames_of_numbered hmtm.messages, ← journalOf_messages, List.map_map]
    rfl
  case frames =>
    refine ⟨gone, kept, hrows, ?_, ?_, ?_⟩
    · intro row hrow
      obtain ⟨p, hp, hseq⟩ := epochSeq_of_numbered hgoneRows hrow
      exact ⟨p.1, hgone p hp, hseq⟩
    · intro row hrow
      obtain ⟨p, hp, hseq⟩ := epochSeq_of_numbered hkeptRows hrow
      exact ⟨p.1, hkept p hp, hseq⟩
    · rw [rowFrames_of_numbered hkeptRows, hframes, ← hepochs, ← hstm.openEpoch]
      rfl
  case contiguous => exact hmtm.contiguous
  case created => exact hmtm.created
  case closed => exact hmtm.closed
  case evicted =>
    intro kind hkind
    rw [hmtm.evicted kind hkind, hcount]
    rfl
  case roundTrip =>
    refine stm_fromDict_toDict hfloat ?_ ?_ ?_ ?_ ?_
    · rw [hstm.maxEpochs]
      exact hone
    · rw [hstm.closeRoles]
      exact c.roles_ne
    · rw [hstm.nextEpochSeq]
      omega
    · rw [hstm.maxEpochs]
      omega
    · intro e he
      exact (journalOf c calls).epochs_textFrames e (hwindow.subset he)

def oneTurn : List MemoryCall :=
  [.append ⟨lit "user", lit "u0", lit "1.0"⟩, .append ⟨lit "assistant", lit "a0", lit "2.0"⟩,
    .closeEpoch (lit "session_boundary")]

theorem oneTurn_agrees :
    (memoryRun (fun _ => lit "3.0") .default oneTurn).stm.epochs.length = 1 ∧
      MemoriesAgree plainBuiltins .default oneTurn
        (memoryRun (fun _ => lit "3.0") .default oneTurn) :=
  ⟨rfl, memories_agree _ _ _ fun _ => rfl⟩

end ClawHarder.RuntimeCore
