import ClawHarder.Lib.Run
import ClawHarder.Spec.Intents

/-!
# Intents wait until they are dispatched

The queue keeps the 128 newest intents, whatever their status: an ingestion removes the
oldest ones, also those that nobody has dispatched.

* `dispatched_once`: no intent is executed twice.
* `kept_iff`: **throughout a run, every intent can be dispatched until it is, and none is
  executed twice, exactly when no ingestion prunes an intent that is still queued.**
-/

namespace ClawHarder.Intents

open Machine
open PyText (lit)
open ClawHarder.Entrances (Intent IntentStatus)

variable {ids : IntentIds} {s : IntentQueue} {id : PyText} {n : ℕ}

theorem get?_foldl_erase (keys : List PyText) (m : OrderedMap PyText Intent) :
    (keys.foldl OrderedMap.erase m).get? id = if id ∈ keys then none else m.get? id := by
  induction keys generalizing m with
  | nil => rfl
  | cons k keys ih =>
    rw [List.foldl_cons, ih, OrderedMap.get?_erase]
    by_cases hkeys : id ∈ keys
    · rw [if_pos hkeys, if_pos (List.mem_cons_of_mem k hkeys)]
    · rw [if_neg hkeys]
      by_cases hk : id = k
      · rw [if_pos hk, if_pos (List.mem_cons.2 (.inl hk))]
      · rw [if_neg hk, if_neg fun h => (List.mem_cons.1 h).elim hk hkeys]

theorem get?_prune : (pruneInputIntents s).pending.get? id =
    if id ∈ stale s.order then none else s.pending.get? id :=
  get?_foldl_erase (stale s.order) s.pending

theorem prune_order : (pruneInputIntents s).order =
    s.order.drop (s.order.length - maxInputIntents) := rfl

theorem mem_prune_order (h : s.order.Nodup) :
    id ∈ (pruneInputIntents s).order ↔ id ∈ s.order ∧ id ∉ stale s.order := by
  rw [prune_order]
  unfold stale
  rw [← List.take_append_drop (s.order.length - maxInputIntents) s.order, List.nodup_append'] at h
  obtain ⟨-, -, hdisjoint⟩ := h
  constructor
  · intro hid
    exact ⟨List.mem_of_mem_drop hid, fun hstale => hdisjoint hstale hid⟩
  · rintro ⟨hid, hstale⟩
    rw [← List.take_append_drop (s.order.length - maxInputIntents) s.order] at hid
    exact (List.mem_append.1 hid).resolve_left hstale

theorem not_stale_new {order : List PyText} (h : id ∉ order) : id ∉ stale (order ++ [id]) := by
  intro hmem
  unfold stale at hmem
  have hlen : (order ++ [id]).length - maxInputIntents ≤ order.length := by
    rw [List.length_append, List.length_singleton]
    unfold maxInputIntents
    omega
  rw [List.take_append_of_le_length hlen] at hmem
  exact h (List.mem_of_mem_take hmem)

/-- The intents that are kept are those of the order, and an intent is queued until it is
executed. -/
structure Orderly (ids : IntentIds) (s : IntentQueue) : Prop where
  order_nodup : s.order.Nodup
  order_drawn : ∀ id ∈ s.order, ∃ n < s.drawn, id = ids.idOf n
  kept : ∀ id, id ∈ s.order ↔ ∃ intent, s.pending.get? id = some intent
  executed_drawn : ∀ id ∈ s.executed, ∃ n < s.drawn, id = ids.idOf n
  once : s.executed.Nodup
  queued : ∀ id intent, s.pending.get? id = some intent →
    (intent.status = .queued ↔ id ∉ s.executed)
  inFlight : ∀ id ∈ s.inFlight, id ∈ s.executed

theorem Orderly.fresh (h : Orderly ids s) :
    ids.idOf s.drawn ∉ s.order ∧ ids.idOf s.drawn ∉ s.executed := by
  refine ⟨fun hmem => ?_, fun hmem => ?_⟩
  · obtain ⟨n, hn, hid⟩ := h.order_drawn _ hmem
    exact absurd (ids.injective hid) (by omega)
  · obtain ⟨n, hn, hid⟩ := h.executed_drawn _ hmem
    exact absurd (ids.injective hid) (by omega)

def enqueue (ids : IntentIds) (s : IntentQueue) (message : PyText) : IntentQueue :=
  { s with
    drawn := s.drawn + 1
    pending := s.pending.set (ids.idOf s.drawn) { message, status := .queued }
    order := s.order ++ [ids.idOf s.drawn] }

theorem ingestInput_eq {message : PyText} (h : PyText.strip message ≠ []) :
    ingestInput ids s message = pruneInputIntents (enqueue ids s (PyText.strip message)) :=
  if_neg h

theorem orderly_enqueue (h : Orderly ids s) (message : PyText) :
    Orderly ids (enqueue ids s message) := by
  obtain ⟨hnew, hnot⟩ := h.fresh
  refine ⟨?_, ?_, ?_, ?_, h.once, ?_, h.inFlight⟩
  · exact List.nodup_append'.2 ⟨h.order_nodup, List.nodup_singleton _,
      List.disjoint_singleton.2 hnew⟩
  · intro id hid
    rcases List.mem_append.1 hid with hid | hid
    · obtain ⟨n, hn, rfl⟩ := h.order_drawn id hid
      exact ⟨n, Nat.lt_succ_of_lt hn, rfl⟩
    · exact ⟨s.drawn, Nat.lt_succ_self _, List.mem_singleton.1 hid⟩
  · intro id
    unfold enqueue
    simp only [List.mem_append, List.mem_singleton, OrderedMap.get?_set]
    by_cases hid : id = ids.idOf s.drawn
    · simp [hid]
    · simp [hid, h.kept id]
  · intro id hid
    obtain ⟨n, hn, rfl⟩ := h.executed_drawn id hid
    exact ⟨n, Nat.lt_succ_of_lt hn, rfl⟩
  · intro id intent hget
    unfold enqueue at hget
    simp only [OrderedMap.get?_set] at hget
    split_ifs at hget with hid
    · cases hget
      rw [hid]
      exact iff_of_true rfl hnot
    · exact h.queued id intent hget

theorem orderly_prune (h : Orderly ids s) : Orderly ids (pruneInputIntents s) := by
  refine ⟨?_, ?_, ?_, h.executed_drawn, h.once, ?_, h.inFlight⟩
  · rw [prune_order]
    exact h.order_nodup.sublist (List.drop_sublist _ _)
  · intro id hid
    exact h.order_drawn id ((mem_prune_order h.order_nodup).1 hid).1
  · intro id
    rw [mem_prune_order h.order_nodup, get?_prune, h.kept id]
    by_cases hstale : id ∈ stale s.order
    · simp [hstale]
    · simp [hstale]
  · intro id intent hget
    rw [get?_prune] at hget
    split_ifs at hget
    exact h.queued id intent hget

/-- An intent that is kept changes its status for one that is not queued, when it is
executed. -/
theorem orderly_set (h : Orderly ids s) {intent new : Intent} {inFlight executed : List PyText}
    (hget : s.pending.get? id = some intent) (hnew : new.status ≠ .queued)
    (hexecuted : ∀ id', id' ∈ executed ↔ id' ∈ s.executed ∨ id' = id) (honce : executed.Nodup)
    (hflight : ∀ id ∈ inFlight, id ∈ executed) :
    Orderly ids { s with pending := s.pending.set id new, inFlight, executed } := by
  have hid : id ∈ s.order := (h.kept id).2 ⟨intent, hget⟩
  refine ⟨h.order_nodup, h.order_drawn, ?_, ?_, honce, ?_, hflight⟩
  · intro id'
    simp only [OrderedMap.get?_set]
    split_ifs with heq
    · rw [heq]
      exact iff_of_true hid ⟨new, rfl⟩
    · exact h.kept id'
  · intro id' hid'
    rcases (hexecuted id').1 hid' with hold | rfl
    · exact h.executed_drawn id' hold
    · exact h.order_drawn id' hid
  · intro id' intent' hget'
    simp only [OrderedMap.get?_set] at hget'
    rw [hexecuted]
    split_ifs at hget' with heq
    · cases hget'
      exact iff_of_false hnew fun hn => hn (.inr heq)
    · rw [h.queued id' intent' hget']
      simp [heq]

def Queued (s : IntentQueue) (id : PyText) : Prop :=
  ∃ intent, s.pending.get? id = some intent ∧ intent.status = .queued

/-- **What a dispatch can do**: it starts the turn of a queued intent, or nothing changes. -/
theorem dispatch_cases (s : IntentQueue) (intentId : PyText) :
    (∃ intent, s.pending.get? (PyText.strip intentId) = some intent ∧ intent.status = .queued ∧
      dispatchInputIntent s intentId = (.started intent.message, { s with
        pending := s.pending.set (PyText.strip intentId) { intent with status := .running }
        inFlight := s.inFlight ++ [PyText.strip intentId]
        executed := s.executed ++ [PyText.strip intentId] })) ∨
    (dispatchInputIntent s intentId).2 = s ∧
      ∀ message, (dispatchInputIntent s intentId).1 ≠ .started message := by
  unfold dispatchInputIntent
  simp only
  by_cases hempty : PyText.strip intentId = []
  · rw [if_pos hempty]
    exact .inr ⟨rfl, nofun⟩
  rw [if_neg hempty]
  cases hget : s.pending.get? (PyText.strip intentId) with
  | none => exact .inr ⟨rfl, nofun⟩
  | some intent =>
    obtain ⟨message, status, reply, error⟩ := intent
    cases status with
    | queued => exact .inl ⟨_, rfl, rfl, rfl⟩
    | running => exact .inr ⟨rfl, nofun⟩
    | completed => exact .inr ⟨rfl, nofun⟩
    | failed => exact .inr ⟨rfl, nofun⟩

theorem started_iff : (∃ message, (dispatchInputIntent s (ids.idOf n)).1 = .started message) ↔
    Queued s (ids.idOf n) := by
  have hstrip := ids.stripped n
  rcases dispatch_cases s (ids.idOf n) with ⟨intent, hget, hstatus, hrun⟩ | ⟨-, hnot⟩
  · rw [hstrip] at hget
    exact iff_of_true ⟨_, congrArg Prod.fst hrun⟩ ⟨intent, hget, hstatus⟩
  · refine iff_of_false (fun ⟨message, h⟩ => hnot message h) ?_
    rintro ⟨intent, hget, hstatus⟩
    refine hnot intent.message ?_
    unfold dispatchInputIntent
    simp only [hstrip, if_neg (ids.ne_nil n), hget, hstatus]

theorem orderly_dispatch (h : Orderly ids s) (intentId : PyText) :
    Orderly ids (dispatchInputIntent s intentId).2 := by
  rcases dispatch_cases s intentId with ⟨intent, hget, hstatus, hrun⟩ | ⟨hsame, -⟩
  · rw [hrun]
    have hnot := (h.queued _ intent hget).1 hstatus
    refine orderly_set h hget (by simp) (fun id' => ?_) ?_ ?_
    · simp
    · exact List.nodup_append'.2 ⟨h.once, List.nodup_singleton _, List.disjoint_singleton.2 hnot⟩
    · intro id hid
      rcases List.mem_append.1 hid with hid | hid
      · exact List.mem_append_left _ (h.inFlight id hid)
      · exact List.mem_append_right _ hid
  · rw [hsame]
    exact h

theorem orderly_complete (h : Orderly ids s) (id : PyText) (result : Except PyText PyText) :
    Orderly ids (completeIntent s id result) := by
  unfold completeIntent
  by_cases hflight : id ∈ s.inFlight
  · rw [if_pos hflight]
    have hlater : ∀ id' ∈ s.inFlight.erase id, id' ∈ s.executed :=
      fun id' hid' => h.inFlight id' (List.mem_of_mem_erase hid')
    have hexecuted := h.inFlight id hflight
    cases hget : s.pending.get? id with
    | none =>
      -- it was pruned while its turn went on
      exact ⟨h.order_nodup, h.order_drawn, h.kept, h.executed_drawn, h.once, h.queued, hlater⟩
    | some intent =>
      refine orderly_set h hget ?_ (fun id' => ?_) h.once hlater
      · cases result <;> simp [finish]
      · constructor
        · exact .inl
        · rintro (hid' | rfl)
          · exact hid'
          · exact hexecuted
  · rw [if_neg hflight]
    exact h

/-- **Every step keeps the queue in order.** -/
theorem orderly_step (h : Orderly ids s) (a : IntentStep) : Orderly ids (intentStep ids s a) := by
  cases a with
  | ingest message =>
    by_cases hempty : PyText.strip message = []
    · have hsame : intentStep ids s (.ingest message) = s := if_pos hempty
      rw [hsame]
      exact h
    · have hstep : intentStep ids s (.ingest message) =
          pruneInputIntents (enqueue ids s (PyText.strip message)) := ingestInput_eq hempty
      rw [hstep]
      exact orderly_prune (orderly_enqueue h _)
  | dispatch intentId => exact orderly_dispatch h intentId
  | complete id result => exact orderly_complete h id result

theorem orderly_start : Orderly ids {} := by
  refine ⟨List.nodup_nil, ?_, ?_, ?_, List.nodup_nil, ?_, ?_⟩
  · intro id hid
    cases hid
  · intro id
    exact iff_of_false (List.not_mem_nil) (fun ⟨intent, h⟩ => by cases h)
  · intro id hid
    cases hid
  · intro id intent hget
    cases hget
  · intro id hid
    cases hid

def AllWaiting (ids : IntentIds) (s : IntentQueue) : Prop :=
  ∀ n < s.drawn, ids.idOf n ∉ s.executed →
    ∃ message, (dispatchInputIntent s (ids.idOf n)).1 = .started message

def PrunesNoQueued (ids : IntentIds) (s : IntentQueue) : IntentStep → Prop
  | .ingest message => PyText.strip message ≠ [] →
      ∀ id ∈ stale (s.order ++ [ids.idOf s.drawn]), ∀ intent, s.pending.get? id = some intent →
        intent.status ≠ .queued
  | _ => True

theorem allWaiting_iff : AllWaiting ids s ↔
    ∀ n < s.drawn, ids.idOf n ∉ s.executed → Queued s (ids.idOf n) := by
  unfold AllWaiting
  simp only [started_iff]

/-- **A step keeps every intent waiting exactly when it prunes none that is queued.** -/
theorem allWaiting_step (h : Orderly ids s) (hw : AllWaiting ids s) (a : IntentStep) :
    AllWaiting ids (intentStep ids s a) ↔ PrunesNoQueued ids s a := by
  rw [allWaiting_iff] at hw ⊢
  cases a with
  | ingest message =>
    by_cases hempty : PyText.strip message = []
    · have hsame : intentStep ids s (.ingest message) = s := if_pos hempty
      rw [hsame]
      exact iff_of_true hw fun hne => absurd hempty hne
    · have hstep : intentStep ids s (.ingest message) =
          pruneInputIntents (enqueue ids s (PyText.strip message)) := ingestInput_eq hempty
      have hold : ∀ n, n < s.drawn → ids.idOf n ≠ ids.idOf s.drawn :=
        fun n hn heq => absurd (ids.injective heq) (by omega)
      rw [hstep]
      constructor
      · -- a queued intent that was pruned would have to be found
        rintro hall - id hstale intent hget hstatus
        have hnot := (h.queued id intent hget).1 hstatus
        obtain ⟨n, hn, rfl⟩ := h.order_drawn id ((h.kept id).2 ⟨intent, hget⟩)
        obtain ⟨intent', hget', -⟩ := hall n (Nat.lt_succ_of_lt hn) hnot
        have hgone : (pruneInputIntents (enqueue ids s (PyText.strip message))).pending.get?
            (ids.idOf n) = none := get?_prune.trans (if_pos hstale)
        rw [hgone] at hget'
        cases hget'
      · -- what waited before, or is new, is not pruned
        intro hprune n hn hnot
        have hqueued : Queued (enqueue ids s (PyText.strip message)) (ids.idOf n) := by
          rcases Nat.lt_succ_iff_lt_or_eq.1 hn with hlt | rfl
          · obtain ⟨intent, hget, hstatus⟩ := hw n hlt hnot
            exact ⟨intent, by rw [enqueue, OrderedMap.get?_set_ne _ _ (hold n hlt), hget], hstatus⟩
          · exact ⟨_, OrderedMap.get?_set_self _ _ _, rfl⟩
        obtain ⟨intent, hget, hstatus⟩ := hqueued
        refine ⟨intent, ?_, hstatus⟩
        rw [get?_prune, if_neg, hget]
        intro hstale
        rcases Nat.lt_succ_iff_lt_or_eq.1 hn with hlt | rfl
        · obtain ⟨intent', hget', hstatus'⟩ := hw n hlt hnot
          exact hprune hempty _ hstale intent' hget' hstatus'
        · exact not_stale_new h.fresh.1 hstale
  | dispatch intentId =>
    refine iff_of_true ?_ trivial
    rcases dispatch_cases s intentId with ⟨intent, hget, hstatus, hrun⟩ | ⟨hsame, -⟩
    · simp only [intentStep, hrun]
      intro n hn hnot
      rw [List.mem_append, List.mem_singleton, not_or] at hnot
      obtain ⟨intent', hget', hstatus'⟩ := hw n hn hnot.1
      exact ⟨intent', (OrderedMap.get?_set_ne _ _ hnot.2).trans hget', hstatus'⟩
    · simp only [intentStep, hsame]
      exact hw
  | complete id result =>
    refine iff_of_true ?_ trivial
    simp only [intentStep, completeIntent]
    by_cases hflight : id ∈ s.inFlight
    · rw [if_pos hflight]
      intro n hn hnot
      obtain ⟨intent, hget, hstatus⟩ := hw n hn hnot
      -- the turn that ends is of another intent: this one was not executed
      have hne : ids.idOf n ≠ id := by
        rintro rfl
        exact hnot (h.inFlight _ hflight)
      refine ⟨intent, ?_, hstatus⟩
      simp only
      cases s.pending.get? id with
      | none => exact hget
      | some intent' => exact (OrderedMap.get?_set_ne _ _ hne).trans hget
    · rw [if_neg hflight]
      exact hw

/-- **Intents are kept until they are dispatched, throughout a run, exactly when no
ingestion prunes one that is queued**; and none is executed twice. -/
theorem kept_iff (ids : IntentIds) (steps : List IntentStep) :
    Always (intentStep ids) (fun s => AllWaiting ids s ∧ s.executed.Nodup) {} steps ↔
      Guarded (intentStep ids) (PrunesNoQueued ids) {} steps := by
  refine always_iff_guarded (I := Orderly ids) (fun s a h => orderly_step h a) ?_ orderly_start
    ⟨fun n hn => absurd hn (Nat.not_lt_zero n), List.nodup_nil⟩ steps
  intro s a h hw
  rw [and_iff_left (orderly_step h a).once]
  exact allWaiting_step h hw.1 a

def messages (n : ℕ) : List IntentStep := List.replicate n (.ingest (lit "hello"))

theorem run_messages_succ (ids : IntentIds) (n : ℕ) : run (intentStep ids) {} (messages (n + 1)) =
    pruneInputIntents (enqueue ids (run (intentStep ids) {} (messages n)) (lit "hello")) := by
  have hmessage : PyText.strip (lit "hello") ≠ [] := by decide
  unfold messages
  rw [List.replicate_succ', run_concat]
  exact ingestInput_eq hmessage

theorem run_messages (ids : IntentIds) (hn : n ≤ maxInputIntents) :
    (run (intentStep ids) {} (messages n)).drawn = n ∧
      (run (intentStep ids) {} (messages n)).executed = [] ∧
      (run (intentStep ids) {} (messages n)).order = (List.range n).map ids.idOf := by
  induction n with
  | zero => exact ⟨rfl, rfl, rfl⟩
  | succ n ih =>
    obtain ⟨hdrawn, hexecuted, horder⟩ := ih (Nat.le_of_succ_le hn)
    rw [run_messages_succ, prune_order]
    refine ⟨congrArg (· + 1) hdrawn, hexecuted, ?_⟩
    unfold enqueue
    simp only [horder, hdrawn, List.length_append, List.length_map, List.length_range,
      List.length_singleton]
    rw [Nat.sub_eq_zero_of_le hn, List.drop_zero, List.range_succ, List.map_append]
    rfl

theorem isSpace_visible {c : CodePoint} (h : 33 ≤ c.val ∧ c.val < 128) :
    PyText.isSpace c = false := by
  unfold PyText.isSpace
  simp only [Bool.or_eq_false_iff, Bool.and_eq_false_iff, decide_eq_false_iff_not]
  omega

def longerIds : IntentIds where
  idOf n := lit "intent_" ++ List.replicate n (PyText.codePoint 'a')
  injective := by
    intro m n h
    have hlen := congrArg List.length h
    simpa using hlen
  stripped n := by
    refine PyText.strip_of_no_space fun c hc => ?_
    refine isSpace_visible ?_
    rcases List.mem_append.1 hc with hc | hc
    · have hall : (lit "intent_").all (fun c => decide (33 ≤ c.val ∧ c.val < 128)) = true := rfl
      exact of_decide_eq_true (List.all_eq_true.1 hall c hc)
    · rw [List.eq_of_mem_replicate hc]
      decide
  ne_nil n := by simp [lit]

theorem first_intent_pruned :
    ¬ ∀ (ids : IntentIds) (steps : List IntentStep),
      Always (intentStep ids) (fun s => AllWaiting ids s ∧ s.executed.Nodup) {} steps := by
  intro h
  have hall := (h longerIds (messages (maxInputIntents + 1)) _ List.prefix_rfl).1
  obtain ⟨hdrawn, hexecuted, horder⟩ := run_messages longerIds le_rfl
  rw [allWaiting_iff, run_messages_succ] at hall
  obtain ⟨intent, hget, -⟩ := hall 0 (Nat.succ_pos _) (by
    show longerIds.idOf 0 ∉ (run (intentStep longerIds) {} (messages maxInputIntents)).executed
    rw [hexecuted]
    exact List.not_mem_nil)
  -- the oldest of the order is the first intent
  have hstale : longerIds.idOf 0 ∈ stale (enqueue longerIds
      (run (intentStep longerIds) {} (messages maxInputIntents)) (lit "hello")).order := by
    unfold stale enqueue
    simp only [horder, hdrawn, List.length_append, List.length_map, List.length_range,
      List.length_singleton]
    obtain ⟨k, hk⟩ : ∃ k, maxInputIntents = k + 1 := ⟨127, by rw [maxInputIntents]⟩
    rw [Nat.add_sub_cancel_left, hk, List.range_succ_eq_map, List.map_cons, List.cons_append,
      List.take_succ_cons]
    exact List.mem_cons_self
  rw [get?_prune, if_pos hstale] at hget
  cases hget

end ClawHarder.Intents
