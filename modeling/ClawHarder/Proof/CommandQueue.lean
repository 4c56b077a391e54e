import ClawHarder.Lib.Run
import ClawHarder.Proof.LaneBooks

/-!
# Command lanes

A lane starts its entries in order, within its limit, and is not left with entries and a free
slot; a waiter is not left without an active task. The code holds this against every order
of completions and resets, and not against every call from an `onWait`: a pump that a
completion or a reset has started runs without the draining flag, so a call from its
`onWait` pumps the lane again, past the entry that is held; the limit is not read again
before that entry starts; and a reset calls an `onWait` before it drains the other lanes
and notifies the waiters.

* `sound_step`: one step keeps the books where it `Fits`.
* `lanes_kept`: **so do runs**, and every state of them is `Kept`.
-/

namespace ClawHarder.CommandQueue

/-- What a pump of the lane has done, with the call stack `K` below it. -/
structure Drained (K : List Frame) (lane : String) (w : QueueState)
    (r : QueueState × Option QueueEntry) : Prop where
  booked : Booked (above lane r.2 K) r.1
  flagged : Flagged (above lane r.2 K) r.1
  busy : lane ∉ pumping (above lane r.2 K) → (r.1.state lane).Busy
  other : ∀ lane', lane' ≠ lane → r.1.state lane' = w.state lane'
  grows : (w.state lane).activeTaskIds ⊆ (r.1.state lane).activeTaskIds
  keys : r.1.keys = w.keys
  now : r.1.now = w.now
  stack : r.1.stack = w.stack
  waiters : r.1.activeTaskWaiters = w.activeTaskWaiters

section Drain

variable {K : List Frame} {w : QueueState} {lane : String}

theorem drained_pump (h : Booked K w)
    (hflag : ∀ lane', lane' ≠ lane → (w.state lane').draining = true → lane' ∈ pumping K)
    (hlane : lane ∈ w.keys) (hfree : lane ∉ pumping K) : Drained K lane w (w.pump lane) := by
  have hself : ((w.pump lane).1.state lane) = { w.state lane with
      queue := (pumpLoop w.now (w.state lane).maxConcurrent (w.state lane).queue
        (w.state lane).activeTaskIds w.nextTaskId).queue
      activeTaskIds := (pumpLoop w.now (w.state lane).maxConcurrent (w.state lane).queue
        (w.state lane).activeTaskIds w.nextTaskId).activeTaskIds
      draining := (w.state lane).draining && (w.pump lane).2.isSome } :=
    Function.update_self ..
  have hother : ∀ lane', lane' ≠ lane → (w.pump lane).1.state lane' = w.state lane' :=
    fun lane' hne => Function.update_of_ne hne _ _
  refine ⟨h.pump hlane hfree, ?_, ?_, hother, ?_, rfl, rfl, rfl, rfl⟩
  · intro lane' hdraining
    rw [mem_pumping_above]
    by_cases heq : lane' = lane
    · subst heq
      rw [hself] at hdraining
      exact Or.inl ⟨(Bool.and_eq_true _ _ ▸ hdraining).2, rfl⟩
    · rw [hother lane' heq] at hdraining
      exact Or.inr (hflag lane' heq hdraining)
  · intro hout
    have hnone : (w.pump lane).2 = none := by
      rw [← Option.not_isSome_iff_eq_none]
      exact fun hsome => hout (mem_pumping_above.2 (Or.inl ⟨hsome, rfl⟩))
    rw [hself]
    exact pumpLoop_full _ _ _ _ _ hnone
  · rw [hself]
    exact pumpLoop_grows _ _ _ _ _

theorem pump_empty (hempty : (w.state lane).queue = []) :
    w.pump lane = (w.setLane lane { w.state lane with draining := false }, none) := by
  cases hs : w.state lane with
  | mk name queue active limit draining generation =>
    rw [hs] at hempty
    obtain rfl : queue = [] := hempty
    simp [QueueState.pump, QueueState.launch, QueueState.setLane, hs, pumpLoop]

theorem mem_keys_of_queue (h : Booked K w) (hqueue : (w.state lane).queue ≠ []) :
    lane ∈ w.keys := by
  by_contra habsent
  rw [h.absent lane habsent] at hqueue
  exact hqueue rfl

/-- **What `drainLane` does**, unless it would pump a lane whose entry is still held. -/
theorem drained_drainLane (h : Booked K w) (hflag : Flagged K w)
    (hidle : lane ∈ pumping K → (w.state lane).draining = true ∨ (w.state lane).queue = []) :
    Drained K lane w (w.drainLane lane) := by
  unfold QueueState.drainLane
  split
  next hdraining =>
    have hpumped := hflag lane hdraining
    exact ⟨h, hflag, fun hout => absurd hpumped hout, fun _ _ => rfl, Finset.Subset.refl _, rfl,
      rfl, rfl, rfl⟩
  next hdraining =>
    obtain ⟨s, hs⟩ : ∃ s : LaneState, s = { w.state lane with draining := true } := ⟨_, rfl⟩
    rw [← hs]
    have hself : (w.setLane lane s).state lane = s := Function.update_self ..
    have hother : ∀ lane', lane' ≠ lane → (w.setLane lane s).state lane' = w.state lane' :=
      fun lane' hne => Function.update_of_ne hne _ _
    by_cases hempty : (w.state lane).queue = []
    · have hqueue : ((w.setLane lane s).state lane).queue = [] := by
        rw [hself, hs]
        exact hempty
      have hcleared : ((w.setLane lane s).setLane lane
          { (w.setLane lane s).state lane with draining := false }).state = w.state := by
        show Function.update (Function.update w.state lane s) lane _ = w.state
        have hback : { (w.setLane lane s).state lane with draining := false } = w.state lane := by
          rw [hself, hs, ← Bool.eq_false_of_not_eq_true hdraining]
        rw [hback, Function.update_idem, Function.update_eq_self]
      rw [pump_empty hqueue]
      refine ⟨h.congr rfl hcleared rfl rfl rfl rfl rfl, ?_, ?_, ?_, ?_, rfl, rfl, rfl, rfl⟩
      · intro lane' hflagged
        rw [hcleared] at hflagged
        exact hflag lane' hflagged
      · intro _ hqueue'
        rw [hcleared] at hqueue'
        exact absurd hempty hqueue'
      · intro lane' _
        rw [hcleared]
      · rw [hcleared]
    · have hlane := mem_keys_of_queue h hempty
      have hfree : lane ∉ pumping K := fun hmem => (hidle hmem).elim hdraining hempty
      have hmarked : Booked K (w.setLane lane s) := by
        refine h.relane hlane ?_ ?_ ?_
        · rw [hs]
          rfl
        · rw [hs]
          exact h.fresh lane
        · rw [hs]
          exact h.slot lane
      have hpumped : Drained K lane (w.setLane lane s) ((w.setLane lane s).pump lane) := by
        refine drained_pump hmarked ?_ hlane hfree
        intro lane' hne hflagged
        rw [hother lane' hne] at hflagged
        exact hflag lane' hflagged
      refine { hpumped with other := ?_, grows := ?_ }
      · intro lane' hne
        rw [hpumped.other lane' hne, hother lane' hne]
      · have hgrows := hpumped.grows
        rw [hself] at hgrows
        exact hs ▸ hgrows

/-- The pump of the lane would call an `onWait`: an entry that the free slots reach has waited
long. -/
def LaneState.Draws (s : LaneState) (now : ℤ) : Prop :=
  ∃ entry ∈ s.queue.take (s.maxConcurrent - s.activeTaskIds.card), entry.callsBack now = true

theorem draws_of_drainLane (h : Booked K w) {entry : QueueEntry}
    (hheld : (w.drainLane lane).2 = some entry) : (w.state lane).Draws w.now := by
  unfold QueueState.drainLane at hheld
  split at hheld
  · simp at hheld
  · obtain ⟨s, hs⟩ : ∃ s : LaneState, s = { w.state lane with draining := true } := ⟨_, rfl⟩
    have hself : (w.setLane lane s).state lane = s := Function.update_self ..
    have hloop : (pumpLoop w.now s.maxConcurrent s.queue s.activeTaskIds w.nextTaskId).held =
        some entry := by
      rw [← hs] at hheld
      unfold QueueState.pump at hheld
      rw [hself] at hheld
      exact hheld
    rw [hs] at hloop
    exact ⟨entry, pumpLoop_held _ _ _ _ _ (h.fresh lane) hloop⟩

theorem hasPending_iff {taskIds : Finset ℕ} :
    w.hasPendingActiveTasks taskIds = true ↔
      ∃ lane ∈ w.keys, ∃ id ∈ (w.state lane).activeTaskIds, id ∈ taskIds := by
  simp [QueueState.hasPendingActiveTasks, Finset.Nonempty]

namespace Drained

variable {r : QueueState × Option QueueEntry}

theorem served (h : Drained K lane w r) {except : List String}
    (hserved : Served K w (lane :: except)) : Served (above lane r.2 K) r.1 except := by
  intro lane' hout hexcept
  by_cases heq : lane' = lane
  · subst heq
    exact h.busy hout
  · rw [h.other lane' heq]
    refine hserved lane' (fun hmem => hout (mem_pumping_above.2 (Or.inr hmem))) ?_
    exact List.not_mem_cons_of_ne_of_not_mem heq hexcept

theorem awaited (h : Drained K lane w r) (hawaited : Awaited w) : Awaited r.1 := by
  intro x hx
  rw [h.waiters] at hx
  obtain ⟨lane', hlane', id, hid, htask⟩ := hasPending_iff.1 (hawaited x hx)
  refine hasPending_iff.2 ⟨lane', h.keys ▸ hlane', id, ?_, htask⟩
  by_cases heq : lane' = lane
  · subst heq
    exact h.grows hid
  · rwa [h.other lane' heq]

end Drained

end Drain

/-- The books are right, and no lane and no waiter is forgotten, with the call stack `K`. -/
structure Sound (K : List Frame) (w : QueueState) : Prop where
  booked : Booked K w
  flagged : Flagged K w
  served : Served K w []
  awaited : Awaited w

section Unwind

variable {K : List Frame} {w : QueueState} {lane : String}

variable {lanes : List String}

theorem Booked.push_resetAll (h : Booked K w) (hnodup : lanes.Nodup)
    (hfree : ∀ lane ∈ lanes, lane ∉ pumping K) : Booked (.resetAll lanes :: K) w := by
  refine ⟨h.keys, h.absent, h.known, h.single, ⟨hnodup, hfree, h.clear⟩, ?_, h.fresh, h.slot,
    h.order, h.room, h.homes, h.accounted, h.ran⟩
  intro ticket outcome hmem
  exact h.tasks ticket outcome (List.mem_of_ne_of_mem (by simp) hmem)

theorem Booked.pop_resetAll (h : Booked (.resetAll lanes :: K) w) :
    Booked K w :=
  ⟨h.keys, h.absent, h.known, h.single, h.clear.2.2,
    fun ticket outcome hmem => h.tasks ticket outcome (List.mem_cons_of_mem _ hmem), h.fresh,
    h.slot, h.order, h.room, h.homes, h.accounted, h.ran⟩

theorem Booked.push_reset {released : ℕ} (h : Booked K w) : Booked (.reset released :: K) w := by
  refine ⟨h.keys, h.absent, h.known, h.single, h.clear, ?_, h.fresh, h.slot, h.order, h.room,
    h.homes, h.accounted, h.ran⟩
  intro ticket outcome hmem
  exact h.tasks ticket outcome (List.mem_of_ne_of_mem (by simp) hmem)

theorem Booked.pop_reset {released : ℕ} (h : Booked (.reset released :: K) w) : Booked K w :=
  ⟨h.keys, h.absent, h.known, h.single, h.clear,
    fun ticket outcome hmem => h.tasks ticket outcome (List.mem_cons_of_mem _ hmem), h.fresh,
    h.slot, h.order, h.room, h.homes, h.accounted, h.ran⟩

theorem Booked.notify (h : Booked K w) : Booked K w.notifyActiveTaskWaiters :=
  h.congr rfl rfl rfl rfl rfl rfl rfl

theorem awaited_notify (w : QueueState) : Awaited w.notifyActiveTaskWaiters := by
  intro x hx
  have hleft := List.of_mem_filter hx
  show w.hasPendingActiveTasks x.activeTaskIds = true
  by_contra hnot
  simp [QueueState.drained, Bool.eq_false_of_not_eq_true hnot] at hleft

/-- **The loop of `resetAllLanes`**: it ends with no lane forgotten, or it is inside an
`onWait` and the lanes still to come need nothing. -/
theorem drainLanes_sound (h : Booked K w) (hflag : Flagged K w)
    (hserved : Served K w lanes) (hnodup : lanes.Nodup) (hfree : ∀ x ∈ lanes, x ∉ pumping K)
    (hbusy : lanes.Pairwise fun a b => (w.state a).Draws w.now → (w.state b).Busy)
    (hawaited : (∃ a ∈ lanes, (w.state a).Draws w.now) → Awaited w) :
    (∀ lane entry rest, (w.drainLanes lanes).2 = some (lane, entry, rest) →
      Sound (.pump lane entry :: .resetAll rest :: K) (w.drainLanes lanes).1) ∧
    ((w.drainLanes lanes).2 = none → Booked K (w.drainLanes lanes).1 ∧
      Flagged K (w.drainLanes lanes).1 ∧ Served K (w.drainLanes lanes).1 []) := by
  induction lanes generalizing w with
  | nil =>
    refine ⟨?_, fun _ => ⟨h, hflag, hserved⟩⟩
    intro lane entry rest hsome
    simp [QueueState.drainLanes] at hsome
  | cons a lanes ih =>
    obtain ⟨hnot, hnodup⟩ := List.nodup_cons.1 hnodup
    obtain ⟨hlater, hbusy⟩ := List.pairwise_cons.1 hbusy
    have hfreeRest : ∀ x ∈ lanes, x ∉ pumping K := fun x hx => hfree x (List.mem_cons_of_mem a hx)
    have hframe : Booked (.resetAll lanes :: K) w := h.push_resetAll hnodup hfreeRest
    have hdrained : Drained (.resetAll lanes :: K) a w (w.drainLane a) :=
      drained_drainLane hframe hflag fun hmem => absurd hmem (hfree a List.mem_cons_self)
    have hdraws : ∀ entry, (w.drainLane a).2 = some entry → (w.state a).Draws w.now :=
      fun _ hheld => draws_of_drainLane h hheld
    have hrest := hdrained.served hserved
    have hsame : ∀ x ∈ lanes, (w.drainLane a).1.state x = w.state x :=
      fun x hx => hdrained.other x (ne_of_mem_of_not_mem hx hnot)
    unfold QueueState.drainLanes
    obtain ⟨⟨w₁, o⟩, hr⟩ : ∃ r, r = w.drainLane a := ⟨_, rfl⟩
    rw [← hr] at hdrained hdraws hrest hsame ⊢
    cases o with
    | some entry =>
      refine ⟨?_, fun hnone => by simp at hnone⟩
      intro lane' entry' rest' hsome
      obtain ⟨rfl, rfl, rfl⟩ : a = lane' ∧ entry = entry' ∧ lanes = rest' := by simpa using hsome
      have hdraw := hdraws entry rfl
      refine ⟨hdrained.booked, hdrained.flagged, ?_, ?_⟩
      · intro x hout _
        by_cases hx : x ∈ lanes
        · rw [hsame x hx]
          exact hlater x hx hdraw
        · exact hrest x hout hx
      · exact hdrained.awaited (hawaited ⟨a, List.mem_cons_self, hdraw⟩)
    | none =>
      have hnow : w₁.now = w.now := hdrained.now
      refine ih hdrained.booked.pop_resetAll hdrained.flagged hrest hnodup hfreeRest ?_ ?_
      · refine hbusy.imp_of_mem ?_
        intro x y hx hy himp
        rw [hsame x hx, hsame y hy, hnow]
        exact himp
      · rintro ⟨x, hx, hdraw⟩
        rw [hsame x hx, hnow] at hdraw
        exact hdrained.awaited (hawaited ⟨x, List.mem_cons_of_mem a hx, hdraw⟩)

theorem sound_unwind_resetAll
    (hbelow : ∀ w, Sound K w → Sound (QueueState.unwind K w).stack (w.unwind K)) (h : Booked K w) (hflag : Flagged K w) (hserved : Served K w lanes)
    (hnodup : lanes.Nodup) (hfree : ∀ x ∈ lanes, x ∉ pumping K)
    (hbusy : lanes.Pairwise fun a b => (w.state a).Draws w.now → (w.state b).Busy)
    (hawaited : (∃ a ∈ lanes, (w.state a).Draws w.now) → Awaited w) :
    Sound (QueueState.unwind (.resetAll lanes :: K) w).stack (w.unwind (.resetAll lanes :: K)) := by
  obtain ⟨hsome, hnone⟩ := drainLanes_sound h hflag hserved hnodup hfree hbusy hawaited
  unfold QueueState.unwind
  obtain ⟨⟨w₁, o⟩, hr⟩ : ∃ r, r = w.drainLanes lanes := ⟨_, rfl⟩
  rw [← hr] at hsome hnone ⊢
  match o with
  | some (lane, entry, rest) =>
    have hsound := hsome lane entry rest rfl
    exact ⟨hsound.booked.congr rfl rfl rfl rfl rfl rfl rfl, hsound.flagged, hsound.served,
      hsound.awaited⟩
  | none =>
    obtain ⟨hbooked, hflagged, hserved⟩ := hnone rfl
    exact hbelow _ ⟨hbooked.notify, hflagged, hserved, awaited_notify w₁⟩

theorem sound_unwind_reset
    (hbelow : ∀ w, Sound K w → Sound (QueueState.unwind K w).stack (w.unwind K))
    {released : ℕ} (h : Booked K w) (hflag : Flagged K w) (hserved : Served K w []) :
    Sound (QueueState.unwind (.reset released :: K) w).stack
      (w.unwind (.reset released :: K)) :=
  hbelow _ ⟨h.notify.congr rfl rfl rfl rfl rfl rfl rfl, hflag, hserved, awaited_notify w⟩

theorem sound_unwind (h : Sound K w) :
    Sound (QueueState.unwind K w).stack (w.unwind K) := by
  induction K generalizing w with
  | nil => exact ⟨h.booked.congr rfl rfl rfl rfl rfl rfl rfl, h.flagged, h.served, h.awaited⟩
  | cons frame K ih =>
    cases frame with
    | pump lane entry =>
      exact ⟨h.booked.congr rfl rfl rfl rfl rfl rfl rfl, h.flagged, h.served, h.awaited⟩
    | settle ticket outcome =>
      exact ih ⟨h.booked.settled, h.flagged, h.served, h.awaited⟩
    | reset released =>
      exact sound_unwind_reset (fun _ => ih) h.booked.pop_reset h.flagged h.served
    | resetAll lanes =>
      obtain ⟨hnodup, hfree, -⟩ := h.booked.clear
      have hbusy : ∀ x ∈ lanes, (w.state x).Busy :=
        fun x hx => h.served x (hfree x hx) List.not_mem_nil
      refine sound_unwind_resetAll (fun _ => ih) h.booked.pop_resetAll h.flagged ?_ hnodup hfree
        ?_ fun _ => h.awaited
      · exact fun x hout _ => h.served x hout List.not_mem_nil
      · exact List.pairwise_of_forall_mem_list fun _ _ y hy _ => hbusy y hy

theorem sound_afterPump {r : QueueState × Option QueueEntry} (h : Drained K lane w r)
    (hserved : Served K w [lane]) (hawaited : Awaited r.1) :
    Sound (QueueState.afterPump lane K r).stack (QueueState.afterPump lane K r) := by
  obtain ⟨w₁, o⟩ := r
  have hserved := h.served hserved
  cases o with
  | some entry =>
    exact ⟨h.booked.congr rfl rfl rfl rfl rfl rfl rfl, h.flagged, hserved, hawaited⟩
  | none => exact sound_unwind ⟨h.booked, h.flagged, hserved, hawaited⟩

end Unwind

section Calls

variable {K : List Frame} {w w' : QueueState} {lane : String} {s : LaneState}

theorem served_update (h : Served K w []) (hstate : w'.state = Function.update w.state lane s) :
    Served K w' [lane] := by
  intro x hout hne
  rw [hstate, Function.update_of_ne (fun heq => hne (List.mem_singleton.2 heq))]
  exact h x hout List.not_mem_nil

theorem served_of_busy (h : Served K w []) (hstate : w'.state = Function.update w.state lane s)
    (hbusy : s.Busy) : Served K w' [] := by
  intro x hout _
  by_cases heq : x = lane
  · subst heq
    rwa [hstate, Function.update_self]
  · exact served_update h hstate x hout fun hmem => heq (List.mem_singleton.1 hmem)

theorem flagged_update (h : Flagged K w) (hstate : w'.state = Function.update w.state lane s)
    (hdraining : s.draining = true → (w.state lane).draining = true) : Flagged K w' := by
  intro x hx
  rw [hstate] at hx
  by_cases heq : x = lane
  · subst heq
    rw [Function.update_self] at hx
    exact h x (hdraining hx)
  · rw [Function.update_of_ne heq] at hx
    exact h x hx

theorem awaited_update (h : Awaited w) (hkeys : w.keys ⊆ w'.keys)
    (hwaiters : w'.activeTaskWaiters = w.activeTaskWaiters)
    (hactive : ∀ x, (w.state x).activeTaskIds ⊆ (w'.state x).activeTaskIds) : Awaited w' := by
  intro x hx
  rw [hwaiters] at hx
  obtain ⟨lane, hlane, id, hid, htask⟩ := hasPending_iff.1 (h x hx)
  exact hasPending_iff.2 ⟨lane, hkeys hlane, id, hactive lane hid, htask⟩

theorem active_update (hactive : (w.state lane).activeTaskIds ⊆ s.activeTaskIds) (x : String) :
    (w.state x).activeTaskIds ⊆ (Function.update w.state lane s x).activeTaskIds := by
  by_cases heq : x = lane
  · subst heq
    rwa [Function.update_self]
  · rw [Function.update_of_ne heq]

theorem state_getLaneState (h : Booked K w) (lane : String) :
    (w.getLaneState lane).state = w.state := by
  unfold QueueState.getLaneState
  split
  · rfl
  next hnew =>
    show Function.update w.state lane { lane := lane } = w.state
    rw [← h.absent lane hnew, Function.update_eq_self]

theorem keys_getLaneState (w : QueueState) (lane : String) :
    w.keys ⊆ (w.getLaneState lane).keys ∧ lane ∈ (w.getLaneState lane).keys := by
  unfold QueueState.getLaneState
  split
  next hlane => exact ⟨List.Subset.refl _, hlane⟩
  · exact ⟨List.subset_append_left _ _, List.mem_append_right _ List.mem_cons_self⟩

theorem fields_getLaneState (w : QueueState) (lane : String) :
    (w.getLaneState lane).stack = w.stack ∧
      (w.getLaneState lane).activeTaskWaiters = w.activeTaskWaiters := by
  unfold QueueState.getLaneState
  split <;> exact ⟨rfl, rfl⟩

theorem Sound.getLaneState (h : Sound K w) (lane : String) : Sound K (w.getLaneState lane) := by
  have hstate := state_getLaneState h.booked lane
  refine ⟨h.booked.getLaneState lane, ?_, ?_, ?_⟩
  · intro x hx
    rw [hstate] at hx
    exact h.flagged x hx
  · intro x hout hexcept
    rw [hstate]
    exact h.served x hout hexcept
  · refine awaited_update h.awaited (keys_getLaneState w lane).1 (fields_getLaneState w lane).2 ?_
    rw [hstate]
    exact fun x => Finset.Subset.refl _

theorem sound_change (h : Sound K w) (hbooked : Booked K w')
    (hstate : w'.state = Function.update w.state lane s) (hkeys : w'.keys = w.keys)
    (hwaiters : w'.activeTaskWaiters = w.activeTaskWaiters)
    (hactive : s.activeTaskIds = (w.state lane).activeTaskIds)
    (hdraining : s.draining = (w.state lane).draining)
    (hidle : lane ∈ pumping K → (w.state lane).draining = true ∨ s.queue = [])
    {below : List Frame} (hbelow : below = K) :
    Sound (QueueState.afterPump lane below (w'.drainLane lane)).stack
      (QueueState.afterPump lane below (w'.drainLane lane)) := by
  rw [hbelow]
  have hself : w'.state lane = s := by rw [hstate, Function.update_self]
  have hdrained : Drained K lane w' (w'.drainLane lane) := by
    refine drained_drainLane hbooked (flagged_update h.flagged hstate ?_) ?_
    · rw [hdraining]
      exact id
    · rw [hself, hdraining]
      exact hidle
  have hawaited : Awaited w' := by
    refine awaited_update h.awaited (hkeys ▸ List.Subset.refl _) hwaiters ?_
    rw [hstate]
    exact active_update hactive.symm.subset
  exact sound_afterPump hdrained (served_update h.served hstate) (hdrained.awaited hawaited)

theorem sound_enqueue (h : Sound w.stack w) {opts : EnqueueOptions}
    (hok : w.gatewayDraining = true ∨ normalizeLane lane ∉ pumping w.stack ∨
      (w.state (normalizeLane lane)).draining = true) :
    Sound (w.enqueueCommandInLane lane opts).stack (w.enqueueCommandInLane lane opts) := by
  unfold QueueState.enqueueCommandInLane
  split
  · exact ⟨h.booked.congr rfl rfl rfl rfl rfl rfl rfl, h.flagged, h.served, h.awaited⟩
  next hopen =>
    obtain ⟨cleaned, hcleaned⟩ : ∃ cleaned, cleaned = normalizeLane lane := ⟨_, rfl⟩
    rw [← hcleaned] at hok ⊢
    have hlane := (keys_getLaneState w cleaned).2
    have hstate := state_getLaneState h.booked cleaned
    have hsound : Sound w.stack (w.getLaneState cleaned) := h.getLaneState cleaned
    have hstack := (fields_getLaneState w cleaned).1
    refine sound_change hsound (hsound.booked.push hlane rfl) rfl rfl rfl rfl rfl ?_ hstack
    intro hpumped
    rw [hstate]
    rcases hok with hrefused | hfree | hdraining
    · exact absurd hrefused hopen
    · exact absurd hpumped hfree
    · exact Or.inl hdraining

theorem sound_setConcurrency (h : Sound w.stack w) {maxConcurrent : ℕ}
    (hok : normalizeLane lane ∈ pumping w.stack →
      (w.state (normalizeLane lane)).activeTaskIds.card <
          laneLimit (normalizeLane lane) maxConcurrent ∧
        ((w.state (normalizeLane lane)).draining = true ∨
          (w.state (normalizeLane lane)).queue = [])) :
    Sound (w.setCommandLaneConcurrency lane maxConcurrent).stack
      (w.setCommandLaneConcurrency lane maxConcurrent) := by
  unfold QueueState.setCommandLaneConcurrency
  obtain ⟨cleaned, hcleaned⟩ : ∃ cleaned, cleaned = normalizeLane lane := ⟨_, rfl⟩
  rw [← hcleaned] at hok ⊢
  have hlane := (keys_getLaneState w cleaned).2
  have hstate := state_getLaneState h.booked cleaned
  have hsound : Sound w.stack (w.getLaneState cleaned) := h.getLaneState cleaned
  have hstack := (fields_getLaneState w cleaned).1
  obtain ⟨s, hs⟩ : ∃ s : LaneState, s = { (w.getLaneState cleaned).state cleaned with
    maxConcurrent := laneLimit cleaned maxConcurrent } := ⟨_, rfl⟩
  have hlimit : s.maxConcurrent = laneLimit cleaned maxConcurrent := by rw [hs]
  have hactive : s.activeTaskIds = (w.state cleaned).activeTaskIds := by rw [hs, hstate]
  have hself : ((w.getLaneState cleaned).setLane cleaned s).state cleaned = s :=
    Function.update_self ..
  have hbooked : Booked w.stack ((w.getLaneState cleaned).setLane cleaned s) := by
    refine hsound.booked.relane hlane (by rw [hs]; rfl) ?_ ?_
    · rw [hs]
      exact hsound.booked.fresh cleaned
    · intro hpumped
      rw [hlimit, hactive]
      exact (hok hpumped).1
  simp only
  rw [← hs, hself]
  split
  · refine sound_change hsound hbooked rfl rfl rfl (by rw [hs]) (by rw [hs]) ?_ hstack
    intro hpumped
    rw [hs, hstate]
    exact (hok hpumped).2
  next hzero =>
    rw [show (QueueState.setLane _ cleaned s).stack = w.stack from hstack]
    have hbusy : s.Busy := fun _ => by omega
    refine ⟨hbooked, flagged_update hsound.flagged rfl (by rw [hs]; exact id),
      served_of_busy hsound.served rfl hbusy, ?_⟩
    · refine awaited_update hsound.awaited (List.Subset.refl _) rfl ?_
      exact active_update (by rw [hs])

theorem sound_clear (h : Sound w.stack w) :
    Sound (w.clearCommandLane lane).stack (w.clearCommandLane lane) := by
  unfold QueueState.clearCommandLane
  obtain ⟨cleaned, hcleaned⟩ : ∃ cleaned, cleaned = normalizeLane lane := ⟨_, rfl⟩
  rw [← hcleaned]
  simp only
  split
  next hlane =>
    refine ⟨h.booked.clearLane hlane cleaned _, flagged_update h.flagged rfl id,
      served_of_busy h.served rfl fun hqueue => absurd rfl hqueue, ?_⟩
    · refine awaited_update h.awaited (List.Subset.refl _) rfl ?_
      exact active_update (Finset.Subset.refl _)
  · exact ⟨h.booked.congr rfl rfl rfl rfl rfl rfl rfl, h.flagged, h.served, h.awaited⟩

/-- A `resetCommandLane` that does not pump past a held entry, and calls an `onWait` only
where every waiter has a task on another lane. -/
theorem sound_reset (h : Sound w.stack w)
    (hfree : normalizeLane lane ∈ pumping w.stack → (w.state (normalizeLane lane)).queue = [])
    (hdraws : (w.state (normalizeLane lane)).released.Draws w.now →
      ∀ x ∈ w.activeTaskWaiters, ∃ other ∈ w.keys, other ≠ normalizeLane lane ∧
        ∃ id ∈ (w.state other).activeTaskIds, id ∈ x.activeTaskIds) :
    Sound (w.resetCommandLane lane).stack (w.resetCommandLane lane) := by
  unfold QueueState.resetCommandLane
  obtain ⟨cleaned, hcleaned⟩ : ∃ cleaned, cleaned = normalizeLane lane := ⟨_, rfl⟩
  rw [← hcleaned] at hfree hdraws ⊢
  simp only
  split
  next hlane =>
    obtain ⟨s, hs⟩ : ∃ s, s = (w.state cleaned).released := ⟨_, rfl⟩
    have hself : (w.setLane cleaned s).state cleaned = s := Function.update_self ..
    have hbooked : Booked w.stack (w.setLane cleaned s) := by
      refine h.booked.relane hlane (by rw [hs]; rfl) (by rw [hs]; simp [LaneState.released]) ?_
      intro hpumped
      have hslot := h.booked.slot cleaned hpumped
      have hlimit : 0 < (w.state cleaned).maxConcurrent := by omega
      rw [hs]
      exact hlimit
    have hflag : Flagged w.stack (w.setLane cleaned s) :=
      flagged_update h.flagged rfl fun hset => by simp [hs, LaneState.released] at hset
    have hserved : Served w.stack (w.setLane cleaned s) [cleaned] := served_update h.served rfl
    have hqueue : s.queue = (w.state cleaned).queue := by
      rw [hs]
      rfl
    rw [← hs]
    split
    next hempty =>
      have hbusy : s.Busy := fun hne => absurd (hqueue.trans hempty) hne
      exact sound_unwind_reset (fun _ => sound_unwind) hbooked hflag
        (served_of_busy h.served rfl hbusy)
    next hqueued =>
      have hdrained : Drained (.reset (w.state cleaned).activeTaskIds.card :: w.stack) cleaned
          (w.setLane cleaned s) ((w.setLane cleaned s).drainLane cleaned) :=
        drained_drainLane hbooked.push_reset hflag fun hpumped => absurd (hfree hpumped) hqueued
      have hawaited : ∀ entry, ((w.setLane cleaned s).drainLane cleaned).2 = some entry →
          Awaited (w.setLane cleaned s) := by
        intro entry hheld x hx
        have hdraw := draws_of_drainLane hbooked hheld
        rw [hself, hs] at hdraw
        obtain ⟨other, hother, hne, id, hid, htask⟩ := hdraws hdraw x hx
        refine hasPending_iff.2 ⟨other, hother, id, ?_, htask⟩
        have hsame : (w.setLane cleaned s).state other = w.state other :=
          Function.update_of_ne hne _ _
        rwa [hsame]
      have hserved := hdrained.served hserved
      obtain ⟨⟨w₁, o⟩, hr⟩ : ∃ r, r = (w.setLane cleaned s).drainLane cleaned := ⟨_, rfl⟩
      rw [← hr] at hdrained hawaited hserved ⊢
      cases o with
      | some entry =>
        exact ⟨hdrained.booked.congr rfl rfl rfl rfl rfl rfl rfl, hdrained.flagged, hserved,
          hdrained.awaited (hawaited entry rfl)⟩
      | none =>
        exact sound_unwind_reset (fun _ => sound_unwind) hdrained.booked.pop_reset
          hdrained.flagged hserved
  · exact ⟨h.booked.congr rfl rfl rfl rfl rfl rfl rfl, h.flagged, h.served, h.awaited⟩

/-- A `resetAllLanes` that pumps past no held entry, calls no `onWait` with a lane that it
could pump still to drain, and none with a waiter pending. -/
theorem sound_resetAll (h : Sound w.stack w)
    (hfree : ∀ x ∈ pumping w.stack, (w.state x).queue = [])
    (hbusy : w.lanesToDrain.Pairwise fun a b =>
      (w.state a).released.Draws w.now → (w.state b).maxConcurrent = 0)
    (hwaiters : (∃ a ∈ w.lanesToDrain, (w.state a).released.Draws w.now) →
      w.activeTaskWaiters = []) :
    Sound w.resetAllLanes.stack w.resetAllLanes := by
  obtain ⟨w₁, hw₁⟩ : ∃ w₁ : QueueState, w₁ = { w with
      gatewayDraining := false
      state := fun lane => if lane ∈ w.keys then (w.state lane).released else w.state lane } :=
    ⟨_, rfl⟩
  have hin : ∀ x ∈ w.keys, w₁.state x = (w.state x).released := by
    intro x hx
    rw [hw₁]
    exact if_pos hx
  have hout : ∀ x ∉ w.keys, w₁.state x = { lane := x } := by
    intro x hx
    rw [hw₁, ← h.booked.absent x hx]
    exact if_neg hx
  have hmem : ∀ x ∈ w.lanesToDrain, x ∈ w.keys := fun x hx => List.mem_of_mem_filter hx
  have hnow : w₁.now = w.now := by rw [hw₁]
  have hbooked : Booked w.stack w₁ := by
    have hrestated : Booked w.stack { w with state := w₁.state } := h.booked.restate ?_ ?_ ?_ ?_
    · rw [hw₁] at hrestated ⊢
      exact hrestated.congr rfl rfl rfl rfl rfl rfl rfl
    · intro x
      by_cases hx : x ∈ w.keys
      · rw [hin x hx]
        rfl
      · rw [hout x hx, h.booked.absent x hx]
    · exact hout
    · intro x
      by_cases hx : x ∈ w.keys
      · simp [hin x hx, LaneState.released]
      · simp [hout x hx]
    · intro x hx
      have hslot := h.booked.slot x hx
      have hlimit : 0 < (w.state x).maxConcurrent := by omega
      rw [hin x (h.booked.known x hx)]
      exact hlimit
  have hflag : Flagged w.stack w₁ := by
    intro x hx
    by_cases hkey : x ∈ w.keys
    · simp [hin x hkey, LaneState.released] at hx
    · simp [hout x hkey] at hx
  have hserved : Served w.stack w₁ w.lanesToDrain := by
    intro x _ hnot
    by_cases hkey : x ∈ w.keys
    · have hempty : (w.state x).queue = [] := by
        by_contra hqueue
        exact hnot (List.mem_filter.2 ⟨hkey, decide_eq_true hqueue⟩)
      rw [hin x hkey]
      exact fun hqueue => absurd hempty hqueue
    · rw [hout x hkey]
      exact fun hqueue => absurd rfl hqueue
  unfold QueueState.resetAllLanes
  rw [← hw₁]
  refine sound_unwind_resetAll (fun _ => sound_unwind) hbooked hflag hserved
    (h.booked.keys.filter _) ?_ ?_ ?_
  · intro x hx hpumped
    have hqueue : (w.state x).queue ≠ [] := of_decide_eq_true (List.mem_filter.1 hx).2
    exact hqueue (hfree x hpumped)
  · refine hbusy.imp_of_mem ?_
    intro a b ha hb himp hdraw
    rw [hin a (hmem a ha), hnow] at hdraw
    rw [hin b (hmem b hb)]
    exact fun _ => (himp hdraw).le.trans (Nat.zero_le _)
  · rintro ⟨a, ha, hdraw⟩ x hx
    rw [hin a (hmem a ha), hnow] at hdraw
    rw [hw₁] at hx
    rw [hwaiters ⟨a, ha, hdraw⟩] at hx
    exact absurd hx List.not_mem_nil

theorem sound_wait (h : Sound w.stack w) (timeoutMs : Option ℚ) :
    Sound (w.waitForActiveTasks timeoutMs).stack (w.waitForActiveTasks timeoutMs) := by
  unfold QueueState.waitForActiveTasks
  simp only
  split
  · exact ⟨h.booked.congr rfl rfl rfl rfl rfl rfl rfl, h.flagged, h.served, h.awaited⟩
  · split
    · exact ⟨h.booked.congr rfl rfl rfl rfl rfl rfl rfl, h.flagged, h.served, h.awaited⟩
    · exact ⟨h.booked.congr rfl rfl rfl rfl rfl rfl rfl, h.flagged, h.served, awaited_notify _⟩

theorem sound_returns {entry : QueueEntry} (h : Sound (.pump lane entry :: K) w) :
    Sound (QueueState.afterPump lane K ((w.startHeld lane entry).pump lane)).stack
      (QueueState.afterPump lane K ((w.startHeld lane entry).pump lane)) := by
  have hlane : lane ∈ w.keys := h.booked.known lane List.mem_cons_self
  have hfree : lane ∉ pumping K := (List.nodup_cons.1 h.booked.single).1
  have hstate : (w.startHeld lane entry).state = Function.update w.state lane
      { w.state lane with
        activeTaskIds := insert w.nextTaskId (w.state lane).activeTaskIds } := rfl
  have hdrained : Drained K lane (w.startHeld lane entry) ((w.startHeld lane entry).pump lane) := by
    refine drained_pump h.booked.startHeld ?_ hlane hfree
    intro x hne hx
    rw [hstate, Function.update_of_ne hne] at hx
    exact List.mem_of_ne_of_mem hne (h.flagged x hx)
  have hserved : Served K (w.startHeld lane entry) [lane] := by
    intro x hout hne
    have hne : x ≠ lane := fun heq => hne (List.mem_singleton.2 heq)
    rw [hstate, Function.update_of_ne hne]
    exact h.served x (List.not_mem_cons_of_ne_of_not_mem hne hout) List.not_mem_nil
  have hawaited : Awaited (w.startHeld lane entry) := by
    refine awaited_update h.awaited (List.Subset.refl _) rfl ?_
    exact active_update (Finset.subset_insert _ _)
  exact sound_afterPump hdrained hserved (hdrained.awaited hawaited)

theorem sound_complete (hstack : w.stack = []) (h : Sound [] w) {r : Running} (hr : r ∈ w.running)
    {outcome : Outcome} (htask : outcome.ofTask = true) :
    Sound (w.complete r outcome).stack (w.complete r outcome) := by
  unfold QueueState.complete
  obtain ⟨w₁, hw₁⟩ : ∃ w₁ : QueueState, w₁ = { w with running := w.running.erase r } := ⟨_, rfl⟩
  have hended : Booked [.settle r.entry.ticket outcome] w₁ := hw₁ ▸ h.booked.ended hr htask
  have hstate : w₁.state = w.state := by rw [hw₁]
  have hlane : r.lane ∈ w₁.keys := by
    rw [hw₁]
    exact h.booked.homes r hr
  have hflag : Flagged [.settle r.entry.ticket outcome] w₁ := by
    intro x hx
    rw [hstate] at hx
    exact h.flagged x hx
  have hserved : Served [.settle r.entry.ticket outcome] w₁ [] := by
    intro x hout hnot
    rw [hstate]
    exact h.served x hout hnot
  simp only
  rw [← hw₁]
  split
  · obtain ⟨s, hs⟩ : ∃ s : LaneState, s = { w.state r.lane with
      activeTaskIds := (w.state r.lane).activeTaskIds.erase r.taskId } := ⟨_, rfl⟩
    rw [← hs]
    have hfreed : Booked [.settle r.entry.ticket outcome] (w₁.setLane r.lane s) := by
      refine hended.relane hlane (by rw [hs, hstate]; rfl) ?_ fun hpumped =>
        absurd hpumped List.not_mem_nil
      intro id hid
      rw [hs, ← hstate] at hid
      exact hended.fresh r.lane id (Finset.mem_of_mem_erase hid)
    have hdrained : Drained [.settle r.entry.ticket outcome] r.lane
        (w₁.setLane r.lane s).notifyActiveTaskWaiters
        ((w₁.setLane r.lane s).notifyActiveTaskWaiters.pump r.lane) := by
      refine drained_pump hfreed.notify ?_ hlane List.not_mem_nil
      intro x hne hx
      have hsame : (w₁.setLane r.lane s).notifyActiveTaskWaiters.state x = w₁.state x :=
        Function.update_of_ne hne _ _
      rw [hsame] at hx
      exact hflag x hx
    exact sound_afterPump hdrained (served_update hserved rfl) (hdrained.awaited (awaited_notify _))
  · have hsettled := hended.settled
    have hempty : (w₁.settle r.entry.ticket outcome).stack = [] := by
      rw [hw₁]
      exact hstack
    rw [hempty]
    refine ⟨hsettled, hflag, hserved, ?_⟩
    refine awaited_update h.awaited ?_ ?_ ?_
    · rw [hw₁]
      exact List.Subset.refl _
    · rw [hw₁]
      rfl
    · intro x
      rw [show (w₁.settle r.entry.ticket outcome).state = w.state from hstate]

end Calls

/-- **What the lanes promise**: each starts its entries in the order of their tickets, and an
entry only with fewer tasks active than its limit; no entry starts or is settled twice; and
of a lane that no pump on the call stack serves, the queue is empty or the slots are taken,
and then every pending waiter waits for a task that is active. -/
structure Kept (w : QueueState) : Prop where
  order : ∀ lane, (w.startsAt lane).Pairwise (· < ·)
  room : ∀ x ∈ w.starts, x.active < x.maxConcurrent
  startsOnce : (w.starts.map (·.ticket)).Nodup
  settlesOnce : (w.settled.map Prod.fst).Nodup
  idle : ∀ lane ∈ w.keys, lane ∉ pumping w.stack →
    ((w.state lane).queue ≠ [] →
      (w.state lane).maxConcurrent ≤ (w.state lane).activeTaskIds.card) ∧
    ∀ x ∈ w.activeTaskWaiters, ∃ other ∈ w.keys, ∃ id ∈ (w.state other).activeTaskIds,
      id ∈ x.activeTaskIds

instance (s : LaneState) (now : ℤ) : Decidable (s.Draws now) :=
  inferInstanceAs (Decidable (∃ entry ∈ s.queue.take (s.maxConcurrent - s.activeTaskIds.card),
    entry.callsBack now = true))

/-- The call takes no entry of a lane that holds one in an `onWait` and leaves such a lane a
free slot, and a reset calls no `onWait` while it has left a lane or a waiter behind. -/
def Fits (w : QueueState) : Action → Prop
  | .call (.enqueue lane _) =>
    w.gatewayDraining = true ∨ normalizeLane lane ∉ pumping w.stack ∨
      (w.state (normalizeLane lane)).draining = true
  | .call (.setConcurrency lane maxConcurrent) =>
    normalizeLane lane ∈ pumping w.stack →
      (w.state (normalizeLane lane)).activeTaskIds.card <
          laneLimit (normalizeLane lane) maxConcurrent ∧
        ((w.state (normalizeLane lane)).draining = true ∨
          (w.state (normalizeLane lane)).queue = [])
  | .call (.reset lane) =>
    (normalizeLane lane ∈ pumping w.stack → (w.state (normalizeLane lane)).queue = []) ∧
      ((w.state (normalizeLane lane)).released.Draws w.now →
        ∀ x ∈ w.activeTaskWaiters, ∃ other ∈ w.keys, other ≠ normalizeLane lane ∧
          ∃ id ∈ (w.state other).activeTaskIds, id ∈ x.activeTaskIds)
  | .call .resetAll =>
    (∀ x ∈ pumping w.stack, (w.state x).queue = []) ∧
      (w.lanesToDrain.Pairwise fun a b =>
        (w.state a).released.Draws w.now → (w.state b).maxConcurrent = 0) ∧
      ((∃ a ∈ w.lanesToDrain, (w.state a).released.Draws w.now) → w.activeTaskWaiters = [])
  | _ => True

instance (w : QueueState) (a : Action) : Decidable (Fits w a) := by
  unfold Fits
  split <;> infer_instance

theorem ofTask_outcome {r : Running} {result : TaskResult} {outcome : Outcome}
    (h : r.outcome result = some outcome) : outcome.ofTask = true := by
  cases result with
  | success =>
    obtain rfl := Option.some.inj h
    rfl
  | failure =>
    obtain rfl := Option.some.inj h
    rfl
  | timeout =>
    obtain ⟨ms, -, rfl⟩ := Option.map_eq_some_iff.1 h
    rfl

theorem sound_call {w : QueueState} (h : Sound w.stack w) {c : Call} (hok : Fits w (.call c)) :
    Sound (w.call c).stack (w.call c) := by
  unfold Fits at hok
  unfold QueueState.call
  cases c with
  | enqueue lane opts => exact sound_enqueue h hok
  | setConcurrency lane maxConcurrent => exact sound_setConcurrency h hok
  | clear lane => exact sound_clear h
  | reset lane => exact sound_reset h hok.1 hok.2
  | resetAll => exact sound_resetAll h hok.1 hok.2.1 hok.2.2
  | waitForActive timeoutMs => exact sound_wait h timeoutMs
  | markDraining =>
    exact ⟨h.booked.congr rfl rfl rfl rfl rfl rfl rfl, h.flagged, h.served, h.awaited⟩

/-- **One step keeps the books**, where it fits. -/
theorem sound_step {w : QueueState} (h : Sound w.stack w) {a : Action} (hok : Fits w a) :
    Sound (w.step a).stack (w.step a) := by
  cases a with
  | clock now => exact ⟨h.booked.congr rfl rfl rfl rfl rfl rfl rfl, h.flagged, h.served, h.awaited⟩
  | call c => exact sound_call h hok
  | returns =>
    simp only [QueueState.step]
    split
    next lane entry below hstack => exact sound_returns (hstack ▸ h)
    · exact h
  | completes taskId result =>
    simp only [QueueState.step]
    split
    next r hstack hfind =>
      have hr : r ∈ w.running := List.mem_of_find?_eq_some hfind
      cases hout : r.outcome result with
      | none => exact h
      | some outcome => exact sound_complete hstack (hstack ▸ h) hr (ofTask_outcome hout)
    · exact h
  | waiterTimesOut ticket =>
    simp only [QueueState.step]
    split
    next waiter hstack hfind =>
      refine ⟨h.booked.congr rfl rfl rfl rfl rfl rfl rfl, h.flagged, h.served, ?_⟩
      intro x hx
      exact h.awaited x (List.mem_of_mem_erase hx)
    · exact h

theorem Sound.kept {w : QueueState} (h : Sound w.stack w) : Kept w := by
  have hall : (List.range w.nextTicket).Nodup := List.nodup_range
  have hplaces := h.booked.accounted.nodup_iff.2 hall
  have hrunning : (w.runningTickets ++ settling w.stack ++ w.settledTickets).Nodup := by
    refine hplaces.sublist ?_
    simp only [List.append_assoc]
    exact (List.sublist_append_right _ _).trans (List.sublist_append_right _ _)
  refine ⟨?_, h.booked.room, ?_, (List.nodup_append.1 hplaces).2.1, ?_⟩
  · intro lane
    exact (List.pairwise_append.1 (h.booked.order lane)).1
  · rw [h.booked.ran.nodup_iff]
    refine hrunning.sublist (List.Sublist.append_left ?_ _)
    exact List.filter_sublist.map Prod.fst
  · intro lane _ hout
    refine ⟨h.served lane hout List.not_mem_nil, ?_⟩
    intro x hx
    exact hasPending_iff.1 (h.awaited x hx)

theorem sound_start : Sound [] {} := by
  refine ⟨?_, ?_, ?_, ?_⟩
  · refine ⟨List.nodup_nil, fun _ _ => rfl, ?_, List.nodup_nil, trivial, ?_, ?_, ?_, ?_, ?_, ?_,
      List.Perm.refl _, List.Perm.refl _⟩
    all_goals simp [held, pumping, QueueState.line, QueueState.startsAt, QueueState.heldAt,
      LaneState.tickets]
  · simp [Flagged]
  · intro lane _ _ hqueue
    exact absurd rfl hqueue
  · simp [Awaited]

/-- **Order, concurrency and progress of the lanes**: they hold in every state of a run whose
calls from an `onWait` do not pump past the entry it is called for. -/
theorem lanes_kept {as : List Action} (h : Machine.Guarded QueueState.step Fits {} as) :
    Machine.Always QueueState.step Kept {} as := by
  have hsound : Machine.Always QueueState.step (fun w => Sound w.stack w) {} as :=
    Machine.always_of_guarded (fun _ _ hw hok => sound_step hw hok) sound_start h
  exact fun bs hbs => (hsound bs hbs).kept

/-- A pump that `setCommandLaneConcurrency` starts calls an `onWait`, which enqueues. -/
def callbackRun : List Action :=
  [.call (.setConcurrency "main" 0),
    .call (.enqueue "main" { warnAfterMs := some 0, onWait := true }),
    .call (.setConcurrency "main" 2),
    .call (.enqueue "main" {}),
    .returns,
    .call (.waitForActive none),
    .completes 2 .failure,
    .completes 1 .success,
    .call .resetAll]

theorem callbackRun_kept : Machine.Always QueueState.step Kept {} callbackRun :=
  lanes_kept (by decide +kernel)

/-- A pump that a completion starts calls an `onWait`, which enqueues: the new entry starts
before the one that the pump holds. -/
def overtakenRun : List Action :=
  [.call (.enqueue "main" {}),
    .call (.enqueue "main" { warnAfterMs := some 0, onWait := true }),
    .completes 1 .success,
    .call (.enqueue "main" {}),
    .returns]

theorem overtakenRun_not_kept : ¬ Machine.Always QueueState.step Kept {} overtakenRun := by
  intro h
  have horder := (h overtakenRun (List.prefix_refl _)).order "main"
  have hstarts : (Machine.run QueueState.step {} overtakenRun).startsAt "main" = [0, 2, 1] := by
    decide +kernel
  rw [hstarts] at horder
  simp at horder

end ClawHarder.CommandQueue
