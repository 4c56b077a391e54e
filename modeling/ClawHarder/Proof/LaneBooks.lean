import ClawHarder.Spec.CommandQueue
import Mathlib.Tactic.Common

/-!
# The books of the command lanes

Every entry is in one place: in the queue of a lane, held by a pump on the call stack inside
an `onWait`, running, about to be settled, or settled. `Booked` lists these places next to the
history, for a call stack that a step is working on, so that each piece of a step has its own
lemma.

* `Booked.advance`: **a pump keeps the books** if no pump further down serves its lane.
* `Booked.push`, `Booked.clearLane`, `Booked.ended`, `Booked.settled`: the other moves.
-/

namespace ClawHarder.CommandQueue

section Loop

variable (now : ℤ) (maxConcurrent : ℕ) (queue : List QueueEntry) (active : Finset ℕ) (taskId : ℕ)

theorem pumpLoop_split :
    (pumpLoop now maxConcurrent queue active taskId).started.map (·.entry) ++
      ((pumpLoop now maxConcurrent queue active taskId).held.toList ++
        (pumpLoop now maxConcurrent queue active taskId).queue) = queue := by
  induction queue generalizing active taskId with
  | nil => rfl
  | cons entry queue ih =>
    unfold pumpLoop
    split
    · split
      · rfl
      · exact congrArg (entry :: ·) (ih (insert taskId active) (taskId + 1))
    · rfl

theorem pumpLoop_room :
    ∀ x ∈ (pumpLoop now maxConcurrent queue active taskId).started, x.active < maxConcurrent := by
  induction queue generalizing active taskId with
  | nil => simp [pumpLoop]
  | cons entry queue ih =>
    unfold pumpLoop
    split
    next hroom =>
      split
      · simp
      · intro x hx
        rcases List.mem_cons.1 hx with rfl | hx
        · exact hroom
        · exact ih (insert taskId active) (taskId + 1) x hx
    · simp

theorem pumpLoop_grows :
    active ⊆ (pumpLoop now maxConcurrent queue active taskId).activeTaskIds := by
  induction queue generalizing active taskId with
  | nil => exact Finset.Subset.refl active
  | cons entry queue ih =>
    unfold pumpLoop
    split
    · split
      · exact Finset.Subset.refl active
      · exact (Finset.subset_insert taskId active).trans (ih (insert taskId active) (taskId + 1))
    · exact Finset.Subset.refl active

theorem pumpLoop_slot
    (hheld : (pumpLoop now maxConcurrent queue active taskId).held.isSome = true) :
    (pumpLoop now maxConcurrent queue active taskId).activeTaskIds.card < maxConcurrent := by
  induction queue generalizing active taskId with
  | nil => simp [pumpLoop] at hheld
  | cons entry queue ih =>
    unfold pumpLoop at hheld ⊢
    split at hheld
    next hroom =>
      rw [if_pos hroom]
      split at hheld
      next hback =>
        rw [if_pos hback]
        exact hroom
      next hback =>
        rw [if_neg hback]
        exact ih (insert taskId active) (taskId + 1) hheld
    · simp at hheld

theorem pumpLoop_full (hheld : (pumpLoop now maxConcurrent queue active taskId).held = none)
    (hqueue : (pumpLoop now maxConcurrent queue active taskId).queue ≠ []) :
    maxConcurrent ≤ (pumpLoop now maxConcurrent queue active taskId).activeTaskIds.card := by
  induction queue generalizing active taskId with
  | nil => exact absurd rfl hqueue
  | cons entry queue ih =>
    unfold pumpLoop at hheld hqueue ⊢
    split at hheld
    next hroom =>
      rw [if_pos hroom] at hqueue ⊢
      split at hheld
      · simp at hheld
      next hback =>
        rw [if_neg hback] at hqueue ⊢
        exact ih (insert taskId active) (taskId + 1) hheld hqueue
    next hroom =>
      rw [if_neg hroom]
      exact Nat.le_of_not_lt hroom

theorem pumpLoop_fresh (hfresh : ∀ id ∈ active, id < taskId) :
    taskId ≤ (pumpLoop now maxConcurrent queue active taskId).nextTaskId ∧
      ∀ id ∈ (pumpLoop now maxConcurrent queue active taskId).activeTaskIds,
        id < (pumpLoop now maxConcurrent queue active taskId).nextTaskId := by
  induction queue generalizing active taskId with
  | nil => exact ⟨le_refl taskId, hfresh⟩
  | cons entry queue ih =>
    unfold pumpLoop
    split
    · split
      · exact ⟨le_refl taskId, hfresh⟩
      · have hnext : ∀ id ∈ insert taskId active, id < taskId + 1 := by
          intro id hid
          rcases Finset.mem_insert.1 hid with rfl | hid
          · omega
          · exact Nat.lt_succ_of_lt (hfresh id hid)
        obtain ⟨hle, hlt⟩ := ih (insert taskId active) (taskId + 1) hnext
        exact ⟨Nat.le_of_succ_le hle, hlt⟩
    · exact ⟨le_refl taskId, hfresh⟩

theorem pumpLoop_held (hfresh : ∀ id ∈ active, id < taskId) {held : QueueEntry}
    (hheld : (pumpLoop now maxConcurrent queue active taskId).held = some held) :
    held ∈ queue.take (maxConcurrent - active.card) ∧ held.callsBack now = true := by
  induction queue generalizing active taskId with
  | nil => simp [pumpLoop] at hheld
  | cons entry queue ih =>
    unfold pumpLoop at hheld
    split at hheld
    next hroom =>
      have hslots : maxConcurrent - active.card = maxConcurrent - (active.card + 1) + 1 := by omega
      rw [hslots, List.take_succ_cons]
      split at hheld
      next hback =>
        obtain rfl : entry = held := Option.some.inj hheld
        exact ⟨List.mem_cons_self, hback⟩
      · have hnew : taskId ∉ active := by
          intro hid
          exact absurd (hfresh taskId hid) (Nat.lt_irrefl taskId)
        have hnext : ∀ id ∈ insert taskId active, id < taskId + 1 := by
          intro id hid
          rcases Finset.mem_insert.1 hid with rfl | hid
          · omega
          · exact Nat.lt_succ_of_lt (hfresh id hid)
        obtain ⟨hmem, hback⟩ := ih (insert taskId active) (taskId + 1) hnext hheld
        rw [Finset.card_insert_of_notMem hnew] at hmem
        exact ⟨List.mem_cons_of_mem entry hmem, hback⟩
    · simp at hheld

end Loop

def Frame.held : Frame → Option (String × QueueEntry)
  | .pump lane entry => some (lane, entry)
  | _ => none

def Frame.settling : Frame → Option ℕ
  | .settle ticket _ => some ticket
  | _ => none

def held (K : List Frame) : List (String × QueueEntry) := K.filterMap Frame.held

def pumping (K : List Frame) : List String := (held K).map Prod.fst

def settling (K : List Frame) : List ℕ := K.filterMap Frame.settling

def LaneState.tickets (s : LaneState) : List ℕ := s.queue.map (·.ticket)

namespace QueueState

def startsAt (w : QueueState) (lane : String) : List ℕ :=
  (w.starts.filter (·.lane = lane)).map (·.ticket)

def heldAt (K : List Frame) (lane : String) : List ℕ :=
  ((held K).filter (·.1 = lane)).map (·.2.ticket)

/-- The entries of a lane that have started, that a pump holds and that wait, in this order. -/
def line (K : List Frame) (w : QueueState) (lane : String) : List ℕ :=
  w.startsAt lane ++ (heldAt K lane ++ (w.state lane).tickets)

def queued (w : QueueState) : List ℕ := w.keys.flatMap (LaneState.tickets ∘ w.state)

def runningTickets (w : QueueState) : List ℕ := w.running.map (·.entry.ticket)

def settledTickets (w : QueueState) : List ℕ := w.settled.map Prod.fst

def settledTasks (w : QueueState) : List ℕ := (w.settled.filter (·.2.ofTask)).map Prod.fst

end QueueState

/-- A `resetAllLanes` has lanes still to drain, each once and none of them pumped further
down. -/
def Clear : List Frame → Prop
  | [] => True
  | .resetAll lanes :: below =>
    lanes.Nodup ∧ (∀ lane ∈ lanes, lane ∉ pumping below) ∧ Clear below
  | _ :: below => Clear below

/-- **The books of the queue**, with the call stack `K`: each entry is in one place, each lane
keeps its order, and a held entry has a free slot. -/
structure Booked (K : List Frame) (w : QueueState) : Prop where
  keys : w.keys.Nodup
  absent : ∀ lane ∉ w.keys, w.state lane = { lane := lane }
  known : ∀ lane ∈ pumping K, lane ∈ w.keys
  single : (pumping K).Nodup
  clear : Clear K
  tasks : ∀ ticket outcome, .settle ticket outcome ∈ K → outcome.ofTask = true
  fresh : ∀ lane, ∀ id ∈ (w.state lane).activeTaskIds, id < w.nextTaskId
  slot : ∀ lane ∈ pumping K,
    (w.state lane).activeTaskIds.card < (w.state lane).maxConcurrent
  order : ∀ lane, (w.line K lane).Pairwise (· < ·)
  room : ∀ x ∈ w.starts, x.active < x.maxConcurrent
  homes : ∀ r ∈ w.running, r.lane ∈ w.keys
  accounted : ((held K).map (·.2.ticket) ++ w.queued ++ w.runningTickets ++ settling K ++
    w.settledTickets).Perm (List.range w.nextTicket)
  ran : (w.starts.map (·.ticket)).Perm (w.runningTickets ++ settling K ++ w.settledTasks)

def Flagged (K : List Frame) (w : QueueState) : Prop :=
  ∀ lane, (w.state lane).draining = true → lane ∈ pumping K

/-- The lane has nothing to wait for: its queue is empty, or its slots are taken. -/
def LaneState.Busy (s : LaneState) : Prop :=
  s.queue ≠ [] → s.maxConcurrent ≤ s.activeTaskIds.card

/-- Every lane is busy that no pump on the call stack serves, but for some. -/
def Served (K : List Frame) (w : QueueState) (except : List String) : Prop :=
  ∀ lane, lane ∉ pumping K → lane ∉ except → (w.state lane).Busy

def Awaited (w : QueueState) : Prop :=
  ∀ x ∈ w.activeTaskWaiters, w.hasPendingActiveTasks x.activeTaskIds = true

theorem flatMap_update_perm {κ : Type*} [DecidableEq κ] {ks : List κ} (hks : ks.Nodup) {k : κ}
    (hk : k ∈ ks) (f : κ → List ℕ) (v : List ℕ) :
    (ks.flatMap (Function.update f k v) ++ f k).Perm (ks.flatMap f ++ v) := by
  induction ks with
  | nil => exact absurd hk List.not_mem_nil
  | cons k' ks ih =>
    obtain ⟨hnot, hks⟩ := List.nodup_cons.1 hks
    rw [List.perm_iff_count]
    intro x
    simp only [List.flatMap_cons, List.count_append]
    by_cases heq : k = k'
    · subst heq
      have hrest : ks.flatMap (Function.update f k v) = ks.flatMap f :=
        List.flatMap_congr fun y hy => Function.update_of_ne (ne_of_mem_of_not_mem hy hnot) v f
      rw [hrest, Function.update_self]
      omega
    · have hrest := (ih hks (List.mem_of_ne_of_mem heq hk)).count_eq x
      rw [Function.update_of_ne (Ne.symm heq)]
      simp only [List.count_append] at hrest
      omega

theorem queued_setLane {w : QueueState} (hkeys : w.keys.Nodup) {lane : String}
    (hlane : lane ∈ w.keys) (s : LaneState) :
    ((w.setLane lane s).queued ++ (w.state lane).tickets).Perm (w.queued ++ s.tickets) := by
  have hcomp : LaneState.tickets ∘ (w.setLane lane s).state =
      Function.update (LaneState.tickets ∘ w.state) lane s.tickets :=
    Function.comp_update LaneState.tickets w.state lane s
  unfold QueueState.queued
  rw [hcomp]
  exact flatMap_update_perm hkeys hlane (LaneState.tickets ∘ w.state) s.tickets

/-- The call stack above `K` after a pump of the lane. -/
def above (lane : String) : Option QueueEntry → List Frame → List Frame
  | some entry, K => .pump lane entry :: K
  | none, K => K

theorem held_above (lane : String) (o : Option QueueEntry) (K : List Frame) :
    held (above lane o K) = (o.map (Prod.mk lane)).toList ++ held K := by
  cases o <;> rfl

theorem pumping_above (lane : String) (o : Option QueueEntry) (K : List Frame) :
    pumping (above lane o K) = (o.map fun _ => lane).toList ++ pumping K := by
  cases o <;> rfl

theorem heldTickets_above (lane : String) (o : Option QueueEntry) :
    (o.map (Prod.mk lane)).toList.map (·.2.ticket) = o.toList.map (·.ticket) := by
  cases o <;> rfl

theorem settling_above (lane : String) (o : Option QueueEntry) (K : List Frame) :
    settling (above lane o K) = settling K := by
  cases o <;> rfl

theorem heldAt_above_self {lane : String} {K : List Frame} (hfree : lane ∉ pumping K)
    (o : Option QueueEntry) :
    QueueState.heldAt (above lane o K) lane = o.toList.map (·.ticket) := by
  have hnone : (held K).filter (·.1 = lane) = [] := by
    rw [List.filter_eq_nil_iff]
    intro x hx hlane
    exact hfree (List.mem_map.2 ⟨x, hx, of_decide_eq_true hlane⟩)
  unfold QueueState.heldAt
  rw [held_above, List.filter_append, hnone, List.append_nil]
  cases o <;> simp

theorem heldAt_above_ne {lane lane' : String} (hne : lane ≠ lane') (o : Option QueueEntry)
    (K : List Frame) :
    QueueState.heldAt (above lane o K) lane' = QueueState.heldAt K lane' := by
  unfold QueueState.heldAt
  rw [held_above, List.filter_append]
  cases o <;> simp [hne]

theorem mem_pumping_above {lane lane' : String} {o : Option QueueEntry} {K : List Frame} :
    lane' ∈ pumping (above lane o K) ↔ o.isSome = true ∧ lane' = lane ∨ lane' ∈ pumping K := by
  rw [pumping_above]
  cases o <;> simp

section Launch

variable (w : QueueState) (lane : String) (started : List Started)

theorem startsAt_launch_self :
    (w.launch lane started).startsAt lane =
      w.startsAt lane ++ started.map (·.entry.ticket) := by
  simp [QueueState.startsAt, QueueState.launch, List.filter_map, Function.comp_def]

theorem startsAt_launch_ne {lane' : String} (hne : lane ≠ lane') :
    (w.launch lane started).startsAt lane' = w.startsAt lane' := by
  simp [QueueState.startsAt, QueueState.launch, List.filter_map, Function.comp_def, hne]

theorem runningTickets_launch :
    (w.launch lane started).runningTickets =
      w.runningTickets ++ started.map (·.entry.ticket) := by
  simp [QueueState.runningTickets, QueueState.launch, Function.comp_def]

theorem starts_launch :
    (w.launch lane started).starts.map (·.ticket) =
      w.starts.map (·.ticket) ++ started.map (·.entry.ticket) := by
  simp [QueueState.launch, Function.comp_def]

end Launch

namespace Booked

variable {K : List Frame} {w : QueueState} {lane : String}

/-- The lane's pump, which held `o` if anything, starts entries in free slots and then holds
`o'` if anything: the entries keep their order. -/
theorem advance (o o' : Option QueueEntry) (h : Booked (above lane o K) w) (hlane : lane ∈ w.keys)
    (hfree : lane ∉ pumping K) {started : List Started} {s : LaneState} {next : ℕ}
    (hsplit : o.toList.map (·.ticket) ++ (w.state lane).tickets =
      started.map (·.entry.ticket) ++ (o'.toList.map (·.ticket) ++ s.tickets))
    (hroom : ∀ x ∈ started, x.active < (w.state lane).maxConcurrent)
    (hnext : w.nextTaskId ≤ next) (hfresh : ∀ id ∈ s.activeTaskIds, id < next)
    (hslot : o'.isSome = true → s.activeTaskIds.card < s.maxConcurrent) :
    Booked (above lane o' K)
      { (w.launch lane started).setLane lane s with nextTaskId := next } := by
  have hqueued := queued_setLane h.keys hlane s
  constructor
  case keys => exact h.keys
  case absent =>
    intro lane' hlane'
    exact (Function.update_of_ne (ne_of_mem_of_not_mem hlane hlane').symm _ _).trans
      (h.absent lane' hlane')
  case known =>
    intro lane' hlane'
    rcases mem_pumping_above.1 hlane' with ⟨-, rfl⟩ | hold
    · exact hlane
    · exact h.known lane' (mem_pumping_above.2 (Or.inr hold))
  case single =>
    have hsingle := h.single
    rw [pumping_above] at hsingle ⊢
    have hrest := (List.nodup_append.1 hsingle).2.1
    cases o' with
    | none => exact hrest
    | some entry => exact List.nodup_cons.2 ⟨hfree, hrest⟩
  case clear =>
    have hclear := h.clear
    cases o <;> cases o' <;> exact hclear
  case tasks =>
    intro ticket outcome hmem
    refine h.tasks ticket outcome ?_
    cases o <;> cases o' <;> simp_all [above]
  case fresh =>
    intro lane' id hid
    by_cases heq : lane' = lane
    · subst heq
      have hid : id ∈ (Function.update w.state lane' s lane').activeTaskIds := hid
      rw [Function.update_self] at hid
      exact hfresh id hid
    · have hid : id ∈ (Function.update w.state lane s lane').activeTaskIds := hid
      rw [Function.update_of_ne heq] at hid
      exact lt_of_lt_of_le (h.fresh lane' id hid) hnext
  case slot =>
    intro lane' hlane'
    show (Function.update w.state lane s lane').activeTaskIds.card <
      (Function.update w.state lane s lane').maxConcurrent
    rcases mem_pumping_above.1 hlane' with ⟨hsome, rfl⟩ | hold
    · rw [Function.update_self]
      exact hslot hsome
    · rw [Function.update_of_ne (ne_of_mem_of_not_mem hold hfree)]
      exact h.slot lane' (mem_pumping_above.2 (Or.inr hold))
  case order =>
    intro lane'
    by_cases heq : lane = lane'
    · subst heq
      have horder := h.order lane
      unfold QueueState.line at horder ⊢
      rw [heldAt_above_self hfree] at horder ⊢
      have hstarts := startsAt_launch_self w lane started
      show (QueueState.startsAt (w.launch lane started) lane ++ (o'.toList.map (·.ticket) ++
        (Function.update w.state lane s lane).tickets)).Pairwise (· < ·)
      rw [hstarts, Function.update_self, List.append_assoc, ← hsplit]
      exact horder
    · have horder := h.order lane'
      unfold QueueState.line at horder ⊢
      rw [heldAt_above_ne heq] at horder ⊢
      have hstarts := startsAt_launch_ne w lane started heq
      have hstate : Function.update w.state lane s lane' = w.state lane' :=
        Function.update_of_ne (Ne.symm heq) s w.state
      show (QueueState.startsAt (w.launch lane started) lane' ++ (QueueState.heldAt K lane' ++
        (Function.update w.state lane s lane').tickets)).Pairwise (· < ·)
      rw [hstarts, hstate]
      exact horder
  case room =>
    intro x hx
    rcases List.mem_append.1 hx with hx | hx
    · exact h.room x hx
    · obtain ⟨y, hy, rfl⟩ := List.mem_map.1 hx
      exact hroom y hy
  case homes =>
    intro r hr
    rcases List.mem_append.1 hr with hr | hr
    · exact h.homes r hr
    · obtain ⟨y, hy, rfl⟩ := List.mem_map.1 hr
      exact hlane
  case accounted =>
    have haccounted := h.accounted
    have hrunning := runningTickets_launch w lane started
    show (((held (above lane o' K)).map (·.2.ticket) ++ (w.setLane lane s).queued ++
      QueueState.runningTickets (w.launch lane started) ++ settling (above lane o' K) ++
      w.settledTickets)).Perm (List.range w.nextTicket)
    refine List.Perm.trans ?_ haccounted
    rw [List.perm_iff_count]
    intro ticket
    have hmoved := congrArg (List.count ticket) hsplit
    have hswap := hqueued.count_eq ticket
    simp only [held_above, settling_above, hrunning, List.map_append, List.count_append,
      heldTickets_above] at hmoved hswap ⊢
    omega
  case ran =>
    have hran := h.ran
    have hrunning := runningTickets_launch w lane started
    have hstarts := starts_launch w lane started
    show ((QueueState.launch lane started w).starts.map (·.ticket)).Perm
      (QueueState.runningTickets (w.launch lane started) ++ settling (above lane o' K) ++
        w.settledTasks)
    rw [hstarts, hrunning, settling_above, List.perm_iff_count]
    rw [settling_above, List.perm_iff_count] at hran
    intro ticket
    have hcount := hran ticket
    simp only [List.count_append] at hcount ⊢
    omega

theorem pump (h : Booked K w) (hlane : lane ∈ w.keys) (hfree : lane ∉ pumping K) :
    Booked (above lane (w.pump lane).2 K) (w.pump lane).1 := by
  refine advance none (w.pump lane).2 h hlane hfree ?_ ?_ ?_ ?_ ?_
  · have hsplit := pumpLoop_split w.now (w.state lane).maxConcurrent (w.state lane).queue
      (w.state lane).activeTaskIds w.nextTaskId
    have htickets := congrArg (List.map (·.ticket)) hsplit
    rw [List.map_append, List.map_append, List.map_map] at htickets
    exact htickets.symm
  · exact pumpLoop_room _ _ _ _ _
  · exact (pumpLoop_fresh _ _ _ _ _ (h.fresh lane)).1
  · exact (pumpLoop_fresh _ _ _ _ _ (h.fresh lane)).2
  · exact pumpLoop_slot _ _ _ _ _

theorem startHeld {entry : QueueEntry} (h : Booked (.pump lane entry :: K) w) :
    Booked K (w.startHeld lane entry) := by
  have hlane : lane ∈ w.keys := h.known lane List.mem_cons_self
  have hfree : lane ∉ pumping K := (List.nodup_cons.1 h.single).1
  have hslot := h.slot lane List.mem_cons_self
  refine advance (some entry) none h hlane hfree rfl ?_ (Nat.le_succ _) ?_ ?_
  · simpa using hslot
  · intro id hid
    rcases Finset.mem_insert.1 hid with rfl | hid
    · exact Nat.lt_succ_self w.nextTaskId
    · exact Nat.lt_succ_of_lt (h.fresh lane id hid)
  · simp

theorem congr {w' : QueueState} (h : Booked K w) (hkeys : w'.keys = w.keys)
    (hstate : w'.state = w.state) (hrunning : w'.running = w.running)
    (hstarts : w'.starts = w.starts) (hsettled : w'.settled = w.settled)
    (hticket : w'.nextTicket = w.nextTicket) (htask : w'.nextTaskId = w.nextTaskId) :
    Booked K w' := by
  cases w
  cases w'
  simp only at hkeys hstate hrunning hstarts hsettled hticket htask
  subst hkeys hstate hrunning hstarts hsettled hticket htask
  exact ⟨h.keys, h.absent, h.known, h.single, h.clear, h.tasks, h.fresh, h.slot, h.order, h.room,
    h.homes, h.accounted, h.ran⟩

theorem restate (h : Booked K w) {state : String → LaneState}
    (htickets : ∀ lane, (state lane).tickets = (w.state lane).tickets)
    (habsent : ∀ lane ∉ w.keys, state lane = { lane := lane })
    (hfresh : ∀ lane, ∀ id ∈ (state lane).activeTaskIds, id < w.nextTaskId)
    (hslot : ∀ lane ∈ pumping K, (state lane).activeTaskIds.card < (state lane).maxConcurrent) :
    Booked K { w with state := state } := by
  have hqueued : QueueState.queued { w with state := state } = w.queued :=
    List.flatMap_congr fun lane _ => htickets lane
  refine ⟨h.keys, habsent, h.known, h.single, h.clear, h.tasks, hfresh, hslot, ?_, h.room, h.homes,
    ?_, h.ran⟩
  · intro lane
    have horder := h.order lane
    unfold QueueState.line at horder ⊢
    rw [htickets lane]
    exact horder
  · rw [hqueued]
    exact h.accounted

theorem relane (h : Booked K w) (hlane : lane ∈ w.keys) {s : LaneState}
    (htickets : s.tickets = (w.state lane).tickets)
    (hfresh : ∀ id ∈ s.activeTaskIds, id < w.nextTaskId)
    (hslot : lane ∈ pumping K → s.activeTaskIds.card < s.maxConcurrent) :
    Booked K (w.setLane lane s) := by
  refine h.restate ?_ ?_ ?_ ?_
  · intro lane'
    by_cases heq : lane' = lane
    · subst heq
      rw [Function.update_self, htickets]
    · rw [Function.update_of_ne heq]
  · intro lane' hlane'
    rw [Function.update_of_ne (ne_of_mem_of_not_mem hlane hlane').symm]
    exact h.absent lane' hlane'
  · intro lane'
    by_cases heq : lane' = lane
    · subst heq
      rw [Function.update_self]
      exact hfresh
    · rw [Function.update_of_ne heq]
      exact h.fresh lane'
  · intro lane' hlane'
    by_cases heq : lane' = lane
    · subst heq
      rw [Function.update_self]
      exact hslot hlane'
    · rw [Function.update_of_ne heq]
      exact h.slot lane' hlane'

theorem getLaneState (h : Booked K w) (lane : String) : Booked K (w.getLaneState lane) := by
  unfold QueueState.getLaneState
  split
  · exact h
  next hnew =>
    have hsame : Function.update w.state lane { lane := lane } = w.state := by
      rw [← h.absent lane hnew, Function.update_eq_self]
    have hqueued : QueueState.queued { w with keys := w.keys ++ [lane] } = w.queued := by
      have hempty : (w.state lane).tickets = [] := by
        rw [h.absent lane hnew]
        rfl
      simp [QueueState.queued, hempty]
    have hbooked : Booked K { w with keys := w.keys ++ [lane] } := by
      refine ⟨?_, ?_, ?_, h.single, h.clear, h.tasks, h.fresh, h.slot, h.order, h.room, ?_, ?_,
        h.ran⟩
      · exact List.nodup_append.2 ⟨h.keys, List.nodup_singleton lane, by
          rintro x hx y hy rfl
          exact hnew (List.mem_singleton.1 hy ▸ hx)⟩
      · intro lane' hlane'
        exact h.absent lane' fun hmem => hlane' (List.mem_append_left [lane] hmem)
      · intro lane' hlane'
        exact List.mem_append_left [lane] (h.known lane' hlane')
      · intro r hr
        exact List.mem_append_left [lane] (h.homes r hr)
      · rw [hqueued]
        exact h.accounted
    exact hbooked.congr rfl hsame rfl rfl rfl rfl rfl

theorem line_lt (h : Booked K w) {ticket : ℕ} (hmem : ticket ∈ w.line K lane) :
    ticket < w.nextTicket := by
  rw [← List.mem_range, ← h.accounted.mem_iff]
  simp only [List.mem_append]
  rcases List.mem_append.1 hmem with hstart | hrest
  · obtain ⟨x, hx, rfl⟩ := List.mem_map.1 hstart
    have hstarted : x.ticket ∈ w.starts.map (·.ticket) :=
      List.mem_map_of_mem (List.mem_of_mem_filter hx)
    rw [h.ran.mem_iff, List.mem_append, List.mem_append] at hstarted
    rcases hstarted with (hrunning | hsettling) | hsettled
    · exact Or.inl (Or.inl (Or.inr hrunning))
    · exact Or.inl (Or.inr hsettling)
    · obtain ⟨y, hy, hticket⟩ := List.mem_map.1 hsettled
      exact Or.inr (List.mem_map.2 ⟨y, List.mem_of_mem_filter hy, hticket⟩)
  · rcases List.mem_append.1 hrest with hheld | hqueue
    · obtain ⟨x, hx, rfl⟩ := List.mem_map.1 hheld
      exact Or.inl (Or.inl (Or.inl (Or.inl
        (List.mem_map.2 ⟨x, List.mem_of_mem_filter hx, rfl⟩))))
    · have hlane : lane ∈ w.keys := by
        by_contra habsent
        rw [h.absent lane habsent] at hqueue
        exact List.not_mem_nil hqueue
      exact Or.inl (Or.inl (Or.inl (Or.inr (List.mem_flatMap.2 ⟨lane, hlane, hqueue⟩))))

/-- Changing the queue of a lane, where the order of the lane and the places of the entries
are known. -/
theorem requeue (h : Booked K w) (hlane : lane ∈ w.keys) {w' : QueueState} {s : LaneState}
    (hactive : s.activeTaskIds = (w.state lane).activeTaskIds)
    (hmax : s.maxConcurrent = (w.state lane).maxConcurrent)
    (hkeys : w'.keys = w.keys) (hstate : w'.state = Function.update w.state lane s)
    (hstarts : w'.starts = w.starts) (hrunning : w'.running = w.running)
    (htask : w'.nextTaskId = w.nextTaskId)
    (horder : (w.startsAt lane ++ (QueueState.heldAt K lane ++ s.tickets)).Pairwise (· < ·))
    (haccounted : ((held K).map (·.2.ticket) ++ w'.queued ++ w'.runningTickets ++ settling K ++
      w'.settledTickets).Perm (List.range w'.nextTicket))
    (hran : (w'.starts.map (·.ticket)).Perm
      (w'.runningTickets ++ settling K ++ w'.settledTasks)) : Booked K w' := by
  have hslots : ∀ lane', (w'.state lane').activeTaskIds = (w.state lane').activeTaskIds ∧
      (w'.state lane').maxConcurrent = (w.state lane').maxConcurrent := by
    intro lane'
    rw [hstate]
    by_cases heq : lane' = lane
    · subst heq
      rw [Function.update_self]
      exact ⟨hactive, hmax⟩
    · rw [Function.update_of_ne heq]
      exact ⟨rfl, rfl⟩
  refine ⟨?_, ?_, ?_, h.single, h.clear, h.tasks, ?_, ?_, ?_, ?_, ?_, haccounted, hran⟩
  · rw [hkeys]
    exact h.keys
  · intro lane' hlane'
    rw [hkeys] at hlane'
    rw [hstate, Function.update_of_ne (ne_of_mem_of_not_mem hlane hlane').symm]
    exact h.absent lane' hlane'
  · rw [hkeys]
    exact h.known
  · intro lane'
    rw [(hslots lane').1, htask]
    exact h.fresh lane'
  · intro lane' hlane'
    rw [(hslots lane').1, (hslots lane').2]
    exact h.slot lane' hlane'
  · intro lane'
    unfold QueueState.line QueueState.startsAt
    rw [hstarts, hstate]
    by_cases heq : lane' = lane
    · subst heq
      rw [Function.update_self]
      exact horder
    · rw [Function.update_of_ne heq]
      exact h.order lane'
  · rw [hstarts]
    exact h.room
  · rw [hrunning, hkeys]
    exact h.homes

theorem push (h : Booked K w) (hlane : lane ∈ w.keys) {entry : QueueEntry}
    (hticket : entry.ticket = w.nextTicket) :
    Booked K { w.setLane lane { w.state lane with queue := (w.state lane).queue ++ [entry] } with
      nextTicket := w.nextTicket + 1 } := by
  obtain ⟨s, hs⟩ : ∃ s : LaneState,
      s = { w.state lane with queue := (w.state lane).queue ++ [entry] } := ⟨_, rfl⟩
  have htickets : s.tickets = (w.state lane).tickets ++ [w.nextTicket] := by
    rw [hs, ← hticket]
    exact List.map_append
  have hqueued := queued_setLane h.keys hlane s
  rw [← hs]
  refine h.requeue (s := s) hlane (by rw [hs]) (by rw [hs]) rfl rfl rfl rfl rfl ?_ ?_ h.ran
  · rw [htickets, ← List.append_assoc, ← List.append_assoc, List.append_assoc (w.startsAt lane)]
    refine List.pairwise_append.2 ⟨h.order lane, List.pairwise_singleton _ _, ?_⟩
    intro x hx y hy
    rw [List.mem_singleton.1 hy]
    exact h.line_lt hx
  · show ((held K).map (·.2.ticket) ++ (w.setLane lane s).queued ++ w.runningTickets ++
      settling K ++ w.settledTickets).Perm (List.range (w.nextTicket + 1))
    rw [List.range_succ, List.perm_iff_count]
    intro x
    have hcount := h.accounted.count_eq x
    have hswap := hqueued.count_eq x
    rw [htickets] at hswap
    simp only [List.count_append] at hcount hswap ⊢
    omega

theorem clearLane (h : Booked K w) (hlane : lane ∈ w.keys) (name : String) (n : ℕ) :
    Booked K { w.setLane lane { w.state lane with queue := [] } with
      settled := w.settled ++ (w.state lane).queue.map fun entry =>
        (entry.ticket, .rejected (.cleared name))
      returned := w.returned ++ [n] } := by
  obtain ⟨s, hs⟩ : ∃ s : LaneState, s = { w.state lane with queue := [] } := ⟨_, rfl⟩
  have htickets : s.tickets = [] := by
    rw [hs]
    rfl
  have hqueued := queued_setLane h.keys hlane s
  rw [← hs]
  refine h.requeue (s := s) hlane (by rw [hs]) (by rw [hs]) rfl rfl rfl rfl rfl ?_ ?_ ?_
  · rw [htickets]
    exact (h.order lane).sublist (((List.nil_sublist _).append_left _).append_left _)
  · show ((held K).map (·.2.ticket) ++ (w.setLane lane s).queued ++ w.runningTickets ++
      settling K ++ (w.settled ++ _).map Prod.fst).Perm (List.range w.nextTicket)
    refine List.Perm.trans ?_ h.accounted
    rw [List.perm_iff_count]
    intro x
    have hswap := hqueued.count_eq x
    have hcleared : ((w.state lane).queue.map fun entry =>
        (entry.ticket, Outcome.rejected (.cleared name))).map Prod.fst =
        (w.state lane).tickets := by
      rw [List.map_map]
      rfl
    rw [htickets] at hswap
    unfold QueueState.settledTickets
    rw [List.map_append, hcleared]
    simp only [List.count_append, List.count_nil] at hswap ⊢
    omega
  · have hcleared : ((w.state lane).queue.map fun entry =>
        (entry.ticket, Outcome.rejected (.cleared name))).filter (·.2.ofTask) = [] := by
      simp [List.filter_map, Function.comp_def, Outcome.ofTask]
    show (w.starts.map (·.ticket)).Perm (w.runningTickets ++ settling K ++
      ((w.settled ++ _).filter (·.2.ofTask)).map Prod.fst)
    rw [List.filter_append, hcleared, List.append_nil]
    exact h.ran

theorem ended (h : Booked [] w) {r : Running} (hr : r ∈ w.running) {outcome : Outcome}
    (htask : outcome.ofTask = true) :
    Booked [.settle r.entry.ticket outcome] { w with running := w.running.erase r } := by
  have hrunning : (r.entry.ticket :: QueueState.runningTickets
      { w with running := w.running.erase r }).Perm w.runningTickets :=
    ((List.perm_cons_erase hr).map fun x : Running => x.entry.ticket).symm
  refine ⟨h.keys, h.absent, h.known, h.single, trivial, ?_, h.fresh, h.slot, h.order, h.room,
    fun x hx => h.homes x (List.mem_of_mem_erase hx), ?_, ?_⟩
  · intro ticket outcome' hmem
    obtain ⟨rfl, rfl⟩ := Frame.settle.inj (List.mem_singleton.1 hmem)
    exact htask
  · refine List.Perm.trans ?_ h.accounted
    rw [List.perm_iff_count]
    intro x
    have hcount := hrunning.count_eq x
    have hone : settling [.settle r.entry.ticket outcome] = [r.entry.ticket] := rfl
    have hnone : settling [] = [] := rfl
    have hheld : held [.settle r.entry.ticket outcome] = [] := rfl
    have hqueued : QueueState.queued { w with running := w.running.erase r } = w.queued := rfl
    have hsettled : QueueState.settledTickets { w with running := w.running.erase r } =
      w.settledTickets := rfl
    rw [hone, hnone, hheld, hqueued, hsettled]
    simp only [held, List.filterMap_nil, List.count_append, List.count_cons, List.count_nil,
      List.map_nil] at hcount ⊢
    omega
  · refine h.ran.trans ?_
    rw [List.perm_iff_count]
    intro x
    have hcount := hrunning.count_eq x
    have hone : settling [.settle r.entry.ticket outcome] = [r.entry.ticket] := rfl
    have hnone : settling [] = [] := rfl
    have hsettled : QueueState.settledTasks { w with running := w.running.erase r } =
      w.settledTasks := rfl
    rw [hone, hnone, hsettled]
    simp only [List.count_append, List.count_cons, List.count_nil] at hcount ⊢
    omega

theorem settled {ticket : ℕ} {outcome : Outcome} (h : Booked (.settle ticket outcome :: K) w) :
    Booked K (w.settle ticket outcome) := by
  have htask : outcome.ofTask = true := h.tasks ticket outcome List.mem_cons_self
  have hsettling : settling (.settle ticket outcome :: K) = ticket :: settling K := rfl
  have hsettled : (w.settle ticket outcome).settledTickets = w.settledTickets ++ [ticket] :=
    List.map_append
  have htasks : (w.settle ticket outcome).settledTasks = w.settledTasks ++ [ticket] := by
    simp [QueueState.settledTasks, QueueState.settle, htask]
  refine ⟨h.keys, h.absent, h.known, h.single, h.clear, ?_, h.fresh, h.slot, h.order, h.room,
    h.homes, ?_, ?_⟩
  · intro ticket' outcome' hmem
    exact h.tasks ticket' outcome' (List.mem_cons_of_mem _ hmem)
  · have haccounted := h.accounted
    rw [hsettling] at haccounted
    refine List.Perm.trans ?_ haccounted
    rw [hsettled, List.perm_iff_count]
    intro x
    have hheld : held (.settle ticket outcome :: K) = held K := rfl
    have hqueued : (w.settle ticket outcome).queued = w.queued := rfl
    have hrunning : (w.settle ticket outcome).runningTickets = w.runningTickets := rfl
    rw [hheld, hqueued, hrunning]
    simp only [List.count_append, List.count_cons, List.count_nil]
    omega
  · have hran := h.ran
    rw [hsettling] at hran
    refine hran.trans ?_
    rw [htasks, List.perm_iff_count]
    intro x
    have hrunning : (w.settle ticket outcome).runningTickets = w.runningTickets := rfl
    rw [hrunning]
    simp only [List.count_append, List.count_cons, List.count_nil]
    omega

end Booked

end ClawHarder.CommandQueue
