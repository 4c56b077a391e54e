import ClawHarder.Lib.Run
import ClawHarder.Spec.FollowupQueue
import Mathlib.Data.List.Perm.Basic

/-!
# The drain and the runs it holds

While a call for queued runs is on its way these runs are still in the queue, and the
drain removes them by their place when the call returns. `Sound` says that every accepted
run is in one place: it waits, a call has it, or it was dropped. It survives as long as no
enqueue drops runs under a call that is on its way, and no summary takes an item's place.

* `resume_lands`: what one stretch of the drain does with the runs that wait.
* `sound_step`, `sound_run`: the invariant, over a step and over a run.
-/

namespace ClawHarder.Followup

variable {H : RouteHost} {ab : Queued → Bool} {q : Queue} {force : Bool}

def waitingAt (items : List Queued) : Await → List Queued
  | .aborting _ index _ => items.eraseIdx index
  | .next => items.tail
  | .group size _ _ => items.drop size
  | _ => items

def Await.handling : Await → Bool
  | .aborting .. | .next | .group .. | .summaryNext _ => true
  | _ => false

def Await.beforeRound : Await → Bool
  | .abortsDone second _ => second
  | _ => false

def Await.named : Await → List Queued
  | .group _ _ pendingSummary => pendingSummary.elim [] (·.counted)
  | .summaryOnly summary | .summaryNext summary | .summaryNextDone summary => summary.counted
  | _ => []

def Queue.waiting (q : Queue) : List Queued :=
  match q.drain with
  | some d => waitingAt q.items d.place
  | none => q.items

/-- What `droppedCount` counts beyond the summary on its way. -/
def Queue.uncounted (q : Queue) : List Queued :=
  match q.drain with
  | some d => q.overflow.drop d.place.named.length
  | none => q.overflow

def Placed (items : List Queued) : Await → Prop
  | .aborting _ index _ => index < items.length
  | .next => items ≠ []
  | .group size groups _ => size ≤ items.length ∧ groups.flatten <+: items.drop size
  | .summaryNext _ | .summaryNextDone _ => False
  | _ => True

def Queue.Placed (q : Queue) : Prop := ∀ d, q.drain = some d → Followup.Placed q.items d.place

/-- A summary on its way counts no more than `droppedCount`. -/
def Queue.Named (q : Queue) : Prop :=
  ∀ d, q.drain = some d → d.place.named.length ≤ q.overflow.length

def handed (calls : List Call) : List Queued := calls.flatMap (·.merged)

def handedInOrder (calls : List Call) : List Queued := handed (calls.filter fun c => !c.aborted)

def summarized (calls : List Call) : List Queued :=
  calls.flatMap fun c => c.summary.elim [] (·.counted)

theorem handed_append (calls calls' : List Call) :
    handed (calls ++ calls') = handed calls ++ handed calls' := List.flatMap_append

theorem handedInOrder_append (calls calls' : List Call) :
    handedInOrder (calls ++ calls') = handedInOrder calls ++ handedInOrder calls' := by
  unfold handedInOrder
  rw [List.filter_append, handed_append]

theorem summarized_append (calls calls' : List Call) :
    summarized (calls ++ calls') = summarized calls ++ summarized calls' := List.flatMap_append

/-- What a stretch leaves of the items and the count of a queue with nothing on its way. -/
structure Lands (q : Queue) (st : Stretch) : Prop where
  runs : (st.1.elim [] Queue.waiting ++ handed st.2).Perm q.items
  order : (handedInOrder st.2 ++ st.1.elim [] Queue.waiting).Sublist q.items
  summaries : (summarized st.2 ++ st.1.elim [] Queue.uncounted).Perm q.overflow
  placed : ∀ q', st.1 = some q' → q'.Placed
  named : ∀ q', st.1 = some q' → q'.Named

variable {place : Await}

theorem lands_quiet (hplaced : Placed q.items place)
    (hwaiting : waitingAt q.items place = q.items) (hnamed : place.named = []) :
    Lands q (awaiting q force place []) where
  runs := by
    change (waitingAt q.items place ++ []).Perm q.items
    rw [List.append_nil, hwaiting]
  order := by
    change (waitingAt q.items place).Sublist q.items
    rw [hwaiting]
  summaries := by
    change (q.overflow.drop place.named.length).Perm q.overflow
    rw [hnamed]
    rfl
  placed := by
    rintro _ ⟨⟩ _ ⟨⟩
    exact hplaced
  named := by
    rintro _ ⟨⟩ _ ⟨⟩
    rw [hnamed]
    exact Nat.zero_le _

theorem lastAborted_some {items : List Queued} {n i : ℕ} {item : Queued}
    (h : lastAborted ab items n = some (i, item)) : items[i]? = some item := by
  induction n with
  | zero => cases h
  | succ n ih =>
    unfold lastAborted at h
    cases hitem : items[n]? with
    | none =>
      rw [hitem] at h
      exact ih h
    | some item' =>
      rw [hitem] at h
      by_cases hab : ab item' = true
      · simp only [hab, if_true] at h
        cases h
        exact hitem
      · simp only [hab] at h
        exact ih h

theorem lands_dropAborted (second : Bool) (dropped index : ℕ) :
    Lands q (dropAbortedFollowups ab q force second dropped index) := by
  unfold dropAbortedFollowups
  split
  next i item hlast =>
    have hitem := lastAborted_some hlast
    obtain ⟨hi, hget⟩ := List.getElem?_eq_some_iff.1 hitem
    refine ⟨?_, ?_, ?_, ?_, ?_⟩
    · change (q.items.eraseIdx i ++ [item]).Perm q.items
      rw [← hget]
      exact (List.perm_append_singleton _ _).trans (List.getElem_cons_eraseIdx_perm hi)
    · change (q.items.eraseIdx i).Sublist q.items
      exact List.eraseIdx_sublist ..
    · exact List.Perm.refl _
    · rintro _ ⟨⟩ _ ⟨⟩
      exact hi
    · rintro _ ⟨⟩ _ ⟨⟩
      exact Nat.zero_le _
  next => exact lands_quiet trivial rfl rfl

theorem lands_finish : Lands q (finish ab q) := by
  unfold finish
  split
  next h =>
    refine ⟨?_, ?_, ?_, by rintro _ ⟨⟩, by rintro _ ⟨⟩⟩
    · rw [h.1]
      exact List.Perm.refl _
    · exact List.nil_sublist _
    · rw [h.2]
      exact List.Perm.refl _
  next => exact lands_dropAborted ..

theorem lands_loopTop : Lands q (loopTop ab q force) := by
  unfold loopTop
  split
  · exact lands_finish
  · exact lands_dropAborted ..

theorem lands_drainNext {none_ : Await} (hplaced : Placed q.items none_)
    (hwaiting : waitingAt q.items none_ = q.items) (hnamed : none_.named = []) :
    Lands q (drainNextQueueItem q force none_) := by
  unfold drainNextQueueItem
  split
  · exact lands_quiet hplaced hwaiting hnamed
  next item rest hitems =>
    refine ⟨?_, ?_, List.Perm.refl _, ?_, ?_⟩
    · change (q.items.tail ++ [item]).Perm q.items
      rw [hitems]
      exact List.perm_append_singleton _ _
    · change ([item] ++ q.items.tail).Sublist q.items
      rw [hitems]
      exact List.Sublist.refl _
    · rintro _ ⟨⟩ _ ⟨⟩
      change q.items ≠ []
      rw [hitems]
      exact List.cons_ne_nil _ _
    · rintro _ ⟨⟩ _ ⟨⟩
      exact Nat.zero_le _

theorem preview_some {summary : Summary} (h : previewQueueSummaryPrompt q = some summary) :
    summary.counted = q.overflow := by
  unfold previewQueueSummaryPrompt at h
  split at h
  · cases h
    rfl
  · cases h

theorem lands_callSummary : Lands q (callSummary ab q force) := by
  unfold callSummary
  split
  next summary run hsummary _ =>
    have hcounted := preview_some hsummary
    refine ⟨?_, List.Sublist.refl _, ?_, ?_, ?_⟩
    · change (q.items ++ []).Perm q.items
      rw [List.append_nil]
    · change (summary.counted ++ [] ++ q.overflow.drop summary.counted.length).Perm q.overflow
      rw [hcounted, List.drop_length]
      simp only [List.append_nil, List.Perm.refl]
    · rintro _ ⟨⟩ _ ⟨⟩
      trivial
    · rintro _ ⟨⟩ _ ⟨⟩
      change summary.counted.length ≤ q.overflow.length
      rw [hcounted]
  next => exact lands_finish

theorem lands_callGroup {group : List Queued} {groups : List (List Queued)}
    {summary : Option Summary} (hgroups : group ++ groups.flatten <+: q.items)
    (hsummary : summary = none ∨ summary = previewQueueSummaryPrompt q) :
    Lands q (callGroup ab q force group groups summary) := by
  unfold callGroup
  split
  · exact lands_loopTop
  next run _ =>
    obtain ⟨rest, hrest⟩ := hgroups
    have hdrop : q.items.drop group.length = groups.flatten ++ rest := by
      rw [← hrest, List.append_assoc, List.drop_left]
    refine ⟨?_, ?_, ?_, ?_, ?_⟩
    · change (q.items.drop group.length ++ (group ++ [])).Perm q.items
      rw [hdrop, List.append_nil, ← hrest, List.append_assoc group]
      exact List.perm_append_comm
    · change ((group ++ []) ++ q.items.drop group.length).Sublist q.items
      rw [hdrop, List.append_nil, ← List.append_assoc, hrest]
    · change (summary.elim [] (·.counted) ++ [] ++
        q.overflow.drop (summary.elim [] (·.counted)).length).Perm q.overflow
      rcases hsummary with rfl | hsummary
      · exact List.Perm.refl _
      · cases summary with
        | none => exact List.Perm.refl _
        | some summary =>
          change (summary.counted ++ [] ++ q.overflow.drop summary.counted.length).Perm q.overflow
          rw [preview_some hsummary.symm, List.drop_length]
          simp only [List.append_nil, List.Perm.refl]
    · rintro _ ⟨⟩ _ ⟨⟩
      refine ⟨?_, ?_⟩
      · have := congrArg List.length hrest
        simp only [List.length_append] at this
        change group.length ≤ q.items.length
        omega
      · change groups.flatten <+: q.items.drop group.length
        rw [hdrop]
        exact List.prefix_append _ _
    · rintro _ ⟨⟩ _ ⟨⟩
      change (summary.elim [] (·.counted)).length ≤ q.overflow.length
      rcases hsummary with rfl | hsummary
      · exact Nat.zero_le _
      · cases summary with
        | none => exact Nat.zero_le _
        | some summary =>
          rw [← preview_some hsummary.symm]
          rfl

def Queue.Displaces (q : Queue) : Prop :=
  q.mode ≠ .collect ∧ previewQueueSummaryPrompt q ≠ none ∧ q.items ≠ []

instance (q : Queue) : Decidable q.Displaces := inferInstanceAs (Decidable (_ ∧ _ ∧ _))

theorem lands_round (h : ¬ q.Displaces) : Lands q (round H ab q force) := by
  unfold round
  split
  next =>
    simp only
    split
    · exact lands_quiet trivial rfl rfl
    · exact lands_drainNext trivial rfl rfl
  next hmode =>
    split
    · exact lands_drainNext trivial rfl rfl
    next summary hsummary =>
      split
      · exact lands_finish
      · exact lands_quiet trivial rfl rfl
      next hitems =>
        refine absurd ⟨hmode, ?_, ?_⟩ h
        · rw [hsummary]
          exact Option.some_ne_none _
        · rw [hitems]
          exact List.cons_ne_nil _ _

theorem splitFrom_flatten (current : List Queued) (key : AuthorizationKey) (items : List Queued) :
    (splitFrom current key items).flatten = current ++ items := by
  induction items generalizing current key with
  | nil => simp [splitFrom]
  | cons item items ih =>
    unfold splitFrom
    split
    · rw [ih, List.append_assoc]
      rfl
    · rw [List.flatten_cons, ih]
      rfl

theorem split_flatten (items : List Queued) :
    (splitCollectItemsByAuthorization items).flatten = items := by
  cases items with
  | nil => rfl
  | cons item items => exact splitFrom_flatten [item] item.key items

def Queue.Clears (q : Queue) : Await → Prop
  | .abortsDone _ dropped => 0 < dropped ∧ q.items = []
  | .group _ _ pendingSummary => pendingSummary.isSome
  | .summaryOnly _ | .summaryNextDone _ => True
  | _ => False

instance (q : Queue) (place : Await) : Decidable (q.Clears place) := by
  cases place <;> simp only [Queue.Clears] <;> infer_instance

/-- The queue with the items that wait, cleared where the drain clears it. -/
def Queue.settle (q : Queue) (place : Await) : Queue :=
  { q with
    items := waitingAt q.items place
    overflow := if q.Clears place then [] else q.overflow }

theorem settle_of_clears (h : q.Clears place) : [] = (q.settle place).overflow :=
  (if_pos h).symm

theorem settle_of_not_clears (h : ¬ q.Clears place) :
    q.overflow = (q.settle place).overflow :=
  (if_neg h).symm

theorem Lands.congr {q' : Queue} {st : Stretch} (h : Lands q st) (hitems : q.items = q'.items)
    (hoverflow : q.overflow = q'.overflow) : Lands q' st :=
  ⟨hitems ▸ h.runs, hitems ▸ h.order, hoverflow ▸ h.summaries, h.placed, h.named⟩

theorem lands_callGroups {groups : List (List Queued)} (h : groups.flatten <+: q.items) :
    Lands q (callGroups ab q force groups) := by
  cases groups with
  | nil => exact lands_loopTop
  | cons group groups => exact lands_callGroup h (Or.inl rfl)

/-- **A stretch starts by taking out what the call that returned had.** -/
theorem resume_lands (hplaced : Placed q.items place)
    (hround : place.beforeRound → ¬ q.Displaces) :
    Lands (q.settle place) (resume H ab q force place) := by
  cases place with
  | aborting second index dropped =>
    unfold resume
    simp only
    split
    · exact lands_finish.congr rfl rfl
    · exact (lands_dropAborted ..).congr rfl rfl
  | abortsDone second dropped =>
    unfold resume
    simp only
    have hdone : ∀ q' : Queue, ¬ q'.Displaces → Lands q'
        (if q'.items = [] ∧ q'.overflow = [] then finish ab q'
        else if second = true then round H ab q' force else awaiting q' force .debounce []) := by
      intro q' hq'
      split
      · exact lands_finish
      · split
        · exact lands_round hq'
        · exact lands_quiet trivial rfl rfl
    by_cases hclear : 0 < dropped ∧ q.items = []
    · rw [if_pos hclear]
      exact (hdone (clearFollowupQueueSummaryState q) fun h => h.2.2 hclear.2).congr rfl
        (settle_of_clears hclear)
    · rw [if_neg hclear]
      cases second with
      | true => exact (hdone q (hround rfl)).congr rfl (settle_of_not_clears hclear)
      | false =>
        refine Lands.congr ?_ rfl (settle_of_not_clears hclear) (q := q)
        split
        · exact lands_finish
        · exact lands_quiet trivial rfl rfl
  | debounce => exact (lands_dropAborted ..).congr rfl rfl
  | next =>
    have hquiet : Lands { q with items := q.items.tail }
        (awaiting { q with items := q.items.tail } force .nextDone []) :=
      lands_quiet trivial rfl rfl
    exact hquiet.congr rfl rfl
  | nextDone => exact lands_loopTop.congr rfl rfl
  | nextNone => exact lands_finish.congr rfl rfl
  | skipped =>
    simp only [resume]
    split
    · exact lands_callSummary.congr rfl rfl
    next group groups hsplit =>
      refine (lands_callGroup ?_ (Or.inr rfl)).congr rfl rfl
      have hflat := split_flatten q.items
      rw [hsplit, List.flatten_cons] at hflat
      exact hflat ▸ List.prefix_rfl
  | empty => exact lands_callSummary.congr rfl rfl
  | group size groups pendingSummary =>
    unfold resume
    simp only
    by_cases hsome : pendingSummary.isSome = true
    · have hclears : q.Clears (.group size groups pendingSummary) := hsome
      rw [if_pos hsome]
      exact (lands_callGroups hplaced.2).congr rfl (settle_of_clears hclears)
    · have hkeeps : ¬ q.Clears (.group size groups pendingSummary) := hsome
      rw [if_neg hsome]
      exact (lands_callGroups hplaced.2).congr rfl (settle_of_not_clears hkeeps)
  | summaryOnly summary => exact lands_loopTop.congr rfl (settle_of_clears trivial)
  | summaryNext summary => exact hplaced.elim
  | summaryNextDone summary => exact hplaced.elim

def World.waiting (w : World) : List Queued := w.queue.elim [] Queue.waiting

def World.uncounted (w : World) : List Queued := w.queue.elim [] Queue.uncounted

def World.dropped (w : World) (call : Enqueue) : List Queued :=
  if w.isAborted call.run || call.duplicate then []
  else
    match applyQueueDropPolicy { getFollowupQueue w.queue call.settings with
      lastRun := some call.run.run } with
    | some (_, dropped) => dropped
    | none => []

/-- No enqueue drops runs while a call is on its way for items, and no summary takes the
place of an item. -/
def Undisturbed (w : World) : Event → Prop
  | .enqueue call =>
    w.dropped call ≠ [] → ∀ q ∈ w.queue, ∀ d ∈ q.drain, d.place.handling = false
  | .resume => ∀ q ∈ w.queue, ∀ d ∈ q.drain, d.place.beforeRound → ¬ q.Displaces
  | _ => True

instance (w : World) : ∀ e, Decidable (Undisturbed w e)
  | .enqueue _ => inferInstanceAs (Decidable (_ → _))
  | .resume => inferInstanceAs (Decidable (∀ q ∈ w.queue, ∀ d ∈ q.drain, _))
  | .abort _ | .schedule => inferInstanceAs (Decidable True)

/-- **Every accepted run waits, is with one call, or was dropped**, and those that were
not called for as aborted keep their order. -/
structure Sound (w : World) : Prop where
  tickets : w.accepted.map Queued.ticket = List.range w.accepted.length
  runs : (w.waiting ++ handed w.calls ++ (w.discarded ++ w.overflowed)).Perm w.accepted
  order : (handedInOrder w.calls ++ w.waiting).Sublist w.accepted
  placed : ∀ q, w.queue = some q → q.Placed

section World

variable {w : World} {place : Await} {items items' : List Queued} {x : Queued}

theorem sound_new : Sound {} where
  tickets := rfl
  runs := List.Perm.refl _
  order := List.Sublist.refl _
  placed := by rintro q ⟨⟩

theorem sound_after {st : Stretch} (hw : Sound w) (hitems : w.waiting = q.items)
    (hlands : Lands q st) : Sound (w.after st) where
  tickets := hw.tickets
  runs := by
    have hruns := hw.runs
    rw [hitems] at hruns
    refine List.Perm.trans ?_ hruns
    refine List.Perm.append_right _ ?_
    change (st.1.elim [] Queue.waiting ++ handed (w.calls ++ st.2)).Perm (q.items ++ handed w.calls)
    rw [handed_append]
    calc st.1.elim [] Queue.waiting ++ (handed w.calls ++ handed st.2)
        |>.Perm (st.1.elim [] Queue.waiting ++ (handed st.2 ++ handed w.calls)) :=
          List.Perm.append_left _ List.perm_append_comm
      _ |>.Perm (st.1.elim [] Queue.waiting ++ handed st.2 ++ handed w.calls) := by
          rw [List.append_assoc]
      _ |>.Perm (q.items ++ handed w.calls) := List.Perm.append_right _ hlands.runs
  order := by
    have horder := hw.order
    rw [hitems] at horder
    refine List.Sublist.trans ?_ horder
    change (handedInOrder (w.calls ++ st.2) ++ st.1.elim [] Queue.waiting).Sublist _
    rw [handedInOrder_append, List.append_assoc]
    exact List.Sublist.append_left hlands.order _
  placed := hlands.placed

theorem waiting_eq {d : Drain} (hq : w.queue = some q) (hd : q.drain = some d) :
    w.waiting = waitingAt q.items d.place := by
  unfold World.waiting Queue.waiting
  rw [hq]
  simp only [Option.elim, hd]

theorem waiting_idle (hq : w.queue = some q) (hd : q.drain = none) : w.waiting = q.items := by
  unfold World.waiting Queue.waiting
  rw [hq]
  simp only [Option.elim, hd]

theorem sound_schedule (hw : Sound w) : Sound w.scheduleFollowupDrain := by
  unfold World.scheduleFollowupDrain
  split
  next q hq =>
    split
    next hd =>
      have hcallback : Sound { w with callback := true } :=
        ⟨hw.tickets, hw.runs, hw.order, hw.placed⟩
      exact sound_after hcallback (waiting_idle hq hd) lands_loopTop
    next => exact hw
  next => exact hw

theorem sound_resume (hw : Sound w) (hok : Undisturbed w .resume) : Sound (w.step H .resume) := by
  unfold World.step
  simp only
  split
  next q hq =>
    split
    next d hd =>
      have hplaced := hw.placed q hq d hd
      have hround : d.place.beforeRound → ¬ q.Displaces := hok q hq d hd
      exact sound_after (q := q.settle d.place) hw (waiting_eq hq hd) (resume_lands hplaced hround)
    next => exact hw
  next => exact hw

/-! ### Enqueues -/

theorem waitingAt_push (h : Placed items place) :
    waitingAt (items ++ [x]) place = waitingAt items place ++ [x] := by
  cases place with
  | aborting second index dropped => exact List.eraseIdx_append_of_lt_length h _
  | next => exact List.tail_append_of_ne_nil h
  | group size groups pendingSummary => exact List.drop_append_of_le_length h.1
  | _ => rfl

theorem placed_push (h : Placed items place) : Placed (items ++ [x]) place := by
  cases place with
  | aborting second index dropped =>
    change index < (items ++ [x]).length
    rw [List.length_append]
    exact Nat.lt_add_right _ h
  | next => exact List.append_ne_nil_of_left_ne_nil h _
  | group size groups pendingSummary =>
    refine ⟨?_, ?_⟩
    · rw [List.length_append]
      exact Nat.le_add_right_of_le h.1
    · rw [List.drop_append_of_le_length h.1]
      exact h.2.trans (List.prefix_append _ _)
  | summaryNext summary => exact h
  | summaryNextDone summary => exact h
  | _ => trivial

theorem waitingAt_of_not_handling (h : place.handling = false) : waitingAt items place = items := by
  cases place <;> first | rfl | cases h

theorem placed_of_not_handling (h : place.handling = false) (hp : Placed items place) :
    Placed items' place := by
  cases place <;> first | exact hp | cases h

variable {dropped : List Queued}

theorem applyQueueDropPolicy_some {q' : Queue}
    (h : applyQueueDropPolicy q = some (q', dropped)) :
    q.items = dropped ++ q'.items ∧ q'.drain = q.drain ∧ q'.dropPolicy = q.dropPolicy ∧
      (q.dropPolicy = .old → q'.overflow = q.overflow) ∧
      (q.dropPolicy ≠ .old → q'.overflow = q.overflow ++ dropped) := by
  unfold applyQueueDropPolicy at h
  have hkeep : q' = q → dropped = [] → q.items = dropped ++ q'.items ∧ q'.drain = q.drain ∧
      q'.dropPolicy = q.dropPolicy ∧ (q.dropPolicy = .old → q'.overflow = q.overflow) ∧
      (q.dropPolicy ≠ .old → q'.overflow = q.overflow ++ dropped) := by
    rintro rfl rfl
    exact ⟨rfl, rfl, rfl, fun _ => rfl, fun _ => (List.append_nil _).symm⟩
  split at h
  · cases h
    exact hkeep rfl rfl
  next cap _ =>
    split_ifs at h with hroom hnew
    · cases h
      exact hkeep rfl rfl
    · simp only at h
      split_ifs at h with hsum
      · cases h
        refine ⟨(List.take_append_drop _ _).symm, rfl, rfl, ?_, fun _ => rfl⟩
        intro hold
        rw [hold] at hsum
        cases hsum
      · cases h
        refine ⟨(List.take_append_drop _ _).symm, rfl, rfl, fun _ => rfl, ?_⟩
        intro hold
        cases hp : q.dropPolicy with
        | old => exact absurd hp hold
        | new => exact absurd hp hnew
        | summarize => exact absurd hp hsum

theorem getFollowupQueue_fields (existing : Option Queue) (settings : QueueSettings) :
    (getFollowupQueue existing settings).items = existing.elim [] (·.items) ∧
      (getFollowupQueue existing settings).drain = existing.bind (·.drain) ∧
      (getFollowupQueue existing settings).overflow = existing.elim [] (·.overflow) := by
  cases existing <;> exact ⟨rfl, rfl, rfl⟩

theorem sound_settings {q' : Queue} (hw : Sound w)
    (hitems : q'.items = w.queue.elim [] (·.items)) (hdrain : q'.drain = w.queue.bind (·.drain)) :
    Sound { w with queue := some q' } := by
  have hwaiting : World.waiting { w with queue := some q' } = w.waiting := by
    unfold World.waiting Queue.waiting
    cases hq : w.queue with
    | none =>
      rw [hq] at hitems hdrain
      simp only [Option.elim, hitems, hdrain, Option.bind_none]
    | some q =>
      rw [hq] at hitems hdrain
      simp only [Option.elim, hitems, hdrain, Option.bind_some]
  refine ⟨hw.tickets, ?_, ?_, ?_⟩
  · rw [hwaiting]
    exact hw.runs
  · rw [hwaiting]
    exact hw.order
  · rintro _ ⟨⟩ d hd
    rw [hdrain] at hd
    obtain ⟨q, hq, hqd⟩ := Option.bind_eq_some_iff.1 hd
    rw [hitems, hq]
    exact hw.placed q hq d hqd

/-- The queue when a run was pushed behind what the drop policy left. -/
def Queue.push (q : Queue) (x : Queued) : Queue := { q with items := q.items ++ [x] }

theorem waiting_push {q' : Queue} (hitems : q.items = dropped ++ q'.items)
    (hdrain : q'.drain = q.drain) (hplaced : q.Placed)
    (hok : dropped ≠ [] → ∀ d, q.drain = some d → d.place.handling = false) :
    (∃ rest, q.waiting = dropped ++ rest ∧ (q'.push x).waiting = rest ++ [x]) ∧
      (q'.push x).Placed := by
  have hdrain' : (q'.push x).drain = q.drain := hdrain
  cases hd : q.drain with
  | none =>
    rw [hd] at hdrain'
    refine ⟨⟨q'.items, ?_, ?_⟩, ?_⟩
    · simp only [Queue.waiting, hd, hitems]
    · simp only [Queue.waiting, hdrain']
      rfl
    · intro d hpd
      rw [hdrain'] at hpd
      cases hpd
  | some d =>
    rw [hd] at hdrain'
    have hp := hplaced d hd
    have hitems' : (q'.push x).items = q'.items ++ [x] := rfl
    by_cases hdropped : dropped = []
    · subst hdropped
      have hsame : q.items = q'.items := hitems
      rw [hsame] at hp
      refine ⟨⟨waitingAt q.items d.place, ?_, ?_⟩, ?_⟩
      · simp only [Queue.waiting, hd, List.nil_append]
      · simp only [Queue.waiting, hdrain', hitems', waitingAt_push hp, hsame]
      · intro d' hpd
        rw [hdrain'] at hpd
        cases hpd
        exact placed_push hp
    · have hquiet := hok hdropped d hd
      refine ⟨⟨q'.items, ?_, ?_⟩, ?_⟩
      · simp only [Queue.waiting, hd, waitingAt_of_not_handling hquiet, hitems]
      · simp only [Queue.waiting, hdrain', hitems', waitingAt_of_not_handling hquiet]
      · intro d' hpd
        rw [hdrain'] at hpd
        cases hpd
        exact placed_of_not_handling hquiet hp

theorem sound_push {w' : World} {q' : Queue} {run : FollowupRun}
    (hw : Sound w) (hq : w.queue = some q) (hitems : q.items = dropped ++ q'.items)
    (hdrain : q'.drain = q.drain)
    (hok : dropped ≠ [] → ∀ d, q.drain = some d → d.place.handling = false)
    (hqueue : w'.queue = some (q'.push ⟨w.accepted.length, run⟩))
    (haccepted : w'.accepted = w.accepted ++ [⟨w.accepted.length, run⟩])
    (hcalls : w'.calls = w.calls)
    (hdropped : (w'.discarded ++ w'.overflowed).Perm (dropped ++ (w.discarded ++ w.overflowed))) :
    Sound w' := by
  obtain ⟨⟨rest, hold, hnew⟩, hplaced⟩ := waiting_push hitems hdrain (hw.placed q hq) hok
  have hwaiting : w.waiting = dropped ++ rest := by
    unfold World.waiting
    rw [hq]
    exact hold
  have hwaiting' : w'.waiting = rest ++ [⟨w.accepted.length, run⟩] := by
    unfold World.waiting
    rw [hqueue]
    exact hnew
  refine ⟨?_, ?_, ?_, ?_⟩
  · rw [haccepted, List.map_append, hw.tickets, List.length_append, List.length_singleton,
      List.range_succ]
    rfl
  · have hruns := hw.runs
    rw [hwaiting] at hruns
    rw [hwaiting', hcalls, haccepted]
    refine List.Perm.trans ?_ (List.Perm.append_right _ hruns)
    rw [List.perm_iff_count] at hdropped ⊢
    intro item
    have hcount := hdropped item
    simp only [List.count_append] at hcount ⊢
    omega
  · rw [hwaiting', hcalls, haccepted, ← List.append_assoc]
    refine List.Sublist.append_right (List.Sublist.trans ?_ hw.order) _
    rw [hwaiting]
    exact List.Sublist.append_left (List.sublist_append_right _ _) _
  · intro q'' hq''
    rw [hqueue] at hq''
    cases hq''
    exact hplaced

theorem sound_enqueue (hw : Sound w) {call : Enqueue} (hok : Undisturbed w (.enqueue call)) :
    Sound (w.enqueueFollowupRun call) := by
  unfold World.enqueueFollowupRun
  have hdropped : ∀ q' dropped, w.isAborted call.run = false → call.duplicate = false →
      applyQueueDropPolicy { getFollowupQueue w.queue call.settings with
        lastRun := some call.run.run } = some (q', dropped) → w.dropped call = dropped := by
    intro q' dropped hab hdup hpolicy
    unfold World.dropped
    simp only [hab, hdup, Bool.or_self, hpolicy]
    rfl
  obtain ⟨hitems, hdrain, -⟩ := getFollowupQueue_fields w.queue call.settings
  by_cases hab : w.isAborted call.run = true
  · rw [if_pos hab]
    exact hw
  · rw [if_neg hab]
    simp only
    by_cases hdup : call.duplicate = true
    · rw [if_pos hdup]
      exact sound_settings hw hitems hdrain
    · rw [if_neg hdup]
      have hbefore : Sound { w with queue := some { getFollowupQueue w.queue call.settings with
          lastRun := some call.run.run } } := sound_settings hw hitems hdrain
      split
      · exact hbefore
      next q' dropped hpolicy =>
        obtain ⟨hsplit, hsame, -, -, -⟩ := applyQueueDropPolicy_some hpolicy
        have hafter : Sound { w with
            queue := some { q' with items := q'.items ++ [⟨w.accepted.length, call.run⟩] }
            callback := w.callback || call.callback
            accepted := w.accepted ++ [⟨w.accepted.length, call.run⟩]
            discarded := if q'.dropPolicy = .old then w.discarded ++ dropped else w.discarded
            overflowed :=
              if q'.dropPolicy = .old then w.overflowed else w.overflowed ++ dropped } := by
          refine sound_push hbefore rfl hsplit hsame ?_ rfl rfl rfl ?_
          · intro hne d hd
            have hd' := hdrain.symm.trans hd
            obtain ⟨q₀, hq₀, hqd⟩ := Option.bind_eq_some_iff.1 hd'
            refine hok ?_ q₀ hq₀ d hqd
            rw [hdropped q' dropped (by simpa using hab) (by simpa using hdup) hpolicy]
            exact hne
          · simp only
            split
            · exact (List.Perm.append_right _ List.perm_append_comm).trans (by rw [List.append_assoc])
            · rw [← List.append_assoc]
              exact List.perm_append_comm
        split
        · exact sound_schedule hafter
        · exact hafter

/-- **A step keeps every accepted run in one place**, if nothing is dropped or displaced
under a call. -/
theorem sound_step (H : RouteHost) (w : World) (e : Event) (hw : Sound w) (hok : Undisturbed w e) :
    Sound (w.step H e) := by
  cases e with
  | enqueue call => exact sound_enqueue hw hok
  | abort signal => exact ⟨hw.tickets, hw.runs, hw.order, hw.placed⟩
  | schedule => exact sound_schedule hw
  | resume => exact sound_resume hw hok

end World

end ClawHarder.Followup
